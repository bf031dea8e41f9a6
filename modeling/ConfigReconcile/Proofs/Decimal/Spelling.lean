import ConfigReconcile.Decimal.Notation
import ConfigReconcile.Decimal.Numeral
import ConfigReconcile.Proofs.Decimal.Shortest

/-!
# Decimals as they are spelled

* `digits?_ten`, `digits?_toDigits`   what digits spell;
* `Spelling`                          digits with a point or an exponent or both, and the decimal
                                      that is meant;
* `Spelling.decimal?_text`            which is how it is read;
* `exists_spelling`                   a double in a notation with `.0` after a whole number is
                                      spelled so that it is read back.
-/

namespace ConfigReconcile.Decimal

/-! ## digits -/

theorem digitBelow?_isDigit {c : Char} (h : c.isDigit = true) :
    digitBelow? 10 c = some (c.toNat - 48) := by
  simp only [Char.isDigit, Bool.and_eq_true, decide_eq_true_eq, ge_iff_le, UInt32.le_iff_toNat_le]
    at h
  have hval : c.val.toNat = c.toNat := rfl
  have h0 : '0'.val.toNat = 48 := rfl
  have h9 : '9'.val.toNat = 57 := rfl
  have hd : 48 ≤ c.toNat ∧ c.toNat ≤ 57 := by omega
  rw [digitBelow?, digitValue?, if_pos hd]
  exact Option.filter_some_pos (by simp; omega)

theorem digits?_ten {cs : List Char} (hne : cs ≠ []) (h : ∀ c ∈ cs, c.isDigit = true) :
    digits? 10 cs = some (Nat.ofDigitChars 10 cs 0) := by
  have hfold (n : Nat) : cs.foldlM (fun n c => (digitBelow? 10 c).map (10 * n + ·)) n =
      some (Nat.ofDigitChars 10 cs n) := by
    clear hne
    induction cs generalizing n with
    | nil => rfl
    | cons c cs ih =>
      rw [List.forall_mem_cons] at h
      rw [List.foldlM_cons, digitBelow?_isDigit h.1, Nat.ofDigitChars_cons]
      exact ih h.2 _
  obtain ⟨c, cs', rfl⟩ := List.exists_cons_of_ne_nil hne
  exact hfold 0

theorem isDigit_toDigits {n : Nat} {c : Char} (h : c ∈ Nat.toDigits 10 n) : c.isDigit = true :=
  Nat.isDigit_of_mem_toDigits (by decide) (by decide) h

theorem digits?_toDigits (n : Nat) : digits? 10 (Nat.toDigits 10 n) = some n := by
  rw [digits?_ten Nat.toDigits_ne_nil fun c hc => isDigit_toDigits hc,
    Nat.ofDigitChars_ten_toDigits]

/-- only zero begins with a zero -/
theorem head?_toDigits {n : Nat} (h : 0 < n) : (Nat.toDigits 10 n).head? ≠ some '0' := by
  induction n using Nat.strongRecOn with
  | ind n ih =>
    by_cases hn : n < 10
    · have hall : ∀ n < 10, 0 < n → n.digitChar ≠ '0' := by decide
      simpa [Nat.toDigits_of_lt_base hn] using hall n hn h
    · have ih := ih (n / 10) (by omega) (by omega)
      rw [Nat.toDigits_of_base_le (by decide) (by omega), List.head?_append]
      cases hd : Nat.toDigits 10 (n / 10) with
      | nil => exact absurd hd Nat.toDigits_ne_nil
      | cons c cs => rwa [hd] at ih

/-- the digits of a number begin with a digit, and with a zero only if nothing follows -/
theorem toDigits_cons (n : Nat) : ∃ c cs, Nat.toDigits 10 n = c :: cs ∧ c.isDigit = true ∧
    (c = '0' → cs = []) := by
  obtain ⟨c, cs, h⟩ := List.exists_cons_of_ne_nil (Nat.toDigits_ne_nil (n := n) (b := 10))
  refine ⟨c, cs, h, isDigit_toDigits (h ▸ List.mem_cons_self ..), fun hc => ?_⟩
  cases Nat.eq_zero_or_pos n with
  | inl h0 =>
    rw [h0, Nat.toDigits_zero] at h
    exact (List.cons.inj h).2.symm
  | inr hn => exact absurd (by rw [h, hc]; rfl) (head?_toDigits hn)

theorem ne_of_isDigit {c : Char} (h : c.isDigit = true) (d : Char) (hd : d.isDigit = false) :
    c ≠ d := by
  rintro rfl
  rw [hd] at h
  cases h

theorem sign_digit {c : Char} (h : c.isDigit = true) (cs : List Char) :
    sign (c :: cs) = (false, c :: cs) := by
  unfold sign
  split
  next heq => exact absurd (List.cons.inj heq).1 (ne_of_isDigit h '-' (by decide))
  next heq => exact absurd (List.cons.inj heq).1 (ne_of_isDigit h '+' (by decide))
  next => rfl

theorem natural?_toDigits (n : Nat) : natural? (Nat.toDigits 10 n) = some n := by
  obtain ⟨c, cs, h, hc, -⟩ := toDigits_cons n
  rw [natural?, h, sign_digit hc, ← h]
  exact digits?_toDigits n

theorem sign_withSign {c : Char} (h : c.isDigit = true) (neg : Bool) (cs : List Char) :
    sign (Notation.withSign neg (c :: cs)) = (neg, c :: cs) := by
  cases neg with
  | true => rfl
  | false => exact sign_digit h cs

theorem toList_toString_int (n : Int) :
    (toString n).toList = Notation.withSign (decide (n < 0)) (Nat.toDigits 10 n.natAbs) := by
  rw [Int.toString_eq_repr, Int.repr_eq_if]
  split
  next h =>
    have hn : n.natAbs = n.toNat := by omega
    simp [Notation.withSign, hn]
    omega
  next h =>
    have hn : n.natAbs = (-n).toNat := by omega
    simp [Notation.withSign, hn]
    omega


theorem integer?_toString (n : Int) : integer? (toString n).toList = some n := by
  obtain ⟨c, cs, h, hd, -⟩ := toDigits_cons n.natAbs
  rw [toList_toString_int, integer?, h, sign_withSign hd, ← h]
  by_cases hn : n < 0
  · rw [decide_eq_true hn]
    simp only [digits?_toDigits]
    exact congrArg some (Int.eq_neg_natAbs_of_nonpos hn.le).symm
  · rw [decide_eq_false hn]
    simp only [digits?_toDigits]
    exact congrArg some (Int.natAbs_of_nonneg (Int.not_lt.1 hn))

/-! ## spellings -/

/-- digits with a point, an exponent or both -/
structure Spelling where
  whole : List Char
  fraction : List Char
  exponent? : Option Int
  whole_ne : whole ≠ []
  isDigit_whole : ∀ c ∈ whole, c.isDigit = true
  isDigit_fraction : ∀ c ∈ fraction, c.isDigit = true
  marked : fraction ≠ [] ∨ exponent?.isSome = true

namespace Spelling

variable (s : Spelling)

/-- the digits and the point -/
def mantissa : List Char := s.whole ++ if s.fraction = [] then [] else '.' :: s.fraction

def text : List Char := s.mantissa ++ s.exponent?.elim [] fun e => 'e' :: (toString e).toList

/-- the decimal that is meant -/
def decimal : Digits :=
  ⟨Nat.ofDigitChars 10 (s.whole ++ s.fraction) 0, s.exponent?.getD 0 - s.fraction.length⟩

theorem isDigit_digits {c : Char} (h : c ∈ s.whole ++ s.fraction) : c.isDigit = true :=
  (List.mem_append.1 h).elim (s.isDigit_whole c) (s.isDigit_fraction c)

theorem isDigit_iff {c : Char} (h : c.isDigit = true) : isDigit c = true := by
  rw [isDigit, digitBelow?_isDigit h]
  rfl

theorem significand?_mantissa :
    significand? s.mantissa =
      some (Nat.ofDigitChars 10 (s.whole ++ s.fraction) 0, s.fraction.length) := by
  have hwhole : ∀ c ∈ s.whole, isDigit c = true := fun c hc => isDigit_iff (s.isDigit_whole c hc)
  have hdigits : digits? 10 (s.whole ++ s.fraction) = _ :=
    digits?_ten (by simp [s.whole_ne]) fun c hc => s.isDigit_digits hc
  unfold significand? mantissa
  rw [List.takeWhile_append_of_pos hwhole, List.dropWhile_append_of_pos hwhole]
  by_cases hf : s.fraction = []
  · rw [hf, List.append_nil] at hdigits
    simp [hf, hdigits]
  · have hdot : isDigit '.' = false := by decide
    simp [hf, hdot, hdigits]

/-- no letter stands before the exponent -/
theorem mantissa_mem {c : Char} (h : c ∈ s.mantissa) : c.isDigit = true ∨ c = '.' := by
  rcases List.mem_append.1 h with h | h
  · exact .inl (s.isDigit_whole c h)
  · split at h
    · cases h
    · exact (List.mem_cons.1 h).elim .inr fun h => .inl (s.isDigit_fraction c h)

/-- a spelling is read as the decimal that is meant -/
theorem decimal?_text (neg : Bool) :
    decimal? neg s.text = some (.ofDecimal neg s.decimal.digits s.decimal.exponent) := by
  have hno : ∀ c ∈ s.mantissa, (c != 'e' && c != 'E') = true := by
    intro c hc
    rcases s.mantissa_mem hc with h | rfl
    · simp [ne_of_isDigit h 'e' (by decide), ne_of_isDigit h 'E' (by decide)]
    · decide
  unfold decimal? text
  rw [List.takeWhile_append_of_pos hno, List.dropWhile_append_of_pos hno]
  cases he : s.exponent? with
  | none => simp [significand?_mantissa, decimal, he]
  | some e =>
    have h := integer?_toString e
    rw [Int.toString_eq_repr] at h
    simp [significand?_mantissa, decimal, he, h]

end Spelling

/-! ## the notations -/

theorem isDigit_zeros {n : Nat} {c : Char} (h : c ∈ Notation.zeros n) : c.isDigit = true := by
  rw [(List.mem_replicate.1 h).2]
  decide

/-- a list of characters is a spelling of a decimal -/
def Spells (cs : List Char) (d : Digits) : Prop :=
  ∃ s : Spelling, cs = s.text ∧ s.decimal.value = d.value

section
variable {f : Notation} {d : Digits} {ds : List Char} (hds : ds = Nat.toDigits 10 d.digits)
include hds

theorem isDigit_of_mem_digits {c : Char} (h : c ∈ ds) : c.isDigit = true :=
  isDigit_toDigits (hds ▸ h)

theorem digits_ne_nil : ds ≠ [] := hds ▸ Nat.toDigits_ne_nil

theorem ofDigitChars_digits : Nat.ofDigitChars 10 ds 0 = d.digits :=
  hds ▸ Nat.ofDigitChars_ten_toDigits

theorem spells_fraction (n : Nat) (hn : d.exponent = -(n + ds.length : Nat)) :
    Spells ('0' :: '.' :: (Notation.zeros n ++ ds)) d := by
  refine ⟨⟨['0'], Notation.zeros n ++ ds, none, by simp, fun _ => isDigit_zeros (n := 1),
    fun c hc => ?_, ?_⟩, ?_, ?_⟩
  · exact (List.mem_append.1 hc).elim isDigit_zeros (isDigit_of_mem_digits hds)
  · exact .inl (by simp [digits_ne_nil hds])
  · simp [Spelling.text, Spelling.mantissa, digits_ne_nil hds]
  · have h0 : Nat.ofDigitChars 10 ['0'] 0 = 0 := by decide
    simp only [Spelling.decimal, Nat.ofDigitChars_append, h0, Notation.zeros,
      Nat.ofDigitChars_replicate_zero, Nat.mul_zero, ofDigitChars_digits hds]
    simp [Digits.value, hn]

theorem spells_whole (n : Nat) (hn : d.exponent = n) :
    Spells (ds ++ Notation.zeros n ++ ['.', '0']) d := by
  refine ⟨⟨ds ++ Notation.zeros n, ['0'], none, ?_, fun c hc => ?_,
    fun _ => isDigit_zeros (n := 1), by simp⟩, ?_, ?_⟩
  · simp [digits_ne_nil hds]
  · exact (List.mem_append.1 hc).elim (isDigit_of_mem_digits hds) isDigit_zeros
  · simp [Spelling.text, Spelling.mantissa]
  · have h0 (x : Nat) : Nat.ofDigitChars 10 ['0'] x = 10 * x := by
      rw [Nat.ofDigitChars_cons, Nat.ofDigitChars_nil]
      rfl
    simp only [Spelling.decimal, Nat.ofDigitChars_append, h0, Notation.zeros,
      Nat.ofDigitChars_replicate_zero, ofDigitChars_digits hds]
    simp [Digits.value, hn]
    ring

theorem spells_inner (w : Nat) (h0 : 0 < w) (hw : w < ds.length)
    (hn : d.exponent = w - ds.length) : Spells (ds.take w ++ '.' :: ds.drop w) d := by
  have hdrop : ds.drop w ≠ [] := by simpa [List.drop_eq_nil_iff] using hw
  refine ⟨⟨ds.take w, ds.drop w, none, ?_, fun c hc => ?_, fun c hc => ?_, .inl hdrop⟩, ?_, ?_⟩
  · simp [digits_ne_nil hds, h0.ne']
  · exact isDigit_of_mem_digits hds (List.mem_of_mem_take hc)
  · exact isDigit_of_mem_digits hds (List.mem_of_mem_drop hc)
  · simp [Spelling.text, Spelling.mantissa, hdrop]
  · simp only [Spelling.decimal, List.take_append_drop, ofDigitChars_digits hds, List.length_drop]
    have hexp : (none : Option Int).getD 0 - ((ds.length - w : Nat) : Int) = d.exponent := by
      rw [Option.getD_none]
      omega
    rw [hexp]

theorem spells_scientific (hplus : f.plusSign = false) :
    Spells (f.scientific ds (ds.length + d.exponent)) d := by
  have hlen := List.length_pos_iff.2 (digits_ne_nil hds)
  refine ⟨⟨ds.take 1, ds.drop 1, some (ds.length + d.exponent - 1), ?_, fun c hc => ?_,
    fun c hc => ?_, .inr rfl⟩, ?_, ?_⟩
  · simp [digits_ne_nil hds]
  · exact isDigit_of_mem_digits hds (List.mem_of_mem_take hc)
  · exact isDigit_of_mem_digits hds (List.mem_of_mem_drop hc)
  · have hone : ds.length ≤ 1 ↔ ds.drop 1 = [] := List.drop_eq_nil_iff.symm
    unfold Notation.scientific Spelling.text Spelling.mantissa
    simp only [Option.elim_some, toList_toString_int, Notation.withSign, Notation.digitsOf, hplus,
      hone]
    generalize (ds.length + d.exponent - 1 : Int) = e
    by_cases he : e < 0 <;> by_cases hd : ds.drop 1 = [] <;> simp [he, hd]
  · simp only [Spelling.decimal, List.take_append_drop, ofDigitChars_digits hds, List.length_drop]
    have hexp : (some (ds.length + d.exponent - 1)).getD 0 - ((ds.length - 1 : Nat) : Int) =
        d.exponent := by
      rw [Option.getD_some]
      omega
    rw [hexp]

theorem spells_positional (hf : f.wholeSuffix = true) :
    Spells (f.positional ds (ds.length + d.exponent)) d := by
  unfold Notation.positional
  split
  next hw => exact spells_fraction hds _ (by omega)
  next hw =>
    have hlen := List.length_pos_iff.2 (digits_ne_nil hds)
    dsimp only
    split
    next hle => exact spells_whole hds _ (by omega)
    next hlt => exact spells_inner hds _ (by omega) (by omega) (by omega)

end

/-- digits in a notation with `.0` after a whole number are a spelling of their value -/
theorem spells_decimal {f : Notation} (hsuffix : f.wholeSuffix = true) (hplus : f.plusSign = false)
    (d : Digits) : Spells (f.decimal d) d := by
  have hds : Notation.digitsOf d.digits = Nat.toDigits 10 d.digits := rfl
  have hpositional := spells_positional hds hsuffix
  have hscientific := spells_scientific hds hplus
  unfold Notation.decimal
  dsimp only
  split <;> split <;> assumption

theorem spells_zero : Spells ['0', '.', '0'] ⟨0, 0⟩ :=
  ⟨⟨['0'], ['0'], none, by simp, fun _ => isDigit_zeros (n := 1), fun _ => isDigit_zeros (n := 1),
    .inl (by simp)⟩, rfl, by
    simp [Spelling.decimal, Digits.value, Nat.ofDigitChars]⟩

/-- the text of a finite double in such a notation is a spelling, which is read as that double -/
theorem exists_spelling {f : Notation} (hsuffix : f.wholeSuffix = true)
    (hplus : f.plusSign = false) (neg : Bool) (m p : Nat) :
    ∃ s : Spelling, f.write (.finite neg m p) = String.ofList (Notation.withSign neg s.text) ∧
      (Binary64.Canonical m p →
        .ofDecimal neg s.decimal.digits s.decimal.exponent = Binary64.finite neg m p) := by
  by_cases hm : m = 0
  · subst hm
    obtain ⟨s, hs, hv⟩ := spells_zero
    refine ⟨s, by rw [← hs, Notation.write, if_pos rfl, if_pos hsuffix], fun hc => ?_⟩
    obtain rfl : p = 0 := hc.normal.resolve_left (by decide)
    have hzero : s.decimal.digits = 0 := by
      simpa [Digits.value, zpow_ne_zero] using hv
    rw [hzero]
    rfl
  · obtain ⟨s, hs, hv⟩ := spells_decimal hsuffix hplus (shortest f.tieUp m p)
    refine ⟨s, by rw [← hs, Notation.write, if_neg hm], fun hc => ?_⟩
    exact ofDecimal_shortest neg f.tieUp hc hm hv

end ConfigReconcile.Decimal
