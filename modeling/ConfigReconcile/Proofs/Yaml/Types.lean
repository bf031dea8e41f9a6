import ConfigReconcile.Proofs.Decimal.Spelling
import ConfigReconcile.Yaml.Value

/-!
# The type of a plain scalar by its spelling

* `Value.ofPlain_letter`    a word that starts with a letter or an underscore is a text, unless it
                            is one for a null or a truth value;
* `Value.ofPlain_boolean`, `Value.ofPlain_integer`   truth values and whole numbers, as they are
                            written, are read back.
-/

namespace ConfigReconcile.Yaml

open Text Decimal

/-! ## words -/

section
variable {c : Char} (h : (c.isAlpha || c == '_') = true)
include h

theorem ne_of_letter (d : Char) (hd : (d.isAlpha || d == '_') = false) : c ≠ d := by
  rintro rfl
  rw [hd] at h
  cases h

/-- a letter or an underscore is no decimal digit -/
theorem digitBelow?_letter : digitBelow? 10 c = none := by
  have hn : ¬(48 ≤ c.toNat ∧ c.toNat ≤ 57) := fun hd => by
    have hall : ∀ n < 58, 48 ≤ n → ((Char.ofNat n).isAlpha || Char.ofNat n == '_') = false := by
      decide
    have hc := hall c.toNat (by omega) hd.1
    rw [Char.ofNat_toNat, h] at hc
    cases hc
  unfold digitBelow? digitValue?
  simp only [if_neg hn]
  split
  next hl => exact Option.filter_some_neg (by simp; omega)
  next =>
    split
    next hu => exact Option.filter_some_neg (by simp; omega)
    next => rfl

theorem sign_letter (cs : List Char) : sign (c :: cs) = (false, c :: cs) := by
  have h1 := ne_of_letter h '-' (by decide)
  have h2 := ne_of_letter h '+' (by decide)
  unfold sign
  split
  next heq => exact absurd (List.cons.inj heq).1 h1
  next heq => exact absurd (List.cons.inj heq).1 h2
  next => rfl

theorem digits?_letter (cs : List Char) : digits? 10 (c :: cs) = none := by
  simp [digits?, digitBelow?_letter h]

theorem hasLeadingZero_letter (cs : List Char) : hasLeadingZero (c :: cs) = false := by
  have h0 := ne_of_letter h '0' (by decide)
  unfold hasLeadingZero
  rw [sign_letter h]
  dsimp only
  split
  next heq => exact absurd (List.cons.inj heq).1 h0
  next => rfl

theorem integer?_letter (cs : List Char) : Yaml.integer? (c :: cs) = none := by
  have h0 := ne_of_letter h '0' (by decide)
  have hm : magnitude? (c :: cs) = none := by
    unfold magnitude?
    split
    next heq => exact absurd (List.cons.inj heq).1 h0
    next heq => exact absurd (List.cons.inj heq).1 h0
    next heq => exact absurd (List.cons.inj heq).1 h0
    next => rw [hasLeadingZero_letter h, digits?_letter h]; rfl
  have hw : wholeNumber? (c :: cs) = none := by
    rw [wholeNumber?, sign_letter h]
    simp only [hm]
    rfl
  rw [Yaml.integer?, hw]

theorem decimal?_letter (neg : Bool) (cs : List Char) : decimal? neg (c :: cs) = none := by
  have hd : isDigit c = false := by rw [isDigit, digitBelow?_letter h]; rfl
  have hdot := ne_of_letter h '.' (by decide)
  have hs (w : List Char) : significand? (c :: w) = none := by
    unfold significand?
    rw [List.dropWhile_cons_of_neg (by simp [hd])]
    dsimp only
    split
    next heq => cases heq
    next heq => exact absurd (List.cons.inj heq).1 hdot
    next => rfl
  have h0 : significand? [] = none := rfl
  unfold decimal?
  cases he : (c != 'e' && c != 'E') with
  | true =>
    simp only [List.takeWhile_cons, List.dropWhile_cons, he, if_true, hs]
    split <;> rfl
  | false =>
    simp only [List.takeWhile_cons, List.dropWhile_cons, he, Bool.false_eq_true, if_false, h0]
    rfl

/-- a word that starts like that is a text, unless it is one for a null or a truth value -/
theorem Value.ofPlain_letter {k : String} {cs : List Char} (hk : k.toList = c :: cs)
    (hnull : isNullWord k = false) (hbool : boolean? k = none) :
    Value.ofPlain k = .ok (.string k) := by
  have hne : k.isEmpty = false := by
    rw [Bool.eq_false_iff]
    intro he
    rw [String.isEmpty_iff] at he
    subst he
    cases hk
  have hplus := ne_of_letter h '+' (by decide)
  have hword (w : String) (hw : w.toList.head? = some '.' ∨ w.toList.head? = some '-') : k ≠ w := by
    rintro rfl
    rw [hk] at hw
    rcases hw with hw | hw
    · exact ne_of_letter h '.' (by decide) (Option.some.inj hw)
    · exact ne_of_letter h '-' (by decide) (Option.some.inj hw)
  have hfloat : Yaml.float? k = none := by
    have hof : String.ofList (c :: cs) = k := by rw [← hk, String.ofList_toList]
    have hdec : (Decimal.float? (c :: cs)).filter Binary64.isFinite = none := by
      unfold Decimal.float?
      rw [sign_letter h]
      dsimp only
      split
      next => rfl
      next =>
        split
        next => rfl
        next => rw [decimal?_letter h]; rfl
    unfold Yaml.float?
    simp [hk, hplus, hof, hdec, hword ".inf" (.inl rfl), hword ".Inf" (.inl rfl),
      hword ".INF" (.inl rfl), hword "-.inf" (.inr rfl), hword "-.Inf" (.inr rfl),
      hword "-.INF" (.inr rfl), hword ".nan" (.inl rfl), hword ".NaN" (.inl rfl),
      hword ".NAN" (.inl rfl)]
  simp [Value.ofPlain, hne, hnull, hbool, hk, integer?_letter h, hasLeadingZero_letter h, hfloat]

end

/-! ## truth values -/

theorem Value.ofPlain_boolean (b : Bool) :
    Value.ofPlain (if b then "true" else "false") = .ok (.bool b) := by
  cases b <;> rfl

/-! ## whole numbers -/

theorem magnitude?_toDigits (n : Nat) : magnitude? (Nat.toDigits 10 n) = some n := by
  obtain ⟨c, cs, h, hd, h0⟩ := toDigits_cons n
  have hz : hasLeadingZero (Nat.toDigits 10 n) = false := by
    rw [h, hasLeadingZero, sign_digit hd]
    dsimp only
    split
    next heq =>
      obtain ⟨rfl, rfl⟩ := List.cons.inj heq
      cases h0 rfl
    next => rfl
  unfold magnitude?
  split
  next heq => rw [h] at heq; obtain ⟨rfl, rfl⟩ := List.cons.inj heq; cases h0 rfl
  next heq => rw [h] at heq; obtain ⟨rfl, rfl⟩ := List.cons.inj heq; cases h0 rfl
  next heq => rw [h] at heq; obtain ⟨rfl, rfl⟩ := List.cons.inj heq; cases h0 rfl
  next => rw [hz, digits?_toDigits]; rfl

theorem wholeNumber?_toString (n : Int) : wholeNumber? (toString n).toList = some n := by
  obtain ⟨c, cs, h, hd, -⟩ := toDigits_cons n.natAbs
  rw [toList_toString_int, wholeNumber?, h, sign_withSign hd, ← h]
  by_cases hn : n < 0
  · rw [decide_eq_true hn]
    simp only [magnitude?_toDigits]
    exact congrArg some (Int.eq_neg_natAbs_of_nonpos hn.le).symm
  · rw [decide_eq_false hn]
    simp only [magnitude?_toDigits]
    exact congrArg some (Int.natAbs_of_nonneg (Int.not_lt.1 hn))

/-- what begins like a number is neither null nor a truth value -/
theorem Value.ofPlain_number {k : String} {c : Char} {cs : List Char} (hk : k.toList = c :: cs)
    (hc : c.isDigit = true ∨ c = '-' ∨ c = '.') :
    Value.ofPlain k =
      match Yaml.integer? k.toList with
      | some r => r.map .integer
      | none =>
        if hasLeadingZero k.toList then .ok (.string k)
        else
          match Yaml.float? k with
          | some x => .ok (.float x)
          | none => .ok (.string k) := by
  have hword (w : String) (d : Char) (hw : w.toList.head? = some d)
      (hd : (d.isDigit || d == '-' || d == '.') = false) : k ≠ w := by
    rintro rfl
    rw [hk] at hw
    obtain rfl := Option.some.inj hw
    rcases hc with hc | rfl | rfl
    · rw [hc] at hd; cases hd
    · exact absurd hd (by decide)
    · exact absurd hd (by decide)
  have hne : k.isEmpty = false := by
    rw [Bool.eq_false_iff]
    intro he
    rw [String.isEmpty_iff] at he
    subst he
    cases hk
  have hnull : isNullWord k = false := by
    simp [isNullWord, hword "null" 'n' rfl (by decide), hword "Null" 'N' rfl (by decide),
      hword "NULL" 'N' rfl (by decide), hword "~" '~' rfl (by decide)]
  have hbool : boolean? k = none := by
    simp [boolean?, hword "true" 't' rfl (by decide), hword "True" 'T' rfl (by decide),
      hword "TRUE" 'T' rfl (by decide), hword "false" 'f' rfl (by decide),
      hword "False" 'F' rfl (by decide), hword "FALSE" 'F' rfl (by decide)]
  rw [Value.ofPlain, hne, hnull, hbool]
  rfl

/-- a whole number that fits 64 bits is read back -/
theorem Value.ofPlain_integer {n : Int} (h : fits 64 n = true) :
    Value.ofPlain (toString n) = .ok (.integer n) := by
  have hint : Yaml.integer? (toString n).toList = some (.ok n) := by
    rw [Yaml.integer?, wholeNumber?_toString]
    simp [h]
  obtain ⟨c, cs, hc, hd, -⟩ := toDigits_cons n.natAbs
  have hk := toList_toString_int n
  rw [hc] at hk
  by_cases hn : n < 0
  · rw [decide_eq_true hn] at hk
    rw [Value.ofPlain_number hk (.inr (.inl rfl)), hint]
    rfl
  · rw [decide_eq_false hn] at hk
    rw [Value.ofPlain_number hk (.inl hd), hint]
    rfl

end ConfigReconcile.Yaml
