import ConfigReconcile.Proofs.Yaml.Types

/-!
# Floats read back

* `Value.ofPlain_spelling`   digits with a point or an exponent are read as a float;
* `Value.ofPlain_float`      every float is read back from its text.
-/

namespace ConfigReconcile.Yaml

open Text Decimal

/-- what holds a character that is no digit spells no number -/
theorem digits?_eq_none {base : Nat} {cs : List Char}
    (h : ∃ c ∈ cs, digitBelow? base c = none) : digits? base cs = none := by
  have hfold (n : Nat) :
      cs.foldlM (fun n c => (digitBelow? base c).map (base * n + ·)) n = none := by
    induction cs generalizing n with
    | nil => simp at h
    | cons c cs ih =>
      rw [List.foldlM_cons]
      cases hc : digitBelow? base c with
      | none => rfl
      | some k =>
        refine ih ?_ _
        obtain ⟨x, hx, hn⟩ := h
        rcases List.mem_cons.1 hx with rfl | hx
        · rw [hc] at hn; cases hn
        · exact ⟨x, hx, hn⟩
  obtain ⟨c, hc, -⟩ := h
  obtain ⟨d, ds, rfl⟩ := List.exists_cons_of_ne_nil (List.ne_nil_of_mem hc)
  exact hfold 0

section
variable (s : Spelling)

theorem mem_text {c : Char} (h : c ∈ s.text) :
    c.isDigit = true ∨ c = '.' ∨ c = 'e' ∨ c = '-' := by
  rcases List.mem_append.1 h with h | h
  · exact (s.mantissa_mem h).imp_right .inl
  · cases he : s.exponent? with
    | none => rw [he] at h; cases h
    | some e =>
      rw [he, Option.elim_some, toList_toString_int, List.mem_cons] at h
      rcases h with rfl | h
      · exact .inr (.inr (.inl rfl))
      · unfold Notation.withSign at h
        split at h
        · rcases List.mem_cons.1 h with rfl | h
          · exact .inr (.inr (.inr rfl))
          · exact .inl (isDigit_toDigits h)
        · exact .inl (isDigit_toDigits h)

theorem text_cons : ∃ c cs, s.text = c :: cs ∧ c.isDigit = true ∧ ∃ x ∈ cs, x = '.' ∨ x = 'e' := by
  obtain ⟨c, cs, hc⟩ := List.exists_cons_of_ne_nil s.whole_ne
  refine ⟨c, _, by rw [Spelling.text, Spelling.mantissa, hc]; rfl,
    s.isDigit_whole c (hc ▸ List.mem_cons_self ..), ?_⟩
  rcases s.marked with hf | he
  · exact ⟨'.', by simp [hf], .inl rfl⟩
  · obtain ⟨e, he⟩ := Option.isSome_iff_exists.1 he
    exact ⟨'e', by simp [he], .inr rfl⟩

theorem integer?_text (neg : Bool) : Yaml.integer? (Notation.withSign neg s.text) = none := by
  obtain ⟨c, cs, hs, hc, x, hx, hmark⟩ := text_cons s
  have hmem (d : Char) (hd : d.isDigit = false) (hd' : ¬(d = '.' ∨ d = 'e' ∨ d = '-')) :
      d ∉ s.text := by
    intro h
    rcases mem_text s h with h | h
    · rw [hd] at h; cases h
    · exact hd' h
  have hdigits : digits? 10 (c :: cs) = none := by
    refine digits?_eq_none ⟨x, List.mem_cons_of_mem _ hx, ?_⟩
    rcases hmark with rfl | rfl <;> decide
  have hm : magnitude? (c :: cs) = none := by
    rw [hs] at hmem
    unfold magnitude?
    split
    next heq => exact absurd (by simp [heq]) (hmem 'x' (by decide) (by decide))
    next heq => exact absurd (by simp [heq]) (hmem 'o' (by decide) (by decide))
    next heq => exact absurd (by simp [heq]) (hmem 'b' (by decide) (by decide))
    next => rw [hdigits, ite_self]
  have hw : wholeNumber? (Notation.withSign neg s.text) = none := by
    rw [wholeNumber?, hs, sign_withSign hc]
    cases neg <;> simp [hm]
  rw [Yaml.integer?, hw]

theorem hasLeadingZero_text (neg : Bool) :
    hasLeadingZero (Notation.withSign neg s.text) = false := by
  obtain ⟨c, cs, hs, hc, x, hx, hmark⟩ := text_cons s
  have hnot : x.isDigit = false := by rcases hmark with rfl | rfl <;> decide
  rw [hasLeadingZero, hs, sign_withSign hc]
  dsimp only
  split
  next heq =>
    obtain ⟨rfl, rfl⟩ := List.cons.inj heq
    exact List.all_eq_false.2 ⟨x, hx, by simp [hnot]⟩
  next => rfl

theorem ne_word (neg : Bool) (w : String)
    (hw : w.toList.head? = some '.' ∨ ∃ r, w.toList = '-' :: '.' :: r) :
    String.ofList (Notation.withSign neg s.text) ≠ w := by
  rintro rfl
  obtain ⟨c, cs, hs, hc, -⟩ := text_cons s
  have hdash := ne_of_isDigit hc '-' (by decide)
  have hdot := ne_of_isDigit hc '.' (by decide)
  rw [String.toList_ofList, hs] at hw
  cases neg <;> simp [Notation.withSign, hdash, hdot] at hw

theorem toLower_digit {c : Char} (h : c.isDigit = true) : c.toLower = c := by
  simp only [Char.isDigit, Bool.and_eq_true, decide_eq_true_eq, ge_iff_le, UInt32.le_iff_toNat_le]
    at h
  have hA : 'A'.val.toNat = 65 := rfl
  have h9 : '9'.val.toNat = 57 := rfl
  unfold Char.toLower
  split
  next hu =>
    rw [ge_iff_le, UInt32.le_iff_toNat_le] at hu
    omega
  next => rfl

theorem float?_text (neg : Bool) {x : Binary64} (hfin : x.isFinite = true)
    (hx : .ofDecimal neg s.decimal.digits s.decimal.exponent = x) :
    Yaml.float? (String.ofList (Notation.withSign neg s.text)) = some x := by
  have hne := ne_word s neg
  obtain ⟨c, cs, hs, hc, -⟩ := text_cons s
  have hplus : (Notation.withSign neg s.text).head? ≠ some '+' := by
    rw [hs]
    cases neg
    · simpa [Notation.withSign] using ne_of_isDigit hc '+' (by decide)
    · simp [Notation.withSign]
  have hdecimal : Decimal.float? (Notation.withSign neg s.text) = some x := by
    have hi := ne_of_isDigit hc 'i' (by decide)
    have hn := ne_of_isDigit hc 'n' (by decide)
    have hd := s.decimal?_text neg
    rw [Decimal.float?, hs, sign_withSign hc]
    rw [hs] at hd
    simp [toLower_digit hc, hi, hn, hd, hx]
  unfold Yaml.float?
  simp [hplus, hdecimal, hfin, hne ".inf" (.inl rfl), hne ".Inf" (.inl rfl),
    hne ".INF" (.inl rfl), hne "-.inf" (.inr ⟨_, rfl⟩), hne "-.Inf" (.inr ⟨_, rfl⟩),
    hne "-.INF" (.inr ⟨_, rfl⟩), hne ".nan" (.inl rfl), hne ".NaN" (.inl rfl),
    hne ".NAN" (.inl rfl)]

/-- digits with a point or an exponent are read as a float -/
theorem Value.ofPlain_spelling (neg : Bool) {x : Binary64} (hfin : x.isFinite = true)
    (hx : .ofDecimal neg s.decimal.digits s.decimal.exponent = x) :
    Value.ofPlain (String.ofList (Notation.withSign neg s.text)) = .ok (.float x) := by
  obtain ⟨c, cs, hs, hc, -⟩ := text_cons s
  have hfirst : ∃ d ds, (String.ofList (Notation.withSign neg s.text)).toList = d :: ds ∧
      (d.isDigit = true ∨ d = '-' ∨ d = '.') := by
    rw [String.toList_ofList, hs]
    cases neg
    · exact ⟨c, cs, rfl, .inl hc⟩
    · exact ⟨'-', _, rfl, .inr (.inl rfl)⟩
  obtain ⟨d, ds, hd, hdc⟩ := hfirst
  rw [Value.ofPlain_number hd hdc, String.toList_ofList, integer?_text, hasLeadingZero_text,
    float?_text s neg hfin hx]
  rfl

end

/-- every float is read back from its text -/
theorem Value.ofPlain_float {x : Binary64} (hx : x.WellFormed) :
    Value.ofPlain (Notation.yaml.write x) = .ok (.float x) := by
  cases x with
  | nan => rfl
  | infinite neg => cases neg <;> rfl
  | finite neg m p =>
    obtain ⟨s, hs, hread⟩ := exists_spelling (f := .yaml) rfl rfl neg m p
    rw [hs]
    exact Value.ofPlain_spelling s neg rfl (hread hx)

end ConfigReconcile.Yaml
