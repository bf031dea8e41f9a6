import ConfigReconcile.Backup.Instant
import ConfigReconcile.Proofs.Decimal.Spelling

/-!
# Stamps are in the order of time

The stamp of an instant is made of numbers of fixed width, the greatest unit first, so its text is in
order with the numbers, and they are in order with the instants:

* `spell`, `spell_lt_spell`   numbers of given widths, and the order of their texts;
* `Calendar.fields_lt`        the year, month and day of days that follow each other;
* `Instant.Earlier`           one instant is before another, to the millisecond;
* `Instant.stamp_lt_stamp`    then its stamp is, as long as years have four digits;
* `isStamp`                   the look of a stamp, which every stamp has (`Instant.isStamp_stamp`).
-/

namespace ConfigReconcile

open Decimal

/-! ## calendar -/

namespace Calendar

theorem startOfYear_mono {y z : Int} (h : y ≤ z) : startOfYear y ≤ startOfYear z := by
  unfold startOfYear
  omega

theorem yearOf_mono {d e : Int} (h : d ≤ e) : yearOf d ≤ yearOf e := by
  by_contra hn
  have hstart := startOfYear_mono (show yearOf e + 1 ≤ yearOf d by omega)
  have := startOfYear_yearOf_le d
  have := lt_startOfYear_yearOf e
  omega

variable {i j m : Nat} {ls : List Nat}

theorem le_monthOf (m i : Nat) (ls : List Nat) : m ≤ (monthOf m i ls).1 := by
  induction ls generalizing m i with
  | nil => exact Nat.le_refl m
  | cons l ls ih =>
    rw [monthOf]
    split
    · exact Nat.le_refl m
    · exact Nat.le_of_succ_le (ih (m + 1) (i - l))

/-- later days have a later month, or the same one and a later day of it -/
theorem monthOf_lt (h : i < j) (m : Nat) (ls : List Nat) :
    (monthOf m i ls).1 < (monthOf m j ls).1 ∨
      (monthOf m i ls).1 = (monthOf m j ls).1 ∧ (monthOf m i ls).2 < (monthOf m j ls).2 := by
  induction ls generalizing m i j with
  | nil => exact .inr ⟨rfl, Nat.succ_lt_succ h⟩
  | cons l ls ih =>
    rw [monthOf, monthOf]
    by_cases hi : i < l
    · rw [if_pos hi]
      by_cases hj : j < l
      · rw [if_pos hj]
        exact .inr ⟨rfl, Nat.succ_lt_succ h⟩
      · rw [if_neg hj]
        exact .inl (le_monthOf (m + 1) (j - l) ls)
    · rw [if_neg hi, if_neg (by omega)]
      exact ih (by omega) _

/-- a day within the months has one of them, and a day that it has -/
theorem monthOf_le {longest : Nat} (h : i < ls.sum) (hls : ∀ l ∈ ls, l ≤ longest) :
    (monthOf m i ls).1 < m + ls.length ∧ (monthOf m i ls).2 ≤ longest := by
  induction ls generalizing m i with
  | nil => exact absurd h (Nat.not_lt_zero i)
  | cons l ls ih =>
    obtain ⟨hl, hrest⟩ := List.forall_mem_cons.1 hls
    rw [monthOf, List.length_cons]
    split
    · next hi => exact ⟨by dsimp only; omega, by dsimp only; omega⟩
    · next hi =>
      rw [List.sum_cons] at h
      have := ih (m := m + 1) (i := i - l) (by omega) hrest
      omega

theorem dayOfYear_lt (d : Int) : (d - startOfYear (yearOf d)).toNat <
    (monthLengths (isLeapYear (yearOf d))).sum := by
  have h1 := startOfYear_yearOf_le d
  have h2 := lt_startOfYear_yearOf d
  cases hl : isLeapYear (yearOf d) with
  | true =>
    rw [isLeapYear, decide_eq_true_eq] at hl
    show _ < 366
    omega
  | false =>
    rw [isLeapYear, decide_eq_false_iff_not] at hl
    have := startOfYear_add_one (yearOf d)
    show _ < 365
    omega

theorem date_bounds (d : Int) : (Date.ofDay d).month < 13 ∧ (Date.ofDay d).day ≤ 31 := by
  apply monthOf_le (dayOfYear_lt d)
  cases isLeapYear (yearOf d) <;> decide

/-- year, month and day -/
def Date.fields (d : Date) : List Nat := [d.year.toNat, d.month, d.day]

/-- the years of later days come later, or else the months or the days of the month do -/
theorem fields_lt {d e : Int} (h : d < e) (hd : 0 ≤ yearOf d) :
    (Date.ofDay d).fields < (Date.ofDay e).fields := by
  have hyear := yearOf_mono (Int.le_of_lt h)
  rcases Int.lt_or_eq_of_le hyear with hlt | heq
  · apply List.cons_lt_cons_iff.2
    left
    show (yearOf d).toNat < (yearOf e).toNat
    omega
  · have hstart := startOfYear_yearOf_le d
    have hlt : (d - startOfYear (yearOf d)).toNat < (e - startOfYear (yearOf d)).toNat := by omega
    have hmonth := monthOf_lt hlt 1 (monthLengths (isLeapYear (yearOf d)))
    apply List.cons_lt_cons_iff.2
    right
    unfold Date.ofDay
    rw [← heq]
    refine ⟨rfl, ?_⟩
    rw [List.cons_lt_cons_iff, List.cons_lt_cons_iff]
    exact hmonth.imp id fun h => ⟨h.1, .inl h.2⟩

end Calendar

/-! ## numbers of fixed width -/

/-- of two lists of one length, the first place at which they differ decides -/
theorem append_lt_append {α : Type} [LT α] {a b : List α} (hl : a.length = b.length) (h : a < b)
    (s t : List α) : a ++ s < b ++ t := by
  induction a generalizing b with
  | nil =>
    rw [List.length_eq_zero_iff.1 hl.symm] at h
    exact absurd h (List.not_lt_nil [])
  | cons c a ih =>
    cases b with
    | nil => cases hl
    | cons d b =>
      rw [List.cons_append, List.cons_append, List.cons_lt_cons_iff]
      rcases List.cons_lt_cons_iff.1 h with hlt | ⟨heq, hlt⟩
      · exact .inl hlt
      · exact .inr ⟨heq, ih (Nat.succ.inj hl) hlt⟩

namespace Instant

variable {w a b n : Nat}

theorem length_padded (hw : 0 < w) (h : n < 10 ^ w) : (padded w n).length = w := by
  have := (Nat.length_toDigits_le_iff (b := 10) (by decide) hw).2 h
  rw [padded, List.length_append, List.length_replicate, Notation.digitsOf]
  omega

theorem isDigit_padded : ∀ c ∈ padded w n, c.isDigit = true := by
  intro c hc
  rcases List.mem_append.1 hc with hc | hc
  · rw [List.eq_of_mem_replicate hc]
    rfl
  · exact isDigit_toDigits hc

theorem not_mem_padded {c : Char} (h : c.isDigit = false) : c ∉ padded w n := by
  intro hc
  rw [isDigit_padded c hc] at h
  cases h

theorem padded_one (h : n < 10) : padded 1 n = [n.digitChar] := by
  rw [padded, Notation.digitsOf, Nat.toDigits_of_lt_base h]
  rfl

theorem padded_succ (hw : 0 < w) (n : Nat) :
    padded (w + 1) n = padded w (n / 10) ++ [(n % 10).digitChar] := by
  unfold padded Notation.digitsOf
  by_cases hn : n < 10
  · have hdiv : n / 10 = 0 := by omega
    rw [hdiv, Nat.mod_eq_of_lt hn, Nat.toDigits_of_lt_base hn, Nat.toDigits_zero]
    obtain ⟨v, rfl⟩ : ∃ v, w = v + 1 := ⟨w - 1, by omega⟩
    show List.replicate (v + 1) '0' ++ _ = List.replicate v '0' ++ ['0'] ++ _
    rw [List.replicate_succ']
  · rw [Nat.toDigits_of_base_le (by decide) (by omega), List.length_append, List.length_singleton,
      Nat.add_sub_add_right, List.append_assoc]

/-- numbers of one width are in order of their digits -/
theorem padded_lt_padded (hw : 0 < w) (h : a < b) (hb : b < 10 ^ w) :
    padded w a < padded w b := by
  induction w, hw using Nat.le_induction generalizing a b with
  | base =>
    have hall : ∀ b < 10, ∀ a < b, [a.digitChar] < [b.digitChar] := by decide
    have hb : b < 10 := hb
    rw [padded_one (by omega), padded_one hb]
    exact hall b hb a h
  | succ w hw ih =>
    rw [Nat.pow_succ] at hb
    rw [padded_succ hw, padded_succ hw]
    by_cases hdiv : a / 10 = b / 10
    · have hall : ∀ b < 10, ∀ a < b, [a.digitChar] < [b.digitChar] := by decide
      rw [hdiv]
      exact List.append_left_lt (hall _ (by omega) _ (by omega))
    · apply append_lt_append _ (ih (by omega) (by omega))
      rw [length_padded hw (by omega), length_padded hw (by omega)]

/-- numbers one after the other, each with its width and what stands behind it -/
def spell : List (Nat × List Char) → List Nat → List Char
  | (w, mark) :: form, n :: ns => padded w n ++ (mark ++ spell form ns)
  | _, _ => []

/-- the numbers have the widths of a form -/
def Fits (form : List (Nat × List Char)) (ns : List Nat) : Prop :=
  List.Forall₂ (fun f n => 0 < f.1 ∧ n < 10 ^ f.1) form ns

/-- texts of one form are in order of their numbers -/
theorem spell_lt_spell {form : List (Nat × List Char)} {ns ms : List Nat} (hn : Fits form ns)
    (hm : Fits form ms) (h : ns < ms) : spell form ns < spell form ms := by
  induction form generalizing ns ms with
  | nil =>
    cases hn
    cases hm
    exact absurd h (List.lt_irrefl _)
  | cons f form ih =>
    cases hn with
    | cons hn hns =>
      cases hm with
      | cons hm hms =>
        rw [spell, spell]
        rcases List.cons_lt_cons_iff.1 h with hlt | ⟨rfl, hlt⟩
        · apply append_lt_append _ (padded_lt_padded hn.1 hlt hm.2)
          rw [length_padded hn.1 hn.2, length_padded hm.1 hm.2]
        · exact List.append_left_lt (List.append_left_lt (ih hns hms hlt))

/-! ## instants -/

/-- to the millisecond, one instant is before another -/
def Earlier (t u : Instant) : Prop :=
  t.seconds < u.seconds ∨ t.seconds = u.seconds ∧ t.nanos / 1000000 < u.nanos / 1000000

/-- the year has four digits at most, and no sign -/
def HasPlainYear (t : Instant) : Prop := 0 ≤ t.date.year ∧ t.date.year ≤ 9999

instance (t u : Instant) : Decidable (t.Earlier u) := inferInstanceAs (Decidable (_ ∨ _))

instance (t : Instant) : Decidable t.HasPlainYear := inferInstanceAs (Decidable (_ ∧ _))

/-- the widths of the numbers of a stamp -/
def stampForm : List (Nat × List Char) :=
  [(4, []), (2, []), (2, ['T']), (2, []), (2, []), (2, ['.']), (3, ['Z'])]

/-- hours, minutes, seconds and milliseconds; a leap second is second 60 -/
def clock (t : Instant) : List Nat :=
  [t.secondOfDay / 3600, t.secondOfDay / 60 % 60,
    t.secondOfDay % 60 + t.nanos / 1000000000, t.nanos % 1000000000 / 1000000]

variable {t u : Instant}

theorem stamp_eq (ht : t.HasPlainYear) :
    t.stamp = spell stampForm (t.date.fields ++ t.clock) := by
  have hyear : yearText t.date.year = padded 4 t.date.year.toNat := if_pos ht
  simp [stamp, hyear, spell, stampForm, Calendar.Date.fields, clock]

/-- no stamp cuts a path in two -/
theorem slash_not_mem_stamp (t : Instant) : '/' ∉ t.stamp := by
  have hpadded (w n : Nat) : '/' ∉ padded w n := not_mem_padded rfl
  have hyear (y : Int) : '/' ∉ yearText y := by
    unfold yearText
    split
    · exact hpadded _ _
    · rw [List.mem_cons, not_or]
      refine ⟨?_, hpadded _ _⟩
      split <;> decide
  simp [stamp, hpadded, hyear]

theorem secondOfDay_lt (t : Instant) : t.secondOfDay < 86400 := by
  unfold secondOfDay
  omega

theorem fits_fields (ht : t.HasPlainYear) : Fits stampForm (t.date.fields ++ t.clock) := by
  obtain ⟨hmonth, hday⟩ : t.date.month < 13 ∧ t.date.day ≤ 31 :=
    Calendar.date_bounds (dayOfUnix t.seconds)
  have hsecond := t.secondOfDay_lt
  have hvalid := t.valid
  simp only [isInstant, Bool.and_eq_true, decide_eq_true_eq] at hvalid
  obtain ⟨⟨⟨hnanos, -⟩, -⟩, -⟩ := hvalid
  unfold HasPlainYear at ht
  refine .cons ?_ (.cons ?_ (.cons ?_ (.cons ?_ (.cons ?_ (.cons ?_ (.cons ?_ .nil)))))) <;>
    refine ⟨by decide, ?_⟩ <;> simp only [Nat.reducePow] <;> omega

theorem clock_lt (h : t.Earlier u) (hday : dayOfUnix t.seconds = dayOfUnix u.seconds) :
    t.clock < u.clock := by
  have ht := t.valid
  have hu := u.valid
  simp only [isInstant, Bool.and_eq_true, Bool.or_eq_true, decide_eq_true_eq] at ht hu
  unfold dayOfUnix at hday
  simp only [clock, List.cons_lt_cons_iff]
  rcases h with h | ⟨hs, hn⟩
  · have hlt : t.secondOfDay < u.secondOfDay := by
      unfold secondOfDay
      omega
    -- a leap second is the last of its minute, so no later second of that minute follows
    have hleap : t.secondOfDay % 60 < u.secondOfDay % 60 → t.nanos / 1000000000 = 0 := by
      have hmod : (t.secondOfDay % 60 : Nat) = t.seconds % 60 := by
        unfold secondOfDay
        omega
      omega
    omega
  · have hs : t.secondOfDay = u.secondOfDay := by rw [secondOfDay, secondOfDay, hs]
    omega

/-- **the stamps of instants are in order of time** -/
theorem stamp_lt_stamp (h : t.Earlier u) (ht : t.HasPlainYear) (hu : u.HasPlainYear) :
    t.stamp < u.stamp := by
  rw [stamp_eq ht, stamp_eq hu]
  apply spell_lt_spell (fits_fields ht) (fits_fields hu)
  rcases Int.lt_trichotomy (dayOfUnix t.seconds) (dayOfUnix u.seconds) with hday | hday | hday
  · have hfields : t.date.fields < u.date.fields := Calendar.fields_lt hday ht.1
    have hlength : t.date.fields.length = u.date.fields.length := rfl
    exact append_lt_append hlength hfields _ _
  · have hdate : t.date = u.date := by rw [date, date, hday]
    rw [hdate]
    exact List.append_left_lt (clock_lt h hday)
  · unfold Earlier at h
    unfold dayOfUnix at hday
    omega

/-! ## the look of a stamp -/

/-- whether a text has a digit wherever the pattern has `#`, and else is the pattern -/
def isLike : List Char → List Char → Bool
  | [], [] => true
  | m :: pattern, c :: cs => (if m = '#' then c.isDigit else c = m) && isLike pattern cs
  | _, _ => false

/-- eight digits, `T`, six digits, a point, three digits, `Z` -/
def isStamp (cs : List Char) : Bool := isLike "########T######.###Z".toList cs

theorem isLike_append {p q a b : List Char} (ha : isLike p a = true) (hb : isLike q b = true) :
    isLike (p ++ q) (a ++ b) = true := by
  induction p generalizing a with
  | nil =>
    cases a with
    | nil => exact hb
    | cons c a => cases ha
  | cons m p ih =>
    cases a with
    | nil => cases ha
    | cons c a =>
      rw [isLike, Bool.and_eq_true] at ha
      rw [List.cons_append, List.cons_append, isLike, ha.1, Bool.true_and]
      exact ih ha.2

/-- a pattern in two parts cuts a text in two -/
theorem exists_of_isLike_append {p q cs : List Char} (h : isLike (p ++ q) cs = true) :
    ∃ a b, cs = a ++ b ∧ isLike p a = true ∧ isLike q b = true := by
  induction p generalizing cs with
  | nil => exact ⟨[], cs, rfl, rfl, h⟩
  | cons m p ih =>
    cases cs with
    | nil => cases h
    | cons c cs =>
      rw [List.cons_append, isLike, Bool.and_eq_true] at h
      obtain ⟨a, b, rfl, ha, hb⟩ := ih h.2
      refine ⟨c :: a, b, rfl, ?_, hb⟩
      rw [isLike, h.1, ha]
      rfl

/-- a pattern without `#` is the only text that it fits -/
theorem eq_of_isLike {p cs : List Char} (h : isLike p cs = true) (hp : '#' ∉ p) : cs = p := by
  induction p generalizing cs with
  | nil =>
    cases cs with
    | nil => rfl
    | cons c cs => cases h
  | cons m p ih =>
    cases cs with
    | nil => cases h
    | cons c cs =>
      rw [List.mem_cons, not_or] at hp
      rw [isLike, if_neg (Ne.symm hp.1), Bool.and_eq_true] at h
      rw [of_decide_eq_true h.1, ih h.2 hp.2]

theorem length_of_isLike {p cs : List Char} (h : isLike p cs = true) : cs.length = p.length := by
  induction p generalizing cs with
  | nil =>
    cases cs with
    | nil => rfl
    | cons c cs => cases h
  | cons m p ih =>
    cases cs with
    | nil => cases h
    | cons c cs =>
      rw [isLike, Bool.and_eq_true] at h
      rw [List.length_cons, List.length_cons, ih h.2]

theorem isLike_digits {cs : List Char} (h : ∀ c ∈ cs, c.isDigit = true) :
    isLike (List.replicate cs.length '#') cs = true := by
  induction cs with
  | nil => rfl
  | cons c cs ih =>
    obtain ⟨hc, hcs⟩ := List.forall_mem_cons.1 h
    rw [List.length_cons, List.replicate_succ, isLike, if_pos rfl, hc, Bool.true_and]
    exact ih hcs

/-- the pattern of a form -/
def patternOf (form : List (Nat × List Char)) : List Char :=
  form.flatMap fun f => List.replicate f.1 '#' ++ f.2

theorem isLike_spell {form : List (Nat × List Char)} {ns : List Nat} (h : Fits form ns)
    (hmarks : ∀ f ∈ form, isLike f.2 f.2 = true) :
    isLike (patternOf form) (spell form ns) = true := by
  induction form generalizing ns with
  | nil =>
    cases h
    rfl
  | cons f form ih =>
    cases h with
    | @cons _ n _ ns hn hns =>
      obtain ⟨hmark, hmarks⟩ := List.forall_mem_cons.1 hmarks
      have hdigits := isLike_digits (isDigit_padded (w := f.1) (n := n))
      rw [length_padded hn.1 hn.2] at hdigits
      rw [patternOf, List.flatMap_cons, List.append_assoc, spell]
      exact isLike_append hdigits (isLike_append hmark (ih hns hmarks))

theorem isStamp_stamp (ht : t.HasPlainYear) : isStamp t.stamp = true := by
  rw [stamp_eq ht]
  exact isLike_spell (fits_fields ht) (by decide)

theorem length_stamp (ht : t.HasPlainYear) : t.stamp.length = 20 :=
  length_of_isLike (isStamp_stamp ht)

end Instant

end ConfigReconcile
