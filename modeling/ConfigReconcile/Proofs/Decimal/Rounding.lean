import ConfigReconcile.Decimal.Shortest
import Mathlib.Tactic.Linarith
import Mathlib.Tactic.Ring

/-!
# Rounding to a double

* `Canonical`              significand and scale of a finite double, in their one form;
* `nearest_eq`             the significand of a quotient from bounds on it;
* `ofRatio_eq`             a quotient in the interval around a double is rounded to that double;
* `wellFormed_ofDecimal`   what a decimal is read as is canonical if it is finite.
-/

namespace ConfigReconcile.Decimal

/-- how many quarters of the finest step of a double are one -/
@[irreducible] def quarters : Nat := Nat.pow 2 1076

namespace Binary64

/-- significand and scale of a finite double -/
structure Canonical (m p : Nat) : Prop where
  lt : m < 2 ^ 53
  normal : 2 ^ 52 ≤ m ∨ p = 0
  le : p ≤ 2045

/-- what is finite has the form it has to have -/
def WellFormed : Binary64 → Prop
  | .finite _ m p => Canonical m p
  | .infinite _ => True
  | .nan => True

/-! ## the nearest significand -/

/-- what is at most half a step away, and less than that if it is odd, is the nearest -/
theorem nearest_eq {num den p m : Nat} (hden : 0 < den)
    (hlow : 2 * (m * (den * 2 ^ p)) ≤ 2 * num + den * 2 ^ p)
    (hhigh : 2 * num ≤ 2 * (m * (den * 2 ^ p)) + den * 2 ^ p)
    (hodd : m % 2 = 1 → 2 * (m * (den * 2 ^ p)) < 2 * num + den * 2 ^ p ∧
      2 * num < 2 * (m * (den * 2 ^ p)) + den * 2 ^ p) :
    nearest num den p = m := by
  have hd : 0 < den * 2 ^ p := Nat.mul_pos hden (Nat.two_pow_pos p)
  unfold nearest
  simp only [Nat.pow_eq]
  generalize den * 2 ^ p = d at *
  have hnum : d * (num / d) + num % d = num := Nat.div_add_mod num d
  have hr : num % d < d := Nat.mod_lt _ hd
  generalize num / d = q at *
  generalize num % d = r at *
  have hq : d * q < d * (m + 1) := by
    have := Nat.mul_comm m d
    rw [Nat.mul_add]
    omega
  have hm : d * m < d * (q + 2) := by
    have := Nat.mul_comm m d
    rw [Nat.mul_add]
    omega
  have hmd := Nat.mul_comm m d
  rcases (by have := Nat.lt_of_mul_lt_mul_left hq; have := Nat.lt_of_mul_lt_mul_left hm; omega :
    m = q ∨ m = q + 1) with rfl | rfl
  · split
    · rfl
    · split
      · omega
      · omega
  · rw [Nat.mul_add, Nat.mul_one] at hmd
    split
    · omega
    · split
      · rfl
      · omega

theorem scaleFor_eq {n k : Nat} (hlow : 2 ^ (52 + k) ≤ n) (hhigh : n < 2 ^ (53 + k)) :
    scaleFor n = k := by
  have hn : n ≠ 0 := by
    have := Nat.two_pow_pos (52 + k)
    omega
  have hlog : n.log2 = 52 + k := (Nat.log2_eq_iff hn).2 ⟨hlow, by rwa [Nat.add_right_comm]⟩
  rw [scaleFor, hlog, Nat.add_sub_cancel_left]

theorem scaleFor_eq_zero {n : Nat} (h : n < 2 ^ 53) : scaleFor n = 0 := by
  by_cases hn : n = 0
  · subst hn; rfl
  · have := (Nat.log2_lt hn).2 h
    rw [scaleFor]
    omega

/-! ## rounding -/

/-- `n / den` of the finest steps of a double, rounded -/
def ofUnits (neg : Bool) (n den : Nat) : Binary64 :=
  let p := scaleFor (n / den)
  let m := nearest n den p
  let (m, p) := if m = Nat.pow 2 53 then (Nat.pow 2 52, p + 1) else (m, p)
  if 2045 < p then .infinite neg else .finite neg m p

theorem ofRatio_eq_ofUnits (neg : Bool) (num den : Nat) :
    ofRatio neg num den = ofUnits neg (num * Nat.pow 2 1074) den := rfl

variable {m p n num den : Nat}

/-- the ends of an interval in whole numbers, where `4 * n` counts quarters of the finest step -/
theorem bounds_of_holds (h : (Interval.around m p).holds (4 * n) den = true) :
    let d := den * 2 ^ p
    let below := if m = 2 ^ 52 ∧ p ≠ 0 then 1 else 2
    (4 * m - below) * d ≤ 4 * n ∧ 4 * n ≤ (4 * m + 2) * d ∧
      (m % 2 = 1 → (4 * m - below) * d < 4 * n ∧ 4 * n < (4 * m + 2) * d) := by
  have hcomm (x : Nat) : x * 2 ^ p * den = x * (den * 2 ^ p) := by ring
  simp only [Interval.holds, Interval.around, Nat.pow_eq, hcomm] at h
  dsimp only
  split at h
  next hc =>
    simp only [Bool.and_eq_true, decide_eq_true_eq] at h
    refine ⟨h.1, h.2, fun hodd => ?_⟩
    simp [hodd] at hc
  next hc =>
    simp only [Bool.and_eq_true, decide_eq_true_eq] at h
    exact ⟨h.1.le, h.2.le, fun _ => h⟩

theorem scaleFor_div {k : Nat} (hden : 0 < den) (hlow : 2 ^ 52 * (den * 2 ^ k) ≤ n)
    (hhigh : n < 2 ^ 53 * (den * 2 ^ k)) : scaleFor (n / den) = k := by
  refine scaleFor_eq ((Nat.le_div_iff_mul_le hden).2 ?_) ((Nat.div_lt_iff_lt_mul hden).2 ?_)
  · rwa [Nat.pow_add, Nat.mul_assoc, Nat.mul_comm (2 ^ k)]
  · rwa [Nat.pow_add, Nat.mul_assoc, Nat.mul_comm (2 ^ k)]

/-- where the lower neighbour is a whole step below, the scale is that of the double -/
theorem round_inner (hc : Canonical m p) (hb : ¬(m = 2 ^ 52 ∧ p ≠ 0)) (hden : 0 < den)
    (h : (Interval.around m p).holds (4 * n) den = true) :
    scaleFor (n / den) = p ∧ nearest n den p = m := by
  obtain ⟨hlow, hhigh, hodd⟩ := bounds_of_holds h
  rw [if_neg hb] at hlow hodd
  have hd : 0 < den * 2 ^ p := Nat.mul_pos hden (Nat.two_pow_pos p)
  have hlt := hc.lt
  have hmax : (4 * m + 2) * (den * 2 ^ p) ≤ (2 ^ 55 - 2) * (den * 2 ^ p) :=
    Nat.mul_le_mul_right _ (by omega)
  refine ⟨?_, nearest_eq hden ?_ ?_ fun hm => ?_⟩
  · by_cases hp : p = 0
    · subst hp
      refine scaleFor_eq_zero ((Nat.div_lt_iff_lt_mul hden).2 ?_)
      rw [Nat.pow_zero, Nat.mul_one] at *
      omega
    · have hmin : (2 ^ 54 + 2) * (den * 2 ^ p) ≤ (4 * m - 2) * (den * 2 ^ p) := by
        have := hc.normal
        exact Nat.mul_le_mul_right _ (by omega)
      exact scaleFor_div hden (by omega) (by omega)
  all_goals
    rw [Nat.sub_mul, Nat.mul_assoc] at *
    rw [Nat.add_mul, Nat.mul_assoc] at hhigh hodd
    omega

/-- below a power of two the steps are half as wide, so the scale may be the next smaller one -/
theorem round_boundary (hp : p ≠ 0) (hden : 0 < den)
    (h : (Interval.around (2 ^ 52) p).holds (4 * n) den = true) :
    scaleFor (n / den) = p ∧ nearest n den p = 2 ^ 52 ∨
      scaleFor (n / den) = p - 1 ∧ nearest n den (p - 1) = 2 ^ 53 := by
  obtain ⟨hlow, hhigh, -⟩ := bounds_of_holds h
  rw [if_pos ⟨rfl, hp⟩] at hlow
  have hd : 0 < den * 2 ^ p := Nat.mul_pos hden (Nat.two_pow_pos p)
  by_cases hn : 2 ^ 52 * (den * 2 ^ p) ≤ n
  · exact .inl ⟨scaleFor_div hden hn (by omega), nearest_eq hden (by omega) (by omega) (by omega)⟩
  · obtain ⟨k, rfl⟩ := Nat.exists_eq_succ_of_ne_zero hp
    have hk : den * 2 ^ (k + 1) = 2 * (den * 2 ^ k) := by rw [Nat.pow_succ]; ring
    rw [hk] at hlow hhigh hn
    rw [Nat.succ_eq_add_one, Nat.add_sub_cancel]
    exact .inr ⟨scaleFor_div hden (by omega) (by omega),
      nearest_eq hden (by omega) (by omega) (by omega)⟩

/-- what lies in the interval around a double is rounded to it -/
theorem ofUnits_eq (neg : Bool) (hc : Canonical m p) (hden : 0 < den)
    (h : (Interval.around m p).holds (4 * n) den = true) : ofUnits neg n den = .finite neg m p := by
  have hp : ¬2045 < p := Nat.not_lt.2 hc.le
  by_cases hb : m = 2 ^ 52 ∧ p ≠ 0
  · obtain ⟨rfl, hp0⟩ := hb
    rcases round_boundary hp0 hden h with ⟨hs, hn⟩ | ⟨hs, hn⟩
    · simp only [ofUnits, hs, hn, Nat.pow_eq, if_neg hc.lt.ne, if_neg hp]
    · have hsucc : p - 1 + 1 = p := by omega
      simp only [ofUnits, hs, hn, Nat.pow_eq, if_true, hsucc, if_neg hp]
  · obtain ⟨hs, hn⟩ := round_inner hc hb hden h
    simp only [ofUnits, hs, hn, Nat.pow_eq, if_neg hc.lt.ne, if_neg hp]

theorem mul_quarters (n : Nat) : n * quarters = 4 * (n * Nat.pow 2 1074) := by
  have h : quarters = 4 * Nat.pow 2 1074 := by decide +kernel
  generalize Nat.pow 2 1074 = steps at *
  rw [h, Nat.mul_left_comm]

theorem ofRatio_eq (neg : Bool) (hc : Canonical m p) (hden : 0 < den)
    (h : (Interval.around m p).holds (num * quarters) den = true) :
    ofRatio neg num den = .finite neg m p := by
  rw [mul_quarters] at h
  rw [ofRatio_eq_ofUnits, ofUnits_eq neg hc hden h]

/-! ## canonical form -/

/-- a quotient is rounded to one of the two whole numbers around it -/
theorem nearest_bounds (num den p : Nat) :
    num / (den * 2 ^ p) ≤ nearest num den p ∧ nearest num den p ≤ num / (den * 2 ^ p) + 1 := by
  unfold nearest
  simp only [Nat.pow_eq]
  split
  · omega
  · split <;> omega

theorem scaleFor_bounds (n : Nat) :
    n < 2 ^ (53 + scaleFor n) ∧ (2 ^ (52 + scaleFor n) ≤ n ∨ scaleFor n = 0) := by
  by_cases hn : n = 0
  · subst hn
    exact ⟨Nat.two_pow_pos _, .inr rfl⟩
  · have hle : n.log2 < 53 + scaleFor n := by rw [scaleFor]; omega
    refine ⟨(Nat.log2_lt hn).1 hle, ?_⟩
    by_cases hs : scaleFor n = 0
    · exact .inr hs
    · have heq : 52 + scaleFor n = n.log2 := by rw [scaleFor] at hs ⊢; omega
      exact .inl (heq ▸ Nat.log2_self_le hn)

theorem wellFormed_ofUnits (neg : Bool) (n : Nat) (hden : 0 < den) :
    (ofUnits neg n den).WellFormed := by
  obtain ⟨hhigh, hlow⟩ := scaleFor_bounds (n / den)
  obtain ⟨hq, hq1⟩ := nearest_bounds n den (scaleFor (n / den))
  simp only [ofUnits, Nat.pow_eq]
  generalize scaleFor (n / den) = p at *
  have hd : 0 < den * 2 ^ p := Nat.mul_pos hden (Nat.two_pow_pos p)
  have hcomm (k : Nat) : 2 ^ (k + p) * den = 2 ^ k * (den * 2 ^ p) := by
    rw [Nat.pow_add, Nat.mul_assoc, Nat.mul_comm (2 ^ p)]
  have hmax : nearest n den p ≤ 2 ^ 53 := by
    rw [Nat.div_lt_iff_lt_mul hden, hcomm, ← Nat.div_lt_iff_lt_mul hd] at hhigh
    omega
  have hmin : 2 ^ 52 ≤ nearest n den p ∨ p = 0 := by
    rw [Nat.le_div_iff_mul_le hden, hcomm, ← Nat.le_div_iff_mul_le hd] at hlow
    exact hlow.imp_left fun h => h.trans hq
  generalize nearest n den p = m at *
  by_cases hm : m = 2 ^ 53
  · rw [if_pos hm]
    split
    next => trivial
    next hp =>
      exact ⟨Nat.pow_lt_pow_right (by decide) (by decide), .inl (Nat.le_refl _), Nat.not_lt.1 hp⟩
  · rw [if_neg hm]
    split
    next => trivial
    next hp => exact ⟨Nat.lt_of_le_of_ne hmax hm, hmin, Nat.not_lt.1 hp⟩

theorem wellFormed_zero (neg : Bool) : (zero neg).WellFormed := ⟨by decide, .inr rfl, by decide⟩

theorem wellFormed_ofRatio (neg : Bool) (num : Nat) (hden : 0 < den) :
    (ofRatio neg num den).WellFormed :=
  ofRatio_eq_ofUnits neg num den ▸ wellFormed_ofUnits neg _ hden

theorem wellFormed_ofDecimal (neg : Bool) (digits : Nat) (exponent : Int) :
    (ofDecimal neg digits exponent).WellFormed := by
  unfold ofDecimal
  split
  next => exact wellFormed_zero neg
  next =>
    dsimp only
    split
    next => trivial
    next =>
      split
      next => exact wellFormed_zero neg
      next =>
        split
        next => exact wellFormed_ofRatio neg _ Nat.one_pos
        next => exact wellFormed_ofRatio neg _ (Nat.pow_pos (by decide))

end Binary64

end ConfigReconcile.Decimal
