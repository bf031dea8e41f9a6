import ConfigReconcile.Proofs.Decimal.Rounding
import Mathlib.Algebra.Order.Field.Power
import Mathlib.Algebra.Order.Field.Rat
import Mathlib.Data.Rat.Cast.Order
import Mathlib.Tactic.Positivity
import Mathlib.Tactic.FieldSimp

/-!
# The shortest digits read back

* `Interval.Contains`          a number lies in the interval around a double;
* `Binary64.ofDecimal_eq`      every decimal in the interval around a double is read as that double;
* `contains_shortest`          the shortest digits are in it: on the grid of 17 digits there always
                               is a point.
-/

namespace ConfigReconcile.Decimal

/-! ## decimals and intervals -/

theorem quarters_bounds : 10 ^ 323 < quarters ∧ quarters < 10 ^ 324 := by decide +kernel

/-- the number that digits stand for -/
def Digits.value (d : Digits) : ℚ := d.digits * 10 ^ d.exponent

namespace Interval

/-- a number lies in the interval -/
def Contains (i : Interval) (x : ℚ) : Prop :=
  if i.closed then i.low ≤ x * quarters ∧ x * quarters ≤ i.high
  else i.low < x * quarters ∧ x * quarters < i.high

variable {i : Interval}

theorem Contains.bounds {x : ℚ} (h : i.Contains x) :
    i.low ≤ x * quarters ∧ x * quarters ≤ i.high := by
  unfold Contains at h
  split at h
  · exact h
  · exact ⟨h.1.le, h.2.le⟩

theorem contains_of_lt {x : ℚ} (hlow : i.low < x * quarters) (hhigh : x * quarters < i.high) :
    i.Contains x := by
  unfold Contains
  split
  · exact ⟨hlow.le, hhigh.le⟩
  · exact ⟨hlow, hhigh⟩

theorem holds_iff {num den : Nat} {x : ℚ} (hden : 0 < den) (hx : x * quarters = num / den) :
    i.holds num den = true ↔ i.Contains x := by
  have hd : (0 : ℚ) < den := Nat.cast_pos.2 hden
  have hle : i.low * den ≤ num ↔ (i.low : ℚ) ≤ num / den := by
    rw [le_div_iff₀ hd]; exact_mod_cast Iff.rfl
  have hlt : i.low * den < num ↔ (i.low : ℚ) < num / den := by
    rw [lt_div_iff₀ hd]; exact_mod_cast Iff.rfl
  have hge : num ≤ i.high * den ↔ (num : ℚ) / den ≤ i.high := by
    rw [div_le_iff₀ hd]; exact_mod_cast Iff.rfl
  have hgt : num < i.high * den ↔ (num : ℚ) / den < i.high := by
    rw [div_lt_iff₀ hd]; exact_mod_cast Iff.rfl
  unfold holds Contains
  rw [hx]
  split <;> simp only [Bool.and_eq_true, decide_eq_true_eq, hle, hlt, hge, hgt]

end Interval

/-! ## powers of ten -/

theorem zpow_toNat {k : Int} (h : 0 ≤ k) : (10 : ℚ) ^ k = ((10 ^ k.toNat : Nat) : ℚ) := by
  rw [Nat.cast_pow, ← zpow_natCast, Int.toNat_of_nonneg h]
  rfl

theorem zpow_neg_toNat {k : Int} (h : ¬0 ≤ k) :
    (10 : ℚ) ^ k = (((10 ^ (-k).toNat : Nat) : ℚ))⁻¹ := by
  rw [Nat.cast_pow, ← zpow_natCast, Int.toNat_of_nonneg (by omega), ← zpow_neg, neg_neg]
  rfl

theorem digitCount_bounds {n : Nat} (h : 0 < n) :
    (10 : ℚ) ^ ((Binary64.digitCount n : Int) - 1) ≤ n ∧
      (n : ℚ) < 10 ^ (Binary64.digitCount n : Int) := by
  have hiff {k : Nat} (hk : 0 < k) : Binary64.digitCount n ≤ k ↔ n < 10 ^ k :=
    Nat.length_toDigits_le_iff (by decide) hk
  obtain ⟨c, hc⟩ : ∃ c, Binary64.digitCount n = c + 1 :=
    ⟨_, (Nat.sub_add_cancel Nat.length_toDigits_pos).symm⟩
  have hpred : ((Binary64.digitCount n : Int) - 1) = c := by omega
  constructor
  · rw [hpred, zpow_natCast]
    have hle : 10 ^ c ≤ n := by
      cases c with
      | zero => exact h
      | succ c => exact Nat.not_lt.1 fun hlt => by have := (hiff (by omega)).2 hlt; omega
    exact_mod_cast hle
  · rw [zpow_natCast]
    exact_mod_cast (hiff (by omega)).1 (Nat.le_refl _)

/-! ## reading a decimal -/

namespace Binary64

variable {m p : Nat}

theorem around_bounds (hc : Canonical m p) (hm : m ≠ 0) :
    1 ≤ (Interval.around m p).low ∧ (Interval.around m p).high < 10 ^ 309 * quarters := by
  have hp {k : Nat} (hk : p ≤ k) : 2 ^ p ≤ 2 ^ k := Nat.pow_le_pow_right (by decide) hk
  have hlt := hc.lt
  have hmax : 2 ^ 55 * 2 ^ 2045 < 10 ^ 309 * quarters := by decide +kernel
  constructor
  · refine Nat.mul_pos ?_ (Nat.two_pow_pos p)
    split <;> omega
  · exact (Nat.mul_le_mul (by omega) (hp hc.le)).trans_lt hmax

theorem magnitude_of_contains (hc : Canonical m p) (hm : m ≠ 0) {x : ℚ}
    (h : (Interval.around m p).Contains x) :
    (10 : ℚ) ^ (-324 : Int) < x ∧ x < 10 ^ (309 : Int) := by
  obtain ⟨hlow, hhigh⟩ := h.bounds
  obtain ⟨h1, h2⟩ := around_bounds hc hm
  obtain ⟨hq1, hq2⟩ := quarters_bounds
  have hq : (0 : ℚ) < quarters := by exact_mod_cast Nat.lt_trans (Nat.pow_pos (by decide)) hq1
  have h1 : (1 : ℚ) ≤ x * quarters := le_trans (by exact_mod_cast h1) hlow
  have h2 : x * quarters < 10 ^ 309 * quarters := lt_of_le_of_lt hhigh (by exact_mod_cast h2)
  have hx : 0 < x := by by_contra hx; nlinarith
  constructor
  · have hq2 : (quarters : ℚ) < 10 ^ 324 := by exact_mod_cast hq2
    rw [zpow_neg, inv_lt_iff_one_lt_mul₀ (by positivity)]
    calc (1 : ℚ) ≤ x * quarters := h1
      _ < x * 10 ^ 324 := mul_lt_mul_of_pos_left hq2 hx
  · exact lt_of_mul_lt_mul_right h2 hq.le

/-- a decimal in the interval around a double has a magnitude for which it is computed -/
theorem top_bounds (hc : Canonical m p) (hm : m ≠ 0) {d : Digits}
    (h : (Interval.around m p).Contains d.value) :
    0 < d.digits ∧ digitCount d.digits + d.exponent ≤ 400 ∧
      -400 ≤ digitCount d.digits + d.exponent := by
  obtain ⟨hlow, hhigh⟩ := magnitude_of_contains hc hm h
  have hpos : 0 < d.digits := by
    refine Nat.pos_of_ne_zero fun h0 => ?_
    rw [Digits.value, h0, Nat.cast_zero, zero_mul] at hlow
    exact absurd hlow (not_lt.2 (by positivity))
  obtain ⟨hmin, hmax⟩ := digitCount_bounds hpos
  have hk : (0 : ℚ) < 10 ^ d.exponent := by positivity
  refine ⟨hpos, ?_, ?_⟩
  · have : (10 : ℚ) ^ ((digitCount d.digits : Int) - 1 + d.exponent) < 10 ^ (309 : Int) := by
      rw [zpow_add₀ (by norm_num)]
      exact (mul_le_mul_of_nonneg_right hmin hk.le).trans_lt hhigh
    have := (zpow_lt_zpow_iff_right₀ (by norm_num)).1 this
    omega
  · have : (10 : ℚ) ^ (-324 : Int) < 10 ^ ((digitCount d.digits : Int) + d.exponent) := by
      rw [zpow_add₀ (by norm_num)]
      exact hlow.trans (mul_lt_mul_of_pos_right hmax hk)
    have := (zpow_lt_zpow_iff_right₀ (by norm_num)).1 this
    omega

/-- every decimal in the interval around a double is read as that double -/
theorem ofDecimal_eq (neg : Bool) (hc : Canonical m p) (hm : m ≠ 0) {d : Digits}
    (h : (Interval.around m p).Contains d.value) :
    ofDecimal neg d.digits d.exponent = .finite neg m p := by
  obtain ⟨hpos, htop, hbot⟩ := top_bounds hc hm h
  rw [ofDecimal, if_neg (by omega)]
  dsimp only
  rw [if_neg (by omega), if_neg (by omega)]
  split
  next hk =>
    refine ofRatio_eq neg hc Nat.one_pos ((Interval.holds_iff Nat.one_pos ?_).2 h)
    rw [Digits.value, zpow_toNat hk, Nat.pow_eq]
    push_cast
    ring
  next hk =>
    have hden : 0 < 10 ^ (-d.exponent).toNat := Nat.pow_pos (by decide)
    refine ofRatio_eq neg hc hden ((Interval.holds_iff hden ?_).2 h)
    rw [Digits.value, zpow_neg_toNat hk]
    push_cast
    ring

end Binary64

/-! ## grids -/

namespace Interval

/-- `10 ^ k`, counted in quarters of the finest step, is a quotient of these -/
def gridNum (k : Int) : Nat := if 0 ≤ k then 10 ^ k.toNat * quarters else quarters

def gridDen (k : Int) : Nat := if 0 ≤ k then 1 else 10 ^ (-k).toNat

theorem quarters_pos : 0 < quarters := Nat.lt_trans (Nat.pow_pos (by decide)) quarters_bounds.1

theorem gridDen_pos (k : Int) : 0 < gridDen k := by
  unfold gridDen
  split
  · exact Nat.one_pos
  · exact Nat.pow_pos (by decide)

theorem gridNum_pos (k : Int) : 0 < gridNum k := by
  unfold gridNum
  split
  · exact Nat.mul_pos (Nat.pow_pos (by decide)) quarters_pos
  · exact quarters_pos

theorem grid_eq (k : Int) : (10 : ℚ) ^ k * quarters = gridNum k / gridDen k := by
  unfold gridNum gridDen
  split
  next h => rw [zpow_toNat h]; push_cast; ring
  next h => rw [zpow_neg_toNat h]; push_cast; ring

variable {i : Interval} {k : Int}

theorem holds_grid_iff (d : Nat) :
    i.holds (d * gridNum k) (gridDen k) = true ↔ i.Contains (Digits.value ⟨d, k⟩) := by
  refine holds_iff (gridDen_pos k) ?_
  rw [Digits.value, mul_assoc, grid_eq]
  push_cast
  ring

/-- the two points of the grid around the value are tried -/
theorem onGrid?_eq (i : Interval) (tieUp : Bool) (k : Int) :
    let v := i.value * gridDen k
    let d := v / gridNum k
    let r := v % gridNum k
    let below := i.holds (d * gridNum k) (gridDen k)
    let above := i.holds ((d + 1) * gridNum k) (gridDen k)
    i.onGrid? tieUp k =
      if below && above then
        if 2 * r < gridNum k then some d
        else if gridNum k < 2 * r then some (d + 1)
        else if tieUp then some (d + 1)
        else some (d + d % 2)
      else if below then some d
      else if above then some (d + 1)
      else none := by
  have hq : Nat.pow 2 1076 = quarters := by unfold quarters; rfl
  unfold onGrid?
  rw [hq]
  rfl

theorem contains_of_onGrid? {tieUp : Bool} {d : Nat} (h : i.onGrid? tieUp k = some d) :
    i.Contains (Digits.value ⟨d, k⟩) := by
  rw [onGrid?_eq] at h
  rw [← holds_grid_iff]
  generalize i.value * gridDen k / gridNum k = q at h
  split at h
  next hb =>
    rw [Bool.and_eq_true] at hb
    have hq : q + q % 2 = q ∨ q + q % 2 = q + 1 := by omega
    split at h
    next => cases h; exact hb.1
    next =>
      split at h
      next => cases h; exact hb.2
      next =>
        split at h
        next => cases h; exact hb.2
        next =>
          cases h
          rcases hq with hq | hq <;> rw [hq]
          · exact hb.1
          · exact hb.2
  next =>
    split at h
    next hb => cases h; exact hb
    next =>
      split at h
      next hb => cases h; exact hb
      next => cases h

theorem grid_around {d : Nat} (hd : i.value * gridDen k / gridNum k = d) :
    Digits.value ⟨d, k⟩ * quarters ≤ i.value ∧
      i.value < Digits.value ⟨d, k⟩ * quarters + 10 ^ k * quarters := by
  have hden : (0 : ℚ) < gridDen k := by exact_mod_cast gridDen_pos k
  have hv : Digits.value ⟨d, k⟩ * quarters = d * (gridNum k / gridDen k) := by
    rw [Digits.value, mul_assoc, grid_eq]
  have hle := Nat.div_mul_le_self (i.value * gridDen k) (gridNum k)
  have hlt := Nat.lt_div_mul_add (a := i.value * gridDen k) (gridNum_pos k)
  rw [hd] at hle hlt
  rw [hv, grid_eq]
  constructor
  · rw [← mul_div_assoc, div_le_iff₀ hden]
    exact_mod_cast hle
  · rw [← mul_div_assoc, ← add_div, lt_div_iff₀ hden]
    exact_mod_cast hlt

/-- on a grid finer than the interval there is a point -/
theorem isSome_onGrid? (tieUp : Bool) (hlow : i.low < i.value) (hhigh : i.value < i.high)
    (hk : (10 : ℚ) ^ k * quarters < i.high - i.low) : (i.onGrid? tieUp k).isSome = true := by
  rw [onGrid?_eq]
  generalize hd : i.value * gridDen k / gridNum k = d
  obtain ⟨hbelow, habove⟩ := grid_around hd
  have hsucc : Digits.value ⟨d + 1, k⟩ * quarters =
      Digits.value ⟨d, k⟩ * quarters + 10 ^ k * quarters := by
    simp only [Digits.value]; push_cast; ring
  have hlow' : (i.low : ℚ) < i.value := by exact_mod_cast hlow
  have hhigh' : (i.value : ℚ) < i.high := by exact_mod_cast hhigh
  have hor : i.holds (d * gridNum k) (gridDen k) = true ∨
      i.holds ((d + 1) * gridNum k) (gridDen k) = true := by
    rw [holds_grid_iff, holds_grid_iff]
    by_cases h : (i.low : ℚ) < Digits.value ⟨d, k⟩ * quarters
    · exact .inl (contains_of_lt h (by linarith))
    · exact .inr (contains_of_lt (by linarith) (by linarith))
  rcases hor with h | h <;> grind

/-- the value has as many digits before the point as its magnitude says, or more -/
theorem magnitude_le (h : 0 < i.value) : (10 : ℚ) ^ (i.magnitude - 1) * quarters ≤ i.value := by
  have hq : Nat.pow 2 1076 = quarters := by unfold quarters; rfl
  have hvalue := (digitCount_bounds h).1
  have hone := (digitCount_bounds quarters_pos).2
  unfold magnitude
  rw [hq]
  generalize Binary64.digitCount quarters = c at *
  generalize he : (Binary64.digitCount i.value : Int) - c = e
  dsimp only
  generalize hb : (if 0 ≤ e then decide (i.value < Nat.pow 10 e.toNat * quarters)
      else decide (i.value * Nat.pow 10 (-e).toNat < quarters)) = below
  cases below with
  | true =>
    have hexp : e - 1 + c = (Binary64.digitCount i.value : Int) - 1 := by omega
    calc (10 : ℚ) ^ (e - 1) * quarters
        ≤ 10 ^ (e - 1) * 10 ^ (c : Int) := mul_le_mul_of_nonneg_left hone.le (by positivity)
      _ = 10 ^ ((Binary64.digitCount i.value : Int) - 1) := by
          rw [← zpow_add₀ (by norm_num), hexp]
      _ ≤ i.value := hvalue
  | false =>
    show (10 : ℚ) ^ (e + 1 - 1) * quarters ≤ i.value
    rw [add_sub_cancel_right]
    split at hb
    next h0 =>
      rw [zpow_toNat h0]
      exact_mod_cast Nat.not_lt.1 (of_decide_eq_false hb)
    next h0 =>
      rw [zpow_neg_toNat h0, inv_mul_le_iff₀ (by positivity), mul_comm]
      exact_mod_cast Nat.not_lt.1 (of_decide_eq_false hb)

end Interval

/-! ## the shortest digits -/

namespace Digits

theorem value_trimFrom (fuel : Nat) (d : Digits) : (trimFrom fuel d).value = d.value := by
  induction fuel generalizing d with
  | zero => rfl
  | succ fuel ih =>
    rw [trimFrom]
    split
    next h =>
      rw [ih, value, value, zpow_add_one₀ (by norm_num)]
      have hd : d.digits = d.digits / 10 * 10 := by omega
      conv_rhs => rw [hd]
      push_cast
      ring
    next => rfl

/-- zeros at the end do not count -/
theorem value_trim (d : Digits) : d.trim.value = d.value := value_trimFrom 20 d

end Digits

section
open Binary64

variable {m p : Nat}

/-- the value lies inside the interval, which is wider than a 17th digit of it -/
theorem around_width (hc : Canonical m p) (hm : m ≠ 0) :
    (Interval.around m p).low < (Interval.around m p).value ∧
      (Interval.around m p).value < (Interval.around m p).high ∧
      (Interval.around m p).value + 10 ^ 16 * (Interval.around m p).low <
        10 ^ 16 * (Interval.around m p).high := by
  have hp := Nat.two_pow_pos p
  have hlt := hc.lt
  simp only [Interval.around, Nat.pow_eq, ← Nat.mul_assoc, ← Nat.add_mul]
  refine ⟨Nat.mul_lt_mul_of_pos_right ?_ hp, Nat.mul_lt_mul_of_pos_right ?_ hp,
    Nat.mul_lt_mul_of_pos_right ?_ hp⟩ <;> grind

/-- the shortest digits lie in the interval -/
theorem contains_shortest (tieUp : Bool) (hc : Canonical m p) (hm : m ≠ 0) :
    (Interval.around m p).Contains (shortest tieUp m p).value := by
  obtain ⟨hlow, hhigh, hwidth⟩ := around_width hc hm
  unfold shortest
  generalize Interval.around m p = i at *
  rw [Digits.value_trim]
  have hmag := Interval.magnitude_le (Nat.lt_of_le_of_lt (Nat.zero_le _) hlow)
  have hfine : (10 : ℚ) ^ (i.magnitude - (16 + 1 : Nat)) * quarters < i.high - i.low := by
    have hwidth : (i.value : ℚ) + 10 ^ 16 * i.low < 10 ^ 16 * i.high := by exact_mod_cast hwidth
    have hexp : (10 : ℚ) ^ (i.magnitude - 1) = 10 ^ 16 * 10 ^ (i.magnitude - (16 + 1 : Nat)) := by
      have h : i.magnitude - 1 = (16 : Nat) + (i.magnitude - (16 + 1 : Nat)) := by omega
      rw [h, zpow_add₀ (by norm_num), zpow_natCast]
    rw [hexp] at hmag
    linarith
  cases hfound : (List.range 17).findSome? fun (n : Nat) =>
      (i.onGrid? tieUp (i.magnitude - (n + 1 : Nat))).map fun d =>
        (⟨d, i.magnitude - (n + 1 : Nat)⟩ : Digits) with
  | none =>
    have hnone := List.findSome?_eq_none_iff.1 hfound 16 (by decide)
    have hsome := Interval.isSome_onGrid? tieUp hlow hhigh hfine
    rw [Option.map_eq_none_iff] at hnone
    rw [hnone] at hsome
    cases hsome
  | some d =>
    obtain ⟨n, -, hn⟩ := List.exists_of_findSome?_eq_some hfound
    obtain ⟨digits, hd, rfl⟩ := Option.map_eq_some_iff.1 hn
    exact Interval.contains_of_onGrid? hd

/-- the shortest digits read back -/
theorem ofDecimal_shortest (neg tieUp : Bool) (hc : Canonical m p) (hm : m ≠ 0) {d : Digits}
    (h : d.value = (shortest tieUp m p).value) :
    ofDecimal neg d.digits d.exponent = .finite neg m p :=
  ofDecimal_eq neg hc hm (h ▸ contains_shortest tieUp hc hm)

end

end ConfigReconcile.Decimal
