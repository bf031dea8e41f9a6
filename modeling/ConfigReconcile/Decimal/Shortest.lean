import ConfigReconcile.Decimal.Binary64

/-!
# The fewest digits that read back

Between a double and its neighbours lie the decimals that round to it.  `shortest` finds the one
with the fewest digits, and of those the nearest: for 1, 2, … 17 digits it tries the two points of
that decimal grid around the double.

Everything is counted in units of `2^-1076`, a quarter of the finest step of a double, so that the
ends of the interval are whole.
-/

namespace ConfigReconcile.Decimal

/-- a decimal `digits * 10^exponent` -/
structure Digits where
  digits : Nat
  exponent : Int
  deriving DecidableEq, Repr, Inhabited

namespace Digits

/-- the same decimal without zeros at the end; `fuel` bounds their number -/
def trimFrom : Nat → Digits → Digits
  | 0, d => d
  | fuel + 1, d =>
    if d.digits ≠ 0 ∧ d.digits % 10 = 0 then trimFrom fuel ⟨d.digits / 10, d.exponent + 1⟩ else d

def trim (d : Digits) : Digits := trimFrom 20 d

end Digits

/-- the decimals that round to a double, in units of `2^-1076` -/
structure Interval where
  low : Nat
  value : Nat
  high : Nat
  /-- the ends belong to it -/
  closed : Bool

namespace Interval

/-- around `m * 2^p`; the step below a power of two is half as wide -/
def around (m p : Nat) : Interval where
  low := (4 * m - (if m = Nat.pow 2 52 ∧ p ≠ 0 then 1 else 2)) * Nat.pow 2 p
  value := 4 * m * Nat.pow 2 p
  high := (4 * m + 2) * Nat.pow 2 p
  closed := m % 2 == 0

/-- `num / den` units lie in the interval -/
def holds (i : Interval) (num den : Nat) : Bool :=
  if i.closed then i.low * den ≤ num && num ≤ i.high * den
  else i.low * den < num && num < i.high * den

/-- the power of ten next above the value -/
def magnitude (i : Interval) : Int :=
  let e : Int := (Binary64.digitCount i.value : Int) - Binary64.digitCount (Nat.pow 2 1076)
  let below : Bool :=
    if 0 ≤ e then i.value < Nat.pow 10 e.toNat * Nat.pow 2 1076
    else i.value * Nat.pow 10 (-e).toNat < Nat.pow 2 1076
  if below then e else e + 1

/-- the point of the grid of multiples of `10^k` in the interval that is nearest to the value; of
two equally near ones the even one, or the greater one with `tieUp` -/
def onGrid? (i : Interval) (tieUp : Bool) (k : Int) : Option Nat :=
  -- a multiple `d` of the grid is `d * num / den` units
  let num := if 0 ≤ k then Nat.pow 10 k.toNat * Nat.pow 2 1076 else Nat.pow 2 1076
  let den := if 0 ≤ k then 1 else Nat.pow 10 (-k).toNat
  let v := i.value * den
  let d := v / num
  let r := v % num
  let below := i.holds (d * num) den
  let above := i.holds ((d + 1) * num) den
  if below && above then
    if 2 * r < num then some d
    else if num < 2 * r then some (d + 1)
    else if tieUp then some (d + 1)
    else some (d + d % 2)
  else if below then some d
  else if above then some (d + 1)
  else none

end Interval

/-- the digits of `m * 2^p` in units of `2^-1074`, for `m ≠ 0` -/
def shortest (tieUp : Bool) (m p : Nat) : Digits :=
  let i := Interval.around m p
  let e := i.magnitude
  let found := (List.range 17).findSome? fun (n : Nat) =>
    let k : Int := e - (n + 1 : Nat)
    (i.onGrid? tieUp k).map fun d => (⟨d, k⟩ : Digits)
  (found.getD ⟨i.value, -1076⟩).trim

end ConfigReconcile.Decimal
