/-!
# Calendar

The Gregorian calendar, in which 1 January of year 0 is day 0, for years of either sign.

* `startOfYear`   the day on which a year begins;
* `yearOf`        the year of a day (`startOfYear_yearOf_le`, `lt_startOfYear_yearOf`);
* `Date.ofDay`    year, month and day of the month.
-/

namespace ConfigReconcile.Calendar

/-- the day on which a year begins: every fourth year is a leap year, save the hundredth ones that
are no four hundredth -/
def startOfYear (y : Int) : Int := 365 * y + (y + 3) / 4 - (y + 99) / 100 + (y + 399) / 400

/-- whether a year has a day more -/
def isLeapYear (y : Int) : Bool := startOfYear (y + 1) = startOfYear y + 366

/-- the year of a day -/
def yearOf (day : Int) : Int :=
  let y := 400 * day / 146097
  if day < startOfYear y then y - 1
  else if day < startOfYear (y + 1) then y
  else y + 1

theorem startOfYear_add_one (y : Int) :
    startOfYear (y + 1) = startOfYear y + 365 ∨ startOfYear (y + 1) = startOfYear y + 366 := by
  unfold startOfYear; omega

theorem startOfYear_yearOf_le (day : Int) : startOfYear (yearOf day) ≤ day := by
  have h : startOfYear (400 * day / 146097 - 1) ≤ day := by unfold startOfYear; omega
  simp only [yearOf]
  grind

theorem lt_startOfYear_yearOf (day : Int) : day < startOfYear (yearOf day + 1) := by
  have h : day < startOfYear (400 * day / 146097 + 2) := by unfold startOfYear; omega
  simp only [yearOf]
  split
  · simpa using ‹_›
  · split
    · assumption
    · rw [show 400 * day / 146097 + 1 + 1 = 400 * day / 146097 + 2 by omega]; exact h

/-- how long the months are -/
def monthLengths (leap : Bool) : List Nat :=
  [31, if leap then 29 else 28, 31, 30, 31, 30, 31, 31, 30, 31, 30, 31]

/-- the month and its day, `n` days after the start of month number `month` -/
def monthOf (month : Nat) (n : Nat) : List Nat → Nat × Nat
  | [] => (month, n + 1)
  | l :: ls => if n < l then (month, n + 1) else monthOf (month + 1) (n - l) ls

structure Date where
  year : Int
  month : Nat
  day : Nat
  deriving DecidableEq, Repr, Inhabited

/-- the date of a day -/
def Date.ofDay (day : Int) : Date :=
  let y := yearOf day
  let (m, d) := monthOf 1 (day - startOfYear y).toNat (monthLengths (isLeapYear y))
  ⟨y, m, d⟩

/-- whether there is a date -/
def Date.isValid (d : Date) : Bool :=
  1 ≤ d.month && 1 ≤ d.day &&
    match (monthLengths (isLeapYear d.year))[d.month - 1]? with
    | some l => d.day ≤ l
    | none => false

example : Date.ofDay 719528 = ⟨1970, 1, 1⟩ := by decide

example : Date.ofDay (-1) = ⟨-1, 12, 31⟩ := by decide

end ConfigReconcile.Calendar
