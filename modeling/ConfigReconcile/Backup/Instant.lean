import ConfigReconcile.Calendar
import ConfigReconcile.Decimal.Notation

/-!
# Instants

An instant is a count of seconds since the start of 1970 and a fraction of a second in nanoseconds.
A fraction of a second or more stands for a leap second, which only the last second of a minute
may have.  Instants lie in the years -262143 to 262142.

* `Instant.ofUnix?`   the instant of a count and a fraction, if there is one;
* `Instant.stamp`     its text to the millisecond, `20261018T093005.000Z`.
-/

namespace ConfigReconcile

open Decimal

/-- the day of a count of seconds since the start of 1970 -/
def dayOfUnix (seconds : Int) : Int := seconds / 86400 + Calendar.startOfYear 1970

/-- what makes an instant -/
def isInstant (seconds : Int) (nanos : Nat) : Bool :=
  nanos < 2000000000 && (nanos < 1000000000 || seconds % 60 = 59) &&
  Calendar.startOfYear (-262143) ≤ dayOfUnix seconds &&
  dayOfUnix seconds < Calendar.startOfYear 262143

structure Instant where
  seconds : Int
  nanos : Nat
  valid : isInstant seconds nanos = true
  deriving DecidableEq, Repr

namespace Instant

def ofUnix? (seconds : Int) (nanos : Nat) : Option Instant :=
  if h : isInstant seconds nanos then some ⟨seconds, nanos, h⟩ else none

instance : Inhabited Instant := ⟨0, 0, by decide⟩

def date (t : Instant) : Calendar.Date := .ofDay (dayOfUnix t.seconds)

/-- the seconds since midnight -/
def secondOfDay (t : Instant) : Nat := (t.seconds % 86400).toNat

/-! ## text -/

/-- a number with at least so many digits -/
def padded (width n : Nat) : List Char :=
  List.replicate (width - (Notation.digitsOf n).length) '0' ++ Notation.digitsOf n

/-- a year: four digits, or a sign and at least four -/
def yearText (y : Int) : List Char :=
  if 0 ≤ y ∧ y ≤ 9999 then padded 4 y.toNat
  else (if y < 0 then '-' else '+') :: padded 4 y.natAbs

/-- an instant to the millisecond; a leap second is second 60 -/
def stamp (t : Instant) : List Char :=
  let s := t.secondOfDay
  yearText t.date.year ++ padded 2 t.date.month ++ padded 2 t.date.day ++ 'T' ::
    (padded 2 (s / 3600) ++ padded 2 (s / 60 % 60) ++
      padded 2 (s % 60 + t.nanos / 1000000000) ++ '.' ::
      (padded 3 (t.nanos % 1000000000 / 1000000) ++ ['Z']))

end Instant

end ConfigReconcile
