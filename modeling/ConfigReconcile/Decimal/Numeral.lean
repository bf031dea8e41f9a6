import ConfigReconcile.Decimal.Binary64

/-!
# Reading numerals

* `digits?`    a number in a given base, digits only;
* `integer?`   an optional sign and decimal digits;
* `float?`     a decimal with optional sign, point and exponent, or `inf`, `infinity`, `nan`.
-/

namespace ConfigReconcile.Decimal

/-- the value of a digit, letters counting on from ten in either case -/
def digitValue? (c : Char) : Option Nat :=
  let n := c.toNat
  if 48 ≤ n ∧ n ≤ 57 then some (n - 48)
  else if 97 ≤ n ∧ n ≤ 122 then some (n - 87)
  else if 65 ≤ n ∧ n ≤ 90 then some (n - 55)
  else none

/-- the value of a digit below a base -/
def digitBelow? (base : Nat) (c : Char) : Option Nat := (digitValue? c).filter (· < base)

def isDigit (c : Char) : Bool := (digitBelow? 10 c).isSome

/-- the number that digits spell, most significant first; none without a digit -/
def digits? (base : Nat) : List Char → Option Nat
  | [] => none
  | cs => cs.foldlM (fun n c => (digitBelow? base c).map (base * n + ·)) 0

/-- a sign and the rest; no sign counts as plus -/
def sign : List Char → Bool × List Char
  | '-' :: cs => (true, cs)
  | '+' :: cs => (false, cs)
  | cs => (false, cs)

/-- a natural number: an optional plus and decimal digits -/
def natural? (cs : List Char) : Option Nat :=
  match sign cs with
  | (false, ds) => digits? 10 ds
  | (true, _) => none

/-- a whole number: an optional sign and decimal digits -/
def integer? (cs : List Char) : Option Int :=
  match sign cs with
  | (false, ds) => (digits? 10 ds).map Int.ofNat
  | (true, ds) => (digits? 10 ds).map fun n => -(n : Int)

/-- digits with an optional point among or around them: the digits, and how many follow the point;
at least one has to be there -/
def significand? (cs : List Char) : Option (Nat × Nat) :=
  let whole := cs.takeWhile isDigit
  match cs.dropWhile isDigit with
  | [] => (digits? 10 whole).map fun n => (n, 0)
  | '.' :: fraction => (digits? 10 (whole ++ fraction)).map fun n => (n, fraction.length)
  | _ => none

/-- an unsigned decimal with an optional exponent -/
def decimal? (neg : Bool) (cs : List Char) : Option Binary64 :=
  let mantissa := cs.takeWhile (fun c => c != 'e' && c != 'E')
  match cs.dropWhile (fun c => c != 'e' && c != 'E') with
  | [] => (significand? mantissa).map fun (n, k) => .ofDecimal neg n (-(k : Int))
  | _ :: exponent => do
    let (n, k) ← significand? mantissa
    let e ← integer? exponent
    return .ofDecimal neg n (e - k)

/-- a double from its text -/
def float? (cs : List Char) : Option Binary64 :=
  let (neg, ds) := sign cs
  let word := ds.map Char.toLower
  if word = ['i', 'n', 'f'] || word = ['i', 'n', 'f', 'i', 'n', 'i', 't', 'y'] then
    some (.infinite neg)
  else if word = ['n', 'a', 'n'] then some .nan
  else decimal? neg ds

end ConfigReconcile.Decimal
