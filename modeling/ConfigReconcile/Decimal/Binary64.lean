/-!
# Double-precision numbers

A double is kept as integers: `finite neg m p` is `m * 2^p` in units of `2^-1074`, with a minus
sign if `neg`; `m` is below `2^53`, and at least `2^52` unless `p = 0`.

* `ofRatio`     a quotient of naturals, rounded to nearest, ties to even;
* `ofDecimal`   the same of `digits * 10^exponent`;
* `mul`, `div`  products and quotients, rounded the same way;
* `same`        equality that takes the two zeros, and all NaNs, for one.
-/

namespace ConfigReconcile.Decimal

inductive Binary64 where
  | finite (neg : Bool) (m p : Nat)
  | infinite (neg : Bool)
  | nan
  deriving DecidableEq, Repr, Inhabited

namespace Binary64

def zero (neg : Bool) : Binary64 := .finite neg 0 0

def isFinite : Binary64 → Bool
  | .finite _ _ _ => true
  | _ => false

/-- a zero of either sign -/
def isZero : Binary64 → Bool
  | .finite _ m _ => m == 0
  | _ => false

def negate : Binary64 → Binary64
  | .finite neg m p => .finite (!neg) m p
  | .infinite neg => .infinite (!neg)
  | .nan => .nan

/-- the scale at which a whole number of units has at most 53 bits -/
def scaleFor (units : Nat) : Nat := Nat.log2 units - 52

/-- the significand nearest to `num / den` at scale `p`, ties to even -/
def nearest (num den p : Nat) : Nat :=
  let d := den * Nat.pow 2 p
  let m := num / d
  let r := num % d
  if 2 * r < d then m else if d < 2 * r then m + 1 else m + m % 2

/-- the double nearest to a quotient -/
def ofRatio (neg : Bool) (num den : Nat) : Binary64 :=
  let n := num * Nat.pow 2 1074
  let p := scaleFor (n / den)
  let m := nearest n den p
  let (m, p) := if m = Nat.pow 2 53 then (Nat.pow 2 52, p + 1) else (m, p)
  if 2045 < p then .infinite neg else .finite neg m p

/-- how many decimal digits a number has -/
def digitCount (n : Nat) : Nat := (Nat.toDigits 10 n).length

/-- the double nearest to `digits * 10^exponent`; what is clearly too large or too small is
settled without computing the power -/
def ofDecimal (neg : Bool) (digits : Nat) (exponent : Int) : Binary64 :=
  if digits = 0 then zero neg
  else
    let top := digitCount digits + exponent
    if 400 < top then .infinite neg
    else if top < -400 then zero neg
    else if 0 ≤ exponent then ofRatio neg (digits * Nat.pow 10 exponent.toNat) 1
    else ofRatio neg digits (Nat.pow 10 (-exponent).toNat)

def mul : Binary64 → Binary64 → Binary64
  | .finite s m p, .finite t n q => ofRatio (s != t) (m * n * Nat.pow 2 (p + q)) (Nat.pow 2 2148)
  | .nan, _ => .nan
  | _, .nan => .nan
  | .infinite s, .infinite t => .infinite (s != t)
  | .infinite s, .finite t n _ => if n = 0 then .nan else .infinite (s != t)
  | .finite s m _, .infinite t => if m = 0 then .nan else .infinite (s != t)

def div : Binary64 → Binary64 → Binary64
  | .finite s m p, .finite t n q =>
    if n = 0 then (if m = 0 then .nan else .infinite (s != t))
    else ofRatio (s != t) (m * Nat.pow 2 p) (n * Nat.pow 2 q)
  | .nan, _ => .nan
  | _, .nan => .nan
  | .infinite _, .infinite _ => .nan
  | .infinite s, .finite t _ _ => .infinite (s != t)
  | .finite s _ _, .infinite t => zero (s != t)

/-- equality of values: the zeros are one, and so are the NaNs -/
def same (x y : Binary64) : Bool := x == y || (x.isZero && y.isZero)

end Binary64

end ConfigReconcile.Decimal
