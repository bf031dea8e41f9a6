import ConfigReconcile.Decimal.Shortest

/-!
# How floats are written

A `Notation` lists the choices that a format makes about the text of a double: where positional
notation ends, whether a whole number shows `.0`, how the exponent is signed, and the words for
what is not finite.  Three formats are in use:

* `yaml`    `1e16`, `.inf`, `.nan`;
* `json`    `1e+16`; what is not finite cannot occur;
* `plain`   positional throughout, without `.0`.
-/

namespace ConfigReconcile.Decimal

structure Notation where
  /-- the point may stand this many digits after the first one, without limit if absent -/
  maxWhole? : Option Nat
  /-- so many zeros may follow a leading `0.`, without limit if absent -/
  maxZeros? : Option Nat
  /-- `.0` after a whole number -/
  wholeSuffix : Bool
  /-- `+` before an exponent that is not negative -/
  plusSign : Bool
  /-- of two equally near shortest decimals the greater one -/
  tieUp : Bool
  infinity : String
  notANumber : String

namespace Notation

def yaml : Notation := ⟨some 16, some 4, true, false, false, ".inf", ".nan"⟩
def json : Notation := ⟨some 16, some 4, true, true, false, "", ""⟩
def plain : Notation := ⟨none, none, false, false, true, "inf", "NaN"⟩

/-- the decimal digits of a number -/
def digitsOf (n : Nat) : List Char := Nat.toDigits 10 n

def zeros (n : Nat) : List Char := List.replicate n '0'

/-- a limit that may be absent -/
def within (limit? : Option Nat) (n : Int) : Bool :=
  match limit? with
  | some l => n ≤ l
  | none => true

/-- digits, and how many of them stand before the point -/
def positional (f : Notation) (ds : List Char) (whole : Int) : List Char :=
  if whole ≤ 0 then '0' :: '.' :: zeros (-whole).toNat ++ ds
  else
    let w := whole.toNat
    if ds.length ≤ w then
      ds ++ zeros (w - ds.length) ++ (if f.wholeSuffix then ['.', '0'] else [])
    else ds.take w ++ '.' :: ds.drop w

/-- one digit, the others behind the point, and the exponent -/
def scientific (f : Notation) (ds : List Char) (whole : Int) : List Char :=
  let e := whole - 1
  let sign := if e < 0 then ['-'] else if f.plusSign then ['+'] else []
  let fraction := if ds.length ≤ 1 then [] else '.' :: ds.drop 1
  ds.take 1 ++ fraction ++ 'e' :: sign ++ digitsOf e.natAbs

/-- a decimal that is not zero -/
def decimal (f : Notation) (d : Digits) : List Char :=
  let ds := digitsOf d.digits
  let whole : Int := ds.length + d.exponent
  let fits := if 0 < whole then within f.maxWhole? whole else within f.maxZeros? (-whole)
  if fits then positional f ds whole else scientific f ds whole

def withSign (neg : Bool) (s : List Char) : List Char := if neg then '-' :: s else s

/-- the text of a double -/
def write (f : Notation) : Binary64 → String
  | .nan => f.notANumber
  | .infinite neg => String.ofList (withSign neg f.infinity.toList)
  | .finite neg m p =>
    let s :=
      if m = 0 then (if f.wholeSuffix then ['0', '.', '0'] else ['0'])
      else f.decimal (shortest f.tieUp m p)
    String.ofList (withSign neg s)

end Notation

end ConfigReconcile.Decimal
