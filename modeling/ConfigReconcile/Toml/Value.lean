import ConfigReconcile.Calendar
import ConfigReconcile.Decimal.Numeral
import ConfigReconcile.Decimal.Word

/-!
# TOML values

`Value` is the data of a document.  What only has to be well formed to be passed over, a float or a
point in time, keeps no value of its own.

`ofScalar?` reads what stands between two marks and is neither a string nor a collection:
a boolean, a whole number of up to 128 bits, a float, or a point in time.
-/

namespace ConfigReconcile.Toml

open Decimal

inductive Value where
  | boolean (b : Bool)
  | integer (n : Int)
  | float
  | time
  | string (s : String)
  | array (items : List Value)
  | table (fields : List (String × Value))
  deriving Repr, Inhabited

/-! ## numbers -/

/-- digits without the underscores that stand between two of them; none if one stands elsewhere -/
def ungrouped? : List Char → Option (List Char)
  | [] => some []
  | '_' :: _ => none
  | [c] => some [c]
  | c :: '_' :: d :: cs => if d = '_' then none else (ungrouped? (d :: cs)).map (c :: ·)
  | c :: d :: cs => (ungrouped? (d :: cs)).map (c :: ·)

/-- digits of a base, perhaps grouped -/
def grouped? (base : Nat) (cs : List Char) : Option Nat :=
  (ungrouped? cs).bind (digits? base)

/-- a number without a leading zero -/
def plain? (cs : List Char) : Option Nat :=
  match cs with
  | '0' :: _ :: _ => none
  | cs => grouped? 10 cs

/-- a whole number; a base other than ten takes no sign -/
def integer? (cs : List Char) : Option Int :=
  match cs with
  | '0' :: 'x' :: ds => (grouped? 16 ds).map Int.ofNat
  | '0' :: 'o' :: ds => (grouped? 8 ds).map Int.ofNat
  | '0' :: 'b' :: ds => (grouped? 2 ds).map Int.ofNat
  | cs =>
    match sign cs with
    | (false, ds) => (plain? ds).map Int.ofNat
    | (true, ds) => (plain? ds).map fun n => -(n : Int)

/-- whether a text is a float: a whole part, then a fraction or an exponent or both; or a word.  A
float that is too large is none. -/
def isFloat (cs : List Char) : Bool :=
  let (neg, ds) := sign cs
  if ds = ['i', 'n', 'f'] || ds = ['n', 'a', 'n'] then true
  else
    let whole := ds.takeWhile fun c => c != '.' && c != 'e' && c != 'E'
    let rest := ds.dropWhile fun c => c != '.' && c != 'e' && c != 'E'
    let exponent? (cs : List Char) : Option Int :=
      match sign cs with
      | (false, es) => (grouped? 10 es).map Int.ofNat
      | (true, es) => (grouped? 10 es).map fun n => -(n : Int)
    let finite (n places : Nat) (exponent : Int) : Bool :=
      (Binary64.ofDecimal neg n (exponent - places)).isFinite
    match plain? whole, rest with
    | some n, '.' :: rest =>
      let fraction := rest.takeWhile fun c => c != 'e' && c != 'E'
      match ungrouped? fraction, grouped? 10 fraction,
        rest.dropWhile fun c => c != 'e' && c != 'E' with
      | some places, some f, [] => finite (n * Nat.pow 10 places.length + f) places.length 0
      | some places, some f, _ :: es =>
        match exponent? es with
        | some e => finite (n * Nat.pow 10 places.length + f) places.length e
        | none => false
      | _, _, _ => false
    | some n, _ :: es =>
      match exponent? es with
      | some e => finite n 0 e
      | none => false
    | _, _ => false

/-! ## points in time -/

/-- a number of a given count of digits, and what follows it -/
def places? (count : Nat) (cs : List Char) : Option (Nat × List Char) :=
  let ds := cs.take count
  if ds.length = count ∧ ds.all isDigit then (digits? 10 ds).map fun n => (n, cs.drop count)
  else none

/-- what stands behind a date -/
def afterDate? (cs : List Char) : Option (List Char) := do
  let (y, rest) ← places? 4 cs
  let (m, rest) ← places? 2 (← dash? rest)
  let (d, rest) ← places? 2 (← dash? rest)
  if Calendar.Date.isValid ⟨y, m, d⟩ then some rest else none
where
  dash? : List Char → Option (List Char)
    | '-' :: cs => some cs
    | _ => none

/-- what stands behind a time of day; the seconds may be left out -/
def afterTime? (cs : List Char) : Option (List Char) := do
  let (h, rest) ← places? 2 cs
  match rest with
  | ':' :: rest =>
    let (m, rest) ← places? 2 rest
    if h < 24 ∧ m < 60 then
      match rest with
      | ':' :: rest =>
        let (s, rest) ← places? 2 rest
        if 60 < s then none
        else
          match rest with
          | '.' :: c :: rest =>
            if isDigit c then some (rest.dropWhile isDigit) else none
          | rest => some rest
      | rest => some rest
    else none
  | _ => none

/-- whether a text is the distance of a clock from the common one, or nothing -/
def isOffset (cs : List Char) : Bool :=
  match cs with
  | [] => true
  | ['Z'] => true
  | ['z'] => true
  | c :: rest =>
    (c = '+' || c = '-') &&
      match places? 2 rest with
      | some (h, ':' :: rest) =>
        match places? 2 rest with
        | some (m, []) => h < 24 && m < 60
        | _ => false
      | _ => false

/-- whether a text is a date, a time of day or both -/
def isTime (cs : List Char) : Bool :=
  match afterDate? cs with
  | some [] => true
  | some (c :: rest) =>
    (c = 'T' || c = 't' || c = ' ') &&
      match afterTime? rest with
      | some rest => isOffset rest
      | none => false
  | none => afterTime? cs = some []

/-! ## scalars -/

/-- the value of a scalar by its spelling -/
def Value.ofScalar? (cs : List Char) : Option Value :=
  if cs = ['t', 'r', 'u', 'e'] then some (.boolean true)
  else if cs = ['f', 'a', 'l', 's', 'e'] then some (.boolean false)
  else
    match integer? cs with
    | some n => if fits 128 n then some (.integer n) else none
    | none =>
      if isFloat cs then some .float
      else if isTime cs then some .time
      else none

end ConfigReconcile.Toml
