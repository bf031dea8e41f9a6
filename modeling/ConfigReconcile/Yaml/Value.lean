import ConfigReconcile.Decimal.Numeral
import ConfigReconcile.Decimal.Word
import ConfigReconcile.Yaml.Tree.Links
import ConfigReconcile.Yaml.Tree.Assembly
import ConfigReconcile.Yaml.Token.Scanner

/-!
# Values

* `Value`              what a document says once types and aliases are settled;
* `Value.ofPlain`      the type of a plain scalar by its spelling: null, boolean, whole number of 64
                       bits, float, or else text;
* `Value.ofScalar`     the same for any scalar: quotes make it a text, a tag may set its type;
* `Document.expand`    the value of a tree, aliases followed, at most 128 levels deep;
* `Value.ofText`       the value that a text holds.
-/

namespace ConfigReconcile.Yaml

open Text Decimal

inductive Value where
  | null
  | bool (b : Bool)
  | integer (n : Int)
  | float (x : Binary64)
  | string (s : String)
  | sequence (items : List Value)
  | mapping (entries : List (Value × Value))
  /-- a value under a tag of the document's own -/
  | tagged (tag : String) (v : Value)
  deriving Repr, Inhabited

/-! ## scalars -/

/-- `true` and `false` in three cases -/
def boolean? (s : String) : Option Bool :=
  if s = "true" ∨ s = "True" ∨ s = "TRUE" then some true
  else if s = "false" ∨ s = "False" ∨ s = "FALSE" then some false
  else none

/-- a spelling of null -/
def isNullWord (s : String) : Bool := s = "null" || s = "Null" || s = "NULL" || s = "~"

/-- digits that are no number: a leading zero followed by digits alone -/
def hasLeadingZero (cs : List Char) : Bool :=
  match (sign cs).2 with
  | '0' :: c :: cs => (c :: cs).all Char.isDigit
  | _ => false

/-- the magnitude of a whole number: digits of base 16, 8 or 2 behind their mark, or of base 10 -/
def magnitude? : List Char → Option Nat
  | '0' :: 'x' :: cs => digits? 16 cs
  | '0' :: 'o' :: cs => digits? 8 cs
  | '0' :: 'b' :: cs => digits? 2 cs
  | cs => if hasLeadingZero cs then none else digits? 10 cs

/-- a whole number of any size -/
def wholeNumber? (cs : List Char) : Option Int :=
  match sign cs with
  | (false, ds) => (magnitude? ds).map Int.ofNat
  | (true, ds) => (magnitude? ds).map fun n => -(n : Int)

/-- a whole number if it fits 128 bits; it is an error not to fit 64 -/
def integer? (cs : List Char) : Option (Except Fault Int) :=
  match wholeNumber? cs with
  | none => none
  | some n =>
    if fits 64 n then some (.ok n)
    else if fits 128 n then some (.error .badValue)
    else none

/-- a float: a finite decimal, or one of the words for what is not finite -/
def float? (s : String) : Option Binary64 :=
  let cs := s.toList
  let unsigned := if cs.head? = some '+' then cs.drop 1 else cs
  if cs.head? = some '+' ∧ unsigned.head?.any (fun c => c == '+' || c == '-') then none
  else if [".inf", ".Inf", ".INF"].contains (String.ofList unsigned) then some (.infinite false)
  else if ["-.inf", "-.Inf", "-.INF"].contains s then some (.infinite true)
  else if [".nan", ".NaN", ".NAN"].contains s then some .nan
  else (Decimal.float? unsigned).filter Binary64.isFinite

namespace Value

/-- the value of a plain scalar -/
def ofPlain (s : String) : Except Fault Value :=
  if s.isEmpty || isNullWord s then .ok .null
  else
    match boolean? s with
    | some b => .ok (.bool b)
    | none =>
      match integer? s.toList with
      | some r => r.map .integer
      | none =>
        if hasLeadingZero s.toList then .ok (.string s)
        else
          match float? s with
          | some x => .ok (.float x)
          | none => .ok (.string s)

/-- the value of a scalar whose tag does not count -/
def ofUntagged (style : Style) (s : String) : Except Fault Value :=
  if style = .plain then ofPlain s else .ok (.string s)

/-- a tag of the schema that fixes the type of a scalar -/
def coreTag (word : String) : Bytes := Utf8.encode ("tag:yaml.org,2002:" ++ word)

/-- a tag of the document's own, without its `!` -/
def localTag? (props : Properties) : Option String :=
  match props.tag? with
  | some (33 :: bytes) =>
    match Utf8.decode (if bytes = [] then [33] else bytes) with
    | .ok s => some s
    | .error _ => none
  | _ => none

/-- the value of a scalar under its tag, which is not the document's own -/
def ofTyped (props : Properties) (style : Style) (s : String) : Except Fault Value :=
  let typed {α : Type} (r : Option α) (mk : α → Value) : Except Fault Value :=
    match r with
    | some a => .ok (mk a)
    | none => .error .badValue
  match props.tag? with
  | none => ofUntagged style s
  | some tag =>
    if tag = coreTag "bool" then typed (boolean? s) .bool
    else if tag = coreTag "int" then
      match integer? s.toList with
      | some r => r.map .integer
      | none => .error .badValue
    else if tag = coreTag "float" then typed (float? s) .float
    else if tag = coreTag "null" then (if isNullWord s then .ok .null else .error .badValue)
    else if tag.head? = some 33 then ofUntagged style s
    else .ok (.string s)

/-- the value of a scalar -/
def ofScalar (props : Properties) (style : Style) (s : String) : Except Fault Value :=
  match localTag? props with
  | some tag => (ofUntagged style s).map (.tagged tag)
  | none => ofTyped props style s

/-- under the document's own tag, if there is one -/
def underTag (props : Properties) (v : Value) : Value :=
  match localTag? props with
  | some tag => .tagged tag v
  | none => v

/-! ## equality -/

/-- the tag without one `!` -/
def bareTag (tag : String) : List Char :=
  match tag.toList with
  | '!' :: c :: cs => c :: cs
  | cs => cs

mutual

/-- equality of values; the order of entries does not count -/
def same : Value → Value → Bool
  | .null, .null => true
  | .bool a, .bool b => a == b
  | .integer m, .integer n => m == n
  | .float x, .float y => x.same y
  | .string s, .string t => s == t
  | .sequence xs, .sequence ys => sameItems xs ys
  | .mapping xs, .mapping ys => xs.length == ys.length && within xs ys
  | .tagged a x, .tagged b y => bareTag a == bareTag b && x.same y
  | _, _ => false

def sameItems : List Value → List Value → Bool
  | [], [] => true
  | x :: xs, y :: ys => x.same y && sameItems xs ys
  | _, _ => false

/-- every entry of the first list is in the second -/
def within : List (Value × Value) → List (Value × Value) → Bool
  | [], _ => true
  | (k, v) :: xs, ys => ys.any (fun e => k.same e.1 && v.same e.2) && within xs ys

end

mutual

/-- no mapping has a key twice -/
def hasUniqueKeys : Value → Bool
  | .sequence items => itemsHaveUniqueKeys items
  | .mapping entries => distinct (entries.map (·.1)) && entriesHaveUniqueKeys entries
  | .tagged _ v => v.hasUniqueKeys
  | _ => true

def itemsHaveUniqueKeys : List Value → Bool
  | [] => true
  | v :: vs => v.hasUniqueKeys && itemsHaveUniqueKeys vs

def entriesHaveUniqueKeys : List (Value × Value) → Bool
  | [] => true
  | (k, v) :: es => k.hasUniqueKeys && v.hasUniqueKeys && entriesHaveUniqueKeys es

def distinct : List Value → Bool
  | [] => true
  | k :: ks => !ks.any (fun j => k.same j) && distinct ks

end

end Value

/-! ## documents -/

namespace Document

/-- how many levels a reader follows -/
def maxLevels : Nat := 128

/-- the value of a tree, collections nested at most `levels` deep, and how many aliases have been
followed, `jumps` of them before -/
def expand (d : Document) (levels : Nat) (jumps : Nat) (t : Tree Nat) :
    Except Fault (Value × Nat) := do
  let (t, jumps) ← d.follow jumps t
  match t with
  | .alias _ => .error .unknownAlias
  | .scalar props style text => return (← Value.ofScalar props style text, jumps)
  | .sequence props items =>
    match levels with
    | 0 => .error .tooDeep
    | levels + 1 => do
      let (vs, jumps) ← items.foldlM (fun (vs, jumps) t => do
        let (v, jumps) ← d.expand levels jumps t
        return (v :: vs, jumps)) (([] : List Value), jumps)
      return (.underTag props (.sequence vs.reverse), jumps)
  | .mapping props entries =>
    match levels with
    | 0 => .error .tooDeep
    | levels + 1 => do
      let (es, jumps) ← entries.foldlM (fun (es, jumps) (k, v) => do
        let (k, jumps) ← d.expand levels jumps k
        let (v, jumps) ← d.expand levels jumps v
        return ((k, v) :: es, jumps)) (([] : List (Value × Value)), jumps)
      return (.underTag props (.mapping es.reverse), jumps)
  termination_by structural levels

/-- the document that a text holds, if there is one -/
def ofText (s : String) : Except Fault (Option Document) := do
  match ← Tree.ofTokens (← Token.ofText s.toList) with
  | none => return none
  | some t => return some (← Document.ofTree t)

/-- the value of a document -/
def value (d : Document) : Except Fault Value := do
  let (v, _) ← d.expand maxLevels 0 d.root
  if v.hasUniqueKeys then return v else .error .duplicateKey

end Document

/-- the value that a text holds; null if there is no document -/
def Value.ofText (s : String) : Except Fault Value := do
  match ← Document.ofText s with
  | none => return .null
  | some d => d.value

end ConfigReconcile.Yaml
