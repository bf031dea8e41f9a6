import ConfigReconcile.Decimal.Notation
import ConfigReconcile.Text.Quoted

/-!
# JSON values

* `Number`   a whole number that fits 64 bits, signed or unsigned, or else a double;
* `Value`    the data; the fields of an object are in ascending order of names, each once
             (`Fields.put`);
* `write`    the compact text of a value.
-/

namespace ConfigReconcile.Json

open Text Decimal

/-- a JSON number -/
inductive Number where
  | natural (n : Nat)
  /-- minus `n`, for a positive `n` -/
  | negative (n : Nat)
  | real (x : Binary64)
  deriving DecidableEq, Repr, Inhabited

namespace Number

def isReal : Number → Bool
  | .real _ => true
  | _ => false

/-- the text of a number -/
def write : Number → String
  | .natural n => String.ofList (Notation.digitsOf n)
  | .negative n => String.ofList ('-' :: Notation.digitsOf n)
  | .real x => Notation.json.write x

end Number

/-- JSON data -/
inductive Value where
  | null
  | bool (b : Bool)
  | number (n : Number)
  | string (s : String)
  | array (items : List Value)
  | object (fields : List (String × Value))
  deriving Repr, Inhabited

/-! ## fields -/

namespace Fields

variable {α : Type}

/-- sets a field; the names stay in ascending order -/
def put (fs : List (String × α)) (k : String) (v : α) : List (String × α) :=
  match fs with
  | [] => [(k, v)]
  | (k', v') :: fs =>
    if k = k' then (k, v) :: fs
    else if k < k' then (k, v) :: (k', v') :: fs
    else (k', v') :: put fs k v

/-- the field of a name -/
def get? (fs : List (String × α)) (k : String) : Option α := (fs.find? (·.1 == k)).map (·.2)

end Fields

/-! ## writing -/

namespace Value

/-- an object from fields in any order; of a repeated name the last one counts -/
def ofFields (fs : List (String × Value)) : Value :=
  .object (fs.foldl (fun o f => Fields.put o f.1 f.2) [])

mutual

/-- the text of a value, without blanks -/
def write : Value → List Char
  | .null => "null".toList
  | .bool b => if b then "true".toList else "false".toList
  | .number n => n.write.toList
  | .string s => writeString s
  | .array items => '[' :: writeItems false items
  | .object fields => '\x7b' :: writeFields false fields

/-- the items from here on and the closing bracket; `more` says that some came before -/
def writeItems (more : Bool) : List Value → List Char
  | [] => [']']
  | v :: vs => (if more then [','] else []) ++ v.write ++ writeItems true vs

def writeFields (more : Bool) : List (String × Value) → List Char
  | [] => ['\x7d']
  | (k, v) :: fs =>
    (if more then [','] else []) ++ writeString k ++ ':' :: v.write ++ writeFields true fs

/-- a string with the escapes of JSON, which has none for the Unicode line breaks -/
def writeString (s : String) : List Char :=
  '"' :: s.toList.flatMap (fun c => if c.toNat < 0x80 then Quoted.escape c else [c]) ++ ['"']

end

end Value

end ConfigReconcile.Json
