import ConfigReconcile.Document.Basic
import ConfigReconcile.Json.Value

/-!
# Documents from JSON

* `Node.ofJson`       a JSON value as a document; numbers keep the text they are written with;
* `Scalar.ofJson?`    a scalar given by its three parts, as an object or as an array in the order
                      value, kind, raw.
-/

namespace ConfigReconcile

open Json

namespace Node

mutual

/-- a JSON value as a document -/
def ofJson : Json.Value → Node
  | .null => .null
  | .bool b => .boolean b
  | .number n => .numeral n.isReal n.write
  | .string s => .text s
  | .array items => .sequence (itemsOfJson items)
  | .object fields => .mapping (entriesOfJson fields)

def itemsOfJson : List Json.Value → List Node
  | [] => []
  | v :: vs => ofJson v :: itemsOfJson vs

def entriesOfJson : List (String × Json.Value) → List (String × Node)
  | [] => []
  | (k, v) :: fs => (k, ofJson v) :: entriesOfJson fs

end

end Node

/-- a scalar from its parts; fields beyond the three do not count -/
def Scalar.ofJson? (v : Json.Value) : Option Scalar :=
  match v with
  | .object fields =>
    ofParts? (Fields.get? fields "value") (Fields.get? fields "kind") (Fields.get? fields "raw")
  | .array [value, kind, raw] => ofParts? (some value) (some kind) (some raw)
  | _ => none
where
  ofParts? : Option Json.Value → Option Json.Value → Option Json.Value → Option Scalar
    | some (.string value), some (.string kind), some (.bool raw) =>
      (ScalarKind.ofName? kind).map fun k => ⟨value, k, raw⟩
    | _, _, _ => none

end ConfigReconcile
