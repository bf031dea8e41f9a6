import ConfigReconcile.Decimal.Word
import ConfigReconcile.Settings.Format
import ConfigReconcile.Toml.Reader

/-!
# Settings in TOML

A point in time counts as a record without known fields, and an array may be longer than the record
it stands for.
-/

namespace ConfigReconcile

/-- TOML values as they are -/
def tomlFormat : Format Toml.Value where
  parts? v :=
    match v with
    | .table fs => some (.fields (fs.map fun (k, v) => (.name k, v)))
    | .array xs => some (.items xs)
    | .time => some (.fields [])
    | _ => none
  boolean? v :=
    match v with
    | .boolean b => some b
    | _ => none
  word? v :=
    match v with
    | .integer n => if 0 ≤ n then Decimal.word? n.toNat else none
    | _ => none
  text? v :=
    match v with
    | .string s => some s
    | _ => none
  isNull? _ := some false
  surplus := true

/-- the settings that a TOML document says -/
def Settings.ofToml? (text : String) : Option Settings :=
  (Toml.Value.parse? text).bind (tomlFormat.settings? tomlFormat.layout?)

end ConfigReconcile
