import ConfigReconcile.Decimal.Word
import ConfigReconcile.Settings.Format
import ConfigReconcile.Yaml.Value

/-!
# Settings in YAML

Every scalar is a text where a text is wanted, whatever its type; booleans and numbers have to be
plain, or literal under their tag.  A record is a mapping or nothing at all, never a sequence; tags
on it do not count.

The layout is stricter, since its kind has to be known before its fields have a type: there each
scalar has its own type, and a tag of the document's own is an error.
-/

namespace ConfigReconcile

open Yaml

/-! ## values with types -/

/-- whether a tag of the document's own stands on a value or in it -/
def hasOwnTag : Yaml.Value → Bool
  | .tagged _ _ => true
  | .sequence items => anyItem items
  | .mapping entries => anyEntry entries
  | _ => false
where
  anyItem : List Yaml.Value → Bool
    | [] => false
    | v :: vs => hasOwnTag v || anyItem vs
  anyEntry : List (Yaml.Value × Yaml.Value) → Bool
    | [] => false
    | (k, v) :: es => hasOwnTag k || hasOwnTag v || anyEntry es

/-- a key; a natural number names a field by its position -/
def fieldKey : Yaml.Value → FieldKey
  | .string s => .name s
  | .integer n => if 0 ≤ n then .position n.toNat else .other
  | _ => .other

/-- YAML values by their types -/
def yamlFormat : Format Yaml.Value where
  parts? v :=
    match v with
    | .mapping es => some (.fields (es.map fun (k, v) => (fieldKey k, v)))
    | .sequence xs => some (.items xs)
    | _ => none
  boolean? v :=
    match v with
    | .bool b => some b
    | _ => none
  word? v :=
    match v with
    | .integer n => if 0 ≤ n then Decimal.word? n.toNat else none
    | _ => none
  text? v :=
    match v with
    | .string s => some s
    | _ => none
  isNull? v :=
    match v with
    | .null => some true
    | _ => some false

namespace Yaml.Document

variable (d : Document)

/-- the node that a node stands for -/
def target? (t : Tree Nat) : Option (Tree Nat) := (d.follow 0 t).toOption.map (·.1)

/-- the text of a scalar -/
def scalarText? (t : Tree Nat) : Option String :=
  match d.target? t with
  | some (.scalar _ _ text) => some text
  | _ => none

/-- the text of a scalar that may be of a type: a plain one, or a literal one under a tag -/
def typedText? (word : String) (t : Tree Nat) : Option String :=
  match d.target? t with
  | some (.scalar props style text) =>
    if style = .plain ∨ (style = .literal ∧ props.tag? = some (Value.coreTag word)) then some text
    else none
  | _ => none

/-! ## layouts -/

/-- the levels that a layout may have, below the settings and their section -/
def layoutLevels : Nat := maxLevels - 2

/-- a value inside a layout, one level below it -/
def content? (t : Tree Nat) : Option Yaml.Value :=
  match d.expand (layoutLevels - 1) 0 t with
  | .ok (v, _) => if hasOwnTag v then none else some v
  | .error _ => none

/-- a layout; its kind is a text, its other fields have types -/
def layout? (t : Tree Nat) : Option LayoutSetting :=
  match d.target? t with
  | some (.mapping props es) =>
    if (Value.localTag? props).isSome then none
    else do
      let es ← es.mapM fun (k, v) => do
        let k ← d.content? k
        some (fieldKey k, v)
      match es.filter (·.1 = .name "kind") with
      | [(_, k)] =>
        let rest ← (es.filter (·.1 ≠ .name "kind")).mapM fun (k, v) => do some (k, ← d.content? v)
        yamlFormat.layoutOfKind? (← d.scalarText? k) (.fields rest)
      | _ => none
  | some (.sequence props (k :: rest)) =>
    if (Value.localTag? props).isSome then none
    else do yamlFormat.layoutOfKind? (← d.scalarText? k) (.items (← rest.mapM d.content?))
  | _ => none

/-! ## settings -/

/-- the nodes of a document, read as what is wanted -/
def format : Format (Tree Nat) where
  parts? t :=
    match d.target? t with
    | some (.mapping _ es) => do
      some (.fields (← es.mapM fun (k, v) => do some (.name (← d.scalarText? k), v)))
    | some (.scalar _ .plain "") => some (.fields [])
    | _ => none
  boolean? t := (d.typedText? "bool" t).bind Yaml.boolean?
  word? t :=
    (d.typedText? "int" t).bind fun s =>
      match Decimal.sign s.toList with
      | (false, ds) => (magnitude? ds).bind Decimal.word?
      | (true, _) => none
  text? := d.scalarText?
  isNull? t :=
    match d.target? t with
    | some (.scalar props .plain text) =>
      match props.tag? with
      | none => some (text = "" || isNullWord text)
      | some tag =>
        if tag = Value.coreTag "null" then (if isNullWord text then some true else none)
        else some false
    | some _ => some false
    | none => none

end Yaml.Document

/-- the settings that a YAML document says; all defaults if there is none -/
def Settings.ofYaml? (text : String) : Option Settings :=
  match Yaml.Document.ofText text with
  | .ok (some d) => d.format.settings? d.layout? d.root
  | .ok none => some {}
  | .error _ => none

end ConfigReconcile
