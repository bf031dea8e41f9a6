import ConfigReconcile.Document.Basic
import ConfigReconcile.Text.Blank
import ConfigReconcile.Text.Utf8
import ConfigReconcile.Yaml.Printer

/-!
# Reading documents

* `Node.ofYaml`        a YAML value as a document.  The tags `!int`, `!float`, `!bool` and `!str`
                       set the kind of a scalar; a key becomes its text;
* `Node.parse`         the document that a text holds; a blank text is null;
* `Node.parseBytes`    the same from bytes.
-/

namespace ConfigReconcile

open Text

/-- why there is no document -/
inductive DocumentError where
  | notUtf8 (fault : Utf8.Fault)
  | notYaml (fault : Yaml.Fault)
  deriving DecidableEq, Repr

/-- the wording of an error -/
def DocumentError.message : DocumentError → String
  | .notUtf8 f => "Failed to parse document: document is not valid UTF-8: " ++ f.message
  | .notYaml _ => "Failed to parse document"

namespace Node

/-- the name of a tag: what stands behind its last colon, leading `!`s apart -/
def tagName (tag : String) : List Char :=
  let cs := tag.toList.dropWhile (· = '!')
  (cs.reverse.takeWhile (· ≠ ':')).reverse

/-- a node under a tag; only scalars heed it -/
def underTag (tag : String) (n : Node) : Node :=
  match n with
  | .scalar s =>
    let name := tagName tag
    if name = "int".toList then .scalar (.ofKind s.value .number)
    else if name = "float".toList then .scalar (.ofKind s.value .float)
    else if name = "bool".toList then .scalar (.ofKind s.value .boolean)
    else if name = "str".toList then .text s.value
    else n
  | _ => n

/-- the text of a key -/
def keyText (k : Yaml.Value) : String :=
  match k.scalarText? with
  | some (s, _) => s
  | none => k.print

mutual

/-- a YAML value as a document -/
def ofYaml : Yaml.Value → Node
  | .null => .null
  | .bool b => .boolean b
  | .integer n => .numeral false (toString n)
  | .float x => .numeral true (Decimal.Notation.yaml.write x)
  | .string s => .text s
  | .sequence items => .sequence (itemsOfYaml items)
  | .mapping entries => .mapping (Entries.ofList (entriesOfYaml entries))
  | .tagged tag v => underTag tag (ofYaml v)

def itemsOfYaml : List Yaml.Value → List Node
  | [] => []
  | v :: vs => ofYaml v :: itemsOfYaml vs

def entriesOfYaml : List (Yaml.Value × Yaml.Value) → List (String × Node)
  | [] => []
  | (k, v) :: es => (keyText k, ofYaml v) :: entriesOfYaml es

end

/-- the document that a text holds -/
def parse (text : String) : Except DocumentError Node :=
  if isBlankText text then .ok .null
  else
    match Yaml.Value.ofText text with
    | .ok v => .ok (ofYaml v)
    | .error f => .error (.notYaml f)

/-- the document that bytes hold -/
def parseBytes (bytes : Bytes) : Except DocumentError Node :=
  match Utf8.decode bytes with
  | .ok text => parse text
  | .error f => .error (.notUtf8 f)

end Node

end ConfigReconcile
