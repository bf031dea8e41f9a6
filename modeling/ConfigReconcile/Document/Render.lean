import ConfigReconcile.Document.Basic
import ConfigReconcile.Text.Quoted
import ConfigReconcile.Text.Literal

/-!
# Writing documents

A document is written as block-style YAML text:

* `prune`    drops what is empty and puts the keys of every mapping in order;
* `write`    lays a pruned tree out, two spaces a level, with a line feed after every leaf;
* `render`   does both, and gives nothing for a tree that is empty.

A leaf is a literal block if it spans lines and `Text.Literal.fits` it, plain if it is raw, and
else in double quotes, behind a core tag when it is a number, a float or a boolean.
-/

namespace ConfigReconcile

open Text

/-! ## leaves -/

namespace Scalar

/-- the core tag of a kind -/
def coreTag? : ScalarKind → Option String
  | .number => some "!!int"
  | .float => some "!!float"
  | .boolean => some "!!bool"
  | .string => none
  | .multilineString => none

/-- the scalar spans lines, or says it does -/
def isMultiline (s : Scalar) : Bool :=
  s.kind == .multilineString || s.value.toList.contains '\n'

/-- a scalar with its line feed; the lines of a literal block are indented by `indent` -/
def write (indent : Nat) (s : Scalar) : List Char :=
  let v := s.value.toList
  if s.isMultiline && Literal.fits v then Literal.block indent v
  else if s.raw && !s.isMultiline && !v.any isUnicodeBreak then v ++ ['\n']
  else
    match coreTag? s.kind with
    | some tag => tag.toList ++ ' ' :: Quoted.encode v ++ ['\n']
    | none => Quoted.encode v ++ ['\n']

end Scalar

/-! ## keys -/

/-- words that a reader may take for something other than a text -/
def reservedWords : List String :=
  ["true", "false", "null", "yes", "no", "on", "off", "y", "n", "~"]

/-- a key that needs no quotes: ASCII letters, digits, `_`, `-` and `.`, the first one a letter or
`_`, and no reserved word in any case -/
def isPlainKey (k : String) : Bool :=
  match k.toList with
  | [] => false
  | c :: cs =>
    (c.isAlpha || c == '_') &&
    cs.all (fun c => c.isAlphanum || c == '_' || c == '-' || c == '.') &&
    !reservedWords.contains (String.ofList (k.toList.map Char.toLower))

/-- a key as it stands before its colon -/
def writeKey (k : String) : List Char :=
  if isPlainKey k then k.toList else Quoted.encode k.toList

/-! ## pruning -/

namespace Entries

variable {α : Type}

/-- puts an entry before the first one with a greater key -/
def insertSorted (k : String) (v : α) : List (String × α) → List (String × α)
  | [] => [(k, v)]
  | (k', v') :: es => if k < k' then (k, v) :: (k', v') :: es else (k', v') :: insertSorted k v es

/-- the entries in ascending order of keys -/
def sort : List (String × α) → List (String × α)
  | [] => []
  | (k, v) :: es => insertSorted k v (sort es)

theorem insertSorted_perm (k : String) (v : α) (es : List (String × α)) :
    (insertSorted k v es).Perm ((k, v) :: es) := by
  induction es with
  | nil => exact .refl _
  | cons e es ih =>
    simp only [insertSorted]
    split
    · exact .refl _
    · exact (List.Perm.cons e ih).trans (List.Perm.swap _ _ _)

theorem sort_perm (es : List (String × α)) : (sort es).Perm es := by
  induction es with
  | nil => exact .refl _
  | cons e es ih => exact (insertSorted_perm e.1 e.2 _).trans (List.Perm.cons e ih)

end Entries

namespace Node

mutual

/-- the tree without nulls, empty texts and containers left empty, the keys of every mapping in
order; nothing if the whole tree goes -/
def prune : Node → Option Node
  | .null => none
  | .scalar s => if s.isEmpty then none else some (.scalar s)
  | .sequence items =>
    match pruneItems items with
    | [] => none
    | kept => some (.sequence kept)
  | .mapping entries =>
    match pruneEntries entries with
    | [] => none
    | kept => some (.mapping (Entries.sort kept))

def pruneItems : List Node → List Node
  | [] => []
  | n :: ns =>
    match n.prune with
    | some m => m :: pruneItems ns
    | none => pruneItems ns

def pruneEntries : List (String × Node) → List (String × Node)
  | [] => []
  | (k, n) :: es =>
    match n.prune with
    | some m => (k, m) :: pruneEntries es
    | none => pruneEntries es

end

/-! ## laying out -/

/-- the blanks before a line -/
def spaces (n : Nat) : List Char := List.replicate n ' '

mutual

/-- what stands after the colon of a key at indentation `indent` -/
def writeValue (indent : Nat) : Node → List Char
  | .null => ['\n']
  | .scalar s => ' ' :: s.write (indent + 2)
  | .sequence items => '\n' :: writeItems (indent + 2) (spaces (indent + 2)) items
  | .mapping entries => '\n' :: writeEntries (indent + 2) (spaces (indent + 2)) entries

/-- what stands after the dash of an item at indentation `indent` -/
def writeItem (indent : Nat) : Node → List Char
  | .null => ['n', 'u', 'l', 'l', '\n']
  | .scalar s => s.write (indent + 2)
  | .sequence items => writeItems (indent + 2) [] items
  | .mapping entries => writeEntries (indent + 2) [] entries

/-- the items of a sequence; `lead` stands before the first one, which may share a line with the
dash of an outer item -/
def writeItems (indent : Nat) (lead : List Char) : List Node → List Char
  | [] => []
  | n :: ns => lead ++ '-' :: ' ' :: writeItem indent n ++ writeItems indent (spaces indent) ns

/-- the entries of a mapping; `lead` as for items -/
def writeEntries (indent : Nat) (lead : List Char) : List (String × Node) → List Char
  | [] => []
  | (k, n) :: es =>
    lead ++ writeKey k ++ ':' :: writeValue indent n ++ writeEntries indent (spaces indent) es

end

/-- the lines of a pruned tree -/
def write : Node → List Char
  | .null => []
  | .scalar s => s.write 2
  | .sequence items => writeItems 0 [] items
  | .mapping entries => writeEntries 0 [] entries

/-- a tree as text; nothing if nothing is left once it is pruned -/
def render (n : Node) : Option String := n.prune.map fun m => String.ofList m.write

end Node

end ConfigReconcile
