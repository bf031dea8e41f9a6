import ConfigReconcile.Toml.Value

/-!
# Building tables

A document defines a table once: by a header, by dotted keys, or as a value in braces.  A header
`[a.b]` also makes the tables on its way, which a later header may still define.

* `openTable?`     a table of its own at a path;
* `openElement?`   one more table of a list at a path;
* `assign?`        a value at a dotted key;
* `within?`        a change of the table that the last header opened.

Each gives nothing if it would define something twice.
-/

namespace ConfigReconcile.Toml

/-- how a table came to be -/
inductive Origin where
  /-- on the way to another one -/
  | implicit
  | dotted
  | header
  deriving DecidableEq, Repr

/-- what stands at a key while the document is read -/
inductive Item where
  | value (v : Value)
  | table (origin : Origin) (fields : List (String × Item))
  | tables (list : List (List (String × Item)))
  deriving Repr, Inhabited

namespace Item

/-- the fields of a table -/
abbrev Fields := List (String × Item)

/-- changes what stands at a key; `f` gets what is there -/
def alter? (fs : Fields) (k : String) (f : Option Item → Option Item) : Option Fields :=
  match fs with
  | [] => (f none).map fun i => [(k, i)]
  | (k', i) :: fs =>
    if k' = k then (f (some i)).map fun i => (k, i) :: fs
    else (alter? fs k f).map ((k', i) :: ·)

/-- changes the last of some tables -/
def alterLast? (ts : List Fields) (f : Fields → Option Fields) : Option (List Fields) :=
  match ts.getLast? with
  | some fs => (f fs).map fun fs => ts.dropLast ++ [fs]
  | none => none

/-- goes through the tables on the way to the last key, making those that are not there -/
def descend? (f : String → Fields → Option Fields) : List String → Fields → Option Fields
  | [], _ => none
  | [k], fs => f k fs
  | k :: ks, fs =>
    alter? fs k fun
      | none => (descend? f ks []).map (.table .implicit)
      | some (.table o inner) => (descend? f ks inner).map (.table o)
      | some (.tables ts) => (alterLast? ts (descend? f ks)).map .tables
      | some (.value _) => none

/-- a table of its own at a path -/
def openTable? : List String → Fields → Option Fields :=
  descend? fun k fs =>
    alter? fs k fun
      | none => some (.table .header [])
      | some (.table .implicit inner) => some (.table .header inner)
      | some _ => none

/-- one more table of the list at a path -/
def openElement? : List String → Fields → Option Fields :=
  descend? fun k fs =>
    alter? fs k fun
      | none => some (.tables [[]])
      | some (.tables ts) => some (.tables (ts ++ [[]]))
      | some _ => none

/-- a value at a dotted key.  The table right above it is the current one or has come to be by
dotted keys. -/
def assign? (v : Value) : List String → Fields → Option Fields
  | [], _ => none
  | [k], fs =>
    alter? fs k fun
      | none => some (.value v)
      | some _ => none
  | k :: ks, fs =>
    alter? fs k fun
      | none => (assign? v ks []).map (.table .dotted)
      | some (.table .dotted inner) => (assign? v ks inner).map (.table .dotted)
      | some (.table .implicit inner) =>
        if ks.length = 1 then none else (assign? v ks inner).map (.table .implicit)
      | some (.tables ts) =>
        if ks.length = 1 then none else (alterLast? ts (assign? v ks)).map .tables
      | some _ => none

/-- a change of the table at a path -/
def within? (f : Fields → Option Fields) : List String → Fields → Option Fields
  | [], fs => f fs
  | k :: ks, fs =>
    alter? fs k fun
      | some (.table o inner) => (within? f ks inner).map (.table o)
      | some (.tables ts) => (alterLast? ts (within? f ks)).map .tables
      | _ => none

mutual

/-- the value of a table that is done -/
def toValue : Item → Value
  | .value v => v
  | .table _ fields => .table (fieldValues fields)
  | .tables list => .array (tableValues list)

def fieldValues : List (String × Item) → List (String × Value)
  | [] => []
  | (k, i) :: fs => (k, i.toValue) :: fieldValues fs

def tableValues : List (List (String × Item)) → List Value
  | [] => []
  | fs :: ts => .table (fieldValues fs) :: tableValues ts

end

end Item

end ConfigReconcile.Toml
