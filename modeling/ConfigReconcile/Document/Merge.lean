import ConfigReconcile.Document.Basic

/-!
# Deep merge

`merge main update` lays the newly observed tree `update` over the accepted tree `main`:

* a null `update`, or a null `main`, leaves `main` as it is;
* mappings merge key by key: a null value removes its key, a new key goes to the end;
* sequences merge position by position, and what `main` has beyond `update` stays;
* in all other cases `update` takes the place of `main`, without its tombstones.

`Strategy` names the merges that a configuration can ask for.
-/

namespace ConfigReconcile

namespace Node

/-- two sequences or two mappings: values that merge in place -/
def mergesInPlace : Node → Node → Bool
  | .sequence _, .sequence _ => true
  | .mapping _, .mapping _ => true
  | _, _ => false

mutual

/-- the tree `update` laid over the tree `main` -/
def merge (main : Node) : Node → Node
  | .null => main
  | .scalar s => if main.isNull then main else .scalar s
  | .sequence items =>
    match main with
    | .null => .null
    | .sequence existing => .sequence (mergeItems existing items)
    | _ => .sequence (itemsWithoutTombstones items)
  | .mapping fields =>
    match main with
    | .null => .null
    | .mapping entries => .mapping (mergeFields entries fields)
    | _ => .mapping (entriesWithoutTombstones fields)

/-- sequences, position by position -/
def mergeItems (existing : List Node) : List Node → List Node
  | [] => existing
  | u :: us =>
    match existing with
    | [] => u.withoutTombstones :: mergeItems [] us
    | m :: ms => m.merge u :: mergeItems ms us

/-- mappings, field by field in the order of the update -/
def mergeFields (entries : List (String × Node)) : List (String × Node) → List (String × Node)
  | [] => entries
  | (k, u) :: fields =>
    let merged :=
      match Entries.get? entries k with
      | some m =>
        if m.mergesInPlace u then Entries.insert entries k (m.merge u)
        else if u.isNull then Entries.erase entries k
        else Entries.insert entries k u.withoutTombstones
      | none => if u.isNull then entries else Entries.insert entries k u.withoutTombstones
    mergeFields merged fields

end

theorem merge_null_right (main : Node) : main.merge .null = main := rfl

theorem merge_null_left (update : Node) : Node.null.merge update = .null := by
  cases update <;> rfl

theorem mergeItems_nil_right (ms : List Node) : mergeItems ms [] = ms := by
  cases ms <;> rfl

theorem mergeItems_cons (m u : Node) (ms us : List Node) :
    mergeItems (m :: ms) (u :: us) = m.merge u :: mergeItems ms us := rfl

end Node

/-! ## strategies -/

/-- a way to merge that has a name in the configuration -/
inductive Strategy where
  | deepMerge
  deriving DecidableEq, Repr, Inhabited

namespace Strategy

def name : Strategy → String
  | .deepMerge => "deep-merge"

/-- the strategy of a name -/
def ofName? (s : String) : Option Strategy :=
  if s = Strategy.deepMerge.name then some .deepMerge else none

/-- the merge that a strategy does -/
def merge : Strategy → Node → Node → Node
  | .deepMerge => Node.merge

end Strategy

end ConfigReconcile
