import ConfigReconcile.Yaml.Tree.Basic

/-!
# Anchors and aliases

`Tree.link` goes through a tree in the order of its text and settles what each alias refers to.

Every anchor gets a NUMBER, the count of different names so far, and an alias the number that its
name has when it comes.  A name used again takes a new number; since it counts only once, a later
anchor may get a number that is in use, and the last node with a number is the one it stands for.
-/

namespace ConfigReconcile.Yaml

/-- a node with an anchor -/
structure Anchored where
  number : Nat
  /-- how many nodes with an anchor began before it -/
  order : Nat
  node : Tree Nat
  deriving Repr

/-- the anchors so far -/
structure Links where
  /-- the number that each name has now -/
  names : List (String × Nat)
  /-- how many nodes with an anchor began -/
  begun : Nat
  nodes : List Anchored
  deriving Repr

namespace Links

def none : Links := ⟨[], 0, []⟩

/-- the number of a name -/
def number? (l : Links) (name : String) : Option Nat := (l.names.find? (·.1 == name)).map (·.2)

/-- with one more anchor that begins: its number and its order -/
def anchor (l : Links) (name : String) : Nat × Nat × Links :=
  let n := l.names.length
  let names :=
    if l.names.any (·.1 == name) then l.names.map fun p => if p.1 == name then (name, n) else p
    else l.names ++ [(name, n)]
  (n, l.begun, { l with names := names, begun := l.begun + 1 })

/-- with the anchor of a node, if it has one; what it gives is needed when the node is done -/
def begin? (l : Links) (props : Properties) : Option (Nat × Nat) × Links :=
  match props.anchor? with
  | .none => (.none, l)
  | some name =>
    let (n, o, l) := l.anchor name
    (some (n, o), l)

/-- with a node that is done -/
def done (l : Links) (a? : Option (Nat × Nat)) (t : Tree Nat) : Links :=
  match a? with
  | .none => l
  | some (n, o) => { l with nodes := ⟨n, o, t⟩ :: l.nodes }

/-- the node that a number stands for: the one that began last -/
def node? (l : Links) (number : Nat) : Option (Tree Nat) :=
  let later (best : Option Anchored) (a : Anchored) : Option Anchored :=
    if a.number ≠ number then best
    else
      match best with
      | .none => some a
      | some b => if b.order < a.order then some a else some b
  (l.nodes.foldl later .none).map (·.node)

end Links

namespace Tree

mutual

/-- the tree with numbers for the names of its aliases, and the anchors -/
def link (l : Links) : Tree String → Except Fault (Tree Nat × Links)
  | .alias name =>
    match l.number? name with
    | none => .error .unknownAlias
    | some n => .ok (.alias n, l)
  | .scalar props style text =>
    let (a?, l) := l.begin? props
    let t : Tree Nat := .scalar props style text
    .ok (t, l.done a? t)
  | .sequence props items => do
    let (a?, l) := l.begin? props
    let (ts, l) ← linkItems l items
    let t : Tree Nat := .sequence props ts
    return (t, l.done a? t)
  | .mapping props entries => do
    let (a?, l) := l.begin? props
    let (es, l) ← linkEntries l entries
    let t : Tree Nat := .mapping props es
    return (t, l.done a? t)

def linkItems (l : Links) : List (Tree String) → Except Fault (List (Tree Nat) × Links)
  | [] => .ok ([], l)
  | t :: ts => do
    let (t, l) ← link l t
    let (ts, l) ← linkItems l ts
    return (t :: ts, l)

def linkEntries (l : Links) :
    List (Tree String × Tree String) → Except Fault (List (Tree Nat × Tree Nat) × Links)
  | [] => .ok ([], l)
  | (k, v) :: es => do
    let (k, l) ← link l k
    let (v, l) ← link l v
    let (es, l) ← linkEntries l es
    return ((k, v) :: es, l)

end

end Tree

/-- a document: its tree, its anchors, and how many aliases may be followed -/
structure Document where
  root : Tree Nat
  links : Links
  jumpLimit : Nat
  deriving Repr

/-- a tree with its aliases settled -/
def Document.ofTree (t : Tree String) : Except Fault Document := do
  let (root, links) ← t.link .none
  return ⟨root, links, 100 * t.eventCount⟩

namespace Document

/-- the node that an alias stands for, or the node itself; counts the aliases followed -/
def follow (d : Document) (jumps : Nat) : Tree Nat → Except Fault (Tree Nat × Nat)
  | .alias n =>
    if d.jumpLimit < jumps + 1 then .error .tooManyAliases
    else
      match d.links.node? n with
      | none => .error .unknownAlias
      | some t => .ok (t, jumps + 1)
  | t => .ok (t, jumps)

end Document

end ConfigReconcile.Yaml
