import ConfigReconcile.Yaml.Token
import ConfigReconcile.Yaml.Fault

/-!
# Syntax trees

* `Tree ref`    what a document says, before types and aliases are settled; an alias refers by
                `ref`, which is a name at first;
* `Properties`  the anchor and the tag before a node.
-/

namespace ConfigReconcile.Yaml

open Text

/-- what may stand before a node -/
structure Properties where
  anchor? : Option String
  tag? : Option Bytes
  deriving DecidableEq, Repr, Inhabited

namespace Properties

def none : Properties := ⟨.none, .none⟩

def isNone (p : Properties) : Bool := p.anchor?.isNone && p.tag?.isNone

/-- the tag `!` says no more than that there is a scalar -/
def forScalar (p : Properties) : Properties :=
  if p.tag? = some [33] then { p with tag? := .none } else p

end Properties

inductive Tree (ref : Type) where
  | alias (target : ref)
  | scalar (props : Properties) (style : Style) (text : String)
  | sequence (props : Properties) (items : List (Tree ref))
  | mapping (props : Properties) (entries : List (Tree ref × Tree ref))
  deriving Repr, Inhabited

namespace Tree

variable {ref : Type}

/-- a node that is not there -/
def empty (props : Properties) : Tree ref := .scalar props .plain ""

mutual

/-- how many events a tree is: one for a leaf, two for the ends of a collection -/
def eventCount : Tree ref → Nat
  | .alias _ => 1
  | .scalar _ _ _ => 1
  | .sequence _ items => 2 + itemsEventCount items
  | .mapping _ entries => 2 + entriesEventCount entries

def itemsEventCount : List (Tree ref) → Nat
  | [] => 0
  | t :: ts => t.eventCount + itemsEventCount ts

def entriesEventCount : List (Tree ref × Tree ref) → Nat
  | [] => 0
  | (k, v) :: es => k.eventCount + v.eventCount + entriesEventCount es

end

end Tree

end ConfigReconcile.Yaml
