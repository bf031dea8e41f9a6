import ConfigReconcile.Text.Pieces

/-!
# Paths

A path is a text; what it names depends on its components alone.  Repeated and trailing slashes and
single dots do not count, save a dot at the front: `./a` is not `a`.  Two dots are kept.

* `components`            root, leading dot, double dots and names, in order;
* `key`, `p < q`          order by component: root, `.`, `..`, names by code points; a path stands
                          before its extensions;
* `p.parent?`             the path less its last component, cut out of the text;
* `p.join q`              `q` below `p`; an absolute `q` stands alone;
* `p.fileName?`           the last component, if it is a name;
* `p.extension?`          what follows the last dot of the file name, a leading dot apart.
-/

namespace ConfigReconcile

open Text

structure Path where
  text : String
  deriving DecidableEq, Repr, Inhabited

namespace Path

/-! ## components -/

/-- one step of a path -/
inductive Component where
  | root
  | current
  | up
  | name (s : List Char)
  deriving DecidableEq, Repr, Inhabited

/-- a piece between slashes that is no step: nothing, or one dot -/
def isIdle (piece : List Char) : Bool := piece = [] || piece = ['.']

/-- the step that a piece between slashes is, if any -/
def step? (piece : List Char) : Option Component :=
  if isIdle piece then none
  else if piece = ['.', '.'] then some .up
  else some (.name piece)

/-- the pieces between slashes, the first apart -/
def split (p : Path) : List Char × List (List Char) :=
  match pieces '/' p.text.toList with
  | [] => ([], [])
  | l :: ls => (l, ls)

def isAbsolute (p : Path) : Bool := p.text.toList.head? = some '/'

/-- the component that a path starts with, if its first piece is one -/
def front? (p : Path) : Option Component :=
  if p.isAbsolute then some .root
  else if p.split.1 = ['.'] then some .current
  else step? p.split.1

def components (p : Path) : List Component :=
  p.front?.toList ++ p.split.2.filterMap step?

/-! ## order -/

/-- the place of a component among all, as a list of numbers -/
def Component.code : Component → List Nat
  | .root => [0]
  | .current => [1]
  | .up => [2]
  | .name s => 3 :: s.map Char.toNat

/-- what paths are compared by -/
def key (p : Path) : List (List Nat) := p.components.map Component.code

instance : LT Path := ⟨fun p q => p.key < q.key⟩

instance (p q : Path) : Decidable (p < q) := inferInstanceAs (Decidable (p.key < q.key))

theorem lt_iff {p q : Path} : p < q ↔ p.key < q.key := Iff.rfl

theorem lt_irrefl (p : Path) : ¬p < p := List.lt_irrefl p.key

theorem lt_trans {p q r : Path} (h : p < q) (h' : q < r) : p < r := List.lt_trans h h'

theorem key_eq_of_not_lt {p q : Path} (h : ¬p < q) (h' : ¬q < p) : p.key = q.key :=
  List.le_antisymm (List.not_lt.1 h') (List.not_lt.1 h)

theorem Component.code_inj {a b : Component} (h : a.code = b.code) : a = b := by
  have inj : ∀ s t : List Char, s.map Char.toNat = t.map Char.toNat → s = t := fun s t e =>
    List.map_inj_right (fun x y hxy => Char.toNat_inj.1 hxy) |>.1 e
  cases a <;> cases b <;> simp_all [code]
  exact inj _ _ h

/-- two paths have the same place if they have the same components -/
theorem key_eq_iff {p q : Path} : p.key = q.key ↔ p.components = q.components :=
  List.map_inj_right fun _ _ h => Component.code_inj h

/-! ## cutting and joining -/

/-- the pieces behind the first up to the last step -/
def body (p : Path) : List (List Char) := (p.split.2.reverse.dropWhile isIdle).reverse

/-- the path less its last component, without idle pieces at the end; nothing is above the root -/
def parent? (p : Path) : Option Path :=
  if p.body = [] then
    if p.isAbsolute || p.text = "" then none else some ⟨""⟩
  else
    let rest := (p.body.dropLast.reverse.dropWhile isIdle).reverse
    if rest = [] ∧ p.isAbsolute then some ⟨"/"⟩
    else some ⟨String.ofList (glue '/' (p.split.1 :: rest))⟩

/-- the last component, if it is a name -/
def fileName? (p : Path) : Option (List Char) :=
  match p.components.getLast? with
  | some (.name s) => some s
  | _ => none

/-- what follows the last dot of the file name, unless that dot is its first character -/
def extension? (p : Path) : Option (List Char) :=
  match p.fileName? with
  | none => none
  | some name =>
    let tail := (name.reverse.takeWhile (· ≠ '.')).reverse
    if tail.length + 1 < name.length then some tail else none

/-- a path below another one -/
def join (p q : Path) : Path :=
  if q.isAbsolute then q
  else if p.text = "" ∨ p.text.toList.getLast? = some '/' then ⟨p.text ++ q.text⟩
  else ⟨p.text ++ "/" ++ q.text⟩

/-- the components of a path and of all that is above it -/
def ancestors (p : Path) : List (List Component) :=
  (List.range p.components.length).map fun i => p.components.take (i + 1)

end Path

end ConfigReconcile
