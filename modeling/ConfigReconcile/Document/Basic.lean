/-!
# Documents

A configuration document is a tree of

* `null`       nothing here; as a mapping entry of an update it is a TOMBSTONE;
* `scalar`     a leaf, kept as text together with its `ScalarKind` and a `raw` flag;
* `sequence`   nodes in order;
* `mapping`    keys with nodes, in insertion order; a key occurs once (`Node.WellKeyed`).

`Node.isEmpty` says when nothing in a tree is worth writing, `Node.withoutTombstones` drops the
null entries of all mappings, and `Node.sameAs` compares trees up to the order of keys.
-/

namespace ConfigReconcile

/-! ## scalars -/

/-- how a scalar is tagged and quoted when it is written -/
inductive ScalarKind where
  | string
  | multilineString
  | number
  | float
  | boolean
  deriving DecidableEq, Repr, Inhabited

namespace ScalarKind

/-- every kind, in order of declaration -/
def all : List ScalarKind := [.string, .multilineString, .number, .float, .boolean]

/-- the name a kind has in data -/
def name : ScalarKind → String
  | .string => "string"
  | .multilineString => "multilineString"
  | .number => "number"
  | .float => "float"
  | .boolean => "boolean"

/-- the kind of a name, which has to be spelled exactly -/
def ofName? (s : String) : Option ScalarKind := all.find? (·.name == s)

end ScalarKind

/-- a typed leaf; the value stays in the text it was read in -/
structure Scalar where
  value : String
  kind : ScalarKind
  /-- written plain, without quotes or tag -/
  raw : Bool
  deriving DecidableEq, Repr, Inhabited

namespace Scalar

/-- a scalar that is quoted or tagged when written -/
def ofKind (value : String) (kind : ScalarKind) : Scalar := ⟨value, kind, false⟩

/-- a text; it is of the multi-line kind as soon as it holds a line feed -/
def text (value : String) : Scalar :=
  ofKind value (if '\n' ∈ value.toList then .multilineString else .string)

/-- the same scalar, to be written plain -/
def plain (s : Scalar) : Scalar := { s with raw := true }

def isEmpty (s : Scalar) : Bool := s.value.isEmpty

end Scalar

/-! ## trees -/

/-- a value in a document -/
inductive Node where
  | null
  | scalar (s : Scalar)
  | sequence (items : List Node)
  | mapping (entries : List (String × Node))
  deriving Repr, Inhabited

namespace Node

/-- a text leaf -/
def text (value : String) : Node := .scalar (.text value)

/-- a whole number, written plain in decimal -/
def integer (n : Int) : Node := .scalar (Scalar.ofKind (toString n) .number).plain

/-- a truth value, written plain -/
def boolean (b : Bool) : Node :=
  .scalar (Scalar.ofKind (if b then "true" else "false") .boolean).plain

/-- a number in a given spelling, written plain -/
def numeral (isFloat : Bool) (spelling : String) : Node :=
  .scalar (Scalar.ofKind spelling (if isFloat then .float else .number)).plain

def isNull : Node → Bool
  | .null => true
  | _ => false

def isMapping : Node → Bool
  | .mapping _ => true
  | _ => false

def isSequence : Node → Bool
  | .sequence _ => true
  | _ => false

def isScalar : Node → Bool
  | .scalar _ => true
  | _ => false

def asScalar? : Node → Option Scalar
  | .scalar s => some s
  | _ => none

def asSequence? : Node → Option (List Node)
  | .sequence items => some items
  | _ => none

def asMapping? : Node → Option (List (String × Node))
  | .mapping entries => some entries
  | _ => none

/-- the text of a scalar -/
def asText? (n : Node) : Option String := n.asScalar?.map (·.value)

end Node

/-! ## entries of a mapping -/

namespace Entries

variable {α : Type}

/-- the value under a key -/
def get? (es : List (String × α)) (k : String) : Option α :=
  match es with
  | [] => none
  | (k', v) :: es => if k' = k then some v else get? es k

/-- sets a key: in place when it is there, else at the end -/
def insert (es : List (String × α)) (k : String) (v : α) : List (String × α) :=
  match es with
  | [] => [(k, v)]
  | (k', v') :: es => if k' = k then (k', v) :: es else (k', v') :: insert es k v

/-- removes a key; the others keep their order -/
def erase (es : List (String × α)) (k : String) : List (String × α) :=
  match es with
  | [] => []
  | (k', v') :: es => if k' = k then es else (k', v') :: erase es k

/-- the keys in order -/
def keys (es : List (String × α)) : List String := es.map (·.1)

/-- entries from pairs: a repeated key keeps its first place and its last value -/
def ofList (ps : List (String × α)) : List (String × α) :=
  ps.foldl (fun es p => insert es p.1 p.2) []

theorem get?_cons (k' k : String) (v : α) (es : List (String × α)) :
    get? ((k', v) :: es) k = if k' = k then some v else get? es k := rfl

theorem keys_cons (k : String) (v : α) (es : List (String × α)) :
    keys ((k, v) :: es) = k :: keys es := rfl

theorem get?_insert_self (es : List (String × α)) (k : String) (v : α) :
    get? (insert es k v) k = some v := by
  induction es with
  | nil => simp [insert, get?]
  | cons p es ih =>
    obtain ⟨k', v'⟩ := p
    by_cases h : k' = k <;> simp [insert, get?, h, ih]

theorem get?_insert_of_ne (es : List (String × α)) {k j : String} (v : α) (h : j ≠ k) :
    get? (insert es k v) j = get? es j := by
  induction es with
  | nil => simp [insert, get?, Ne.symm h]
  | cons p es ih =>
    obtain ⟨k', v'⟩ := p
    rw [insert]
    split
    · next hk => subst hk; simp [get?, Ne.symm h]
    · simp only [get?_cons, ih]

theorem mem_keys_insert (es : List (String × α)) (k j : String) (v : α) :
    j ∈ keys (insert es k v) ↔ j ∈ keys es ∨ j = k := by
  induction es with
  | nil => simp [insert, keys]
  | cons p es ih =>
    obtain ⟨k', v'⟩ := p
    rw [insert]
    split
    · next hk =>
      subst hk
      simp only [keys_cons, List.mem_cons]
      grind
    · simp only [keys_cons, List.mem_cons, ih]
      grind

theorem nodup_keys_insert {es : List (String × α)} (h : (keys es).Nodup) (k : String) (v : α) :
    (keys (insert es k v)).Nodup := by
  induction es with
  | nil => simp [insert, keys]
  | cons p es ih =>
    obtain ⟨k', v'⟩ := p
    rw [keys_cons, List.nodup_cons] at h
    by_cases hk : k' = k
    · simpa [insert, hk, keys] using h
    · simp only [insert, hk, if_false, keys_cons, List.nodup_cons, mem_keys_insert]
      exact ⟨by simp [h.1], ih h.2⟩

end Entries

/-! ## queries -/

namespace Node

/-- the value under a key of a mapping -/
def get? (n : Node) (k : String) : Option Node := n.asMapping?.bind (Entries.get? · k)

/-- the element at an index of a sequence -/
def at? (n : Node) (i : Nat) : Option Node := n.asSequence?.bind (·[i]?)

mutual

/-- nothing worth writing: null, an empty text, or a container of such -/
def isEmpty : Node → Bool
  | .null => true
  | .scalar s => s.isEmpty
  | .sequence items => allEmpty items
  | .mapping entries => allEntriesEmpty entries

def allEmpty : List Node → Bool
  | [] => true
  | n :: ns => n.isEmpty && allEmpty ns

def allEntriesEmpty : List (String × Node) → Bool
  | [] => true
  | (_, n) :: es => n.isEmpty && allEntriesEmpty es

end

mutual

/-- the tree without the null entries of its mappings, at every depth; null elements of
sequences stay, so that positions keep their meaning -/
def withoutTombstones : Node → Node
  | .null => .null
  | .scalar s => .scalar s
  | .sequence items => .sequence (itemsWithoutTombstones items)
  | .mapping entries => .mapping (entriesWithoutTombstones entries)

def itemsWithoutTombstones : List Node → List Node
  | [] => []
  | n :: ns => n.withoutTombstones :: itemsWithoutTombstones ns

def entriesWithoutTombstones : List (String × Node) → List (String × Node)
  | [] => []
  | (k, n) :: es =>
    if n.isNull then entriesWithoutTombstones es
    else (k, n.withoutTombstones) :: entriesWithoutTombstones es

end

mutual

/-- keys are unique in every mapping of the tree -/
def WellKeyed : Node → Prop
  | .null => True
  | .scalar _ => True
  | .sequence items => AllWellKeyed items
  | .mapping entries => (Entries.keys entries).Nodup ∧ EntriesWellKeyed entries

def AllWellKeyed : List Node → Prop
  | [] => True
  | n :: ns => n.WellKeyed ∧ AllWellKeyed ns

def EntriesWellKeyed : List (String × Node) → Prop
  | [] => True
  | (_, n) :: es => n.WellKeyed ∧ EntriesWellKeyed es

end

mutual

/-- equality that does not look at the order of keys; for trees with unique keys -/
def sameAs : Node → Node → Bool
  | .null, .null => true
  | .scalar s, .scalar t => s == t
  | .sequence xs, .sequence ys => itemsSameAs xs ys
  | .mapping xs, .mapping ys => xs.length == ys.length && entriesWithin xs ys
  | _, _ => false

def itemsSameAs : List Node → List Node → Bool
  | [], [] => true
  | x :: xs, y :: ys => x.sameAs y && itemsSameAs xs ys
  | _, _ => false

/-- every entry of the first list is in the second -/
def entriesWithin : List (String × Node) → List (String × Node) → Bool
  | [], _ => true
  | (k, x) :: xs, ys =>
    (match Entries.get? ys k with
      | some y => x.sameAs y
      | none => false) && entriesWithin xs ys

end

theorem itemsWithoutTombstones_eq_map (ns : List Node) :
    itemsWithoutTombstones ns = ns.map withoutTombstones := by
  induction ns with
  | nil => rfl
  | cons n ns ih => rw [itemsWithoutTombstones, ih, List.map_cons]

theorem entriesWithoutTombstones_eq (es : List (String × Node)) :
    entriesWithoutTombstones es =
      (es.filter (!·.2.isNull)).map (fun e => (e.1, e.2.withoutTombstones)) := by
  induction es with
  | nil => rfl
  | cons e es ih =>
    obtain ⟨k, n⟩ := e
    by_cases h : n.isNull <;> simp [entriesWithoutTombstones, h, ih]

end Node

end ConfigReconcile
