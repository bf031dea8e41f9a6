import ConfigReconcile.Proofs.Document.RoundTrip

/-!
# What counts as nothing

Three walks over a tree decide it: pruning drops what is empty, `Node.isEmpty` asks for it, and
dropping tombstones takes part of it away.  They agree.

* `Node.Filled`            what may stand at a place of a tree if nothing there is empty;
* `Pruned.filled_of_sub?`  a pruned tree is such at all its places;
* `Node.write?`            the writer, but that it gives up where it meets a null;
* `Pruned.write?_eq`       on a pruned tree it never does;
* `prune_withoutTombstones`, `emptiness_agrees`   all three ways lead to the same text.
-/

namespace ConfigReconcile.Node

variable {n m c : Node} {s : Step} {p : List Step}

/-! ## places of a pruned tree -/

/-- no null, no empty text and no empty container, and the keys in strictly ascending order; nothing
is asked of what stands below -/
def Filled : Node → Prop
  | .null => False
  | .scalar s => s.value ≠ ""
  | .sequence items => items ≠ []
  | .mapping entries => entries ≠ [] ∧ (Entries.keys entries).Pairwise (· < ·)

theorem Pruned.filled (h : n.Pruned) : n.Filled := by
  cases n with
  | null => exact h
  | scalar s =>
    intro he
    have hs : s.value.isEmpty = false := h
    rw [he] at hs
    cases hs
  | sequence ns => exact ((pruned_sequence ns).1 h).1
  | mapping es =>
    obtain ⟨hne, hasc, -⟩ := (pruned_mapping es).1 h
    exact ⟨hne, hasc⟩

theorem Pruned.child? (h : n.Pruned) (hc : n.child? s = some c) : c.Pruned := by
  cases s with
  | key k =>
    obtain ⟨es, rfl, hg⟩ := eq_mapping_of_child? hc
    exact ((pruned_mapping es).1 h).2.2 (k, c) (Entries.mem_of_get? hg)
  | index i =>
    obtain ⟨ns, rfl, hg⟩ := eq_sequence_of_child? hc
    exact ((pruned_sequence ns).1 h).2 c (List.mem_of_getElem? hg)

theorem Pruned.filled_of_sub? (h : n.Pruned) (hc : n.sub? p = some c) : c.Filled := by
  induction p generalizing n with
  | nil =>
    cases hc
    exact h.filled
  | cons s p ih =>
    obtain ⟨d, hd, hp⟩ := Option.bind_eq_some_iff.1 hc
    exact ih (h.child? hd) hp

/-! ## a writer without an arm for null -/

mutual

/-- what stands after the colon of a key; nothing if there is a null in it -/
def writeValue? (indent : Nat) : Node → Option (List Char)
  | .null => none
  | .scalar s => some (' ' :: s.write (indent + 2))
  | .sequence items => (writeItems? (indent + 2) (spaces (indent + 2)) items).map ('\n' :: ·)
  | .mapping entries => (writeEntries? (indent + 2) (spaces (indent + 2)) entries).map ('\n' :: ·)

def writeItem? (indent : Nat) : Node → Option (List Char)
  | .null => none
  | .scalar s => some (s.write (indent + 2))
  | .sequence items => writeItems? (indent + 2) [] items
  | .mapping entries => writeEntries? (indent + 2) [] entries

def writeItems? (indent : Nat) (lead : List Char) : List Node → Option (List Char)
  | [] => some []
  | n :: ns => do
    let item ← writeItem? indent n
    let rest ← writeItems? indent (spaces indent) ns
    return lead ++ '-' :: ' ' :: item ++ rest

def writeEntries? (indent : Nat) (lead : List Char) : List (String × Node) → Option (List Char)
  | [] => some []
  | (k, n) :: es => do
    let value ← writeValue? indent n
    let rest ← writeEntries? indent (spaces indent) es
    return lead ++ writeKey k ++ ':' :: value ++ rest

end

/-- the lines of a tree; nothing if there is a null in it -/
def write? : Node → Option (List Char)
  | .null => none
  | .scalar s => some (s.write 2)
  | .sequence items => writeItems? 0 [] items
  | .mapping entries => writeEntries? 0 [] entries

/-- the writer meets no null in the tree, whatever it stands behind -/
def NeverNull (n : Node) : Prop :=
  ∀ indent, n.writeValue? indent = some (n.writeValue indent) ∧
    n.writeItem? indent = some (n.writeItem indent)

theorem writeItems?_eq {ns : List Node} (h : ∀ n ∈ ns, n.NeverNull) (indent : Nat)
    (lead : List Char) : writeItems? indent lead ns = some (writeItems indent lead ns) := by
  induction ns generalizing lead with
  | nil => rfl
  | cons n ns ih =>
    rw [List.forall_mem_cons] at h
    rw [writeItems?, (h.1 indent).2, ih h.2]
    rfl

theorem writeEntries?_eq {es : List (String × Node)} (h : ∀ e ∈ es, e.2.NeverNull) (indent : Nat)
    (lead : List Char) : writeEntries? indent lead es = some (writeEntries indent lead es) := by
  induction es generalizing lead with
  | nil => rfl
  | cons e es ih =>
    obtain ⟨k, n⟩ := e
    rw [List.forall_mem_cons] at h
    rw [writeEntries?, (h.1 indent).1, ih h.2]
    rfl

theorem Pruned.neverNull (h : n.Pruned) : n.NeverNull := by
  induction n with
  | null => exact h.elim
  | scalar s => exact fun indent => ⟨rfl, rfl⟩
  | sequence ns ih =>
    rw [pruned_sequence] at h
    have hns : ∀ n ∈ ns, n.NeverNull := fun n hn => ih n hn (h.2 n hn)
    intro indent
    rw [writeValue?, writeItem?, writeItems?_eq hns, writeItems?_eq hns]
    exact ⟨rfl, rfl⟩
  | mapping es ih =>
    rw [pruned_mapping] at h
    have hes : ∀ e ∈ es, e.2.NeverNull := fun e he => ih e he (h.2.2 e he)
    intro indent
    rw [writeValue?, writeItem?, writeEntries?_eq hes, writeEntries?_eq hes]
    exact ⟨rfl, rfl⟩

theorem Pruned.write?_eq (h : n.Pruned) : n.write? = some n.write := by
  cases n with
  | null => exact h.elim
  | scalar s => rfl
  | sequence ns =>
    rw [pruned_sequence] at h
    exact writeItems?_eq (fun n hn => (h.2 n hn).neverNull) 0 []
  | mapping es =>
    rw [pruned_mapping] at h
    exact writeEntries?_eq (fun e he => (h.2.2 e he).neverNull) 0 []

/-! ## tombstones and pruning -/

theorem pruneItems_withoutTombstones {ns : List Node}
    (h : ∀ n ∈ ns, n.withoutTombstones.prune = n.prune) :
    pruneItems (itemsWithoutTombstones ns) = pruneItems ns := by
  rw [itemsWithoutTombstones_eq_map, pruneItems_eq_filterMap, pruneItems_eq_filterMap,
    List.filterMap_map]
  exact List.filterMap_congr h

theorem pruneEntries_withoutTombstones {es : List (String × Node)}
    (h : ∀ e ∈ es, e.2.withoutTombstones.prune = e.2.prune) :
    pruneEntries (entriesWithoutTombstones es) = pruneEntries es := by
  induction es with
  | nil => rfl
  | cons e es ih =>
    obtain ⟨k, n⟩ := e
    rw [List.forall_mem_cons] at h
    have hn : n.withoutTombstones.prune = n.prune := h.1
    rw [entriesWithoutTombstones, pruneEntries]
    cases hnull : n.isNull with
    -- a tombstone is dropped here and is nothing to the writer
    | true =>
      rw [if_pos rfl, isNull_eq_true.1 hnull, ih h.2]
      rfl
    | false => rw [if_neg Bool.false_ne_true, pruneEntries, ih h.2, hn]

theorem prune_withoutTombstones (n : Node) : n.withoutTombstones.prune = n.prune := by
  induction n with
  | null => rfl
  | scalar s => rfl
  | sequence ns ih => rw [withoutTombstones, prune, prune, pruneItems_withoutTombstones ih]
  | mapping es ih => rw [withoutTombstones, prune, prune, pruneEntries_withoutTombstones ih]

theorem render_withoutTombstones (n : Node) : n.withoutTombstones.render = n.render := by
  rw [render, render, prune_withoutTombstones]

theorem bind_prune (h : n.WellKeyed) : n.prune.bind prune = n.prune := by
  cases hp : n.prune with
  | none => rfl
  | some m => exact prune_of_pruned (pruned_of_prune h hp)

theorem bind_render (h : n.WellKeyed) : n.prune.bind render = n.render := by
  have hb := bind_prune h
  cases hp : n.prune with
  | none => rw [render, hp]; rfl
  | some m =>
    rw [hp, Option.bind_some] at hb
    rw [Option.bind_some, render, render, hp, hb]

/-- **writing, the question for emptiness and the removal of tombstones agree**: nothing is written
exactly of what is empty, what is left of a tree has nothing empty at any place and is written
without an arm for null, pruning it again changes nothing, and with or without tombstones, pruned
before or not, the text is the same -/
theorem emptiness_agrees (n : Node) (h : n.WellKeyed) :
    (n.render = none ↔ n.isEmpty = true) ∧
      (∀ m, n.prune = some m →
        (∀ p c, m.sub? p = some c → c.Filled) ∧ m.write? = some m.write) ∧
      n.prune.bind prune = n.prune ∧
      n.render = n.withoutTombstones.render ∧ n.render = n.prune.bind render := by
  refine ⟨render_eq_none_iff h, ?_, bind_prune h, (render_withoutTombstones n).symm,
    (bind_render h).symm⟩
  intro m hm
  have hp := pruned_of_prune h hm
  exact ⟨fun p c hc => hp.filled_of_sub? hc, hp.write?_eq⟩

/-- containers that are empty only once their members are gone, nulls in sequences and under keys,
keys out of order -/
theorem emptiness_agrees_nested :
    let n : Node := .mapping [("z", .sequence [.null, .mapping [("b", .integer 2), ("a", .text "x")],
        .sequence [.mapping [("e", .null)]]]),
      ("gone", .mapping [("deep", .sequence [.text "", .mapping []])]), ("null", .null),
      ("k", .text "v")]
    let m : Node := .mapping [("k", .text "v"),
      ("z", .sequence [.mapping [("a", .text "x"), ("b", .integer 2)]])]
    let c : Node := .mapping [("a", .text "x"), ("b", .integer 2)]
    n.WellKeyed ∧ n.isEmpty = false ∧ n.prune = some m ∧ m.sub? [.key "z", .index 0] = some c ∧
      n.render ≠ none ∧ c.Filled ∧ m.write? = some m.write ∧ n.prune.bind prune = n.prune ∧
      n.render = n.withoutTombstones.render ∧ n.render = n.prune.bind render := by
  intro n m c
  have h : n.WellKeyed := by decide
  have hne : n.isEmpty = false := by decide
  have hm : n.prune = some m := rfl
  have hc : m.sub? [.key "z", .index 0] = some c := rfl
  obtain ⟨hnone, hfilled, hagain, htomb, hrender⟩ := emptiness_agrees n h
  refine ⟨h, hne, hm, hc, ?_, (hfilled m hm).1 _ c hc, (hfilled m hm).2, hagain, htomb, hrender⟩
  rw [Ne, hnone, hne]
  exact Bool.false_ne_true

end ConfigReconcile.Node
