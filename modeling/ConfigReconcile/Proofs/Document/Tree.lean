import ConfigReconcile.Proofs.Document.Entries

/-!
# Trees: induction, and places in them

* `Node.induct`     induction on a tree, with one hypothesis for all elements of a sequence and one
                    for all values of a mapping;
* `Step`, `Node.child?`, `Node.sub?`   a PLACE is a list of steps from the root down, each a key or
                    an index; `n.sub? p` is what the tree `n` holds at `p`;
* `wellKeyed_of_sub?`   what a tree with unique keys holds has unique keys.

Tombstones are dropped one level at a time: `child?_withoutTombstones` says what is left of each
child, and `sub?_withoutTombstones_*` follow it down to a place.
-/

namespace ConfigReconcile

namespace Node

/-! ## induction -/

@[elab_as_elim, induction_eliminator]
theorem induct {P : Node → Prop} (null : P .null) (scalar : ∀ s, P (.scalar s))
    (sequence : ∀ items, (∀ n ∈ items, P n) → P (.sequence items))
    (mapping : ∀ entries, (∀ e ∈ entries, P e.2) → P (.mapping entries)) : ∀ n, P n
  | .null => null
  | .scalar s => scalar s
  | .sequence items => sequence items fun n _ => induct null scalar sequence mapping n
  | .mapping entries => mapping entries fun e _ => induct null scalar sequence mapping e.2
decreasing_by
  · next h =>
    have := List.sizeOf_lt_of_mem h
    simp only [Node.sequence.sizeOf_spec]
    omega
  · next h =>
    obtain ⟨k, n⟩ := e
    have := List.sizeOf_lt_of_mem h
    simp only [Node.mapping.sizeOf_spec, Prod.mk.sizeOf_spec] at *
    omega

/-! ## unique keys -/

theorem allWellKeyed_iff (ns : List Node) : AllWellKeyed ns ↔ ∀ n ∈ ns, n.WellKeyed := by
  induction ns with
  | nil => simp [AllWellKeyed]
  | cons n ns ih => rw [AllWellKeyed, ih, List.forall_mem_cons]

theorem entriesWellKeyed_iff (es : List (String × Node)) :
    EntriesWellKeyed es ↔ ∀ e ∈ es, e.2.WellKeyed := by
  induction es with
  | nil => simp [EntriesWellKeyed]
  | cons e es ih => rw [EntriesWellKeyed, ih, List.forall_mem_cons]

theorem wellKeyed_sequence (ns : List Node) :
    (sequence ns).WellKeyed ↔ ∀ n ∈ ns, n.WellKeyed := by
  rw [WellKeyed, allWellKeyed_iff]

theorem wellKeyed_mapping (es : List (String × Node)) :
    (mapping es).WellKeyed ↔ (Entries.keys es).Nodup ∧ ∀ e ∈ es, e.2.WellKeyed := by
  rw [WellKeyed, entriesWellKeyed_iff]

mutual

/-- whether keys are unique is decided by looking at all mappings -/
def decideWellKeyed : (n : Node) → Decidable n.WellKeyed
  | .null => .isTrue trivial
  | .scalar _ => .isTrue trivial
  | .sequence ns => decideAllWellKeyed ns
  | .mapping es => @instDecidableAnd _ _ (inferInstanceAs (Decidable (Entries.keys es).Nodup))
      (decideEntriesWellKeyed es)

def decideAllWellKeyed : (ns : List Node) → Decidable (AllWellKeyed ns)
  | [] => .isTrue trivial
  | n :: ns => @instDecidableAnd _ _ (decideWellKeyed n) (decideAllWellKeyed ns)

def decideEntriesWellKeyed : (es : List (String × Node)) → Decidable (EntriesWellKeyed es)
  | [] => .isTrue trivial
  | (_, n) :: es => @instDecidableAnd _ _ (decideWellKeyed n) (decideEntriesWellKeyed es)

end

instance (n : Node) : Decidable n.WellKeyed := decideWellKeyed n

/-! ## tombstones of entries -/

theorem isNull_eq_true {n : Node} : n.isNull = true ↔ n = .null := by cases n <;> simp [isNull]

/-- what a value of a mapping becomes when tombstones are dropped -/
def kept? (n : Node) : Option Node := if n.isNull then none else some n.withoutTombstones

theorem kept?_null : kept? .null = none := rfl

theorem keys_entriesWithoutTombstones (es : List (String × Node)) :
    Entries.keys (entriesWithoutTombstones es) = Entries.keys (es.filter (!·.2.isNull)) := by
  rw [entriesWithoutTombstones_eq, Entries.keys, List.map_map]
  rfl

theorem nodup_keys_entriesWithoutTombstones {es : List (String × Node)}
    (h : (Entries.keys es).Nodup) : (Entries.keys (entriesWithoutTombstones es)).Nodup := by
  rw [keys_entriesWithoutTombstones]
  exact h.sublist (List.Sublist.map _ List.filter_sublist)

theorem get?_entriesWithoutTombstones {es : List (String × Node)} (hn : (Entries.keys es).Nodup)
    (k : String) :
    Entries.get? (entriesWithoutTombstones es) k = (Entries.get? es k).bind kept? := by
  induction es with
  | nil => rfl
  | cons e es ih =>
    obtain ⟨k', n⟩ := e
    rw [Entries.keys_cons, List.nodup_cons] at hn
    have ih := ih hn.2
    rw [entriesWithoutTombstones, Entries.get?_cons]
    by_cases hk : k' = k
    · subst hk
      rw [if_pos rfl, Option.bind_some, kept?]
      split
      -- the key does not occur again behind the entry that was dropped
      · rw [ih, (Entries.get?_eq_none_iff es k').2 hn.1]
        rfl
      · rw [Entries.get?_cons, if_pos rfl]
    · rw [if_neg hk]
      split
      · exact ih
      · rw [Entries.get?_cons, if_neg hk, ih]

theorem WellKeyed.withoutTombstones {n : Node} (h : n.WellKeyed) :
    n.withoutTombstones.WellKeyed := by
  induction n with
  | null => exact h
  | scalar s => exact h
  | sequence ns ih =>
    show (sequence (itemsWithoutTombstones ns)).WellKeyed
    rw [wellKeyed_sequence] at h ⊢
    intro n hn
    rw [itemsWithoutTombstones_eq_map] at hn
    obtain ⟨m, hm, rfl⟩ := List.mem_map.1 hn
    exact ih m hm (h m hm)
  | mapping es ih =>
    show (mapping (entriesWithoutTombstones es)).WellKeyed
    rw [wellKeyed_mapping] at h ⊢
    refine ⟨nodup_keys_entriesWithoutTombstones h.1, ?_⟩
    intro e he
    rw [entriesWithoutTombstones_eq] at he
    obtain ⟨d, hd, rfl⟩ := List.mem_map.1 he
    have hd := (List.mem_filter.1 hd).1
    exact ih d hd (h.2 d hd)

end Node

/-! ## places -/

/-- one step down a tree -/
inductive Step where
  | key (k : String)
  | index (i : Nat)
  deriving DecidableEq, Repr

namespace Node

/-- what a tree holds one step below its root -/
def child? (n : Node) : Step → Option Node
  | .key k => n.get? k
  | .index i => n.at? i

/-- what a tree holds at a place -/
def sub? (n : Node) : List Step → Option Node
  | [] => some n
  | s :: p => (n.child? s).bind (·.sub? p)

theorem sub?_cons (n : Node) (s : Step) (p : List Step) :
    n.sub? (s :: p) = (n.child? s).bind (·.sub? p) := rfl

theorem sub?_append (n : Node) (p q : List Step) :
    n.sub? (p ++ q) = (n.sub? p).bind (·.sub? q) := by
  induction p generalizing n with
  | nil => rfl
  | cons s p ih =>
    rw [List.cons_append, sub?_cons, sub?_cons, Option.bind_assoc]
    congr 1
    funext m
    exact ih m

theorem sub?_singleton (n : Node) (s : Step) : n.sub? [s] = n.child? s := by
  rw [sub?_cons]
  cases n.child? s <;> rfl

theorem child?_null (s : Step) : null.child? s = none := by cases s <;> rfl

theorem eq_mapping_of_child? {n c : Node} {k : String} (h : n.child? (.key k) = some c) :
    ∃ es, n = mapping es ∧ Entries.get? es k = some c := by
  cases n with
  | mapping es => exact ⟨es, rfl, h⟩
  | null => cases h
  | scalar s => cases h
  | sequence ns => cases h

theorem eq_sequence_of_child? {n c : Node} {i : Nat} (h : n.child? (.index i) = some c) :
    ∃ ns, n = sequence ns ∧ ns[i]? = some c := by
  cases n with
  | sequence ns => exact ⟨ns, rfl, h⟩
  | null => cases h
  | scalar s => cases h
  | mapping es => cases h

theorem wellKeyed_of_child? {n c : Node} {s : Step} (hn : n.WellKeyed)
    (h : n.child? s = some c) : c.WellKeyed := by
  cases s with
  | key k =>
    obtain ⟨es, rfl, hg⟩ := eq_mapping_of_child? h
    exact ((wellKeyed_mapping es).1 hn).2 (k, c) (Entries.mem_of_get? hg)
  | index i =>
    obtain ⟨ns, rfl, hg⟩ := eq_sequence_of_child? h
    exact (wellKeyed_sequence ns).1 hn c (List.mem_of_getElem? hg)

theorem wellKeyed_of_sub? {n m : Node} {p : List Step} (hn : n.WellKeyed)
    (h : n.sub? p = some m) : m.WellKeyed := by
  induction p generalizing n with
  | nil =>
    cases h
    exact hn
  | cons s p ih =>
    obtain ⟨c, hc, hm⟩ := Option.bind_eq_some_iff.1 h
    exact ih (wellKeyed_of_child? hn hc) hm

theorem sub?_null {p : List Step} (h : p ≠ []) : null.sub? p = none := by
  cases p with
  | nil => exact absurd rfl h
  | cons s p =>
    rw [sub?_cons, child?_null]
    rfl

theorem isNull_of_sub? {n m : Node} {p : List Step} (hp : p ≠ []) (h : n.sub? p = some m) :
    n.isNull = false := by
  rw [Bool.eq_false_iff]
  intro hn
  rw [isNull_eq_true.1 hn, sub?_null hp] at h
  cases h

theorem isNull_of_child? {n c : Node} {s : Step} (h : n.child? s = some c) : n.isNull = false :=
  isNull_of_sub? (List.cons_ne_nil s []) ((sub?_singleton n s).trans h)

theorem isNull_of_sub?_scalar {n : Node} {p : List Step} {c : Scalar}
    (h : n.sub? p = some (.scalar c)) : n.isNull = false := by
  cases p with
  | nil =>
    cases h
    rfl
  | cons s p => exact isNull_of_sub? (List.cons_ne_nil s p) h

/-! ## places and tombstones -/

theorem child?_key_withoutTombstones {n : Node} (hn : n.WellKeyed) (k : String) :
    n.withoutTombstones.child? (.key k) = (n.child? (.key k)).bind kept? := by
  cases n with
  | mapping es =>
    rw [withoutTombstones]
    exact get?_entriesWithoutTombstones ((wellKeyed_mapping es).1 hn).1 k
  | null => rfl
  | scalar s => rfl
  | sequence ns => rw [withoutTombstones]; rfl

theorem child?_index_withoutTombstones (n : Node) (i : Nat) :
    n.withoutTombstones.child? (.index i) = (n.child? (.index i)).map withoutTombstones := by
  cases n with
  | sequence ns =>
    rw [withoutTombstones, itemsWithoutTombstones_eq_map]
    show (ns.map withoutTombstones)[i]? = ns[i]?.map withoutTombstones
    rw [List.getElem?_map]
  | null => rfl
  | scalar s => rfl
  | mapping es => rw [withoutTombstones]; rfl

/-- a child that is not a tombstone is kept -/
theorem child?_withoutTombstones {n c : Node} {s : Step} (hn : n.WellKeyed)
    (h : n.child? s = some c) (hc : c.isNull = false) :
    n.withoutTombstones.child? s = some c.withoutTombstones := by
  cases s with
  | key k =>
    rw [child?_key_withoutTombstones hn, h, Option.bind_some, kept?, hc]
    rfl
  | index i =>
    rw [child?_index_withoutTombstones, h]
    rfl

theorem sub?_withoutTombstones_scalar {n : Node} {p : List Step} {c : Scalar} (hn : n.WellKeyed)
    (h : n.sub? p = some (.scalar c)) : n.withoutTombstones.sub? p = some (.scalar c) := by
  induction p generalizing n with
  | nil =>
    cases h
    rfl
  | cons s p ih =>
    obtain ⟨m, hm, hp⟩ := Option.bind_eq_some_iff.1 h
    rw [sub?_cons, child?_withoutTombstones hn hm (isNull_of_sub?_scalar hp), Option.bind_some]
    exact ih (wellKeyed_of_child? hn hm) hp

theorem sub?_withoutTombstones_tombstone {n : Node} {p : List Step} {k : String} (hn : n.WellKeyed)
    (h : n.sub? (p ++ [.key k]) = some .null) :
    n.withoutTombstones.sub? (p ++ [.key k]) = none := by
  induction p generalizing n with
  | nil =>
    rw [List.nil_append, sub?_singleton] at h ⊢
    rw [child?_key_withoutTombstones hn, h]
    rfl
  | cons s p ih =>
    rw [List.cons_append, sub?_cons] at h ⊢
    obtain ⟨m, hm, hp⟩ := Option.bind_eq_some_iff.1 h
    have ih := ih (wellKeyed_of_child? hn hm) hp
    rw [child?_withoutTombstones hn hm (isNull_of_sub? (by simp) hp), Option.bind_some]
    exact ih

end Node

end ConfigReconcile
