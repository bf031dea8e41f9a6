import ConfigReconcile.Document.Render
import ConfigReconcile.Proofs.Document.Tree

/-!
# Pruned trees

* `Node.Every`          all scalars of a tree and all its keys have a property;
* `Node.Pruned`         no null, no empty text and no empty container in a tree, and the keys of
                        every mapping in ascending order;
* `pruned_of_prune`     what is left of a tree is pruned;
* `prune_of_pruned`     pruning it again changes nothing.
-/

namespace ConfigReconcile

/-! ## properties of all leaves and keys -/

namespace Node

mutual

/-- every scalar has the property `P`, and every key the property `K` -/
def Every (P : Scalar → Prop) (K : String → Prop) : Node → Prop
  | .null => True
  | .scalar s => P s
  | .sequence items => EveryItem P K items
  | .mapping entries => EveryEntry P K entries

def EveryItem (P : Scalar → Prop) (K : String → Prop) : List Node → Prop
  | [] => True
  | n :: ns => n.Every P K ∧ EveryItem P K ns

def EveryEntry (P : Scalar → Prop) (K : String → Prop) : List (String × Node) → Prop
  | [] => True
  | (k, n) :: es => (K k ∧ n.Every P K) ∧ EveryEntry P K es

end

section
variable {P Q : Scalar → Prop} {K L : String → Prop}

theorem everyItem_iff (ns : List Node) : EveryItem P K ns ↔ ∀ n ∈ ns, n.Every P K := by
  induction ns with
  | nil => simp [EveryItem]
  | cons n ns ih => rw [EveryItem, ih, List.forall_mem_cons]

theorem everyEntry_iff (es : List (String × Node)) :
    EveryEntry P K es ↔ ∀ e ∈ es, K e.1 ∧ e.2.Every P K := by
  induction es with
  | nil => simp [EveryEntry]
  | cons e es ih => rw [EveryEntry, ih, List.forall_mem_cons]

theorem every_sequence (ns : List Node) :
    (sequence ns).Every P K ↔ ∀ n ∈ ns, n.Every P K := by
  rw [Every, everyItem_iff]

theorem every_mapping (es : List (String × Node)) :
    (mapping es).Every P K ↔ ∀ e ∈ es, K e.1 ∧ e.2.Every P K := by
  rw [Every, everyEntry_iff]

theorem Every.imp {n : Node} (h : n.Every P K) (hP : ∀ s, P s → Q s) (hK : ∀ k, K k → L k) :
    n.Every Q L := by
  induction n with
  | null => trivial
  | scalar s => exact hP s h
  | sequence ns ih =>
    rw [every_sequence] at h ⊢
    exact fun n hn => ih n hn (h n hn)
  | mapping es ih =>
    rw [every_mapping] at h ⊢
    exact fun e he => ⟨hK e.1 (h e he).1, ih e he (h e he).2⟩

mutual

/-- properties that can be decided of leaves and keys can be decided of trees -/
def decideEvery [DecidablePred P] [DecidablePred K] : (n : Node) → Decidable (n.Every P K)
  | .null => .isTrue trivial
  | .scalar s => inferInstanceAs (Decidable (P s))
  | .sequence ns => decideEveryItem ns
  | .mapping es => decideEveryEntry es

def decideEveryItem [DecidablePred P] [DecidablePred K] :
    (ns : List Node) → Decidable (EveryItem P K ns)
  | [] => .isTrue trivial
  | n :: ns => @instDecidableAnd _ _ (decideEvery n) (decideEveryItem ns)

def decideEveryEntry [DecidablePred P] [DecidablePred K] :
    (es : List (String × Node)) → Decidable (EveryEntry P K es)
  | [] => .isTrue trivial
  | (k, n) :: es =>
    @instDecidableAnd _ _
      (@instDecidableAnd _ _ (inferInstanceAs (Decidable (K k))) (decideEvery n))
      (decideEveryEntry es)

end

instance [DecidablePred P] [DecidablePred K] (n : Node) : Decidable (n.Every P K) := decideEvery n

end

/-! ## pruning, one level at a time -/

theorem pruneItems_eq_filterMap (ns : List Node) : pruneItems ns = ns.filterMap prune := by
  induction ns with
  | nil => rfl
  | cons n ns ih =>
    rw [pruneItems, List.filterMap_cons]
    split <;> simp [*]

/-- what is left of an entry -/
def pruneEntry (e : String × Node) : Option (String × Node) := e.2.prune.map (e.1, ·)

theorem pruneEntries_eq_filterMap (es : List (String × Node)) :
    pruneEntries es = es.filterMap pruneEntry := by
  induction es with
  | nil => rfl
  | cons e es ih =>
    obtain ⟨k, n⟩ := e
    rw [pruneEntries, List.filterMap_cons]
    cases h : n.prune <;> simp [pruneEntry, h, ih]

theorem prune_sequence {ns : List Node} {m : Node} :
    (sequence ns).prune = some m ↔
      ns.filterMap prune ≠ [] ∧ m = .sequence (ns.filterMap prune) := by
  rw [prune, pruneItems_eq_filterMap]
  split
  next h => simp [h]
  next h => exact ⟨fun hm => ⟨h, (Option.some.inj hm).symm⟩, fun hm => hm.2 ▸ rfl⟩

theorem prune_mapping {es : List (String × Node)} {m : Node} :
    (mapping es).prune = some m ↔
      es.filterMap pruneEntry ≠ [] ∧ m = .mapping (Entries.sort (es.filterMap pruneEntry)) := by
  rw [prune, pruneEntries_eq_filterMap]
  split
  next h => simp [h]
  next h => exact ⟨fun hm => ⟨h, (Option.some.inj hm).symm⟩, fun hm => hm.2 ▸ rfl⟩

theorem prune_scalar {s : Scalar} {m : Node} :
    (scalar s).prune = some m ↔ s.isEmpty = false ∧ m = .scalar s := by
  rw [prune]
  split
  next h => simp [h]
  next h => simp [h, eq_comm]

/-- pruning leaves properties of leaves and keys -/
theorem Every.prune {P : Scalar → Prop} {K : String → Prop} {n m : Node} (h : n.Every P K)
    (hm : n.prune = some m) : m.Every P K := by
  induction n generalizing m with
  | null => cases hm
  | scalar s =>
    obtain ⟨-, rfl⟩ := prune_scalar.1 hm
    exact h
  | sequence ns ih =>
    obtain ⟨-, rfl⟩ := prune_sequence.1 hm
    rw [every_sequence] at h ⊢
    intro m' hm'
    obtain ⟨n, hn, hp⟩ := List.mem_filterMap.1 hm'
    exact ih n hn (h n hn) hp
  | mapping es ih =>
    obtain ⟨-, rfl⟩ := prune_mapping.1 hm
    rw [every_mapping] at h ⊢
    intro e' he'
    obtain ⟨e, he, hp⟩ := List.mem_filterMap.1 ((Entries.sort_perm _).mem_iff.1 he')
    obtain ⟨m', hm', rfl⟩ := Option.map_eq_some_iff.1 hp
    exact ⟨(h e he).1, ih e he (h e he).2 hm'⟩

end Node

/-! ## keys in order -/

namespace Entries

variable {α : Type}

/-- keys in strictly ascending order -/
def Ascending (es : List (String × α)) : Prop := (keys es).Pairwise (· < ·)

theorem ascending_cons {k : String} {v : α} {es : List (String × α)} :
    Ascending ((k, v) :: es) ↔ (∀ e ∈ es, k < e.1) ∧ Ascending es := by
  rw [Ascending, keys_cons, List.pairwise_cons, keys, List.forall_mem_map]
  rfl

theorem Ascending.nodup {es : List (String × α)} (h : Ascending es) : (keys es).Nodup :=
  List.Pairwise.imp (fun {a b} hab => by rintro rfl; exact String.lt_irrefl a hab) h

theorem Ascending.insertSorted {es : List (String × α)} (h : Ascending es) {k : String} (v : α)
    (hk : ∀ e ∈ es, e.1 ≠ k) : Ascending (insertSorted k v es) := by
  induction es with
  | nil => simp [Entries.insertSorted, Ascending, keys]
  | cons e es ih =>
    obtain ⟨k', v'⟩ := e
    rw [ascending_cons] at h
    rw [Entries.insertSorted]
    split
    next hlt =>
      refine ascending_cons.2 ⟨fun e he => ?_, ascending_cons.2 h⟩
      rcases List.mem_cons.1 he with rfl | he
      · exact hlt
      · exact String.lt_trans hlt (h.1 e he)
    next hnlt =>
      have hlt : k' < k := by
        refine Decidable.byContradiction fun hn => hk (k', v') (List.mem_cons_self ..) ?_
        exact String.le_antisymm (String.not_lt.1 hnlt) (String.not_lt.1 hn)
      refine ascending_cons.2 ⟨fun e he => ?_, ih h.2 fun e he => hk e (List.mem_cons_of_mem _ he)⟩
      rcases List.mem_cons.1 ((insertSorted_perm k v es).mem_iff.1 he) with rfl | he
      · exact hlt
      · exact h.1 e he

/-- different keys come into ascending order -/
theorem ascending_sort {es : List (String × α)} (h : (keys es).Nodup) : Ascending (sort es) := by
  induction es with
  | nil => exact .nil
  | cons e es ih =>
    obtain ⟨k, v⟩ := e
    rw [keys_cons, List.nodup_cons] at h
    refine (ih h.2).insertSorted v fun e he hk => h.1 ?_
    subst hk
    exact List.mem_map_of_mem ((sort_perm es).mem_iff.1 he)

theorem Ascending.sort_eq {es : List (String × α)} (h : Ascending es) : sort es = es := by
  induction es with
  | nil => rfl
  | cons e es ih =>
    obtain ⟨k, v⟩ := e
    rw [ascending_cons] at h
    rw [sort, ih h.2]
    cases es with
    | nil => rfl
    | cons e es => exact if_pos (h.1 e (List.mem_cons_self ..))

/-- entries with ascending keys have one order only -/
theorem Ascending.eq_of_perm {es fs : List (String × α)} (he : Ascending es) (hf : Ascending fs)
    (h : es.Perm fs) : es = fs := by
  refine List.Perm.eq_of_pairwise ?_ (List.pairwise_map.1 he) (List.pairwise_map.1 hf) h
  intro e f _ _ hlt hgt
  exact absurd (String.lt_trans hlt hgt) (String.lt_irrefl _)

end Entries

namespace Node

/-! ## pruned trees -/

mutual

/-- nothing in the tree is empty, and keys are in order -/
def Pruned : Node → Prop
  | .null => False
  | .scalar s => s.isEmpty = false
  | .sequence items => items ≠ [] ∧ ItemsPruned items
  | .mapping entries => entries ≠ [] ∧ Entries.Ascending entries ∧ EntriesPruned entries

def ItemsPruned : List Node → Prop
  | [] => True
  | n :: ns => n.Pruned ∧ ItemsPruned ns

def EntriesPruned : List (String × Node) → Prop
  | [] => True
  | (_, n) :: es => n.Pruned ∧ EntriesPruned es

end

theorem pruned_sequence (ns : List Node) :
    (sequence ns).Pruned ↔ ns ≠ [] ∧ ∀ n ∈ ns, n.Pruned := by
  have h (ns : List Node) : ItemsPruned ns ↔ ∀ n ∈ ns, n.Pruned := by
    induction ns with
    | nil => simp [ItemsPruned]
    | cons n ns ih => rw [ItemsPruned, ih, List.forall_mem_cons]
  rw [Pruned, h]

theorem pruned_mapping (es : List (String × Node)) :
    (mapping es).Pruned ↔ es ≠ [] ∧ Entries.Ascending es ∧ ∀ e ∈ es, e.2.Pruned := by
  have h (es : List (String × Node)) : EntriesPruned es ↔ ∀ e ∈ es, e.2.Pruned := by
    induction es with
    | nil => simp [EntriesPruned]
    | cons e es ih => rw [EntriesPruned, ih, List.forall_mem_cons]
  rw [Pruned, h]

theorem keys_filterMap_pruneEntry (es : List (String × Node)) :
    (Entries.keys (es.filterMap pruneEntry)).Sublist (Entries.keys es) := by
  induction es with
  | nil => exact .slnil
  | cons e es ih =>
    obtain ⟨k, n⟩ := e
    rw [List.filterMap_cons, Entries.keys_cons]
    cases h : pruneEntry (k, n) with
    | none => exact ih.cons k
    | some e =>
      obtain ⟨m, -, rfl⟩ := Option.map_eq_some_iff.1 h
      exact ih.cons_cons k

theorem pruned_of_prune {n m : Node} (hn : n.WellKeyed) (hm : n.prune = some m) : m.Pruned := by
  induction n generalizing m with
  | null => cases hm
  | scalar s =>
    obtain ⟨hs, rfl⟩ := prune_scalar.1 hm
    exact hs
  | sequence ns ih =>
    obtain ⟨hne, rfl⟩ := prune_sequence.1 hm
    rw [wellKeyed_sequence] at hn
    refine (pruned_sequence _).2 ⟨hne, fun m' hm' => ?_⟩
    obtain ⟨n, hmem, hp⟩ := List.mem_filterMap.1 hm'
    exact ih n hmem (hn n hmem) hp
  | mapping es ih =>
    obtain ⟨hne, rfl⟩ := prune_mapping.1 hm
    rw [wellKeyed_mapping] at hn
    refine (pruned_mapping _).2 ⟨?_, ?_, fun e' he' => ?_⟩
    · exact fun h => hne (List.Perm.eq_nil (h ▸ Entries.sort_perm _).symm)
    · exact Entries.ascending_sort (hn.1.sublist (keys_filterMap_pruneEntry es))
    · obtain ⟨e, he, hp⟩ := List.mem_filterMap.1 ((Entries.sort_perm _).mem_iff.1 he')
      obtain ⟨m', hm', rfl⟩ := Option.map_eq_some_iff.1 hp
      exact ih e he (hn.2 e he) hm'

/-- keys in order are unique -/
theorem Pruned.wellKeyed {n : Node} (h : n.Pruned) : n.WellKeyed := by
  induction n with
  | null => trivial
  | scalar s => trivial
  | sequence ns ih =>
    rw [pruned_sequence] at h
    exact (wellKeyed_sequence _).2 fun n hn => ih n hn (h.2 n hn)
  | mapping es ih =>
    rw [pruned_mapping] at h
    exact (wellKeyed_mapping _).2 ⟨h.2.1.nodup, fun e he => ih e he (h.2.2 e he)⟩

theorem filterMap_eq_self {α : Type} {f : α → Option α} {xs : List α}
    (h : ∀ x ∈ xs, f x = some x) : xs.filterMap f = xs := by
  induction xs with
  | nil => rfl
  | cons x xs ih =>
    rw [List.forall_mem_cons] at h
    rw [List.filterMap_cons, h.1, ih h.2]

theorem prune_of_pruned {n : Node} (h : n.Pruned) : n.prune = some n := by
  induction n with
  | null => exact h.elim
  | scalar s => exact prune_scalar.2 ⟨h, rfl⟩
  | sequence ns ih =>
    rw [pruned_sequence] at h
    have hid : ns.filterMap prune = ns := filterMap_eq_self fun n hn => ih n hn (h.2 n hn)
    exact prune_sequence.2 ⟨by rw [hid]; exact h.1, by rw [hid]⟩
  | mapping es ih =>
    rw [pruned_mapping] at h
    have hid : es.filterMap pruneEntry = es := filterMap_eq_self fun e he => by
      rw [pruneEntry, ih e he (h.2.2 e he)]
      rfl
    exact prune_mapping.2 ⟨by rw [hid]; exact h.1, by rw [hid, h.2.1.sort_eq]⟩

end Node

end ConfigReconcile
