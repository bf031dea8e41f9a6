import ConfigReconcile.Proofs.Document.Pruned
import Mathlib.Data.List.Perm.Subperm

/-!
# Trees that differ in the order of keys

* `Node.Reordered`       the same tree, but for the order of the keys in its mappings;
* `Reordered.child?`     their children are so too, step by step;
* `sameAs_iff_reordered` the comparison of trees decides it, where keys are unique;
* `Reordered.withoutTombstones`   dropping tombstones leaves trees so;
* `Reordered.render_eq`  nothing of the order is left in what is written.
-/

namespace ConfigReconcile

theorem rel_iff {α : Type} {r : α → α → Prop} {x? y? : Option α} :
    Option.Rel r x? y? ↔ (x? = none ↔ y? = none) ∧ ∀ x y, x? = some x → y? = some y → r x y := by
  constructor
  · rintro (h | _)
    · exact ⟨by simp, by rintro x y ⟨⟩ ⟨⟩; exact h⟩
    · exact ⟨Iff.rfl, fun x y hx => by cases hx⟩
  · rintro ⟨hnone, h⟩
    cases x? with
    | none =>
      rw [hnone.1 rfl]
      exact .none
    | some x =>
      cases y? with
      | none => cases hnone.2 rfl
      | some y => exact .some (h x y rfl rfl)

theorem eq_of_rel {α : Type} {x? y? : Option α} (h : Option.Rel Eq x? y?) : x? = y? := by
  cases h with
  | none => rfl
  | some h => rw [h]

section
variable {α β : Type} {r : α → α → Prop} {r' : β → β → Prop} {x? y? : Option α}

theorem rel_map {f : α → β} (h : Option.Rel r x? y?)
    (hf : ∀ x y, x? = some x → y? = some y → r' (f x) (f y)) :
    Option.Rel r' (x?.map f) (y?.map f) := by
  cases h with
  | none => exact .none
  | some _ => exact .some (hf _ _ rfl rfl)

theorem rel_bind {f : α → Option β} (h : Option.Rel r x? y?)
    (hf : ∀ x y, x? = some x → y? = some y → Option.Rel r' (f x) (f y)) :
    Option.Rel r' (x?.bind f) (y?.bind f) := by
  cases h with
  | none => exact .none
  | some _ => exact hf _ _ rfl rfl

end

/-! ## entries in any order -/

namespace Entries

variable {α : Type} {es fs : List (String × α)}

/-- entries with unique keys and the same lookup are the same, in some order -/
theorem perm_of_get? (hes : (keys es).Nodup) (hfs : (keys fs).Nodup)
    (h : ∀ k, get? es k = get? fs k) : es.Perm fs := by
  rw [List.perm_ext_iff_of_nodup (List.Pairwise.of_map _ (fun _ _ h he => h (congrArg _ he)) hes)
    (List.Pairwise.of_map _ (fun _ _ h he => h (congrArg _ he)) hfs)]
  rintro ⟨k, v⟩
  constructor
  · intro he
    exact mem_of_get? ((h k).symm.trans (get?_of_mem hes he))
  · intro hf
    exact mem_of_get? ((h k).trans (get?_of_mem hfs hf))

/-- as many unique keys, all of them among others, are the others -/
theorem mem_keys_iff_of_subset (hes : (keys es).Nodup) (hlen : es.length = fs.length)
    (h : ∀ k ∈ keys es, k ∈ keys fs) (k : String) : k ∈ keys es ↔ k ∈ keys fs := by
  have hle : (keys fs).length ≤ (keys es).length :=
    Nat.le_of_eq (by rw [keys, keys, List.length_map, List.length_map, hlen])
  exact ((List.subperm_of_subset hes h).perm_of_length_le hle).mem_iff

end Entries

namespace Node

/-! ## the relation -/

/-- the same tree, but for the order of the keys in its mappings -/
inductive Reordered : Node → Node → Prop where
  | null : Reordered .null .null
  | scalar (s : Scalar) : Reordered (.scalar s) (.scalar s)
  | sequence {xs ys : List Node} (length : xs.length = ys.length)
      (items : ∀ (i : Nat) (x y : Node), xs[i]? = some x → ys[i]? = some y → Reordered x y) :
      Reordered (.sequence xs) (.sequence ys)
  | mapping {es fs : List (String × Node)}
      (keys : ∀ k, k ∈ Entries.keys es ↔ k ∈ Entries.keys fs)
      (values : ∀ (k : String) (x y : Node), Entries.get? es k = some x →
        Entries.get? fs k = some y → Reordered x y) :
      Reordered (.mapping es) (.mapping fs)

variable {a b : Node} {xs ys : List Node} {es fs : List (String × Node)}

theorem reordered_sequence :
    (sequence xs).Reordered (sequence ys) ↔ ∀ i : Nat, Option.Rel Reordered xs[i]? ys[i]? := by
  have hlen : (∀ i : Nat, xs[i]? = none ↔ ys[i]? = none) ↔ xs.length = ys.length := by
    simp only [List.getElem?_eq_none_iff]
    constructor
    · intro h
      exact Nat.le_antisymm ((h _).2 (Nat.le_refl _)) ((h _).1 (Nat.le_refl _))
    · intro h i
      rw [h]
  simp only [rel_iff, forall_and, hlen]
  exact ⟨fun | .sequence hl h => ⟨hl, h⟩, fun h => .sequence h.1 h.2⟩

theorem reordered_mapping :
    (mapping es).Reordered (mapping fs) ↔
      ∀ k, Option.Rel Reordered (Entries.get? es k) (Entries.get? fs k) := by
  simp only [rel_iff, forall_and, Entries.get?_eq_none_iff, not_iff_not]
  exact ⟨fun | .mapping hk h => ⟨hk, h⟩, fun h => .mapping h.1 h.2⟩

theorem Reordered.refl (a : Node) : a.Reordered a := by
  induction a with
  | null => exact .null
  | scalar s => exact .scalar s
  | sequence xs ih =>
    refine .sequence rfl fun i x y hx hy => ?_
    cases hx.symm.trans hy
    exact ih x (List.mem_of_getElem? hx)
  | mapping es ih =>
    refine .mapping (fun _ => Iff.rfl) fun k x y hx hy => ?_
    cases hx.symm.trans hy
    exact ih (k, x) (Entries.mem_of_get? hx)

theorem rel_refl (a? : Option Node) : Option.Rel Reordered a? a? := by
  cases a? with
  | none => exact .none
  | some a => exact .some (.refl a)

theorem Reordered.isNull_eq (h : a.Reordered b) : a.isNull = b.isNull := by cases h <;> rfl

/-- the children of reordered trees are reordered, step by step -/
theorem Reordered.child? (h : a.Reordered b) (s : Step) :
    Option.Rel Reordered (a.child? s) (b.child? s) := by
  cases h with
  | null => rw [child?_null]; exact .none
  | scalar c => cases s <;> exact .none
  | sequence hl h =>
    cases s with
    | key k => exact .none
    | index i => exact reordered_sequence.1 (.sequence hl h) i
  | mapping hk h =>
    cases s with
    | key k => exact reordered_mapping.1 (.mapping hk h) k
    | index i => exact .none

/-! ## the comparison of trees -/

theorem itemsSameAs_iff :
    itemsSameAs xs ys = true ↔ xs.length = ys.length ∧
      ∀ (i : Nat) (x y : Node), xs[i]? = some x → ys[i]? = some y → x.sameAs y = true := by
  induction xs generalizing ys with
  | nil => cases ys <;> simp [itemsSameAs]
  | cons x xs ih =>
    cases ys with
    | nil => simp [itemsSameAs]
    | cons y ys =>
      rw [itemsSameAs, Bool.and_eq_true, ih, List.length_cons, List.length_cons,
        Nat.add_right_cancel_iff]
      constructor
      · rintro ⟨hx, hl, h⟩
        refine ⟨hl, fun i x' y' hx' hy' => ?_⟩
        cases i with
        | zero =>
          cases hx'
          cases hy'
          exact hx
        | succ i => exact h i x' y' hx' hy'
      · rintro ⟨hl, h⟩
        exact ⟨h 0 x y rfl rfl, hl, fun i => h (i + 1)⟩

theorem entriesWithin_iff :
    entriesWithin es fs = true ↔
      ∀ e ∈ es, ∃ y, Entries.get? fs e.1 = some y ∧ e.2.sameAs y = true := by
  induction es with
  | nil => simp [entriesWithin]
  | cons e es ih =>
    obtain ⟨k, x⟩ := e
    rw [entriesWithin, Bool.and_eq_true, ih, List.forall_mem_cons]
    cases Entries.get? fs k <;> simp

theorem reordered_of_sameAs (ha : a.WellKeyed) (hb : b.WellKeyed) (h : a.sameAs b = true) :
    a.Reordered b := by
  induction a generalizing b with
  | null =>
    cases b with
    | null => exact .null
    | _ => cases h
  | scalar s =>
    cases b with
    | scalar t =>
      rw [sameAs, beq_iff_eq] at h
      exact h ▸ .scalar s
    | _ => cases h
  | sequence xs ih =>
    cases b with
    | sequence ys =>
      rw [wellKeyed_sequence] at ha hb
      rw [sameAs, itemsSameAs_iff] at h
      refine .sequence h.1 fun i x y hx hy => ?_
      have hmem := List.mem_of_getElem? hx
      exact ih x hmem (ha x hmem) (hb y (List.mem_of_getElem? hy)) (h.2 i x y hx hy)
    | _ => cases h
  | mapping es ih =>
    cases b with
    | mapping fs =>
      rw [wellKeyed_mapping] at ha hb
      rw [sameAs, Bool.and_eq_true, beq_iff_eq, entriesWithin_iff] at h
      obtain ⟨hlen, h⟩ := h
      have hkeys : ∀ k ∈ Entries.keys es, k ∈ Entries.keys fs := by
        intro k hk
        obtain ⟨e, he, rfl⟩ := List.mem_map.1 hk
        obtain ⟨y, hy, -⟩ := h e he
        exact List.mem_map.2 ⟨_, Entries.mem_of_get? hy, rfl⟩
      refine .mapping (Entries.mem_keys_iff_of_subset ha.1 hlen hkeys) fun k x y hx hy => ?_
      have hmem := Entries.mem_of_get? hx
      obtain ⟨y', hy', hs⟩ := h (k, x) hmem
      cases hy.symm.trans hy'
      exact ih (k, x) hmem (ha.2 _ hmem) (hb.2 _ (Entries.mem_of_get? hy)) hs
    | _ => cases h

theorem Reordered.sameAs (h : a.Reordered b) (ha : a.WellKeyed) (hb : b.WellKeyed) :
    a.sameAs b = true := by
  induction h with
  | null => rfl
  | scalar s => rw [Node.sameAs, beq_iff_eq]
  | sequence hl _ ih =>
    rw [wellKeyed_sequence] at ha hb
    rw [Node.sameAs, itemsSameAs_iff]
    refine ⟨hl, fun i x y hx hy => ?_⟩
    exact ih i x y hx hy (ha x (List.mem_of_getElem? hx)) (hb y (List.mem_of_getElem? hy))
  | @mapping es fs hk _ ih =>
    rw [wellKeyed_mapping] at ha hb
    rw [Node.sameAs, Bool.and_eq_true, beq_iff_eq, entriesWithin_iff]
    have hperm := (List.perm_ext_iff_of_nodup ha.1 hb.1).2 hk
    refine ⟨by simpa [Entries.keys] using hperm.length_eq, fun e he => ?_⟩
    obtain ⟨k, x⟩ := e
    have hx := Entries.get?_of_mem ha.1 he
    obtain ⟨y, hy⟩ := Option.ne_none_iff_exists'.1 fun hn =>
      (Entries.get?_eq_none_iff fs k).1 hn ((hk k).1 (List.mem_map_of_mem he))
    exact ⟨y, hy, ih k x y hx hy (ha.2 _ he) (hb.2 _ (Entries.mem_of_get? hy))⟩

/-- where keys are unique, the comparison asks whether the order of keys is all that differs -/
theorem sameAs_iff_reordered (ha : a.WellKeyed) (hb : b.WellKeyed) :
    a.sameAs b = true ↔ a.Reordered b :=
  ⟨reordered_of_sameAs ha hb, fun h => h.sameAs ha hb⟩

/-! ## tombstones -/

theorem Reordered.kept? (h : a.Reordered b)
    (hw : a.withoutTombstones.Reordered b.withoutTombstones) :
    Option.Rel Reordered a.kept? b.kept? := by
  unfold Node.kept?
  rw [h.isNull_eq]
  split
  · exact .none
  · exact .some hw

theorem Reordered.withoutTombstones (h : a.Reordered b) (ha : a.WellKeyed) (hb : b.WellKeyed) :
    a.withoutTombstones.Reordered b.withoutTombstones := by
  induction h with
  | null => exact .null
  | scalar s => exact .scalar s
  | sequence hl h ih =>
    rw [wellKeyed_sequence] at ha hb
    refine reordered_sequence.2 fun i => ?_
    rw [itemsWithoutTombstones_eq_map, itemsWithoutTombstones_eq_map, List.getElem?_map,
      List.getElem?_map]
    refine rel_map (reordered_sequence.1 (.sequence hl h) i) fun x y hx hy => ?_
    exact ih i x y hx hy (ha x (List.mem_of_getElem? hx)) (hb y (List.mem_of_getElem? hy))
  | mapping hk h ih =>
    rw [wellKeyed_mapping] at ha hb
    refine reordered_mapping.2 fun k => ?_
    rw [get?_entriesWithoutTombstones ha.1, get?_entriesWithoutTombstones hb.1]
    refine rel_bind (reordered_mapping.1 (.mapping hk h) k) fun x y hx hy => ?_
    exact (h k x y hx hy).kept?
      (ih k x y hx hy (ha.2 _ (Entries.mem_of_get? hx)) (hb.2 _ (Entries.mem_of_get? hy)))

/-! ## writing -/

theorem get?_filterMap_pruneEntry (hes : (Entries.keys es).Nodup) (k : String) :
    Entries.get? (es.filterMap pruneEntry) k = (Entries.get? es k).bind prune := by
  induction es with
  | nil => rfl
  | cons e es ih =>
    obtain ⟨j, n⟩ := e
    rw [Entries.keys_cons, List.nodup_cons] at hes
    have ih := ih hes.2
    rw [List.filterMap_cons, pruneEntry, Entries.get?_cons]
    by_cases hj : j = k
    · subst hj
      rw [if_pos rfl, Option.bind_some]
      cases n.prune with
      -- the key does not occur again behind the entry that is gone
      | none =>
        show Entries.get? (es.filterMap pruneEntry) j = none
        rw [ih, (Entries.get?_eq_none_iff es j).2 hes.1]
        rfl
      | some m => exact if_pos rfl
    · rw [if_neg hj, ← ih]
      cases n.prune with
      | none => rfl
      | some m => exact if_neg hj

/-- what is left of a tree does not hang on the order of its keys -/
theorem Reordered.prune_eq (h : a.Reordered b) (ha : a.WellKeyed) (hb : b.WellKeyed) :
    a.prune = b.prune := by
  induction h with
  | null => rfl
  | scalar s => rfl
  | @sequence xs ys hl h ih =>
    rw [wellKeyed_sequence] at ha hb
    have hmap : xs.map prune = ys.map prune := by
      apply List.ext_getElem?
      intro i
      rw [List.getElem?_map, List.getElem?_map]
      refine eq_of_rel (rel_map (reordered_sequence.1 (.sequence hl h) i) fun x y hx hy => ?_)
      exact ih i x y hx hy (ha x (List.mem_of_getElem? hx)) (hb y (List.mem_of_getElem? hy))
    -- what is left of a list can be read off what is left of each item
    have hitems : xs.filterMap prune = ys.filterMap prune := by
      have hid (ns : List Node) : ns.filterMap prune = (ns.map prune).filterMap id := by
        rw [List.filterMap_map]
        rfl
      rw [hid, hid, hmap]
    exact Option.ext fun m => by rw [prune_sequence, prune_sequence, hitems]
  | @mapping es fs hk h ih =>
    rw [wellKeyed_mapping] at ha hb
    have hperm : (es.filterMap pruneEntry).Perm (fs.filterMap pruneEntry) := by
      apply Entries.perm_of_get? (ha.1.sublist (keys_filterMap_pruneEntry es))
        (hb.1.sublist (keys_filterMap_pruneEntry fs))
      intro k
      rw [get?_filterMap_pruneEntry ha.1, get?_filterMap_pruneEntry hb.1]
      refine eq_of_rel (rel_bind (reordered_mapping.1 (.mapping hk h) k) fun x y hx hy => ?_)
      rw [ih k x y hx hy (ha.2 _ (Entries.mem_of_get? hx)) (hb.2 _ (Entries.mem_of_get? hy))]
      cases y.prune with
      | none => exact .none
      | some m => exact .some rfl
    have hsort : Entries.sort (es.filterMap pruneEntry) = Entries.sort (fs.filterMap pruneEntry) :=
      (Entries.ascending_sort (ha.1.sublist (keys_filterMap_pruneEntry es))).eq_of_perm
        (Entries.ascending_sort (hb.1.sublist (keys_filterMap_pruneEntry fs)))
        ((Entries.sort_perm _).trans (hperm.trans (Entries.sort_perm _).symm))
    have hnil : es.filterMap pruneEntry = [] ↔ fs.filterMap pruneEntry = [] :=
      ⟨fun he => (he ▸ hperm).nil_eq.symm, fun hf => (hf ▸ hperm).eq_nil⟩
    exact Option.ext fun m => by rw [prune_mapping, prune_mapping, hsort, Ne, Ne, hnil]

/-- trees that differ in the order of keys are written as the same text, or neither is -/
theorem Reordered.render_eq (h : a.Reordered b) (ha : a.WellKeyed) (hb : b.WellKeyed) :
    a.render = b.render := by
  rw [render, render, h.prune_eq ha hb]

end Node

end ConfigReconcile
