import ConfigReconcile.Proofs.Merge.Fields

/-!
# Laying the same update again changes nothing

A merge leaves in each place one of two things: what `main` and the update give when they merge in
place, or the update without its tombstones.  Both absorb the same update:

* `merge_withoutTombstones`   a tree without its tombstones absorbs the tree;
* `merge_merge_self`          so does every merge, with the keys of all mappings in the same order.

Both go by induction on the update, one child at a time (`mergeField_kept?`,
`mergeField_mergeField`).
-/

namespace ConfigReconcile.Node

/-! ## one child -/

/-- what is kept of a field absorbs the field -/
theorem mergeField_kept? {u : Node} (h : u.withoutTombstones.merge u = u.withoutTombstones) :
    mergeField u.kept? u = u.kept? := by
  by_cases hu : u.isNull = true
  · rw [isNull_eq_true.1 hu, kept?_null, mergeField_none, kept?_null]
  · have hk := kept?_of_not_null (Bool.eq_false_iff.2 hu)
    rw [hk]
    by_cases hp : u.withoutTombstones.mergesInPlace u = true
    · rw [mergeField_inPlace hp, h]
    · rw [mergeField_not_inPlace (Bool.eq_false_iff.2 hp), hk]

theorem mergesInPlace_merge {m u : Node} (h : m.mergesInPlace u = true) :
    (m.merge u).mergesInPlace u = true := by
  rcases mergesInPlace_cases h with ⟨ms, us, rfl, rfl⟩ | ⟨es, fs, rfl, rfl⟩
  · rw [merge_sequence]
    rfl
  · rw [merge_mapping]
    rfl

theorem mergeField_mergeField {u : Node} (m? : Option Node)
    (hw : u.withoutTombstones.merge u = u.withoutTombstones)
    (hm : ∀ m, m? = some m → (m.merge u).merge u = m.merge u) :
    mergeField (mergeField m? u) u = mergeField m? u := by
  cases m? with
  | none => exact mergeField_kept? hw
  | some m =>
    by_cases hp : m.mergesInPlace u = true
    · rw [mergeField_inPlace hp, mergeField_inPlace (mergesInPlace_merge hp), hm m rfl]
    · rw [mergeField_not_inPlace (Bool.eq_false_iff.2 hp)]
      exact mergeField_kept? hw

/-! ## trees -/

theorem merge_withoutTombstones {u : Node} (hu : u.WellKeyed) :
    u.withoutTombstones.merge u = u.withoutTombstones := by
  induction u with
  | null => rfl
  | scalar s => rfl
  | sequence us ih =>
    have hus := (wellKeyed_sequence us).1 hu
    show sequence (mergeItems (itemsWithoutTombstones us) us) = sequence (itemsWithoutTombstones us)
    congr 1
    rw [itemsWithoutTombstones_eq_map]
    apply mergeItems_eq_self
    intro i u hi
    have hmem := List.mem_of_getElem? hi
    rw [List.getElem?_map, hi, Option.map_some]
    exact congrArg some (ih u hmem (hus u hmem))
  | mapping fs ih =>
    obtain ⟨hn, hfs⟩ := (wellKeyed_mapping fs).1 hu
    show mapping (mergeFields (entriesWithoutTombstones fs) fs) =
      mapping (entriesWithoutTombstones fs)
    congr 1
    apply mergeFields_eq_self (nodup_keys_entriesWithoutTombstones hn) hn
    intro k u hk
    have hmem := Entries.mem_of_get? hk
    rw [get?_entriesWithoutTombstones hn, hk, Option.bind_some]
    exact mergeField_kept? (ih (k, u) hmem (hfs (k, u) hmem))

/-- an update that takes the place of the main tree is absorbed by what it leaves there -/
theorem merge_merge_replaced {a b : Node} (hb : b.WellKeyed) (h : a.mergesInPlace b = false) :
    (a.merge b).merge b = a.merge b := by
  by_cases ha : a.isNull = true
  · rw [isNull_eq_true.1 ha, merge_null_left, merge_null_left]
  · by_cases hnull : b.isNull = true
    · rw [isNull_eq_true.1 hnull, merge_null_right, merge_null_right]
    · rw [merge_replace (Bool.eq_false_iff.2 ha) (Bool.eq_false_iff.2 hnull) h]
      exact merge_withoutTombstones hb

/-- **merging is idempotent**, up to and including the order of keys -/
theorem merge_merge_self (a b : Node) (ha : a.WellKeyed) (hb : b.WellKeyed) :
    (a.merge b).merge b = a.merge b := by
  induction b generalizing a with
  | null => rfl
  | scalar s =>
    apply merge_merge_replaced hb
    cases a <;> rfl
  | sequence us ih =>
    cases a with
    | sequence ms =>
      have hms := (wellKeyed_sequence ms).1 ha
      have hus := (wellKeyed_sequence us).1 hb
      rw [merge_sequence, merge_sequence]
      congr 1
      apply mergeItems_eq_self
      intro i u hi
      have hu := List.mem_of_getElem? hi
      rw [getElem?_mergeItems, hi]
      show some ((mergeItem ms[i]? u).merge u) = some (mergeItem ms[i]? u)
      cases hm : ms[i]? with
      | none => exact congrArg some (merge_withoutTombstones (hus u hu))
      | some m => exact congrArg some (ih u hu m (hms m (List.mem_of_getElem? hm)) (hus u hu))
    | null => exact merge_merge_replaced hb rfl
    | scalar s => exact merge_merge_replaced hb rfl
    | mapping es => exact merge_merge_replaced hb rfl
  | mapping fs ih =>
    cases a with
    | mapping es =>
      obtain ⟨hen, hes⟩ := (wellKeyed_mapping es).1 ha
      obtain ⟨hfn, hfs⟩ := (wellKeyed_mapping fs).1 hb
      rw [merge_mapping, merge_mapping]
      congr 1
      apply mergeFields_eq_self (nodup_keys_mergeFields hen fs) hfn
      intro k u hk
      have hu := Entries.mem_of_get? hk
      rw [get?_mergeFields hen hfn, hk]
      apply mergeField_mergeField _ (merge_withoutTombstones (hfs (k, u) hu))
      intro m hm
      exact ih (k, u) hu m (hes (k, m) (Entries.mem_of_get? hm)) (hfs (k, u) hu)
    | null => exact merge_merge_replaced hb rfl
    | scalar s => exact merge_merge_replaced hb rfl
    | sequence ms => exact merge_merge_replaced hb rfl

/-- a mapping with nulls in all places, under an update with tombstones in all places -/
theorem merge_merge_self_nested :
    let a : Node := .mapping [("a", .null), ("gone", .integer 1),
      ("list", .sequence [.null, .text "x", .mapping [("b", .integer 1), ("c", .null)]])]
    let b : Node := .mapping [("a", .integer 2), ("gone", .null),
      ("list", .sequence [.text "y", .null, .mapping [("d", .mapping [("e", .null)]), ("b", .null)],
        .mapping [("f", .null)]]),
      ("new", .mapping [("g", .null), ("h", .sequence [.null])])]
    a.WellKeyed ∧ b.WellKeyed ∧ (a.merge b).merge b = a.merge b :=
  ⟨by decide, by decide, merge_merge_self _ _ (by decide) (by decide)⟩

end ConfigReconcile.Node
