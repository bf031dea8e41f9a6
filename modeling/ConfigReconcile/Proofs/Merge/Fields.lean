import ConfigReconcile.Document.Merge
import ConfigReconcile.Proofs.Document.Tree

/-!
# What a merge does to one child

`Node.merge` goes through the fields of an update one by one and changes the entries as it goes.
Here the result is read off without the order of work:

* `mergeField`, `mergeItem`   what one field, or one element, of an update leaves in its place;
* `get?_mergeFields`, `keys_mergeFields`, `getElem?_mergeItems`   the merged entries and items, by
                              lookup and by order of keys;
* `child?_merge`              both kinds of container at once, one step below the root;
* `WellKeyed.merge`           a merge of trees with unique keys has unique keys;
* `mergeFields_eq_self`, `mergeItems_eq_self`   an update whose parts all change nothing changes
                              nothing.
-/

namespace ConfigReconcile.Node

/-! ## the four ways to merge two trees -/

theorem merge_mapping (es fs : List (String × Node)) :
    (mapping es).merge (mapping fs) = mapping (mergeFields es fs) := rfl

theorem merge_sequence (ms us : List Node) :
    (sequence ms).merge (sequence us) = sequence (mergeItems ms us) := rfl

/-- where nothing is null and the containers differ, the update takes the place -/
theorem merge_replace {m u : Node} (hm : m.isNull = false) (hu : u.isNull = false)
    (h : m.mergesInPlace u = false) : m.merge u = u.withoutTombstones := by
  cases u with
  | null => cases hu
  | scalar s =>
    show (if m.isNull then m else scalar s) = scalar s
    rw [hm]
    rfl
  | sequence us =>
    cases m with
    | sequence ms => cases h
    | null => cases hm
    | scalar s => rfl
    | mapping es => rfl
  | mapping fs =>
    cases m with
    | mapping es => cases h
    | null => cases hm
    | scalar s => rfl
    | sequence ms => rfl

theorem mergesInPlace_cases {m u : Node} (h : m.mergesInPlace u = true) :
    (∃ ms us, m = sequence ms ∧ u = sequence us) ∨ (∃ es fs, m = mapping es ∧ u = mapping fs) := by
  unfold mergesInPlace at h
  split at h
  · exact .inl ⟨_, _, rfl, rfl⟩
  · exact .inr ⟨_, _, rfl, rfl⟩
  · cases h

/-- two trees that have a child at the same step merge in place -/
theorem mergesInPlace_of_child? {m u m' u' : Node} {s : Step} (hm : m.child? s = some m')
    (hu : u.child? s = some u') : m.mergesInPlace u = true := by
  cases s with
  | key k =>
    obtain ⟨es, rfl, -⟩ := eq_mapping_of_child? hm
    obtain ⟨fs, rfl, -⟩ := eq_mapping_of_child? hu
    rfl
  | index i =>
    obtain ⟨ms, rfl, -⟩ := eq_sequence_of_child? hm
    obtain ⟨us, rfl, -⟩ := eq_sequence_of_child? hu
    rfl

/-! ## one field, one element -/

/-- what a field of an update leaves under its key, where `m?` is what was there -/
def mergeField (m? : Option Node) (u : Node) : Option Node :=
  match m? with
  | some m => if m.mergesInPlace u then some (m.merge u) else u.kept?
  | none => u.kept?

/-- what an element of an update leaves at its index, where `m?` is what was there -/
def mergeItem (m? : Option Node) (u : Node) : Node :=
  match m? with
  | some m => m.merge u
  | none => u.withoutTombstones

theorem mergeField_none (u : Node) : mergeField none u = u.kept? := rfl

theorem mergeField_inPlace {m u : Node} (h : m.mergesInPlace u = true) :
    mergeField (some m) u = some (m.merge u) := if_pos h

theorem mergeField_not_inPlace {m u : Node} (h : m.mergesInPlace u = false) :
    mergeField (some m) u = u.kept? := if_neg (by simp [h])

theorem mergeField_null (m? : Option Node) : mergeField m? .null = none := by
  cases m? with
  | none => rfl
  | some m => cases m <;> rfl

theorem kept?_of_not_null {u : Node} (h : u.isNull = false) : u.kept? = some u.withoutTombstones :=
  if_neg (by simp [h])

/-- a field leaves a value unless it is a tombstone -/
theorem mergeField_eq_none_iff (m? : Option Node) (u : Node) :
    mergeField m? u = none ↔ u.isNull = true := by
  constructor
  · intro h
    by_cases hu : u.isNull = true
    · exact hu
    · have hk := kept?_of_not_null (Bool.eq_false_iff.2 hu)
      cases m? with
      | none =>
        rw [mergeField_none, hk] at h
        cases h
      | some m =>
        by_cases hp : m.mergesInPlace u = true
        · rw [mergeField_inPlace hp] at h
          cases h
        · rw [mergeField_not_inPlace (Bool.eq_false_iff.2 hp), hk] at h
          cases h
  · intro hu
    rw [isNull_eq_true.1 hu, mergeField_null]

/-! ## all fields -/

theorem mergeFields_nil (es : List (String × Node)) : mergeFields es [] = es := by rw [mergeFields]

theorem mergeFields_cons (es : List (String × Node)) (k : String) (u : Node)
    (fs : List (String × Node)) :
    mergeFields es ((k, u) :: fs) =
      mergeFields (Entries.put es k (mergeField (Entries.get? es k) u)) fs := by
  rw [mergeFields]
  congr 1
  cases hg : Entries.get? es k with
  | none =>
    show (if u.isNull then es else Entries.insert es k u.withoutTombstones) = _
    rw [mergeField_none, kept?]
    split
    · exact (Entries.erase_of_not_mem ((Entries.get?_eq_none_iff es k).1 hg)).symm
    · rfl
  | some m =>
    show (if m.mergesInPlace u then Entries.insert es k (m.merge u)
      else if u.isNull then Entries.erase es k
      else Entries.insert es k u.withoutTombstones) = _
    by_cases hp : m.mergesInPlace u = true
    · rw [if_pos hp, mergeField_inPlace hp]
      rfl
    · rw [if_neg hp, mergeField_not_inPlace (Bool.eq_false_iff.2 hp), kept?]
      split <;> rfl

theorem nodup_keys_mergeFields {es : List (String × Node)} (hes : (Entries.keys es).Nodup)
    (fs : List (String × Node)) : (Entries.keys (mergeFields es fs)).Nodup := by
  induction fs generalizing es with
  | nil =>
    rw [mergeFields_nil]
    exact hes
  | cons f fs ih =>
    rw [mergeFields_cons]
    exact ih (Entries.nodup_keys_put hes f.1 _)

theorem get?_mergeFields {es fs : List (String × Node)} (hes : (Entries.keys es).Nodup)
    (hfs : (Entries.keys fs).Nodup) (k : String) :
    Entries.get? (mergeFields es fs) k =
      match Entries.get? fs k with
      | none => Entries.get? es k
      | some u => mergeField (Entries.get? es k) u := by
  induction fs generalizing es with
  | nil =>
    rw [mergeFields_nil]
    rfl
  | cons f fs ih =>
    obtain ⟨j, u⟩ := f
    rw [Entries.keys_cons, List.nodup_cons] at hfs
    rw [mergeFields_cons, ih (Entries.nodup_keys_put hes j _) hfs.2, Entries.get?_cons]
    by_cases hj : j = k
    -- the key does not occur again, so the rest of the update leaves it alone
    · subst hj
      rw [(Entries.get?_eq_none_iff fs j).2 hfs.1, if_pos rfl]
      exact Entries.get?_put_self hes j _
    · rw [if_neg hj, Entries.get?_put_of_ne es _ (Ne.symm hj)]

/-- whether fields have a tombstone under a key -/
def buries (fs : List (String × Node)) (k : String) : Bool := (Entries.get? fs k).any isNull

theorem buries_cons_self (k : String) (u : Node) (fs : List (String × Node)) :
    buries ((k, u) :: fs) k = u.isNull := by
  rw [buries, Entries.get?_cons, if_pos rfl]
  rfl

theorem buries_cons_of_ne {k j : String} (u : Node) (fs : List (String × Node)) (h : j ≠ k) :
    buries ((k, u) :: fs) j = buries fs j := by
  rw [buries, buries, Entries.get?_cons, if_neg (Ne.symm h)]

theorem buries_eq_true {fs : List (String × Node)} {k : String} :
    buries fs k = true ↔ Entries.get? fs k = some .null := by
  rw [buries]
  cases Entries.get? fs k with
  | none => simp
  | some u => simp [isNull_eq_true]

theorem buries_of_not_mem {fs : List (String × Node)} {k : String} (h : k ∉ Entries.keys fs) :
    buries fs k = false := by
  rw [buries, (Entries.get?_eq_none_iff fs k).2 h]
  rfl

/-- the keys of a merge: those that are there and not buried, and then the new ones -/
def mergedKeys (ks : List String) (fs : List (String × Node)) : List String :=
  ks.filter (fun k => !buries fs k) ++
    (Entries.keys fs).filter (fun k => !buries fs k && !ks.contains k)

section
variable {ks : List String} {k : String} {u : Node} {fs : List (String × Node)}

theorem mergedKeys_nil (ks : List String) : mergedKeys ks [] = ks := by
  show ks.filter (fun _ => true) ++ [] = ks
  rw [List.append_nil]
  exact List.filter_eq_self.2 fun _ _ => rfl

theorem buries_cons_of_mem {j : String} (hk : k ∉ Entries.keys fs) (hj : j ∈ Entries.keys fs) :
    j ≠ k ∧ buries ((k, u) :: fs) j = buries fs j := by
  have hne : j ≠ k := fun he => hk (he ▸ hj)
  exact ⟨hne, buries_cons_of_ne u fs hne⟩

/-- a value for a key leaves what the rest of the update does to the other keys -/
theorem filter_buries_cons (hk : k ∉ Entries.keys fs) (hu : u.isNull = false) :
    ks.filter (fun j => !buries ((k, u) :: fs) j) = ks.filter (fun j => !buries fs j) := by
  apply List.filter_congr
  intro j _
  by_cases hj : j = k
  · rw [hj, buries_cons_self, hu, buries_of_not_mem hk]
  · rw [buries_cons_of_ne u fs hj]

theorem mergedKeys_tombstone (hn : ks.Nodup) (hk : k ∉ Entries.keys fs) (hu : u.isNull = true) :
    mergedKeys ks ((k, u) :: fs) = mergedKeys (ks.erase k) fs := by
  rw [mergedKeys, mergedKeys, hn.erase_eq_filter, List.filter_filter, Entries.keys_cons,
    List.filter_cons_of_neg (by rw [buries_cons_self, hu]; simp)]
  congr 1
  · apply List.filter_congr
    intro j _
    by_cases hj : j = k
    · rw [hj, buries_cons_self, hu]
      simp
    · rw [buries_cons_of_ne u fs hj]
      simp [hj]
  · apply List.filter_congr
    intro j hj
    obtain ⟨hne, hb⟩ := buries_cons_of_mem (u := u) hk hj
    rw [hb]
    simp [hne]

theorem mergedKeys_old (hm : k ∈ ks) (hk : k ∉ Entries.keys fs) (hu : u.isNull = false) :
    mergedKeys ks ((k, u) :: fs) = mergedKeys ks fs := by
  rw [mergedKeys, mergedKeys, filter_buries_cons hk hu, Entries.keys_cons,
    List.filter_cons_of_neg (by simp [hm])]
  congr 1
  apply List.filter_congr
  intro j hj
  rw [(buries_cons_of_mem hk hj).2]

theorem mergedKeys_new (hm : k ∉ ks) (hk : k ∉ Entries.keys fs) (hu : u.isNull = false) :
    mergedKeys ks ((k, u) :: fs) = mergedKeys (ks ++ [k]) fs := by
  rw [mergedKeys, mergedKeys, filter_buries_cons hk hu, Entries.keys_cons,
    List.filter_cons_of_pos (by rw [buries_cons_self, hu]; simp [hm]), List.filter_append,
    List.filter_cons_of_pos (by rw [buries_of_not_mem hk]; rfl), List.filter_nil,
    List.append_assoc, List.singleton_append]
  congr 2
  apply List.filter_congr
  intro j hj
  obtain ⟨hne, hb⟩ := buries_cons_of_mem (u := u) hk hj
  rw [hb]
  simp [hne]

end

theorem keys_mergeFields {es fs : List (String × Node)} (hes : (Entries.keys es).Nodup)
    (hfs : (Entries.keys fs).Nodup) :
    Entries.keys (mergeFields es fs) = mergedKeys (Entries.keys es) fs := by
  induction fs generalizing es with
  | nil => rw [mergeFields_nil, mergedKeys_nil]
  | cons f fs ih =>
    obtain ⟨k, u⟩ := f
    rw [Entries.keys_cons, List.nodup_cons] at hfs
    obtain ⟨hk, hfs⟩ := hfs
    rw [mergeFields_cons, ih (Entries.nodup_keys_put hes k _) hfs]
    cases hv : mergeField (Entries.get? es k) u with
    | none =>
      have hu := (mergeField_eq_none_iff _ u).1 hv
      rw [Entries.put, Entries.keys_erase, mergedKeys_tombstone hes hk hu]
    | some v =>
      have hu : u.isNull = false := by
        rw [Bool.eq_false_iff]
        intro hu
        rw [(mergeField_eq_none_iff _ u).2 hu] at hv
        cases hv
      rw [Entries.put, Entries.keys_insert]
      split
      · next hm => rw [mergedKeys_old hm hk hu]
      · next hm => rw [mergedKeys_new hm hk hu]

/-! ## all elements -/

theorem getElem?_mergeItems (ms us : List Node) (i : Nat) :
    (mergeItems ms us)[i]? =
      match us[i]? with
      | none => ms[i]?
      | some u => some (mergeItem ms[i]? u) := by
  induction us generalizing ms i with
  | nil => rw [mergeItems_nil_right]; rfl
  | cons u us ih =>
    cases ms with
    | nil =>
      cases i with
      | zero => rfl
      | succ i => exact ih [] i
    | cons m ms =>
      rw [mergeItems_cons]
      cases i with
      | zero => rfl
      | succ i => exact ih ms i

/-! ## containers that merge in place, one step below the root -/

/-- what a child of an update leaves in its place, where `m?` is what was there -/
def mergeChild : Step → Option Node → Node → Option Node
  | .key _, m?, u => mergeField m? u
  | .index _, m?, u => some (mergeItem m? u)

theorem child?_merge {m u : Node} (hm : m.WellKeyed) (hu : u.WellKeyed)
    (h : m.mergesInPlace u = true) (s : Step) :
    (m.merge u).child? s =
      match u.child? s with
      | none => m.child? s
      | some u' => mergeChild s (m.child? s) u' := by
  rcases mergesInPlace_cases h with ⟨ms, us, rfl, rfl⟩ | ⟨es, fs, rfl, rfl⟩
  · cases s with
    | key k => rfl
    | index i => exact getElem?_mergeItems ms us i
  · cases s with
    | key k =>
      exact get?_mergeFields ((wellKeyed_mapping es).1 hm).1 ((wellKeyed_mapping fs).1 hu).1 k
    | index i => rfl

theorem mergeChild_inPlace {m u : Node} (h : m.mergesInPlace u = true) (s : Step) :
    mergeChild s (some m) u = some (m.merge u) := by
  cases s with
  | key k => exact mergeField_inPlace h
  | index i => rfl

/-! ## keys stay unique -/

theorem wellKeyed_kept? {u n : Node} (hu : u.WellKeyed) (h : u.kept? = some n) : n.WellKeyed := by
  unfold kept? at h
  split at h
  · cases h
  · cases h
    exact hu.withoutTombstones

theorem wellKeyed_mergeField {m? : Option Node} {u n : Node} (hu : u.WellKeyed)
    (hm : ∀ m, m? = some m → (m.merge u).WellKeyed) (h : mergeField m? u = some n) :
    n.WellKeyed := by
  cases m? with
  | none => exact wellKeyed_kept? hu h
  | some m =>
    by_cases hp : m.mergesInPlace u = true
    · rw [mergeField_inPlace hp] at h
      cases h
      exact hm m rfl
    · rw [mergeField_not_inPlace (Bool.eq_false_iff.2 hp)] at h
      exact wellKeyed_kept? hu h

theorem WellKeyed.merge {m u : Node} (hm : m.WellKeyed) (hu : u.WellKeyed) :
    (m.merge u).WellKeyed := by
  induction u generalizing m with
  | null => exact hm
  | scalar s =>
    show (if m.isNull then m else scalar s).WellKeyed
    split
    · exact hm
    · exact hu
  | sequence us ih =>
    have hus := (wellKeyed_sequence us).1 hu
    cases m with
    | sequence ms =>
      rw [merge_sequence, wellKeyed_sequence]
      intro n hn
      obtain ⟨i, hi⟩ := List.mem_iff_getElem?.1 hn
      have hms : ∀ m, ms[i]? = some m → m.WellKeyed := fun m h =>
        (wellKeyed_sequence ms).1 hm m (List.mem_of_getElem? h)
      rw [getElem?_mergeItems] at hi
      cases hu' : us[i]? with
      | none =>
        rw [hu'] at hi
        exact hms n hi
      | some u =>
        have hmem := List.mem_of_getElem? hu'
        rw [hu'] at hi
        cases hi
        cases hm' : ms[i]? with
        | none => exact (hus u hmem).withoutTombstones
        | some m => exact ih u hmem (hms m hm') (hus u hmem)
    | null => exact hm
    | scalar s => exact hu.withoutTombstones
    | mapping es => exact hu.withoutTombstones
  | mapping fs ih =>
    obtain ⟨hfn, hfs⟩ := (wellKeyed_mapping fs).1 hu
    cases m with
    | mapping es =>
      obtain ⟨hen, hes⟩ := (wellKeyed_mapping es).1 hm
      rw [merge_mapping, wellKeyed_mapping]
      have hn := nodup_keys_mergeFields hen fs
      refine ⟨hn, ?_⟩
      rintro ⟨k, n⟩ he
      have hg := Entries.get?_of_mem hn he
      have hold : ∀ m, Entries.get? es k = some m → m.WellKeyed := fun m hm' =>
        hes (k, m) (Entries.mem_of_get? hm')
      rw [get?_mergeFields hen hfn] at hg
      cases hu' : Entries.get? fs k with
      | none =>
        rw [hu'] at hg
        exact hold n hg
      | some u =>
        have hmem := Entries.mem_of_get? hu'
        rw [hu'] at hg
        apply wellKeyed_mergeField (hfs (k, u) hmem) _ hg
        exact fun m hm' => ih (k, u) hmem (hold m hm') (hfs (k, u) hmem)
    | null => exact hm
    | scalar s => exact hu.withoutTombstones
    | sequence ms => exact hu.withoutTombstones

/-! ## updates that change nothing -/

theorem mergeFields_eq_self {es fs : List (String × Node)} (hes : (Entries.keys es).Nodup)
    (hfs : (Entries.keys fs).Nodup)
    (h : ∀ k u, Entries.get? fs k = some u → mergeField (Entries.get? es k) u = Entries.get? es k) :
    mergeFields es fs = es := by
  apply Entries.ext_of_keys (nodup_keys_mergeFields hes fs)
  · have hold : ∀ k ∈ Entries.keys es, (!buries fs k) = true := by
      intro k hk
      rw [Bool.not_eq_true', Bool.eq_false_iff]
      intro hb
      have hg := h k .null (buries_eq_true.1 hb)
      rw [mergeField_null] at hg
      exact (Entries.get?_eq_none_iff es k).1 hg.symm hk
    have hnew : ∀ k ∈ Entries.keys fs,
        ¬(!buries fs k && !(Entries.keys es).contains k) = true := by
      intro k hk hb
      rw [Bool.and_eq_true, Bool.not_eq_true', Bool.not_eq_true'] at hb
      obtain ⟨u, hu⟩ := Option.ne_none_iff_exists'.1
        (fun hn => (Entries.get?_eq_none_iff fs k).1 hn hk)
      have hn : Entries.get? es k = none := by
        rw [Entries.get?_eq_none_iff]
        simpa using hb.2
      have hnull := (mergeField_eq_none_iff _ u).1 ((h k u hu).trans hn)
      have hbury := buries_eq_true.2 (isNull_eq_true.1 hnull ▸ hu)
      rw [hb.1] at hbury
      cases hbury
    rw [keys_mergeFields hes hfs, mergedKeys, List.filter_eq_self.2 hold,
      List.filter_eq_nil_iff.2 hnew, List.append_nil]
  · intro k
    rw [get?_mergeFields hes hfs]
    cases hg : Entries.get? fs k with
    | none => rfl
    | some u => exact h k u hg

theorem mergeItems_eq_self {ms us : List Node}
    (h : ∀ (i : Nat) (u : Node), us[i]? = some u → some (mergeItem ms[i]? u) = ms[i]?) :
    mergeItems ms us = ms := by
  apply List.ext_getElem?
  intro i
  rw [getElem?_mergeItems]
  cases hu : us[i]? with
  | none => rfl
  | some u => exact h i u hu

end ConfigReconcile.Node
