import ConfigReconcile.Proofs.Merge.Places

/-!
# No merge leaves a new tombstone

A tombstone is a null under a key.  An update may hold nulls under its keys at any depth, but what
it brings into a tree has lost them:

* `not_hasTombstone_withoutTombstones`   a tree without its tombstones has none at any place;
* `HasTombstone.of_merge`   where a merge has a tombstone, the main tree had one already;
* `hasTombstone_of_mergeAll`   the same for any number of updates in turn.

Nulls in sequences are no tombstones: they come and go with the elements of the update.
-/

namespace ConfigReconcile.Node

variable {n m u main update : Node} {p : List Step} {k : String}

/-- the mapping at `p` has a null under the key `k` -/
def HasTombstone (n : Node) (p : List Step) (k : String) : Prop :=
  n.sub? (p ++ [.key k]) = some .null

theorem hasTombstone_nil : n.HasTombstone [] k ↔ n.child? (.key k) = some .null := by
  rw [HasTombstone, List.nil_append, sub?_singleton]

theorem hasTombstone_cons {s : Step} :
    n.HasTombstone (s :: p) k ↔ ∃ c, n.child? s = some c ∧ c.HasTombstone p k := by
  rw [HasTombstone, List.cons_append, sub?_cons, Option.bind_eq_some_iff]
  rfl

/-! ## what an update brings -/

theorem isNull_withoutTombstones (n : Node) : n.withoutTombstones.isNull = n.isNull := by
  cases n <;> rw [withoutTombstones] <;> rfl

theorem kept?_ne_null (u : Node) : u.kept? ≠ some .null := by
  intro h
  cases hu : u.isNull with
  | true =>
    rw [isNull_eq_true.1 hu, kept?_null] at h
    cases h
  | false =>
    rw [kept?_of_not_null hu, Option.some_inj] at h
    rw [← isNull_withoutTombstones, h] at hu
    cases hu

/-- a child that is left is a child without its own tombstones -/
theorem exists_child?_of_withoutTombstones {s : Step} {c : Node} (hn : n.WellKeyed)
    (h : n.withoutTombstones.child? s = some c) :
    ∃ d, n.child? s = some d ∧ c = d.withoutTombstones := by
  cases s with
  | index i =>
    rw [child?_index_withoutTombstones] at h
    obtain ⟨d, hd, rfl⟩ := Option.map_eq_some_iff.1 h
    exact ⟨d, hd, rfl⟩
  | key j =>
    rw [child?_key_withoutTombstones hn] at h
    obtain ⟨d, hd, hk⟩ := Option.bind_eq_some_iff.1 h
    refine ⟨d, hd, ?_⟩
    unfold kept? at hk
    split at hk
    · cases hk
    · exact (Option.some.inj hk).symm

theorem not_hasTombstone_withoutTombstones (hn : n.WellKeyed) :
    ¬n.withoutTombstones.HasTombstone p k := by
  induction p generalizing n with
  | nil =>
    rw [hasTombstone_nil, child?_key_withoutTombstones hn, Option.bind_eq_some_iff]
    rintro ⟨c, -, hc⟩
    exact kept?_ne_null c hc
  | cons s p ih =>
    rw [hasTombstone_cons]
    rintro ⟨c, hc, ht⟩
    obtain ⟨d, hd, rfl⟩ := exists_child?_of_withoutTombstones hn hc
    exact ih (wellKeyed_of_child? hn hd) ht

/-! ## one update -/

theorem mergeField_ne_null (m? : Option Node) (u : Node) : mergeField m? u ≠ some .null := by
  cases m? with
  | none => exact kept?_ne_null u
  | some m =>
    cases hp : m.mergesInPlace u with
    | false =>
      rw [mergeField_not_inPlace hp]
      exact kept?_ne_null u
    | true =>
      rw [mergeField_inPlace hp]
      -- two containers of one kind make a container
      rcases mergesInPlace_cases hp with ⟨ms, us, rfl, rfl⟩ | ⟨es, fs, rfl, rfl⟩
      · rw [merge_sequence]
        intro h
        cases h
      · rw [merge_mapping]
        intro h
        cases h

/-- a merge that is not done in place gives one of the two trees -/
theorem merge_of_not_inPlace (h : m.mergesInPlace u = false) :
    m.merge u = m ∨ m.merge u = u.withoutTombstones := by
  cases hm : m.isNull with
  | true =>
    left
    rw [isNull_eq_true.1 hm, merge_null_left]
  | false =>
    cases hu : u.isNull with
    | true =>
      left
      rw [isNull_eq_true.1 hu, merge_null_right]
    | false =>
      right
      exact merge_replace hm hu h

theorem HasTombstone.of_not_inPlace (hupdate : update.WellKeyed)
    (hp : main.mergesInPlace update = false) (h : (main.merge update).HasTombstone p k) :
    main.HasTombstone p k := by
  rcases merge_of_not_inPlace hp with he | he
  · rwa [he] at h
  · rw [he] at h
    exact absurd h (not_hasTombstone_withoutTombstones hupdate)

theorem HasTombstone.of_merge (hmain : main.WellKeyed) (hupdate : update.WellKeyed)
    (h : (main.merge update).HasTombstone p k) : main.HasTombstone p k := by
  induction p generalizing main update with
  | nil =>
    cases hp : main.mergesInPlace update with
    | false => exact h.of_not_inPlace hupdate hp
    | true =>
      rw [hasTombstone_nil, child?_merge hmain hupdate hp] at h
      rw [hasTombstone_nil]
      cases hu : update.child? (.key k) with
      | none =>
        rw [hu] at h
        exact h
      | some u =>
        rw [hu] at h
        exact absurd h (mergeField_ne_null _ u)
  | cons s p ih =>
    cases hp : main.mergesInPlace update with
    | false => exact h.of_not_inPlace hupdate hp
    | true =>
      obtain ⟨c, hc, ht⟩ := hasTombstone_cons.1 h
      rw [child?_merge hmain hupdate hp] at hc
      cases hu : update.child? s with
      | none =>
        rw [hu] at hc
        exact hasTombstone_cons.2 ⟨c, hc, ht⟩
      | some u =>
        rw [hu] at hc
        have huk := wellKeyed_of_child? hupdate hu
        -- what comes to stand there is merged into a child of the main tree, or is new and clean
        rcases mergeChild_cases hc with ⟨m, hm, rfl⟩ | rfl
        · exact hasTombstone_cons.2 ⟨m, hm, ih (wellKeyed_of_child? hmain hm) huk ht⟩
        · exact absurd ht (not_hasTombstone_withoutTombstones huk)

/-! ## updates in turn -/

/-- a main tree after updates in turn -/
def mergeAll (main : Node) (updates : List Node) : Node := updates.foldl merge main

theorem HasTombstone.of_mergeAll {updates : List Node} (hmain : main.WellKeyed)
    (hupdates : ∀ u ∈ updates, u.WellKeyed) (h : (mergeAll main updates).HasTombstone p k) :
    main.HasTombstone p k := by
  induction updates generalizing main with
  | nil => exact h
  | cons u us ih =>
    rw [List.forall_mem_cons] at hupdates
    have hmerged : (main.merge u).HasTombstone p k :=
      ih (hmain.merge hupdates.1) hupdates.2 h
    exact hmerged.of_merge hmain hupdates.1

/-- **merging never introduces a tombstone**: after any number of updates, the tree has a null under
a key only where the main tree had one; and if that had none, there is none for ever -/
theorem hasTombstone_of_mergeAll (main : Node) (updates : List Node) (hmain : main.WellKeyed)
    (hupdates : ∀ u ∈ updates, u.WellKeyed) :
    (∀ i p k, (mergeAll main (updates.take i)).HasTombstone p k → main.HasTombstone p k) ∧
      ((∀ p k, ¬main.HasTombstone p k) →
        ∀ i p k, ¬(mergeAll main (updates.take i)).HasTombstone p k) := by
  have hstep : ∀ i p k, (mergeAll main (updates.take i)).HasTombstone p k →
      main.HasTombstone p k := by
    intro i p k h
    exact h.of_mergeAll hmain fun u hu => hupdates u (List.mem_of_mem_take hu)
  exact ⟨hstep, fun hnone i p k h => hnone p k (hstep i p k h)⟩

/-- nulls come into the place of a text, under a new key, behind the end of a sequence and within an
element; the one tombstone that is there at last was there before, and without it there is none -/
theorem hasTombstone_of_mergeAll_four :
    let main : Node := .mapping [("old", .null), ("auth", .text "none"),
      ("list", .sequence [.mapping [("a", .integer 1)], .null])]
    let updates : List Node := [
      .mapping [("auth", .mapping [("ldap", .null), ("realm", .mapping [("x", .null)])]),
        ("new", .mapping [("y", .null), ("z", .sequence [.null, .mapping [("w", .null)]])])],
      .mapping [("list", .sequence [.mapping [("a", .mapping [("b", .null)]), ("c", .null)], .null,
        .mapping [("d", .null)]])]]
    let clean := main.withoutTombstones
    main.WellKeyed ∧ clean.WellKeyed ∧ (∀ u ∈ updates, u.WellKeyed) ∧
      (mergeAll main (updates.take 2)).HasTombstone [] "old" ∧ main.HasTombstone [] "old" ∧
      (∀ p k, ¬clean.HasTombstone p k) ∧
      ∀ i p k, ¬(mergeAll clean (updates.take i)).HasTombstone p k := by
  intro main updates clean
  have hmain : main.WellKeyed := by decide
  have hclean : clean.WellKeyed := hmain.withoutTombstones
  have hupdates : ∀ u ∈ updates, u.WellKeyed := by decide
  have hold : (mergeAll main (updates.take 2)).HasTombstone [] "old" := rfl
  have hnone : ∀ p k, ¬clean.HasTombstone p k := fun p k => not_hasTombstone_withoutTombstones hmain
  exact ⟨hmain, hclean, hupdates, hold,
    (hasTombstone_of_mergeAll main updates hmain hupdates).1 2 [] "old" hold, hnone,
    (hasTombstone_of_mergeAll clean updates hclean hupdates).2 hnone⟩

end ConfigReconcile.Node
