import ConfigReconcile.Proofs.Merge.Fields

/-!
# What a merge leaves at a place

Where `main` and the update hold two mappings or two sequences, the merged tree holds their merge
(`sub?_merge_inPlace`).  From this one fact, followed down to a place:

* `sub?_merge_scalar`   a scalar of the update wins at its place, unless a null of `main` in a SLOT
                        (the root, or an element of a sequence) is in the way (`BlockedAt`);
* `sub?_merge_frame`    what only `main` has stays, a tombstone of the update leaves nothing, and
                        the keys of merged mappings come in a fixed order.
-/

namespace ConfigReconcile.Node

variable {main update m u : Node}

/-! ## two containers of one kind -/

theorem mergesInPlace_of_sub? {p : List Step} (hm : main.sub? p = some m)
    (hu : update.sub? p = some u) (h : m.mergesInPlace u = true) :
    main.mergesInPlace update = true := by
  cases p with
  | nil =>
    cases hm
    cases hu
    exact h
  | cons s p =>
    obtain ⟨m', hm', -⟩ := Option.bind_eq_some_iff.1 hm
    obtain ⟨u', hu', -⟩ := Option.bind_eq_some_iff.1 hu
    exact mergesInPlace_of_child? hm' hu'

theorem sub?_merge_inPlace {p : List Step} (hmain : main.WellKeyed) (hupdate : update.WellKeyed)
    (hm : main.sub? p = some m) (hu : update.sub? p = some u) (h : m.mergesInPlace u = true) :
    (main.merge update).sub? p = some (m.merge u) := by
  induction p generalizing main update with
  | nil =>
    cases hm
    cases hu
    rfl
  | cons s p ih =>
    obtain ⟨m', hm', hmp⟩ := Option.bind_eq_some_iff.1 hm
    obtain ⟨u', hu', hup⟩ := Option.bind_eq_some_iff.1 hu
    have hchild : (main.merge update).child? s = some (m'.merge u') := by
      rw [child?_merge hmain hupdate (mergesInPlace_of_child? hm' hu'), hm', hu']
      exact mergeChild_inPlace (mergesInPlace_of_sub? hmp hup h) s
    rw [sub?_cons, hchild, Option.bind_some]
    exact ih (wellKeyed_of_child? hmain hm') (wellKeyed_of_child? hupdate hu') hmp hup

theorem sub?_merge_concat {p : List Step} (hmain : main.WellKeyed) (hupdate : update.WellKeyed)
    (hm : main.sub? p = some m) (hu : update.sub? p = some u) (h : m.mergesInPlace u = true)
    (s : Step) :
    (main.merge update).sub? (p ++ [s]) =
      match u.child? s with
      | none => m.child? s
      | some u' => mergeChild s (m.child? s) u' := by
  rw [sub?_append, sub?_merge_inPlace hmain hupdate hm hu h, Option.bind_some, sub?_singleton]
  exact child?_merge (wellKeyed_of_sub? hmain hm) (wellKeyed_of_sub? hupdate hu) h s

/-! ## the update wins -/

/-- the root, or an element of a sequence: a place where a null of the main tree is not replaced -/
def IsSlot (p : List Step) : Prop := p = [] ∨ ∃ q i, p = q ++ [.index i]

/-- the main tree has a null in a slot `q` at `p` or on the way to it -/
def BlockedAt (main : Node) (p q : List Step) : Prop :=
  q <+: p ∧ IsSlot q ∧ main.sub? q = some .null

theorem isSlot_index (i : Nat) {p : List Step} (h : IsSlot p) : IsSlot (.index i :: p) := by
  rcases h with rfl | ⟨q, j, rfl⟩
  · exact .inr ⟨[], i, rfl⟩
  · exact .inr ⟨.index i :: q, j, rfl⟩

theorem isSlot_cons (s : Step) {p : List Step} (hp : p ≠ []) (h : IsSlot p) : IsSlot (s :: p) := by
  rcases h with rfl | ⟨q, j, rfl⟩
  · exact absurd rfl hp
  · exact .inr ⟨s :: q, j, rfl⟩

theorem blockedAt_nil (p : List Step) : null.BlockedAt p [] := ⟨List.nil_prefix, .inl rfl, rfl⟩

theorem BlockedAt.cons {s : Step} {p q : List Step} (hm : main.child? s = some m)
    (hs : IsSlot (s :: q)) (h : m.BlockedAt p q) : main.BlockedAt (s :: p) (s :: q) := by
  obtain ⟨hq, -, hnull⟩ := h
  refine ⟨List.cons_prefix_cons.2 ⟨rfl, hq⟩, hs, ?_⟩
  rw [sub?_cons, hm]
  exact hnull

/-- there is at most one null on the way -/
theorem BlockedAt.unique {p q r : List Step} (hq : main.BlockedAt p q) (hr : main.BlockedAt p r) :
    q = r := by
  have below : ∀ {a b : List Step}, main.sub? a = some .null → main.sub? b = some .null →
      a <+: b → a = b := by
    rintro a - ha hb ⟨c, rfl⟩
    rw [sub?_append, ha, Option.bind_some] at hb
    cases c with
    | nil => rw [List.append_nil]
    | cons s c => cases isNull_of_sub? (List.cons_ne_nil s c) hb
  rcases Nat.le_total q.length r.length with hl | hl
  · exact below hq.2.2 hr.2.2 (List.prefix_of_prefix_length_le hq.1 hr.1 hl)
  · exact (below hr.2.2 hq.2.2 (List.prefix_of_prefix_length_le hr.1 hq.1 hl)).symm

/-- a null in the way stays -/
theorem sub?_merge_blocked {p q : List Step} (hmain : main.WellKeyed) (hupdate : update.WellKeyed)
    (h : main.BlockedAt p q) (hu : update.sub? p = some u) :
    (main.merge update).sub? q = some .null := by
  obtain ⟨⟨r, rfl⟩, hs, hnull⟩ := h
  rcases hs with rfl | ⟨q, i, rfl⟩
  · cases hnull
    rw [merge_null_left]
    rfl
  · rw [sub?_append] at hnull
    rw [sub?_append, sub?_append] at hu
    obtain ⟨m', hm', hnull⟩ := Option.bind_eq_some_iff.1 hnull
    obtain ⟨u'', hu'', -⟩ := Option.bind_eq_some_iff.1 hu
    obtain ⟨u', hu', hu''⟩ := Option.bind_eq_some_iff.1 hu''
    rw [sub?_singleton] at hnull hu''
    rw [sub?_merge_concat hmain hupdate hm' hu' (mergesInPlace_of_child? hnull hu''), hnull, hu'']
    show some (null.merge u'') = some null
    rw [merge_null_left]

theorem child?_merge_new {s : Step} (hmain : main.WellKeyed) (hupdate : update.WellKeyed)
    (hnull : main.isNull = false) (hm : main.child? s = none) (hu : update.child? s = some u)
    (hu' : u.isNull = false) : (main.merge update).child? s = some u.withoutTombstones := by
  by_cases hp : main.mergesInPlace update = true
  · rw [child?_merge hmain hupdate hp, hm, hu]
    cases s with
    | key k => exact kept?_of_not_null hu'
    | index i => rfl
  · rw [merge_replace hnull (isNull_of_child? hu) (Bool.eq_false_iff.2 hp)]
    exact child?_withoutTombstones hupdate hu hu'

/-- with no null in the way, the scalar of the update is there -/
theorem sub?_merge_of_not_blocked {p : List Step} {s : Scalar} (hmain : main.WellKeyed)
    (hupdate : update.WellKeyed) (h : update.sub? p = some (.scalar s))
    (hb : ∀ q, ¬main.BlockedAt p q) : (main.merge update).sub? p = some (.scalar s) := by
  induction p generalizing main update with
  | nil =>
    cases h
    have hnull : main.isNull = false := by
      rw [Bool.eq_false_iff]
      intro hn
      exact hb [] (isNull_eq_true.1 hn ▸ blockedAt_nil [])
    show some (if main.isNull then main else scalar s) = _
    rw [hnull]
    rfl
  | cons t p ih =>
    obtain ⟨u, hu, hup⟩ := Option.bind_eq_some_iff.1 h
    have hu' := isNull_of_sub?_scalar hup
    have huk := wellKeyed_of_child? hupdate hu
    rw [sub?_cons]
    cases hm : main.child? t with
    | none =>
      have hnull : main.isNull = false := by
        rw [Bool.eq_false_iff]
        intro hn
        exact hb [] (isNull_eq_true.1 hn ▸ blockedAt_nil (t :: p))
      rw [child?_merge_new hmain hupdate hnull hm hu hu']
      exact sub?_withoutTombstones_scalar huk hup
    | some m =>
      have hmk := wellKeyed_of_child? hmain hm
      rw [child?_merge hmain hupdate (mergesInPlace_of_child? hm hu), hm, hu]
      cases t with
      -- an element is always merged, and what blocks it blocks the sequence
      | index i =>
        exact ih hmk huk hup fun q hq => hb _ (hq.cons hm (isSlot_index i hq.2.1))
      | key k =>
        by_cases hp : m.mergesInPlace u = true
        · show (mergeField (some m) u).bind _ = _
          rw [mergeField_inPlace hp]
          apply ih hmk huk hup
          intro q hq
          refine hb _ (hq.cons hm (isSlot_cons _ ?_ hq.2.1))
          -- the value itself is a container, so it is not the null that blocks
          rintro rfl
          have hn : m = .null := by
            have := hq.2.2
            cases this
            rfl
          rw [hn] at hp
          cases u <;> cases hp
        · show (mergeField (some m) u).bind _ = _
          rw [mergeField_not_inPlace (Bool.eq_false_iff.2 hp), kept?_of_not_null hu']
          exact sub?_withoutTombstones_scalar huk hup

/-- **the update wins at every depth**: its scalar is at its place in the merged tree exactly if no
null of the main tree in a slot is in the way, and else that null is what the merged tree holds -/
theorem sub?_merge_scalar (main update : Node) (hmain : main.WellKeyed) (hupdate : update.WellKeyed)
    (p : List Step) (s : Scalar) (h : update.sub? p = some (.scalar s)) :
    ((main.merge update).sub? p = some (.scalar s) ↔ ¬∃ q, main.BlockedAt p q) ∧
      ((∃ q, main.BlockedAt p q) → ∃ q, main.BlockedAt p q ∧
        (∀ r, main.BlockedAt p r → q.length ≤ r.length) ∧
        (main.merge update).sub? q = some .null) := by
  refine ⟨⟨?_, ?_⟩, ?_⟩
  · rintro hs ⟨q, hq⟩
    have hnull := sub?_merge_blocked hmain hupdate hq h
    obtain ⟨r, rfl⟩ := hq.1
    rw [sub?_append, hnull, Option.bind_some] at hs
    cases isNull_of_sub?_scalar hs
  · intro hb
    exact sub?_merge_of_not_blocked hmain hupdate h fun q hq => hb ⟨q, hq⟩
  · rintro ⟨q, hq⟩
    refine ⟨q, hq, ?_, sub?_merge_blocked hmain hupdate hq h⟩
    intro r hr
    cases hq.unique hr
    exact Nat.le_refl _

/-- a null element stands against a scalar two steps below it -/
theorem sub?_merge_scalar_blocked :
    let main : Node := .mapping [("jobs", .sequence [.null, .text "x"]), ("mode", .null)]
    let update : Node := .mapping [("jobs", .sequence [.mapping [("name", .text "build")]])]
    let p : List Step := [.key "jobs", .index 0, .key "name"]
    main.WellKeyed ∧ update.WellKeyed ∧ update.sub? p = some (.text "build") ∧
      main.BlockedAt p [.key "jobs", .index 0] ∧
      (main.merge update).sub? p ≠ some (.text "build") := by
  intro main update p
  have hb : main.BlockedAt p [.key "jobs", .index 0] :=
    ⟨⟨[.key "name"], rfl⟩, .inr ⟨[.key "jobs"], 0, rfl⟩, rfl⟩
  have h := sub?_merge_scalar main update (by decide) (by decide) p (.text "build") rfl
  exact ⟨by decide, by decide, rfl, hb, fun hs => h.1.1 hs ⟨_, hb⟩⟩

/-! ## what the main tree keeps and loses -/

/-- what comes to stand at a step of an update is merged, or the update without tombstones -/
theorem mergeChild_cases {s : Step} {m? : Option Node} {n : Node}
    (h : mergeChild s m? u = some n) :
    (∃ m, m? = some m ∧ n = m.merge u) ∨ n = u.withoutTombstones := by
  cases s with
  | index i =>
    cases m? with
    | none =>
      cases h
      exact .inr rfl
    | some m =>
      cases h
      exact .inl ⟨m, rfl, rfl⟩
  | key k =>
    have hu : u.isNull = false := by
      rw [Bool.eq_false_iff]
      intro hu
      have hn : mergeField m? u = some n := h
      rw [(mergeField_eq_none_iff m? u).2 hu] at hn
      cases hn
    cases m? with
    | none =>
      cases (kept?_of_not_null hu).symm.trans h
      exact .inr rfl
    | some m =>
      by_cases hp : m.mergesInPlace u = true
      · cases (mergeField_inPlace hp).symm.trans h
        exact .inl ⟨m, rfl, rfl⟩
      · rw [mergeChild, mergeField_not_inPlace (Bool.eq_false_iff.2 hp), kept?_of_not_null hu] at h
        cases h
        exact .inr rfl

theorem sub?_merge_tombstone_replaced {p : List Step} {k : String} (hupdate : update.WellKeyed)
    (h : update.sub? (p ++ [.key k]) = some .null) (hp : main.mergesInPlace update = false) :
    (main.merge update).sub? (p ++ [.key k]) = none := by
  by_cases hmain : main.isNull = true
  · rw [isNull_eq_true.1 hmain, merge_null_left]
    exact sub?_null (by simp)
  · rw [merge_replace (Bool.eq_false_iff.2 hmain) (isNull_of_sub? (by simp) h) hp]
    exact sub?_withoutTombstones_tombstone hupdate h

theorem sub?_merge_tombstone {p : List Step} {k : String} (hmain : main.WellKeyed)
    (hupdate : update.WellKeyed) (h : update.sub? (p ++ [.key k]) = some .null) :
    (main.merge update).sub? (p ++ [.key k]) = none := by
  induction p generalizing main update with
  | nil =>
    by_cases hp : main.mergesInPlace update = true
    · rw [List.nil_append, sub?_singleton] at h ⊢
      rw [child?_merge hmain hupdate hp, h]
      exact mergeField_null _
    · exact sub?_merge_tombstone_replaced hupdate h (Bool.eq_false_iff.2 hp)
  | cons s p ih =>
    by_cases hp : main.mergesInPlace update = true
    · rw [List.cons_append, sub?_cons] at h ⊢
      obtain ⟨u, hu, hup⟩ := Option.bind_eq_some_iff.1 h
      have huk := wellKeyed_of_child? hupdate hu
      rw [child?_merge hmain hupdate hp, hu]
      show (mergeChild s (main.child? s) u).bind _ = none
      cases hn : mergeChild s (main.child? s) u with
      | none => rfl
      | some n =>
        rw [Option.bind_some]
        rcases mergeChild_cases hn with ⟨m, hm, rfl⟩ | rfl
        · exact ih (wellKeyed_of_child? hmain hm) huk hup
        · exact sub?_withoutTombstones_tombstone huk hup
    · exact sub?_merge_tombstone_replaced hupdate h (Bool.eq_false_iff.2 hp)

theorem sub?_merge_main_only {p r : List Step} {s : Step} (hmain : main.WellKeyed)
    (hupdate : update.WellKeyed) (hm : main.sub? p = some m) (hu : update.sub? p = some u)
    (h : m.mergesInPlace u = true) (hs : u.child? s = none) :
    (main.merge update).sub? (p ++ s :: r) = main.sub? (p ++ s :: r) := by
  have hchild : (m.merge u).child? s = m.child? s := by
    rw [child?_merge (wellKeyed_of_sub? hmain hm) (wellKeyed_of_sub? hupdate hu) h, hs]
  rw [sub?_append, sub?_append, sub?_merge_inPlace hmain hupdate hm hu h, hm, Option.bind_some,
    Option.bind_some, sub?_cons, sub?_cons, hchild]

/-- **content of the main tree alone stays, and tombstones delete**, at every depth; and merged
mappings list the keys of the main tree before the new ones -/
theorem sub?_merge_frame (main update : Node) (hmain : main.WellKeyed)
    (hupdate : update.WellKeyed) :
    (∀ (q r : List Step) (s : Step) (t m u : Node), main.sub? (q ++ s :: r) = some t →
      main.sub? q = some m → update.sub? q = some u →
      (m.isMapping ∧ u.isMapping ∨ m.isSequence ∧ u.isSequence) → update.sub? (q ++ [s]) = none →
      (main.merge update).sub? (q ++ s :: r) = some t) ∧
    (∀ (q : List Step) (k : String), update.sub? (q ++ [.key k]) = some .null →
      (main.merge update).sub? (q ++ [.key k]) = none) ∧
    (∀ (q : List Step) (es fs : List (String × Node)), main.sub? q = some (.mapping es) →
      update.sub? q = some (.mapping fs) →
      ∃ ms, (main.merge update).sub? q = some (.mapping ms) ∧
        Entries.keys ms = (Entries.keys es).filter (fun k => !buries fs k) ++
          (Entries.keys fs).filter (fun k => !buries fs k && !(Entries.keys es).contains k)) := by
  refine ⟨?_, ?_, ?_⟩
  · intro q r s t m u ht hm hu hkind hs
    have hp : m.mergesInPlace u = true := by
      cases m <;> cases u <;> simp [isMapping, isSequence] at hkind <;> rfl
    rw [sub?_append, hu, Option.bind_some, sub?_singleton] at hs
    rw [sub?_merge_main_only hmain hupdate hm hu hp hs]
    exact ht
  · intro q k h
    exact sub?_merge_tombstone hmain hupdate h
  · intro q es fs hm hu
    have hes := ((wellKeyed_mapping es).1 (wellKeyed_of_sub? hmain hm)).1
    have hfs := ((wellKeyed_mapping fs).1 (wellKeyed_of_sub? hupdate hu)).1
    refine ⟨mergeFields es fs, ?_, ?_⟩
    · rw [sub?_merge_inPlace hmain hupdate hm hu rfl, merge_mapping]
    · exact keys_mergeFields hes hfs

/-- an element beyond the update stays, a tombstone two levels down deletes, new keys come last -/
theorem sub?_merge_frame_nested :
    let main : Node := .mapping [("jobs", .sequence [.mapping [("a", .integer 1), ("b", .null)],
      .mapping [("own", .text "x")]])]
    let update : Node := .mapping [("jobs", .sequence [.mapping [("c", .integer 3), ("a", .null)]])]
    main.WellKeyed ∧ update.WellKeyed ∧
      (main.merge update).sub? [.key "jobs", .index 1, .key "own"] = some (.text "x") ∧
      (main.merge update).sub? [.key "jobs", .index 0, .key "a"] = none ∧
      ∃ ms, (main.merge update).sub? [.key "jobs", .index 0] = some (.mapping ms) ∧
        Entries.keys ms = ["b", "c"] := by
  intro main update
  obtain ⟨hstay, hgone, hkeys⟩ := sub?_merge_frame main update (by decide) (by decide)
  refine ⟨by decide, by decide, ?_, ?_, ?_⟩
  · exact hstay [.key "jobs"] [.key "own"] (.index 1) _ _ _ rfl rfl rfl (.inr ⟨rfl, rfl⟩) rfl
  · exact hgone [.key "jobs", .index 0] "a" rfl
  · exact hkeys [.key "jobs", .index 0] _ _ rfl rfl

end ConfigReconcile.Node
