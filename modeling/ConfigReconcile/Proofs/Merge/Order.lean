import ConfigReconcile.Proofs.Document.Reordering
import ConfigReconcile.Proofs.Merge.Fields

/-!
# What does not matter to a merge

* The order of KEYS: trees that differ in it alone merge to trees that do (`Reordered.merge`), and
  these are written as one text (`sameAs_merge`).
* The order of two INDEPENDENT updates, which have no key in common but with mappings that are
  independent again (`Independent`, `sameAs_merge_merge`).

For the second, all that a main tree has to say under the keys of an update is what it holds there;
a main tree that is no mapping says nothing (`get?_merge_mapping`).
-/

namespace ConfigReconcile.Node

variable {m m' u u' : Node}

/-! ## the order of keys -/

theorem Reordered.mergesInPlace_eq (hm : m.Reordered m') (hu : u.Reordered u') :
    m.mergesInPlace u = m'.mergesInPlace u' := by
  cases hm <;> cases hu <;> rfl

/-- two containers of one kind are reordered if their children are -/
theorem reordered_of_child? {a b : Node} (h : a.mergesInPlace b = true)
    (hc : ∀ s, Option.Rel Reordered (a.child? s) (b.child? s)) : a.Reordered b := by
  rcases mergesInPlace_cases h with ⟨xs, ys, rfl, rfl⟩ | ⟨es, fs, rfl, rfl⟩
  · exact reordered_sequence.2 fun i => hc (.index i)
  · exact reordered_mapping.2 fun k => hc (.key k)

theorem Reordered.mergeChild {m? m'? : Option Node} (hm : Option.Rel Reordered m? m'?)
    (hu : u.Reordered u') (hw : u.withoutTombstones.Reordered u'.withoutTombstones)
    (ih : ∀ m m', m? = some m → m'? = some m' → (m.merge u).Reordered (m'.merge u')) (s : Step) :
    Option.Rel Reordered (mergeChild s m? u) (mergeChild s m'? u') := by
  cases s with
  | index i =>
    cases hm with
    | none => exact .some hw
    | some h => exact .some (ih _ _ rfl rfl)
  | key k =>
    cases hm with
    | none => exact hu.kept? hw
    | @some m m' h =>
      show Option.Rel Reordered (mergeField (some m) u) (mergeField (some m') u')
      have hp := h.mergesInPlace_eq hu
      cases hin : m.mergesInPlace u with
      | true =>
        rw [mergeField_inPlace hin, mergeField_inPlace (hp ▸ hin)]
        exact .some (ih m m' rfl rfl)
      | false =>
        rw [mergeField_not_inPlace hin, mergeField_not_inPlace (hp ▸ hin)]
        exact hu.kept? hw

theorem Reordered.merge_of_child? (hm : m.Reordered m') (hu : u.Reordered u')
    (hmk : m.WellKeyed) (hmk' : m'.WellKeyed) (huk : u.WellKeyed) (huk' : u'.WellKeyed)
    (hnull : u.isNull = false)
    (ih : ∀ s x y, u.child? s = some x → u'.child? s = some y → ∀ n n' : Node, n.Reordered n' →
      n.WellKeyed → n'.WellKeyed → (n.merge x).Reordered (n'.merge y)) :
    (m.merge u).Reordered (m'.merge u') := by
  have hp := hm.mergesInPlace_eq hu
  cases hin : m.mergesInPlace u with
  | false =>
    -- the update takes the place of the main tree, unless that one is null
    cases hmn : m.isNull with
    | true =>
      have hmn' : m'.isNull = true := hm.isNull_eq ▸ hmn
      rw [isNull_eq_true.1 hmn, isNull_eq_true.1 hmn', merge_null_left, merge_null_left]
      exact .null
    | false =>
      rw [merge_replace hmn hnull hin, merge_replace (hm.isNull_eq ▸ hmn) (hu.isNull_eq ▸ hnull)
        (hp ▸ hin)]
      exact hu.withoutTombstones huk huk'
  | true =>
    have hkind : (m.merge u).mergesInPlace (m'.merge u') = true := by
      rcases mergesInPlace_cases hin with ⟨ms, us, rfl, rfl⟩ | ⟨es, fs, rfl, rfl⟩ <;>
        cases hm <;> cases hu <;> rfl
    refine reordered_of_child? hkind fun s => ?_
    rw [child?_merge hmk huk hin, child?_merge hmk' huk' (hp ▸ hin)]
    have hrel := hu.child? s
    cases hx : u.child? s with
    | none =>
      cases hy : u'.child? s with
      | none => exact hm.child? s
      | some y =>
        rw [hx, hy] at hrel
        cases hrel
    | some x =>
      cases hy : u'.child? s with
      | none =>
        rw [hx, hy] at hrel
        cases hrel
      | some y =>
        rw [hx, hy, Option.rel_some_some] at hrel
        have hxk := wellKeyed_of_child? huk hx
        have hyk := wellKeyed_of_child? huk' hy
        refine Reordered.mergeChild (hm.child? s) hrel (hrel.withoutTombstones hxk hyk) ?_ s
        intro n n' hn hn'
        have hnn := hm.child? s
        rw [hn, hn', Option.rel_some_some] at hnn
        exact ih s x y hx hy n n' hnn (wellKeyed_of_child? hmk hn) (wellKeyed_of_child? hmk' hn')

theorem Reordered.merge (hu : u.Reordered u') (hm : m.Reordered m') (hmk : m.WellKeyed)
    (hmk' : m'.WellKeyed) (huk : u.WellKeyed) (huk' : u'.WellKeyed) :
    (m.merge u).Reordered (m'.merge u') := by
  induction hu generalizing m m' with
  | null => exact hm
  | scalar s =>
    show (if m.isNull then m else .scalar s).Reordered (if m'.isNull then m' else .scalar s)
    rw [hm.isNull_eq]
    split
    · exact hm
    · exact .scalar s
  | sequence hl h ih =>
    refine hm.merge_of_child? (.sequence hl h) hmk hmk' huk huk' rfl ?_
    intro s x y hx hy n n' hn hnk hnk'
    have hxk := wellKeyed_of_child? huk hx
    have hyk := wellKeyed_of_child? huk' hy
    cases s with
    | key k => cases hx
    | index i => exact ih i x y hx hy hn hnk hnk' hxk hyk
  | mapping hk h ih =>
    refine hm.merge_of_child? (.mapping hk h) hmk hmk' huk huk' rfl ?_
    intro s x y hx hy n n' hn hnk hnk'
    have hxk := wellKeyed_of_child? huk hx
    have hyk := wellKeyed_of_child? huk' hy
    cases s with
    | key k => exact ih k x y hx hy hn hnk hnk' hxk hyk
    | index i => cases hx

/-- **the order of keys does not matter**: trees that differ in it alone merge to trees that differ
in it alone, and these are written as one text, or neither is written -/
theorem sameAs_merge (main main' update update' : Node) (hmk : main.WellKeyed)
    (hmk' : main'.WellKeyed) (huk : update.WellKeyed) (huk' : update'.WellKeyed)
    (hm : main.sameAs main' = true) (hu : update.sameAs update' = true) :
    (main.merge update).sameAs (main'.merge update') = true ∧
      (main.merge update).render = (main'.merge update').render := by
  have hk := hmk.merge huk
  have hk' := hmk'.merge huk'
  have h : (main.merge update).Reordered (main'.merge update') :=
    ((sameAs_iff_reordered huk huk').1 hu).merge ((sameAs_iff_reordered hmk hmk').1 hm) hmk hmk' huk
      huk'
  exact ⟨(sameAs_iff_reordered hk hk').2 h, h.render_eq hk hk'⟩

/-- keys in other orders in a sequence and above it, with tombstones and a new key -/
theorem sameAs_merge_nested :
    let main : Node := .mapping [("a", .integer 1),
      ("list", .sequence [.mapping [("x", .integer 1), ("y", .null)], .null]), ("b", .null)]
    let main' : Node := .mapping [("b", .null), ("a", .integer 1),
      ("list", .sequence [.mapping [("y", .null), ("x", .integer 1)], .null])]
    let update : Node := .mapping [("list", .sequence [.mapping [("z", .text "n"), ("x", .null)]]),
      ("new", .mapping [("d", .integer 4), ("c", .null)]), ("a", .null)]
    let update' : Node := .mapping [("new", .mapping [("c", .null), ("d", .integer 4)]),
      ("a", .null), ("list", .sequence [.mapping [("x", .null), ("z", .text "n")]])]
    main.WellKeyed ∧ main'.WellKeyed ∧ update.WellKeyed ∧ update'.WellKeyed ∧
      main.sameAs main' = true ∧ update.sameAs update' = true ∧
      (main.merge update).sameAs (main'.merge update') = true ∧
      (main.merge update).render = (main'.merge update').render := by
  intro main main' update update'
  have hm : main.sameAs main' = true := by decide
  have hu : update.sameAs update' = true := by decide
  exact ⟨by decide, by decide, by decide, by decide, hm, hu,
    sameAs_merge main main' update update' (by decide) (by decide) (by decide) (by decide) hm hu⟩

/-! ## the order of independent updates -/

/-- two mappings that have no key in common, but for mappings that are independent again -/
inductive Independent : Node → Node → Prop where
  | mapping {bs cs : List (String × Node)}
      (shared : ∀ (k : String) (b c : Node), Entries.get? bs k = some b →
        Entries.get? cs k = some c → Independent b c) :
      Independent (.mapping bs) (.mapping cs)

section
variable {main b c : Node} {fs : List (String × Node)}

theorem Independent.of_entries {bs cs : List (String × Node)}
    (h : ∀ e ∈ bs, ∀ f ∈ cs, e.1 = f.1 → e.2.Independent f.2) :
    Independent (.mapping bs) (.mapping cs) :=
  .mapping fun k b c hb hc =>
    h (k, b) (Entries.mem_of_get? hb) (k, c) (Entries.mem_of_get? hc) rfl

theorem isMapping_merge (h : main.isNull = false) : (main.merge (mapping fs)).isMapping = true := by
  cases main with
  | null => cases h
  | _ => rfl

theorem isNull_of_isMapping {n : Node} (h : n.isMapping = true) : n.isNull = false := by
  cases n with
  | mapping es => rfl
  | _ => cases h

theorem reordered_of_get? {a b : Node} (ha : a.isMapping = true) (hb : b.isMapping = true)
    (h : ∀ k, Option.Rel Reordered (a.get? k) (b.get? k)) : a.Reordered b := by
  cases a with
  | mapping es =>
    cases b with
    | mapping fs => exact reordered_mapping.2 h
    | _ => cases hb
  | _ => cases ha

theorem get?_merge_mapping (hnull : main.isNull = false) (hm : main.WellKeyed)
    (hf : (mapping fs).WellKeyed) (k : String) :
    (main.merge (mapping fs)).get? k =
      match Entries.get? fs k with
      | none => main.get? k
      | some u => mergeField (main.get? k) u := by
  cases hp : main.mergesInPlace (mapping fs) with
  | true => exact child?_merge hm hf hp (.key k)
  | false =>
    have hnone : main.get? k = none := by
      cases main with
      | mapping es => cases hp
      | _ => rfl
    rw [merge_replace hnull rfl hp, hnone]
    refine (child?_key_withoutTombstones hf k).trans ?_
    show (Entries.get? fs k).bind kept? = _
    cases Entries.get? fs k <;> rfl

theorem mergeField_of_isMapping {n : Node} (h : n.isMapping = true) :
    mergeField (some n) (mapping fs) = some (n.merge (mapping fs)) := by
  cases n with
  | mapping es => rfl
  | _ => cases h

/-- under the key of a mapping, an update that is a mapping is laid over what was there, or over
something that is no mapping -/
theorem exists_mergeField (m? : Option Node) (hm : ∀ m, m? = some m → m.WellKeyed) :
    ∃ n : Node, n.isNull = false ∧ n.WellKeyed ∧
      ∀ fs, mergeField m? (mapping fs) = some (n.merge (mapping fs)) := by
  have hother (h : ∀ fs, mergeField m? (mapping fs) = (mapping fs).kept?) :
      ∃ n : Node, n.isNull = false ∧ n.WellKeyed ∧
        ∀ fs, mergeField m? (mapping fs) = some (n.merge (mapping fs)) :=
    -- any tree that is neither null nor a mapping gives way to an update in the same way
    ⟨.sequence [], rfl, trivial, h⟩
  cases m? with
  | none => exact hother fun _ => rfl
  | some m =>
    cases m with
    | mapping es => exact ⟨.mapping es, rfl, hm _ rfl, fun _ => rfl⟩
    | _ => exact hother fun _ => rfl

theorem Independent.merge_merge (h : b.Independent c) (hm : main.WellKeyed) (hb : b.WellKeyed)
    (hc : c.WellKeyed) : ((main.merge b).merge c).Reordered ((main.merge c).merge b) := by
  induction h generalizing main with
  | @mapping bs cs shared ih =>
    cases hnull : main.isNull with
    | true =>
      rw [isNull_eq_true.1 hnull]
      simp only [merge_null_left]
      exact .null
    | false =>
      have hmb : (main.merge (.mapping bs)).isNull = false :=
        isNull_of_isMapping (isMapping_merge hnull)
      have hmc : (main.merge (.mapping cs)).isNull = false :=
        isNull_of_isMapping (isMapping_merge hnull)
      refine reordered_of_get? (isMapping_merge hmb) (isMapping_merge hmc) fun k => ?_
      rw [get?_merge_mapping hmb (hm.merge hb) hc, get?_merge_mapping hnull hm hb,
        get?_merge_mapping hmc (hm.merge hc) hb, get?_merge_mapping hnull hm hc]
      cases hkb : Entries.get? bs k with
      | none => exact rel_refl _
      | some b =>
        cases hkc : Entries.get? cs k with
        | none => exact rel_refl _
        | some c =>
          have hbk := ((wellKeyed_mapping bs).1 hb).2 _ (Entries.mem_of_get? hkb)
          have hck := ((wellKeyed_mapping cs).1 hc).2 _ (Entries.mem_of_get? hkc)
          obtain ⟨n, hn, hnk, hmerge⟩ := exists_mergeField (main.get? k) fun m hg =>
            wellKeyed_of_child? (s := .key k) hm hg
          have hi := ih k b c hkb hkc hnk hbk hck
          -- what they share are mappings, so either one leaves a mapping for the other
          cases shared k b c hkb hkc with
          | mapping _ =>
            show Option.Rel Reordered (mergeField (mergeField (main.get? k) _) _)
              (mergeField (mergeField (main.get? k) _) _)
            rw [hmerge, hmerge, mergeField_of_isMapping (isMapping_merge hn),
              mergeField_of_isMapping (isMapping_merge hn)]
            exact .some hi

/-- **independent updates commute**: laid over any tree in either order they give trees that differ
in the order of keys alone, and these are written as one text, or neither is written -/
theorem sameAs_merge_merge (main b c : Node) (hm : main.WellKeyed) (hb : b.WellKeyed)
    (hc : c.WellKeyed) (h : b.Independent c) :
    ((main.merge b).merge c).sameAs ((main.merge c).merge b) = true ∧
      ((main.merge b).merge c).render = ((main.merge c).merge b).render := by
  have hbc := (hm.merge hb).merge hc
  have hcb := (hm.merge hc).merge hb
  have hr := h.merge_merge hm hb hc
  exact ⟨(sameAs_iff_reordered hbc hcb).2 hr, hr.render_eq hbc hcb⟩

/-- a text that both updates turn into a mapping, a tombstone of one of them below it, and keys of
their own -/
theorem sameAs_merge_merge_replaced :
    let main : Node := .mapping [("auth", .text "none"), ("old", .integer 1), ("keep", .null)]
    let b : Node := .mapping [("auth", .mapping [("ldap", .null), ("realm", .mapping [])]),
      ("old", .null), ("x", .integer 1)]
    let c : Node := .mapping [("y", .sequence [.null]),
      ("auth", .mapping [("realm", .mapping [("name", .text "r")]), ("port", .integer 8)])]
    main.WellKeyed ∧ b.WellKeyed ∧ c.WellKeyed ∧ b.Independent c ∧
      ((main.merge b).merge c).sameAs ((main.merge c).merge b) = true ∧
      ((main.merge b).merge c).render = ((main.merge c).merge b).render := by
  intro main b c
  have hrealm : Independent (.mapping []) (.mapping [("name", .text "r")]) :=
    .of_entries (by simp)
  have hauth : Independent (.mapping [("ldap", .null), ("realm", .mapping [])])
      (.mapping [("realm", .mapping [("name", .text "r")]), ("port", .integer 8)]) :=
    .of_entries (by simpa using hrealm)
  have h : b.Independent c := .of_entries (by simpa using hauth)
  exact ⟨by decide, by decide, by decide, h,
    sameAs_merge_merge main b c (by decide) (by decide) (by decide) h⟩

end

end ConfigReconcile.Node
