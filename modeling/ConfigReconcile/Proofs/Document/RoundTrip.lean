import ConfigReconcile.Proofs.Document.Reload

/-!
# The round trip of a tree

A tree that is written and read again comes back TIDY: what is empty is gone, the keys of every
mapping are in order, and all else is as it was.

* `Node.tidy`           the tidy tree.  It is defined by what counts as empty (`Node.isEmpty`), not
                        by what the writer leaves out;
* `Node.prune_eq`       the writer leaves out the same;
* `Scalar.Made`         the leaves that can be made of texts, whole numbers of 64 bits and truth
                        values;
* `Node.parse_render`   the round trip, for a tree of such leaves.
-/

namespace ConfigReconcile

open Text Yaml

/-! ## keys in order -/

namespace Entries

variable {α : Type}

/-- the entries sorted by key -/
def byKey (es : List (String × α)) : List (String × α) := es.mergeSort fun e f => e.1 ≤ f.1

theorem ascending_byKey {es : List (String × α)} (h : (keys es).Nodup) : Ascending (byKey es) := by
  have hle : (byKey es).Pairwise fun e f => decide (e.1 ≤ f.1) = true := by
    apply List.pairwise_mergeSort
    · intro e f g hef hfg
      rw [decide_eq_true_eq] at *
      exact String.le_trans hef hfg
    · intro e f
      rw [Bool.or_eq_true, decide_eq_true_eq, decide_eq_true_eq]
      exact String.le_total _ _
  have hne : (keys (byKey es)).Nodup :=
    (((List.mergeSort_perm es _).map Prod.fst).nodup_iff).2 h
  rw [Ascending]
  refine List.pairwise_map.2 ((hle.and (List.pairwise_map.1 hne)).imp ?_)
  rintro e f ⟨hef, hne⟩
  rw [decide_eq_true_eq] at hef
  exact String.not_le.1 fun hfe => hne (String.le_antisymm hef hfe)

/-- with different keys there is one way to sort entries -/
theorem sort_eq_byKey {es : List (String × α)} (h : (keys es).Nodup) : sort es = byKey es :=
  (ascending_sort h).eq_of_perm (ascending_byKey h)
    ((sort_perm es).trans (List.mergeSort_perm es _).symm)

end Entries

/-! ## tidy trees -/

namespace Node

mutual

/-- the tree without what is empty in it, and with the keys of every mapping in order -/
def tidy : Node → Node
  | .null => .null
  | .scalar s => .scalar s
  | .sequence items => .sequence (tidyItems items)
  | .mapping entries => .mapping (Entries.byKey (tidyEntries entries))

def tidyItems : List Node → List Node
  | [] => []
  | n :: ns => if n.isEmpty then tidyItems ns else n.tidy :: tidyItems ns

def tidyEntries : List (String × Node) → List (String × Node)
  | [] => []
  | (k, n) :: es => if n.isEmpty then tidyEntries es else (k, n.tidy) :: tidyEntries es

end

/-- what the writer leaves of a tree -/
def Tidies (n : Node) : Prop := n.prune = if n.isEmpty then none else some n.tidy

theorem filterMap_prune {ns : List Node} (h : ∀ n ∈ ns, n.Tidies) :
    ns.filterMap prune = tidyItems ns := by
  induction ns with
  | nil => rfl
  | cons n ns ih =>
    rw [List.forall_mem_cons] at h
    rw [List.filterMap_cons, h.1, tidyItems, ih h.2]
    cases n.isEmpty <;> rfl

theorem filterMap_pruneEntry {es : List (String × Node)} (h : ∀ e ∈ es, e.2.Tidies) :
    es.filterMap pruneEntry = tidyEntries es := by
  induction es with
  | nil => rfl
  | cons e es ih =>
    obtain ⟨k, n⟩ := e
    rw [List.forall_mem_cons] at h
    have hn : n.Tidies := h.1
    rw [List.filterMap_cons, pruneEntry, hn, tidyEntries, ih h.2]
    cases n.isEmpty <;> rfl

theorem tidyItems_eq_nil (ns : List Node) : tidyItems ns = [] ↔ allEmpty ns = true := by
  induction ns with
  | nil => simp [tidyItems, allEmpty]
  | cons n ns ih => cases h : n.isEmpty <;> simp [tidyItems, allEmpty, h, ih]

theorem tidyEntries_eq_nil (es : List (String × Node)) :
    tidyEntries es = [] ↔ allEntriesEmpty es = true := by
  induction es with
  | nil => simp [tidyEntries, allEntriesEmpty]
  | cons e es ih => cases h : e.2.isEmpty <;> simp [tidyEntries, allEntriesEmpty, h, ih]

/-- the writer leaves out what is empty, and nothing else -/
theorem prune_eq {n : Node} (h : n.WellKeyed) : n.Tidies := by
  induction n with
  | null => rfl
  | scalar s => rfl
  | sequence ns ih =>
    rw [wellKeyed_sequence] at h
    have hns := filterMap_prune fun n hn => ih n hn (h n hn)
    have hnil := tidyItems_eq_nil ns
    rw [Tidies, isEmpty, tidy]
    cases he : allEmpty ns with
    | true =>
      rw [prune, pruneItems_eq_filterMap, hns, hnil.2 he]
      rfl
    | false =>
      refine prune_sequence.2 ⟨?_, by rw [hns]⟩
      rw [hns, Ne, hnil, he]
      exact Bool.false_ne_true
  | mapping es ih =>
    rw [wellKeyed_mapping] at h
    have hes := filterMap_pruneEntry fun e he => ih e he (h.2 e he)
    have hnil := tidyEntries_eq_nil es
    have hkeys : (Entries.keys (tidyEntries es)).Nodup :=
      h.1.sublist (hes ▸ keys_filterMap_pruneEntry es)
    rw [Tidies, isEmpty, tidy]
    cases he : allEntriesEmpty es with
    | true =>
      rw [prune, pruneEntries_eq_filterMap, hes, hnil.2 he]
      rfl
    | false =>
      refine prune_mapping.2 ⟨?_, by rw [hes, Entries.sort_eq_byKey hkeys]⟩
      rw [hes, Ne, hnil, he]
      exact Bool.false_ne_true

theorem render_eq_none_iff {n : Node} (h : n.WellKeyed) : n.render = none ↔ n.isEmpty = true := by
  rw [render, Option.map_eq_none_iff, prune_eq h]
  cases n.isEmpty <;> simp

end Node

/-! ## leaves that come back as they were -/

/-- a leaf made of a text that a stream may hold and a literal block may begin, of a whole number of
64 bits, or of a truth value -/
inductive Scalar.Made : Scalar → Prop where
  | text (v : String) (hv : StrayFree v)
      (ht : '\n' ∈ v.toList → Literal.tabFirst v.toList = false) : Made (.text v)
  | integer (n : Int) (hmin : -2 ^ 63 ≤ n) (hmax : n < 2 ^ 63) :
      Made (Scalar.ofKind (toString n) .number).plain
  | boolean (b : Bool) : Made (Scalar.ofKind (if b then "true" else "false") .boolean).plain

namespace Scalar

variable {s : Scalar}

theorem Made.loaded (h : s.Made) : s.Loaded := by
  cases h with
  | text v _ _ => exact .text v
  | integer n hmin hmax =>
    refine .integer ?_
    rw [Decimal.fits, Bool.and_eq_true, decide_eq_true_eq, decide_eq_true_eq]
    constructor
    · exact hmin
    · exact Int.lt_trans hmax (by decide)
  | boolean b => exact .boolean b

theorem isPlain_integer (n : Int) : (Scalar.ofKind (toString n) .number).plain.isPlain = true :=
  isPlain_of_plainWord (by decide) (plainWord_integer n)

theorem isPlain_boolean (b : Bool) :
    (Scalar.ofKind (if b then "true" else "false") .boolean).plain.isPlain = true :=
  isPlain_of_plainWord (by decide) (plainWord_boolean b)

theorem strayFree_plain (h : s.Loaded) (hp : s.isPlain = true) : StrayFree s.value :=
  fun c hc => (isReadable_ascii (isGraphic_plain h hp c hc)).2

/-- what is written plain is no literal block, and has no tag -/
theorem reloads_plain (h : s.Loaded) (hp : s.isPlain = true) : s.Reloads := by
  have hl : s.isLiteral = false := by
    simp only [isPlain, Bool.and_eq_true, Bool.not_eq_true'] at hp
    exact hp.1.1.1
  refine ⟨strayFree_plain h hp, ?_, ?_⟩
  · rw [Scans, hl]
    exact fun hs => Bool.false_ne_true hs.1
  · rw [isTagged, hp, Bool.not_true, Bool.and_false, Bool.false_and]

theorem Made.reloads (h : s.Made) : s.Reloads := by
  have hloaded := h.loaded
  cases h with
  | text v hv ht =>
    refine ⟨hv, ?_, isTagged_text v⟩
    rintro ⟨hl, htab⟩
    rw [isLiteral, isMultiline_text, Bool.and_eq_true] at hl
    exact absurd htab (Bool.eq_false_iff.1 (ht (List.contains_iff_mem.1 hl.1)))
  | integer n _ _ => exact reloads_plain hloaded (isPlain_integer n)
  | boolean b => exact reloads_plain hloaded (isPlain_boolean b)

/-- text, kind and flag are those that were written -/
theorem Made.reread_eq (h : s.Made) : s.reread = s := by
  unfold reread
  cases h with
  | text v _ _ => exact ite_self _
  | integer n _ _ => exact if_pos (isPlain_integer n)
  | boolean b => exact if_pos (isPlain_boolean b)

end Scalar

namespace Node

theorem map_eq_self {α : Type} {f : α → α} {xs : List α} (h : ∀ x ∈ xs, f x = x) :
    xs.map f = xs := (List.map_congr_left h).trans (List.map_id xs)

theorem reread_eq_self {K : String → Prop} {n : Node} (h : n.Every (fun s => s.reread = s) K) :
    n.reread = n := by
  induction n with
  | null => rfl
  | scalar s => exact congrArg scalar h
  | sequence ns ih =>
    rw [every_sequence] at h
    rw [reread, rereadItems_eq_map]
    exact congrArg sequence (map_eq_self fun n hn => ih n hn (h n hn))
  | mapping es ih =>
    rw [every_mapping] at h
    rw [reread, rereadEntries_eq_map]
    exact congrArg mapping (map_eq_self fun e he => Prod.ext rfl (ih e he (h e he).2))

theorem Within.mono {levels levels' : Nat} {n : Node} (h : n.Within levels)
    (hle : levels ≤ levels') : n.Within levels' := by
  induction levels generalizing n levels' with
  | zero =>
    cases n with
    | null => cases levels' <;> trivial
    | scalar s => cases levels' <;> trivial
    | _ => exact h.elim
  | succ levels ih =>
    obtain ⟨levels', rfl⟩ := Nat.exists_eq_succ_of_ne_zero (Nat.ne_zero_of_lt hle)
    have hle := Nat.le_of_succ_le_succ hle
    cases n with
    | null => trivial
    | scalar s => trivial
    | sequence ns => exact fun n hn => ih (h n hn) hle
    | mapping es => exact fun e he => ih (h e he) hle

/-! ## there and back -/

/-- the leaves of a tree are made so, and its keys are short and without strays -/
abbrev Made (n : Node) : Prop :=
  n.Every Scalar.Made fun k => ConfigReconcile.StrayFree k ∧ (writeKey k).length ≤ 1000

theorem tidy_of_prune {n m : Node} (hk : n.WellKeyed) (h : n.prune = some m) : n.tidy = m := by
  have heq := prune_eq hk
  rw [Tidies, h] at heq
  split at heq
  · cases heq
  · exact (Option.some.inj heq).symm

/-- **a tree is read back tidy, and as it was in all else** -/
theorem parse_render {n : Node} (hm : n.Made) (hk : n.WellKeyed) (hw : n.Within 127) :
    (n.render = none ↔ n.isEmpty = true) ∧
      ∀ t, n.render = some t → Node.parse t = .ok n.tidy := by
  refine ⟨render_eq_none_iff hk, fun t ht => ?_⟩
  obtain ⟨m, hprune, rfl⟩ := Option.map_eq_some_iff.1 ht
  have hmade : m.Made := hm.prune hprune
  have hloaded : n.Loaded Document.maxLevels :=
    ⟨hm.imp (fun s hs => hs.loaded) fun _ _ => trivial, hw.mono (by decide), hk⟩
  obtain ⟨hp, hl⟩ := hloaded.prune hprune
  have hreloads : m.Reloads :=
    hmade.imp (fun s hs => hs.reloads) fun k hk => ⟨hk.1, Nat.le_trans hk.2 (by decide)⟩
  have hself : m.reread = m := reread_eq_self (hmade.imp (fun s hs => hs.reread_eq) fun _ hk => hk)
  rw [parse_write hp hl hreloads, hself, tidy_of_prune hk hprune]

/-- texts that look like a number and a list item, a block with a blank line, a key that looks like
a truth value, and things that go -/
theorem parse_render_mixed :
    let n : Node := .mapping [("z", .text "007"), ("on", .sequence [.null, .mapping
      [("b", .text "- x\n\n  y\n"), ("a", .mapping [("gone", .text "")])], .integer (-3)]),
      ("e", .boolean true)]
    let t := "e: true\n\"on\":\n  - b: |\n      - x\n\n        y\n  - -3\nz: \"007\"\n"
    n.Made ∧ n.WellKeyed ∧ n.Within 127 ∧ n.render = some t ∧ Node.parse t = .ok (.mapping
      [("e", .boolean true), ("on", .sequence [.mapping [("b", .text "- x\n\n  y\n")],
        .integer (-3)]), ("z", .text "007")]) := by
  intro n t
  have htext (v : String) (hv : ConfigReconcile.StrayFree v)
      (ht : Literal.tabFirst v.toList = false) :
      (text v).Made := .text v hv fun _ => ht
  have hm : n.Made := by
    refine ⟨⟨by decide, htext _ (by decide) (by decide)⟩, ⟨by decide, trivial, ?_, ?_, trivial⟩,
      ⟨by decide, .boolean true⟩, trivial⟩
    · exact ⟨⟨by decide, htext _ (by decide) (by decide)⟩,
        ⟨by decide, ⟨by decide, htext _ (by decide) (by decide)⟩, trivial⟩, trivial⟩
    · exact .integer (-3) (by decide) (by decide)
  have hk : n.WellKeyed := by decide
  have hw : n.Within 127 := by simp [n, text, integer, boolean, Within]
  have hr : n.render = some t := by decide
  have ht : n.tidy = .mapping
      [("e", .boolean true), ("on", .sequence [.mapping [("b", .text "- x\n\n  y\n")],
        .integer (-3)]), ("z", .text "007")] := tidy_of_prune hk rfl
  exact ⟨hm, hk, hw, hr, ht ▸ (parse_render hm hk hw).2 t hr⟩

end Node

end ConfigReconcile
