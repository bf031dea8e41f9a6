import ConfigReconcile.Proofs.Document.Loaded
import ConfigReconcile.Proofs.Document.Syntax

/-!
# Reading a syntax tree

* `Node.reread`               what a tree becomes when it is written and read again: leaves that are
                              not written plain are texts;
* `Node.write_reread`         which is written as the tree was;
* `Node.expand_syntaxTree`    the value of a syntax tree without tags stands for `Node.reread`;
* `Node.untagged_of_expand`   what a syntax tree is read as has no tag in any case.
-/

namespace ConfigReconcile

open Text Yaml

/-! ## leaves -/

namespace Scalar

/-- what a leaf becomes -/
def reread (s : Scalar) : Scalar := if s.isPlain then s else .text s.value

theorem Loaded.spelled {s : Scalar} (h : s.Loaded) : s.Spelled := by
  intro hp
  cases h with
  | text v => simp [isPlain, Scalar.text, ofKind] at hp
  | boolean b => exact plainWord_boolean b
  | integer h => exact plainWord_integer _
  | float h => exact plainWord_float _
  | typed v h => simp [isPlain, ofKind] at hp

/-- what is written plain is read back -/
theorem Loaded.ofPlain {s : Scalar} (h : s.Loaded) (hp : s.isPlain = true) :
    ∃ v, Value.ofPlain s.value = .ok v ∧ Node.ofYaml v = .scalar s ∧ v.hasUniqueKeys = true := by
  cases h with
  | text v => simp [isPlain, Scalar.text, ofKind] at hp
  | boolean b => exact ⟨.bool b, Value.ofPlain_boolean b, rfl, rfl⟩
  | @integer n h => exact ⟨.integer n, Value.ofPlain_integer h, rfl, rfl⟩
  | @float x h => exact ⟨.float x, Value.ofPlain_float h, rfl, rfl⟩
  | typed v h => simp [isPlain, ofKind] at hp

theorem isEmpty_reread (s : Scalar) : s.reread.isEmpty = s.isEmpty := by
  unfold reread
  split <;> rfl

theorem isMultiline_text (v : String) :
    (Scalar.text v).isMultiline = v.toList.contains '\n' := by
  by_cases h : '\n' ∈ v.toList <;> simp [isMultiline, Scalar.text, ofKind, h]

theorem isMultiline_typed (v : String) {kind : ScalarKind} (h : (tagWord? kind).isSome = true) :
    (ofKind v kind).isMultiline = v.toList.contains '\n' := by
  cases kind <;> first | rfl | cases h

/-- a leaf without a tag is written as it was -/
theorem write_reread {s : Scalar} (h : s.Loaded) (ht : s.isTagged = false) (c : Nat) :
    s.reread.write c = s.write c := by
  unfold reread
  split
  next => rfl
  next hp =>
    cases h with
    | text v => rfl
    | @typed v kind hk =>
      have hl : (ofKind v kind).isLiteral = true := by
        have hw : (tagWord? (ofKind v kind).kind).isSome = true := hk
        rw [isTagged, hw, Bool.eq_false_iff.2 hp] at ht
        simpa using ht
      have hl' : (Scalar.text v).isLiteral = true := by
        rw [isLiteral, isMultiline_text, ← isMultiline_typed v hk]
        exact hl
      exact (write_literal hl' c).trans (write_literal hl c).symm
    | boolean b => exact absurd (isPlain_of_plainWord (by decide) (plainWord_boolean b)) hp
    | integer h => exact absurd (isPlain_of_plainWord (by decide) (plainWord_integer _)) hp
    | float h => exact absurd (isPlain_of_plainWord (by decide) (plainWord_float _)) hp

end Scalar

/-! ## keys -/

/-- a key without quotes is a text to every reader -/
theorem ofPlain_of_isPlainKey {k : String} (h : isPlainKey k = true) :
    Value.ofPlain k = .ok (.string k) := by
  have hne (w : String) (hw : isPlainKey w = false) : k ≠ w := by
    rintro rfl
    rw [hw] at h
    cases h
  have hnull : isNullWord k = false := by
    simp [isNullWord, hne "null" (by decide), hne "Null" (by decide), hne "NULL" (by decide),
      hne "~" (by decide)]
  have hbool : boolean? k = none := by
    simp [boolean?, hne "true" (by decide), hne "True" (by decide), hne "TRUE" (by decide),
      hne "false" (by decide), hne "False" (by decide), hne "FALSE" (by decide)]
  unfold isPlainKey at h
  split at h
  next => cases h
  next c cs hk =>
    simp only [Bool.and_eq_true] at h
    exact Value.ofPlain_letter h.1.1 hk hnull hbool

theorem ofScalar_key (k : String) :
    Value.ofScalar .none (if isPlainKey k then .plain else .doubleQuoted) k = .ok (.string k) := by
  cases h : isPlainKey k with
  | true => exact ofPlain_of_isPlainKey h
  | false => rfl

/-! ## trees -/

namespace Node

mutual

/-- what a tree becomes -/
def reread : Node → Node
  | .null => .null
  | .scalar s => .scalar s.reread
  | .sequence items => .sequence (rereadItems items)
  | .mapping entries => .mapping (rereadEntries entries)

def rereadItems : List Node → List Node
  | [] => []
  | n :: ns => n.reread :: rereadItems ns

def rereadEntries : List (String × Node) → List (String × Node)
  | [] => []
  | (k, n) :: es => (k, n.reread) :: rereadEntries es

end

theorem rereadItems_eq_map (ns : List Node) : rereadItems ns = ns.map reread := by
  induction ns with
  | nil => rfl
  | cons n ns ih => rw [rereadItems, ih, List.map_cons]

theorem rereadEntries_eq_map (es : List (String × Node)) :
    rereadEntries es = es.map fun e => (e.1, e.2.reread) := by
  induction es with
  | nil => rfl
  | cons e es ih => rw [rereadEntries, ih, List.map_cons]

theorem keys_rereadEntries (es : List (String × Node)) :
    Entries.keys (rereadEntries es) = Entries.keys es := by
  rw [rereadEntries_eq_map, Entries.keys, List.map_map]
  rfl

/-- a tree without tags -/
abbrev Untagged (n : Node) : Prop := n.Every (fun s => s.Loaded ∧ s.isTagged = false) fun _ => True

theorem pruned_reread {n : Node} (h : n.Pruned) : n.reread.Pruned := by
  induction n with
  | null => exact h
  | scalar s => exact (Scalar.isEmpty_reread s).trans h
  | sequence ns ih =>
    rw [pruned_sequence] at h
    rw [reread, rereadItems_eq_map, pruned_sequence]
    exact ⟨by simpa using h.1, List.forall_mem_map.2 fun n hn => ih n hn (h.2 n hn)⟩
  | mapping es ih =>
    rw [pruned_mapping] at h
    rw [reread, pruned_mapping, Entries.Ascending, keys_rereadEntries, rereadEntries_eq_map]
    exact ⟨by simpa using h.1, h.2.1, List.forall_mem_map.2 fun e he => ih e he (h.2.2 e he)⟩

/-- a tree without tags is written as it was, line by line -/
theorem body_reread {n : Node} (hp : n.Pruned) (hn : n.Untagged) (c : Nat) :
    n.reread.body c = n.body c := by
  induction n generalizing c with
  | null => rfl
  | scalar s => exact Scalar.write_reread hn.1 hn.2 c
  | sequence ns ih =>
    rw [pruned_sequence] at hp
    rw [Untagged, every_sequence] at hn
    have hitems (lead : List Char) : writeItems c lead (rereadItems ns) = writeItems c lead ns := by
      obtain ⟨-, hp⟩ := hp
      induction ns generalizing lead with
      | nil => rfl
      | cons n ns ihns =>
        rw [List.forall_mem_cons] at hp hn ih
        rw [rereadItems, writeItems, writeItems, writeItem_eq (pruned_reread hp.1),
          writeItem_eq hp.1, ih.1 hp.1 hn.1, ihns ih.2 hn.2 _ hp.2]
    exact hitems []
  | mapping es ih =>
    rw [pruned_mapping] at hp
    rw [Untagged, every_mapping] at hn
    have hentries (lead : List Char) :
        writeEntries c lead (rereadEntries es) = writeEntries c lead es := by
      obtain ⟨-, -, hp⟩ := hp
      induction es generalizing lead with
      | nil => rfl
      | cons e es ihes =>
        obtain ⟨k, n⟩ := e
        rw [List.forall_mem_cons] at hp hn ih
        have hscalar : n.reread.isScalar = n.isScalar := by cases n <;> rfl
        rw [rereadEntries, writeEntries, writeEntries, writeValue_eq (pruned_reread hp.1),
          writeValue_eq hp.1, hscalar, ih.1 hp.1 hn.1.2, ihes ih.2 hn.2 _ hp.2]
    exact hentries []

theorem write_reread {n : Node} (hp : n.Pruned) (hn : n.Untagged) : n.reread.write = n.write := by
  have hscalar : n.reread.isScalar = n.isScalar := by cases n <;> rfl
  rw [write_eq_body, write_eq_body, hscalar, body_reread hp hn]

/-! ## the value of a syntax tree -/

open Document

variable {d : Document}

theorem follow_syntaxTree (n : Node) (jumps : Nat) :
    d.follow jumps n.syntaxTree = .ok (n.syntaxTree, jumps) := by
  cases n <;> rfl

theorem expand_keyTree (k : String) (levels jumps : Nat) :
    d.expand levels jumps (keyTree k) = .ok (.string k, jumps) := by
  rw [expand_eq]
  show (Value.ofScalar .none _ k).map _ = _
  rw [ofScalar_key]
  rfl

/-- a value that stands for a tree -/
structure Denotes (v : Value) (n : Node) : Prop where
  node : ofYaml v = n
  keys : v.hasUniqueKeys = true

theorem expand_leaf {s : Scalar} (hs : s.Loaded) (ht : s.isTagged = false) (levels jumps : Nat) :
    ∃ v, d.expand levels jumps s.syntaxTree = .ok (v, jumps) ∧ Denotes v (.scalar s.reread) := by
  have hexpand : d.expand levels jumps s.syntaxTree =
      (Value.ofUntagged s.style s.value).map (·, jumps) := by
    rw [expand_eq, Scalar.syntaxTree, (Scalar.tokens_untagged ht).2]
    rfl
  rw [hexpand, Value.ofUntagged, Scalar.reread]
  cases hp : s.isPlain with
  | true =>
    obtain ⟨v, hv, hnode, hkeys⟩ := hs.ofPlain hp
    have hstyle : s.style = .plain := by
      have hl : s.isLiteral = false := by
        simp only [Scalar.isPlain, Bool.and_eq_true, Bool.not_eq_true'] at hp
        exact hp.1.1.1
      simp [Scalar.style, hl, hp]
    exact ⟨v, by rw [if_pos hstyle, hv]; rfl, hnode, hkeys⟩
  | false =>
    have hstyle : s.style ≠ .plain := by
      unfold Scalar.style
      split
      · simp
      · simp [hp]
    exact ⟨.string s.value, by rw [if_neg hstyle]; rfl, rfl, rfl⟩

theorem expand_items {ns : List Node} {levels : Nat}
    (h : ∀ n ∈ ns, ∀ jumps, ∃ v, d.expand levels jumps n.syntaxTree = .ok (v, jumps) ∧
      Denotes v n.reread) (acc : List Value) (jumps : Nat) :
    ∃ vs : List Value, (itemsSyntax ns).foldlM (d.expandItem levels) (acc, jumps) =
        .ok (vs.reverse ++ acc, jumps) ∧
      itemsOfYaml vs = rereadItems ns ∧ Value.itemsHaveUniqueKeys vs = true := by
  induction ns generalizing acc with
  | nil => exact ⟨[], rfl, rfl, rfl⟩
  | cons n ns ih =>
    rw [List.forall_mem_cons] at h
    obtain ⟨v, hv, hnode, hkeys⟩ := h.1 jumps
    obtain ⟨vs, hvs, hnodes, hall⟩ := ih h.2 (v :: acc)
    refine ⟨v :: vs, ?_, by rw [itemsOfYaml, hnode, hnodes]; rfl,
      by rw [Value.itemsHaveUniqueKeys, hkeys, hall]; rfl⟩
    have hstep : d.expandItem levels (acc, jumps) n.syntaxTree = .ok (v :: acc, jumps) := by
      rw [expandItem, hv]
      rfl
    rw [itemsSyntax, List.foldlM_cons, hstep, ok_bind, hvs]
    simp

theorem expand_entries {es : List (String × Node)} {levels : Nat}
    (h : ∀ e ∈ es, ∀ jumps, ∃ v, d.expand levels jumps e.2.syntaxTree = .ok (v, jumps) ∧
      Denotes v e.2.reread) (acc : List (Value × Value)) (jumps : Nat) :
    ∃ vs : List (Value × Value), (entriesSyntax es).foldlM (d.expandEntry levels) (acc, jumps) =
        .ok (vs.reverse ++ acc, jumps) ∧
      entriesOfYaml vs = rereadEntries es ∧ Value.entriesHaveUniqueKeys vs = true ∧
      vs.map (·.1) = (Entries.keys es).map .string := by
  induction es generalizing acc with
  | nil => exact ⟨[], rfl, rfl, rfl, rfl⟩
  | cons e es ih =>
    obtain ⟨k, n⟩ := e
    rw [List.forall_mem_cons] at h
    obtain ⟨v, hv, hnode, hkeys⟩ := h.1 jumps
    obtain ⟨vs, hvs, hnodes, hall, hmap⟩ := ih h.2 ((.string k, v) :: acc)
    refine ⟨(.string k, v) :: vs, ?_, by rw [entriesOfYaml, hnode, hnodes]; rfl, ?_,
      by rw [List.map_cons, hmap]; rfl⟩
    · have hstep : d.expandEntry levels (acc, jumps) (keyTree k, n.syntaxTree) =
          .ok ((.string k, v) :: acc, jumps) := by
        rw [expandEntry, expand_keyTree, ok_bind]
        dsimp only
        rw [hv]
        rfl
      rw [entriesSyntax, List.foldlM_cons, hstep, ok_bind, hvs]
      simp
    · rw [Value.entriesHaveUniqueKeys, hkeys, hall]
      rfl

/-- different texts are different keys -/
theorem distinct_strings {ks : List String} (h : ks.Nodup) :
    Value.distinct (ks.map .string) = true := by
  induction ks with
  | nil => rfl
  | cons k ks ih =>
    rw [List.nodup_cons] at h
    rw [List.map_cons, Value.distinct, ih h.2, Bool.and_true, Bool.not_eq_true', List.any_eq_false]
    intro v hv
    obtain ⟨j, hj, rfl⟩ := List.mem_map.1 hv
    have hne : k ≠ j := by
      rintro rfl
      exact h.1 hj
    simpa [Value.same] using hne

theorem expand_syntaxTree {n : Node} {levels : Nat} (hp : n.Pruned) (hn : n.Untagged)
    (hw : n.Within levels) (jumps : Nat) :
    ∃ v, d.expand levels jumps n.syntaxTree = .ok (v, jumps) ∧ Denotes v n.reread := by
  induction n generalizing levels jumps with
  | null => exact hp.elim
  | scalar s => exact expand_leaf hn.1 hn.2 levels jumps
  | sequence ns ih =>
    rw [pruned_sequence] at hp
    rw [Untagged, every_sequence] at hn
    cases levels with
    | zero => exact hw.elim
    | succ levels =>
      obtain ⟨vs, hvs, hnodes, hall⟩ := expand_items
        (fun n hmem jumps => ih n hmem (hp.2 n hmem) (hn n hmem) (hw n hmem) jumps) [] jumps
      refine ⟨.sequence vs, ?_, by rw [ofYaml, hnodes]; rfl, hall⟩
      rw [expand_eq, follow_syntaxTree]
      show ((itemsSyntax ns).foldlM (d.expandItem levels) ([], jumps)).map _ = _
      rw [hvs]
      simp [Except.map, Value.underTag, Value.localTag?, Properties.none]
  | mapping es ih =>
    rw [pruned_mapping] at hp
    rw [Untagged, every_mapping] at hn
    cases levels with
    | zero => exact hw.elim
    | succ levels =>
      obtain ⟨vs, hvs, hnodes, hall, hmap⟩ := expand_entries
        (fun e hmem jumps => ih e hmem (hp.2.2 e hmem) (hn e hmem).2 (hw e hmem) jumps) [] jumps
      refine ⟨.mapping vs, ?_, ?_, ?_⟩
      · rw [expand_eq, follow_syntaxTree]
        show ((entriesSyntax es).foldlM (d.expandEntry levels) ([], jumps)).map _ = _
        rw [hvs]
        simp [Except.map, Value.underTag, Value.localTag?, Properties.none]
      · rw [ofYaml, hnodes, Entries.ofList_of_nodup (keys_rereadEntries es ▸ hp.2.1.nodup)]
        rfl
      · rw [Value.hasUniqueKeys, hmap, distinct_strings hp.2.1.nodup, hall]
        rfl

/-! ## no tags -/

theorem mem_itemsSyntax {ns : List Node} {t : Yaml.Tree Nat} (h : t ∈ itemsSyntax ns) :
    ∃ n ∈ ns, t = n.syntaxTree := by
  induction ns with
  | nil => cases h
  | cons n ns ih =>
    rcases List.mem_cons.1 h with rfl | h
    · exact ⟨n, List.mem_cons_self .., rfl⟩
    · obtain ⟨m, hm, rfl⟩ := ih h
      exact ⟨m, List.mem_cons_of_mem _ hm, rfl⟩

theorem mem_entriesSyntax {es : List (String × Node)} {e : Yaml.Tree Nat × Yaml.Tree Nat}
    (h : e ∈ entriesSyntax es) : ∃ e' ∈ es, e.2 = e'.2.syntaxTree := by
  induction es with
  | nil => cases h
  | cons e' es ih =>
    rcases List.mem_cons.1 h with rfl | h
    · exact ⟨e', List.mem_cons_self .., rfl⟩
    · obtain ⟨e'', he, heq⟩ := ih h
      exact ⟨e'', List.mem_cons_of_mem _ he, heq⟩

/-- a core tag is none of the document's own -/
theorem localTag?_leaf (s : Scalar) : Value.localTag? ⟨none, s.tag?⟩ = none := by
  cases ht : s.isTagged with
  | false => rw [(Scalar.tokens_untagged ht).2]; rfl
  | true =>
    obtain ⟨w, hw, -, htag, -⟩ := Scalar.tokens_tagged ht
    rw [htag]
    simp only [Scanner.coreWords, List.mem_cons, List.not_mem_nil, or_false] at hw
    rcases hw with rfl | rfl | rfl <;> rfl

/-- what a written tree is read as has no tags -/
theorem untagged_of_expand {n : Node} {levels jumps jumps' : Nat} {v : Value} (hp : n.Pruned)
    (h : d.expand levels jumps n.syntaxTree = .ok (v, jumps')) : (ofYaml v).Untagged := by
  induction n generalizing levels jumps jumps' v with
  | null => exact hp.elim
  | scalar s =>
    rw [expand_eq, follow_syntaxTree] at h
    obtain ⟨w, hw, h⟩ := ok_of_map h
    cases h
    rw [Value.ofScalar, localTag?_leaf] at hw
    exact loaded_leaf (Value.leaf_ofTyped hw)
  | sequence ns ih =>
    rw [expand_eq, follow_syntaxTree] at h
    rw [pruned_sequence] at hp
    cases levels with
    | zero => cases h
    | succ levels =>
      obtain ⟨r, hr, h⟩ := ok_of_map h
      cases h
      have hall := forall_of_expandItem (P := fun v => (ofYaml v).Untagged)
        (fun t ht jumps jumps' v hv => by
          obtain ⟨n, hn, rfl⟩ := mem_itemsSyntax ht
          exact ih n hn (hp.2 n hn) hv) hr
      show (sequence (itemsOfYaml r.1.reverse)).Untagged
      rw [Untagged, every_sequence, itemsOfYaml_eq_map]
      exact List.forall_mem_map.2 hall
  | mapping es ih =>
    rw [expand_eq, follow_syntaxTree] at h
    rw [pruned_mapping] at hp
    cases levels with
    | zero => cases h
    | succ levels =>
      obtain ⟨r, hr, h⟩ := ok_of_map h
      cases h
      have hall := forall_of_expandEntry (P := fun v => (ofYaml v).Untagged)
        (fun e he jumps jumps' v hv => by
          obtain ⟨e', he', heq⟩ := mem_entriesSyntax he
          exact ih e' he' (hp.2.2 e' he') (heq ▸ hv)) hr
      show (mapping (Entries.ofList (entriesOfYaml r.1.reverse))).Untagged
      rw [Untagged, every_mapping, entriesOfYaml_eq_map]
      have hpairs : ∀ e ∈ r.1.reverse.map fun e => (keyText e.1, ofYaml e.2), e.2.Untagged :=
        List.forall_mem_map.2 hall
      exact fun e he => ⟨trivial, (Entries.ofList_invariant hpairs).2 e he⟩

end Node

end ConfigReconcile
