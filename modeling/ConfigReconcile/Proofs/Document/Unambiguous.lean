import ConfigReconcile.Proofs.Document.RoundTrip
import ConfigReconcile.Proofs.Yaml.Parts

/-!
# Different trees are written differently

The end of every part of a written tree can be told from what follows it, so two texts that agree
agree part by part.  This does not go through the reader, which gives up on keys of more than 1024
characters and on literal blocks that begin with a tab: nothing is asked of texts and keys here.

* `Scalar.Definite`             the leaves that are found again in what is written;
* `Scalar.lead`                 how a leaf begins tells its manner;
* `Node.selfDelimiting`         a pruned tree of such leaves can be told from what follows it;
* `Node.tidy_eq_of_render_eq`   equal texts are those of trees that are equal once tidy.
-/

namespace ConfigReconcile

open Text Yaml

/-! ## leaves -/

namespace Scalar

/-- how a leaf begins -/
def lead (s : Scalar) : Lead :=
  if s.isLiteral then .block else if s.isTagged then .tag else if s.isPlain then .word else .quote

section
variable {s t : Scalar} {c : Nat}

theorem lead_ne_dash : s.lead ≠ .dash := by
  unfold lead
  cases s.isLiteral <;> cases s.isTagged <;> cases s.isPlain <;> decide

theorem lead_of_isTagged (h : s.isTagged = true) : s.lead = .tag := by
  have hl : s.isLiteral = false := by
    simp only [isTagged, Bool.and_eq_true, Bool.not_eq_true'] at h
    exact h.1.1
  simp [lead, hl, h]

theorem lead_of_isPlain (h : s.isPlain = true) : s.lead = .word := by
  have hl : s.isLiteral = false := by
    simp only [isPlain, Bool.and_eq_true, Bool.not_eq_true'] at h
    exact h.1.1.1
  simp [lead, isTagged, hl, h]

theorem write_of_block (h : s.lead = .block) (c : Nat) :
    s.write c = Literal.block c s.value.toList := by
  have hl : s.isLiteral = true := by
    unfold lead at h
    cases hl : s.isLiteral with
    | true => rfl
    | false => cases ht : s.isTagged <;> cases hp : s.isPlain <;> simp [hl, ht, hp] at h
  exact write_literal hl c

theorem write_of_tag (h : s.lead = .tag) (c : Nat) :
    ∃ w, tagWord? s.kind = some w ∧ s.write c =
      '!' :: '!' :: (w ++ ' ' :: (Quoted.encode s.value.toList ++ ['\n'])) := by
  have ht : s.isTagged = true := by
    unfold lead at h
    cases ht : s.isTagged with
    | true => rfl
    | false => cases hl : s.isLiteral <;> cases hp : s.isPlain <;> simp [hl, ht, hp] at h
  simp only [isTagged, Bool.and_eq_true, Bool.not_eq_true'] at ht
  obtain ⟨w, hw⟩ := Option.isSome_iff_exists.1 ht.2
  refine ⟨w, hw, ?_⟩
  rw [write_quoted ht.1.1 ht.1.2, hw]
  simp

/-- a leaf without a tag that is no literal block is a word or a quoted text, and ends its line -/
theorem write_of_spell {p : Bool} (h : s.lead = if p then .word else .quote) (c : Nat) :
    s.isPlain = p ∧ s.write c = spell p s.value.toList ++ ['\n'] := by
  have hcases : s.isLiteral = false ∧ s.isTagged = false ∧ s.isPlain = p := by
    unfold lead at h
    cases hl : s.isLiteral <;> cases ht : s.isTagged <;> cases hp : s.isPlain <;> cases p <;>
      simp [hl, ht, hp] at h ⊢
  obtain ⟨hl, ht, rfl⟩ := hcases
  refine ⟨rfl, ?_⟩
  cases hp : s.isPlain with
  | true => exact write_plain hp c
  | false =>
    have hw : tagWord? s.kind = none := by
      rw [isTagged, hl, hp] at ht
      simpa using ht
    rw [write_quoted hl hp, hw]
    rfl

theorem lead_write (hs : s.Spelled) (c : Nat) (x : List Char) :
    ConfigReconcile.lead (s.write c ++ x) = s.lead := by
  have hspell {p : Bool} (h : s.lead = if p then .word else .quote) :
      ConfigReconcile.lead (s.write c ++ x) = s.lead := by
    obtain ⟨rfl, hw⟩ := write_of_spell h c
    rw [hw, List.append_assoc, lead_spell hs, h]
  cases h : s.lead with
  | dash => exact absurd h lead_ne_dash
  | block => rw [write_of_block h]; rfl
  | tag =>
    obtain ⟨w, -, hw⟩ := write_of_tag h c
    rw [hw]
    rfl
  | word => exact (hspell (p := true) h).trans h
  | quote => exact (hspell (p := false) h).trans h

theorem tagWord_isWordChar {kind : ScalarKind} {w : List Char} (h : tagWord? kind = some w) :
    w.all isWordChar = true := by
  cases kind <;> cases h <;> decide

theorem eq_of_tagWord_eq {kind kind' : ScalarKind} {w : List Char} (h : tagWord? kind = some w)
    (h' : tagWord? kind' = some w) : kind = kind' := by
  cases kind <;> cases h <;> cases kind' <;> first | rfl | cases h'

section
variable (hs : s.Spelled) (ht : t.Spelled) {i : Int} {x y : List Char}
include hs ht

theorem spelled_append_inj {p : Bool} (hsl : s.lead = if p then .word else .quote)
    (htl : t.lead = if p then .word else .quote) (h : s.write c ++ x = t.write c ++ y) :
    s.value = t.value ∧ x = y := by
  obtain ⟨hsp, hsw⟩ := write_of_spell hsl c
  obtain ⟨htp, htw⟩ := write_of_spell htl c
  rw [hsw, htw, List.append_assoc, List.append_assoc] at h
  obtain ⟨hvalue, hxy⟩ :=
    spell_append_inj (fun hp => hs (hsp.trans hp)) (fun hp => ht (htp.trans hp)) rfl rfl h
  exact ⟨String.toList_inj.1 hvalue, (List.cons.inj hxy).2⟩

/-- the manner of a leaf, its text and a kind that has a tag are found again -/
theorem write_append_inj (hi : i < c) (hx : LineAhead i x) (hy : LineAhead i y)
    (h : s.write c ++ x = t.write c ++ y) :
    s.lead = t.lead ∧ (s.lead = .tag → s.kind = t.kind) ∧ s.value = t.value ∧ x = y := by
  have hlead : s.lead = t.lead := by rw [← lead_write hs c x, h, lead_write ht]
  refine ⟨hlead, ?_⟩
  cases hsl : s.lead with
  | dash => exact absurd hsl lead_ne_dash
  | block =>
    rw [write_of_block hsl, write_of_block (hlead ▸ hsl)] at h
    obtain ⟨hvalue, hxy⟩ := Literal.block_append_inj hi hx hy h
    exact ⟨by simp, String.toList_inj.1 hvalue, hxy⟩
  | tag =>
    obtain ⟨v, hv, hvw⟩ := write_of_tag hsl c
    obtain ⟨w, hw, hww⟩ := write_of_tag (hlead ▸ hsl) c
    rw [hvw, hww] at h
    simp only [List.cons_append, List.append_assoc, List.cons.injEq, true_and] at h
    obtain ⟨rfl, hrest⟩ :=
      append_inj_of_all (tagWord_isWordChar hv) (tagWord_isWordChar hw) rfl rfl h
    obtain ⟨hvalue, hxy⟩ := encode_append_inj (List.cons.inj hrest).2
    exact ⟨fun _ => eq_of_tagWord_eq hv hw, String.toList_inj.1 hvalue, (List.cons.inj hxy).2⟩
  | word => exact ⟨by simp, spelled_append_inj hs ht (p := true) hsl (hlead ▸ hsl) h⟩
  | quote => exact ⟨by simp, spelled_append_inj hs ht (p := false) hsl (hlead ▸ hsl) h⟩

end

end

/-- a leaf of which all is found again in what is written: a text, a whole number, a truth value, or
a text of another kind, which stands behind a tag -/
inductive Definite : Scalar → Prop where
  | text (v : String) : Definite (.text v)
  | integer (n : Int) : Definite (ofKind (toString n) .number).plain
  | boolean (b : Bool) : Definite (ofKind (if b then "true" else "false") .boolean).plain
  | typed (v : String) {kind : ScalarKind} (hk : (tagWord? kind).isSome = true)
      (hv : '\n' ∉ v.toList) : Definite (.ofKind v kind)

theorem Definite.spelled {s : Scalar} (h : s.Definite) : s.Spelled := by
  intro hp
  cases h with
  | text v => simp [isPlain, Scalar.text, ofKind] at hp
  | integer n => exact plainWord_integer n
  | boolean b => exact plainWord_boolean b
  | typed v hk hv => simp [isPlain, ofKind] at hp

theorem lead_text (v : String) : (Scalar.text v).lead = .block ∨ (Scalar.text v).lead = .quote := by
  have hp : (Scalar.text v).isPlain = false := by simp [isPlain, Scalar.text, ofKind]
  cases hl : (Scalar.text v).isLiteral <;> simp [lead, isTagged_text, hl, hp]

theorem lead_typed {v : String} {kind : ScalarKind} (hk : (tagWord? kind).isSome = true)
    (hv : '\n' ∉ v.toList) : (ofKind v kind).lead = .tag := by
  have hm : (ofKind v kind).isMultiline = false := by
    rw [isMultiline_typed v hk, Bool.eq_false_iff]
    exact fun h => hv (List.contains_iff_mem.1 h)
  have hl : (ofKind v kind).isLiteral = false := by rw [isLiteral, hm]; rfl
  have hp : (ofKind v kind).isPlain = false := by simp [isPlain, ofKind]
  refine lead_of_isTagged ?_
  rw [isTagged, hl, hp]
  exact hk

theorem integer_ne_boolean (n : Int) (b : Bool) :
    toString n ≠ (if b then "true" else "false" : String) := by
  intro h
  have hn := Decimal.integer?_toString n
  rw [h] at hn
  cases b <;> cases hn

/-- the leaf that is written in a manner; `kind` counts only behind a tag -/
def written (lead : Lead) (kind : ScalarKind) (v : String) : Scalar :=
  match lead with
  | .tag => ofKind v kind
  | .word => (ofKind v (if v = "true" ∨ v = "false" then .boolean else .number)).plain
  | _ => .text v

theorem Definite.eq_written {s : Scalar} (h : s.Definite) :
    s = written s.lead s.kind s.value := by
  cases h with
  | text v => rcases lead_text v with hlead | hlead <;> rw [hlead] <;> rfl
  | integer n =>
    have hne : ¬(toString n = "true" ∨ toString n = "false") :=
      not_or.2 ⟨integer_ne_boolean n true, integer_ne_boolean n false⟩
    rw [lead_of_isPlain (isPlain_integer n)]
    exact congrArg (fun kind => (ofKind (toString n) kind).plain) (if_neg hne).symm
  | boolean b =>
    rw [lead_of_isPlain (isPlain_boolean b)]
    cases b <;> rfl
  | typed v hk hv =>
    rw [lead_typed hk hv]
    rfl

theorem Definite.write_append_inj {s t : Scalar} (hs : s.Definite) (ht : t.Definite) {i : Int}
    {c : Nat} (hi : i < c) {x y : List Char} (hx : LineAhead i x) (hy : LineAhead i y)
    (h : s.write c ++ x = t.write c ++ y) : s = t ∧ x = y := by
  obtain ⟨hlead, hkind, hvalue, hxy⟩ := Scalar.write_append_inj hs.spelled ht.spelled hi hx hy h
  refine ⟨?_, hxy⟩
  rw [hs.eq_written, ht.eq_written, hvalue]
  cases hl : s.lead with
  | tag => rw [← hlead, hl, hkind hl]
  | _ => rw [← hlead, hl]; rfl

end Scalar

/-! ## trees -/

namespace Node

/-- all leaves of the tree are found again; nothing is asked of its keys -/
abbrev Definite (n : Node) : Prop := n.Every Scalar.Definite fun _ => True

/-- a tree and what follows it are found again in what is written -/
def SelfDelimiting (n : Node) : Prop :=
  ∀ m : Node, m.Pruned → m.Definite → ∀ (i : Int) (c : Nat) (x y : List Char), i < c →
    LineAhead i x → LineAhead i y → n.body c ++ x = m.body c ++ y → n = m ∧ x = y

theorem writeEntries_eq_spell (c : Nat) {es : List (String × Node)} (h : es ≠ []) :
    ∃ k r, writeEntries c [] es = spell (isPlainKey k) k.toList ++ ':' :: r := by
  obtain ⟨⟨k, n⟩, es, rfl⟩ := List.exists_cons_of_ne_nil h
  exact ⟨k, n.writeValue c ++ writeEntries c (spaces c) es, by simp [writeEntries, spell, writeKey]⟩

/-- only sequences begin with a dash of their own -/
theorem isSequence_iff_lead {n : Node} (hn : n.Pruned) (hs : n.Spelled) (c : Nat)
    (x : List Char) : n.isSequence = true ↔ lead (n.body c ++ x) = .dash := by
  cases n with
  | null => exact hn.elim
  | scalar s =>
    have hlead : lead ((scalar s).body c ++ x) = s.lead := Scalar.lead_write hs c x
    rw [hlead]
    simp [isSequence, Scalar.lead_ne_dash]
  | sequence ns =>
    obtain ⟨n, ns, rfl⟩ := List.exists_cons_of_ne_nil ((pruned_sequence _).1 hn).1
    exact ⟨fun _ => rfl, fun _ => rfl⟩
  | mapping es =>
    obtain ⟨k, r, hk⟩ := writeEntries_eq_spell c ((pruned_mapping _).1 hn).1
    rw [body, hk, List.append_assoc, lead_spell plainWord_of_isPlainKey]
    cases isPlainKey k <;> simp [isSequence]

/-- a leaf that begins as a key does ends its line where the key has its colon -/
theorem write_ne_entries {s : Scalar} (hs : s.Spelled) {es : List (String × Node)} (h : es ≠ [])
    (b c : Nat) (x y : List Char) : s.write b ++ x ≠ writeEntries c [] es ++ y := by
  intro heq
  obtain ⟨k, r, hk⟩ := writeEntries_eq_spell c h
  rw [hk, List.append_assoc] at heq
  have hlead : s.lead = if isPlainKey k then .word else .quote := by
    rw [← Scalar.lead_write hs b x, heq, lead_spell plainWord_of_isPlainKey]
  obtain ⟨hp, hw⟩ := Scalar.write_of_spell hlead b
  rw [hw, List.append_assoc] at heq
  cases (spell_append_inj (fun hk => hs (hp.trans hk)) plainWord_of_isPlainKey rfl rfl heq).2

/-- trees that are written alike are both leaves, both sequences or both mappings -/
theorem kind_eq_of_body_eq {n m : Node} (hn : n.Pruned) (hm : m.Pruned) (hns : n.Spelled)
    (hms : m.Spelled) {b c : Nat} {x y : List Char} (h : n.body b ++ x = m.body c ++ y) :
    n.isScalar = m.isScalar ∧ n.isSequence = m.isSequence := by
  have hseq : n.isSequence = m.isSequence := by
    rw [Bool.eq_iff_iff, isSequence_iff_lead hn hns b x, h, ← isSequence_iff_lead hm hms c y]
  refine ⟨?_, hseq⟩
  cases n with
  | null => exact hn.elim
  | scalar s =>
    cases m with
    | mapping fs =>
      exact absurd h (write_ne_entries hns ((pruned_mapping _).1 hm).1 b c x y)
    | null => exact hm.elim
    | scalar t => rfl
    | sequence ms => cases hseq
  | sequence ns =>
    cases m with
    | scalar t => cases hseq
    | _ => rfl
  | mapping es =>
    cases m with
    | scalar t =>
      exact absurd h.symm (write_ne_entries hms ((pruned_mapping _).1 hn).1 c b y x)
    | _ => rfl

theorem Definite.spelled {n : Node} (h : n.Definite) : n.Spelled :=
  h.imp (fun _ hs => hs.spelled) fun _ _ => trivial

/-- whether a value stands in the line of its key tells whether it is a leaf -/
theorem SelfDelimiting.value {n m : Node} (hc : n.SelfDelimiting) (hn : n.Pruned) (hm : m.Pruned)
    (hd : m.Definite) {c : Nat} {x y : List Char} (hx : LineAhead c x) (hy : LineAhead c y)
    (h : n.writeValue c ++ x = m.writeValue c ++ y) : n = m ∧ x = y := by
  rw [writeValue_eq hn, writeValue_eq hm, List.append_assoc, List.append_assoc] at h
  have hbody : n.body (c + 2) ++ x = m.body (c + 2) ++ y := by
    -- a space or a line feed stands behind the colon
    cases hs : n.isScalar <;> cases ht : m.isScalar <;> rw [hs, ht] at h
    · exact List.append_cancel_left h
    · cases (List.cons.inj h).1
    · cases (List.cons.inj h).1
    · exact List.append_cancel_left h
  exact hc m hm hd c (c + 2) x y (by omega) hx hy hbody

/-- the lines of an item of a sequence at indentation `c` -/
def itemLines (c : Nat) (n : Node) : List Char := spaces c ++ '-' :: ' ' :: n.writeItem c

/-- the lines of an entry of a mapping at indentation `c` -/
def entryLines (c : Nat) (e : String × Node) : List Char :=
  spaces c ++ (writeKey e.1 ++ ':' :: e.2.writeValue c)

theorem writeItems_eq_flatMap (c : Nat) (ns : List Node) :
    writeItems c (spaces c) ns = ns.flatMap (itemLines c) := by
  induction ns with
  | nil => rfl
  | cons n ns ih => rw [writeItems, List.flatMap_cons, ih, itemLines]

theorem writeEntries_eq_flatMap (c : Nat) (es : List (String × Node)) :
    writeEntries c (spaces c) es = es.flatMap (entryLines c) := by
  induction es with
  | nil => rfl
  | cons e es ih => rw [writeEntries, List.flatMap_cons, ih, entryLines]; simp

theorem selfDelimiting_scalar {s : Scalar} (hs : s.Definite) (hp : (scalar s).Pruned) :
    (scalar s).SelfDelimiting := by
  intro m hm hd i c x y hi hx hy h
  have hkind := (kind_eq_of_body_eq hp hm hs.spelled hd.spelled h).1
  cases m with
  | scalar t =>
    obtain ⟨rfl, hxy⟩ := hs.write_append_inj hd hi hx hy h
    exact ⟨rfl, hxy⟩
  | _ => cases hkind

theorem selfDelimiting_sequence {ns : List Node} (hp : (sequence ns).Pruned)
    (hd : (sequence ns).Definite) (hns : ∀ n ∈ ns, n.SelfDelimiting) :
    (sequence ns).SelfDelimiting := by
  intro m hm hdm i c x y hi hx hy h
  have hkind := (kind_eq_of_body_eq hp hm hd.spelled hdm.spelled h).2
  cases m with
  | sequence ms =>
    rw [pruned_sequence] at hp hm
    have hdms := (every_sequence _).1 hdm
    -- the first item shares its line with what is outside; with its blanks before it, it is as the
    -- others are
    have hlines : ns.flatMap (itemLines c) ++ x = ms.flatMap (itemLines c) ++ y := by
      rw [← writeItems_eq_flatMap, ← writeItems_eq_flatMap, writeItems_spaces c hp.1,
        writeItems_spaces c hm.1, List.append_assoc, List.append_assoc]
      exact congrArg (spaces c ++ ·) h
    have hend (n : Node) (z : List Char) : ¬LineAhead i (itemLines c n ++ z) := by
      rw [itemLines, List.append_assoc]
      exact not_lineAhead_spaces hi (by simp)
    have hrest (ns : List Node) (z : List Char) (hz : LineAhead i z) :
        LineAhead c (ns.flatMap (itemLines c) ++ z) :=
      writeItems_eq_flatMap c ns ▸ lineAhead_writeItems (hz.mono (Int.le_of_lt hi)) ns
    have hitem : ∀ n ∈ ns, ∀ m ∈ ms, ∀ z z', LineAhead c z → LineAhead c z' →
        itemLines c n ++ z = itemLines c m ++ z' → n = m ∧ z = z' := by
      intro n hn m hm' z z' hz hz' heq
      simp only [itemLines, List.append_assoc, List.cons_append] at heq
      have hbody := (List.cons.inj (List.cons.inj (List.append_cancel_left heq)).2).2
      rw [writeItem_eq (hp.2 n hn), writeItem_eq (hm.2 m hm')] at hbody
      exact hns n hn m (hm.2 m hm') (hdms m hm') c (c + 2) z z' (by omega) hz hz' hbody
    obtain ⟨rfl, hxy⟩ := flatMap_append_inj hend hrest hitem hx hy hlines
    exact ⟨rfl, hxy⟩
  | _ => cases hkind

theorem selfDelimiting_mapping {es : List (String × Node)} (hp : (mapping es).Pruned)
    (hd : (mapping es).Definite) (hes : ∀ e ∈ es, e.2.SelfDelimiting) :
    (mapping es).SelfDelimiting := by
  intro m hm hdm i c x y hi hx hy h
  have hkind := kind_eq_of_body_eq hp hm hd.spelled hdm.spelled h
  cases m with
  | null => exact hm.elim
  | scalar t => cases hkind.1
  | sequence ms => cases hkind.2
  | mapping fs =>
    rw [pruned_mapping] at hp hm
    have hdfs := (every_mapping _).1 hdm
    have hlines : es.flatMap (entryLines c) ++ x = fs.flatMap (entryLines c) ++ y := by
      rw [← writeEntries_eq_flatMap, ← writeEntries_eq_flatMap, writeEntries_spaces c hp.1,
        writeEntries_spaces c hm.1, List.append_assoc, List.append_assoc]
      exact congrArg (spaces c ++ ·) h
    have hend (e : String × Node) (z : List Char) : ¬LineAhead i (entryLines c e ++ z) := by
      rw [entryLines, List.append_assoc]
      exact not_lineAhead_spaces hi (by simp)
    have hrest (es : List (String × Node)) (z : List Char) (hz : LineAhead i z) :
        LineAhead c (es.flatMap (entryLines c) ++ z) :=
      writeEntries_eq_flatMap c es ▸ lineAhead_writeEntries (hz.mono (Int.le_of_lt hi)) es
    have hentry : ∀ e ∈ es, ∀ f ∈ fs, ∀ z z', LineAhead c z → LineAhead c z' →
        entryLines c e ++ z = entryLines c f ++ z' → e = f ∧ z = z' := by
      intro e he f hf z z' hz hz' heq
      simp only [entryLines, List.append_assoc, List.cons_append] at heq
      obtain ⟨hkey, hvalue⟩ := spell_append_inj plainWord_of_isPlainKey plainWord_of_isPlainKey
        rfl rfl (List.append_cancel_left heq)
      obtain ⟨hnode, hzz⟩ := (hes e he).value (hp.2.2 e he) (hm.2.2 f hf) (hdfs f hf).2 hz hz'
        (List.cons.inj hvalue).2
      exact ⟨Prod.ext (String.toList_inj.1 hkey) hnode, hzz⟩
    obtain ⟨rfl, hxy⟩ := flatMap_append_inj hend hrest hentry hx hy hlines
    exact ⟨rfl, hxy⟩

/-- every part of a pruned tree is found again -/
theorem selfDelimiting {n : Node} (hp : n.Pruned) (hd : n.Definite) : n.SelfDelimiting := by
  induction n with
  | null => exact hp.elim
  | scalar s => exact selfDelimiting_scalar hd hp
  | sequence ns ih =>
    have hp' := (pruned_sequence _).1 hp
    have hd' := (every_sequence _).1 hd
    exact selfDelimiting_sequence hp hd fun n hn => ih n hn (hp'.2 n hn) (hd' n hn)
  | mapping es ih =>
    have hp' := (pruned_mapping _).1 hp
    have hd' := (every_mapping _).1 hd
    exact selfDelimiting_mapping hp hd fun e he => ih e he (hp'.2.2 e he) (hd' e he).2

theorem eq_of_write_eq {n m : Node} (hn : n.Pruned) (hm : m.Pruned) (hdn : n.Definite)
    (hdm : m.Definite) (h : n.write = m.write) : n = m := by
  rw [write_eq_body, write_eq_body] at h
  have happend := congrArg (· ++ ([] : List Char)) h
  -- leaves and containers differ in their indentation, so they are told apart first
  have hscalar := (kind_eq_of_body_eq hn hm hdn.spelled hdm.spelled happend).1
  rw [hscalar] at happend
  exact (selfDelimiting hn hdn m hm hdm (-1) _ [] [] (by omega) .done .done happend).1

/-- **what is written of a tree tells the tree, but for what is empty and the order of keys**: trees
with the same text, or with none, are both empty or equal once tidy -/
theorem tidy_eq_of_render_eq {n m : Node} (hn : n.Definite) (hm : m.Definite) (hkn : n.WellKeyed)
    (hkm : m.WellKeyed) (h : n.render = m.render) :
    n.isEmpty = m.isEmpty ∧ (n.isEmpty = false → n.tidy = m.tidy) := by
  have hempty : n.isEmpty = m.isEmpty := by
    rw [Bool.eq_iff_iff, ← render_eq_none_iff hkn, h, render_eq_none_iff hkm]
  refine ⟨hempty, fun hne => ?_⟩
  have hpn : n.prune = some n.tidy := by rw [prune_eq hkn, hne]; rfl
  have hpm : m.prune = some m.tidy := by rw [prune_eq hkm, ← hempty, hne]; rfl
  rw [render, render, hpn, hpm, Option.map_some, Option.map_some, Option.some_inj,
    String.ofList_inj] at h
  exact eq_of_write_eq (pruned_of_prune hkn hpn) (pruned_of_prune hkm hpm) (hn.prune hpn)
    (hm.prune hpm) h

/-- a block with lines that look like keys and items, a key with a colon in it, a text behind a tag
that looks like more of the document; one tree has more that is empty, the other another order -/
theorem tidy_eq_of_render_eq_lookalikes :
    let n : Node := .mapping [("b: x", .text "k: |\n  - a\n\n"), ("gone", .sequence [.null]),
      ("z", .sequence [.mapping [("on", .scalar (.ofKind "1\" # x: y" .number))], .integer (-5)])]
    let m : Node := .mapping [("z", .sequence [.mapping [("e", .text ""),
      ("on", .scalar (.ofKind "1\" # x: y" .number))], .null, .integer (-5)]),
      ("b: x", .text "k: |\n  - a\n\n")]
    n.Definite ∧ m.Definite ∧ n.WellKeyed ∧ m.WellKeyed ∧ n.sameAs m = false ∧
      n.render = m.render ∧ n.render = some
        "\"b: x\": |+\n  k: |\n    - a\n\nz:\n  - \"on\": !!int \"1\\\" # x: y\"\n  - -5\n" ∧
      n.isEmpty = false ∧ n.tidy = m.tidy := by
  intro n m
  have hon : (Scalar.ofKind "1\" # x: y" .number).Definite := .typed _ rfl (by decide)
  have hn : n.Definite := ⟨⟨trivial, .text _⟩, ⟨trivial, trivial, trivial⟩,
    ⟨trivial, ⟨⟨trivial, hon⟩, trivial⟩, .integer (-5), trivial⟩, trivial⟩
  have hm : m.Definite := ⟨⟨trivial, ⟨⟨trivial, .text _⟩, ⟨trivial, hon⟩, trivial⟩, trivial,
    .integer (-5), trivial⟩, ⟨trivial, .text _⟩, trivial⟩
  have hkn : n.WellKeyed := by decide
  have hkm : m.WellKeyed := by decide
  have hr : n.render = m.render := by decide
  have hne : n.isEmpty = false := by decide
  exact ⟨hn, hm, hkn, hkm, by decide, hr, by decide, hne,
    (tidy_eq_of_render_eq hn hm hkn hkm hr).2 hne⟩

end Node

end ConfigReconcile
