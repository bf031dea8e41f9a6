import ConfigReconcile.Proofs.Document.Layout
import ConfigReconcile.Yaml.Value

/-!
# The syntax tree of a written tree

* `Node.syntaxTree`          a tree of scalars, block sequences and block mappings, without anchors
                             and aliases, tags only on leaves that are written with one;
* `Node.ofTokens_tokens`     the tokens of a tree are put together to its syntax tree;
* `Node.link_syntaxTree`     there are no aliases to settle in it.
-/

namespace ConfigReconcile

open Text Yaml

namespace Scalar

variable {ref : Type}

/-- the tag of a leaf that is written with one -/
def tag? (s : Scalar) : Option Bytes :=
  if s.isTagged then (tagWord? s.kind).map fun w => Value.coreTag (String.ofList w) else none

/-- how a leaf is spelled -/
def style (s : Scalar) : Style :=
  if s.isLiteral then .literal else if s.isPlain then .plain else .doubleQuoted

def syntaxTree (s : Scalar) : Yaml.Tree ref := .scalar ⟨none, s.tag?⟩ s.style s.value

theorem tokens_untagged {s : Scalar} (h : s.isTagged = false) :
    s.tokens = [.scalar s.style s.value] ∧ s.tag? = none := by
  refine ⟨?_, by rw [tag?, h]; rfl⟩
  unfold isTagged at h
  unfold tokens style
  split
  next => rfl
  next hl =>
    split
    next => rfl
    next hp =>
      have hw : tagWord? s.kind = none := by simpa [hl, hp] using h
      rw [hw]
      rfl

theorem tokens_tagged {s : Scalar} (h : s.isTagged = true) :
    ∃ w ∈ Scanner.coreWords, s.tokens = [.tag "!!" (asciiBytes w), .scalar .doubleQuoted s.value] ∧
      s.tag? = some (Value.coreTag (String.ofList w)) ∧ s.style = .doubleQuoted := by
  have ht := h
  simp only [isTagged, Bool.and_eq_true, Bool.not_eq_true'] at h
  obtain ⟨⟨hl, hp⟩, hw⟩ := h
  obtain ⟨w, hw⟩ := Option.isSome_iff_exists.1 hw
  refine ⟨w, ?_, ?_, ?_, ?_⟩
  · unfold tagWord? at hw
    split at hw <;> cases hw <;> decide
  · simp [tokens, hl, hp, hw]
  · simp [tag?, ht, hw]
  · simp [style, hl, hp]

end Scalar

/-- how a key is spelled -/
def keyTree {ref : Type} (k : String) : Yaml.Tree ref :=
  .scalar .none (if isPlainKey k then .plain else .doubleQuoted) k

namespace Node

variable {ref : Type}

mutual

/-- what the lines of a tree say -/
def syntaxTree : Node → Yaml.Tree ref
  | .null => .empty .none
  | .scalar s => s.syntaxTree
  | .sequence items => .sequence .none (itemsSyntax items)
  | .mapping entries => .mapping .none (entriesSyntax entries)

def itemsSyntax : List Node → List (Yaml.Tree ref)
  | [] => []
  | n :: ns => n.syntaxTree :: itemsSyntax ns

def entriesSyntax : List (String × Node) → List (Yaml.Tree ref × Yaml.Tree ref)
  | [] => []
  | (k, n) :: es => (keyTree k, n.syntaxTree) :: entriesSyntax es

end

/-! ## tokens put together -/

open Assembly

/-- where a node of block style may stand -/
def BlockContext (frames : List Frame) : Prop :=
  ∀ f ∈ frames.head?, (∃ p items, f = .block p true items) ∨ ∃ p es k?, f = .blockMapping p es k?

/-- waiting for a node -/
def due (frames : List Frame) : Assembly := .inside defaultHandles false frames (.node .none)

/-- a node done -/
def finished (frames : List Frame) (t : Yaml.Tree String) : Assembly :=
  finishNode defaultHandles false frames t

theorem core_tag {w : List Char} (h : w ∈ Scanner.coreWords) :
    resolveTag defaultHandles "!!" (asciiBytes w) = .ok (Value.coreTag (String.ofList w)) := by
  simp only [Scanner.coreWords, List.mem_cons, List.not_mem_nil, or_false] at h
  rcases h with rfl | rfl | rfl <;> rfl

/-- tokens that begin a node are no sign that one is missing -/
theorem not_isAbsence {frames : List Frame} (h : BlockContext frames) (tok : Token)
    (ht : tok ≠ .blockEntry ∧ tok ≠ .blockEnd ∧ tok ≠ .key ∧ tok ≠ .value) :
    frames.head?.any (·.isAbsence tok) = false := by
  cases frames with
  | nil => rfl
  | cons f fs =>
    rcases h f rfl with ⟨p, items, rfl⟩ | ⟨p, es, k?, rfl⟩ <;>
      cases tok <;> simp_all [Frame.isAbsence]

theorem allowsBlock {frames : List Frame} (h : BlockContext frames) :
    frames.head?.all Frame.allowsBlock = true := by
  cases frames with
  | nil => rfl
  | cons f fs => rcases h f rfl with ⟨p, items, rfl⟩ | ⟨p, es, k?, rfl⟩ <;> rfl

theorem feed_scalar {frames : List Frame} (h : BlockContext frames) (style : Style) (v : String) :
    (due frames).feed (.scalar style v) = .ok (finished frames (.scalar .none style v)) := by
  have ha := not_isAbsence h (.scalar style v) (by simp)
  simp [due, feed, feedNode, ha, finished, Properties.forScalar, Properties.none]

theorem feed_tagged {frames : List Frame} (h : BlockContext frames) {w : List Char}
    (hw : w ∈ Scanner.coreWords) (v : String) :
    [Token.tag "!!" (asciiBytes w), .scalar .doubleQuoted v].foldlM feed (due frames) =
      .ok (finished frames
        (.scalar ⟨none, some (Value.coreTag (String.ofList w))⟩ .doubleQuoted v)) := by
  have ha := not_isAbsence h (.tag "!!" (asciiBytes w)) (by simp)
  have hne : Value.coreTag (String.ofList w) ≠ [33] := by
    simp only [Scanner.coreWords, List.mem_cons, List.not_mem_nil, or_false] at hw
    rcases hw with rfl | rfl | rfl <;> decide
  have htag : (due frames).feed (.tag "!!" (asciiBytes w)) =
      .ok (.inside defaultHandles false frames
        (.node ⟨none, some (Value.coreTag (String.ofList w))⟩)) := by
    simp only [due, feed, feedNode, ha, core_tag hw, Properties.none, Properties.isNone,
      Option.isNone_none, Bool.and_false, Bool.false_and, Bool.false_eq_true, if_false, if_true]
    rfl
  rw [List.foldlM_cons, htag, ok_bind]
  simp [feed, feedNode, Properties.isNone, finished, Properties.forScalar, hne]

theorem feed_start {frames : List Frame} (h : BlockContext frames) :
    (due frames).feed .blockSequenceStart =
        .ok (.inside defaultHandles false (.block .none true [] :: frames) .after) ∧
      (due frames).feed .blockMappingStart =
        .ok (.inside defaultHandles false (.blockMapping .none [] none :: frames) .after) := by
  have hb := allowsBlock h
  constructor
  · have ha := not_isAbsence h .blockSequenceStart (by simp)
    simp [due, feed, feedNode, ha, hb]
  · have ha := not_isAbsence h .blockMappingStart (by simp)
    simp [due, feed, feedNode, ha, hb]

/-- inside a collection, behind a member -/
def behind (f : Frame) (frames : List Frame) : Assembly :=
  .inside defaultHandles false (f :: frames) .after

section
variable {frames : List Frame}

theorem feed_entry (items : List (Yaml.Tree String)) :
    (behind (.block .none true items) frames).feed .blockEntry =
      .ok (due (.block .none true items :: frames)) := rfl

theorem feed_key (es : List (Yaml.Tree String × Yaml.Tree String)) :
    (behind (.blockMapping .none es none) frames).feed .key =
      .ok (due (.blockMapping .none es none :: frames)) := rfl

theorem feed_value (es : List (Yaml.Tree String × Yaml.Tree String)) (k : Yaml.Tree String) :
    (behind (.blockMapping .none es (some k)) frames).feed .value =
      .ok (due (.blockMapping .none es (some k) :: frames)) := rfl

theorem feed_end (items : List (Yaml.Tree String))
    (es : List (Yaml.Tree String × Yaml.Tree String)) :
    (behind (.block .none true items) frames).feed .blockEnd =
        .ok (finished frames (.sequence .none items.reverse)) ∧
      (behind (.blockMapping .none es none) frames).feed .blockEnd =
        .ok (finished frames (.mapping .none es.reverse)) := ⟨rfl, rfl⟩

theorem blockContext_block (items : List (Yaml.Tree String)) :
    BlockContext (.block .none true items :: frames) := by
  rintro f ⟨⟩
  exact .inl ⟨_, _, rfl⟩

theorem blockContext_mapping (es : List (Yaml.Tree String × Yaml.Tree String))
    (k? : Option (Yaml.Tree String)) :
    BlockContext (.blockMapping .none es k? :: frames) := by
  rintro f ⟨⟩
  exact .inr ⟨_, _, _, rfl⟩

end

/-- the tokens of a tree are put together to its syntax tree -/
def Assembled (n : Node) : Prop :=
  ∀ frames, BlockContext frames →
    n.tokens.foldlM feed (due frames) = .ok (finished frames n.syntaxTree)

theorem assembled_scalar (s : Scalar) : (scalar s).Assembled := by
  intro frames h
  rw [tokens, syntaxTree, Scalar.syntaxTree]
  cases ht : s.isTagged with
  | false =>
    obtain ⟨htok, htag⟩ := Scalar.tokens_untagged ht
    rw [htok, htag, List.foldlM_cons, feed_scalar h]
    rfl
  | true =>
    obtain ⟨w, hw, htok, htag, hstyle⟩ := Scalar.tokens_tagged ht
    rw [htok, htag, hstyle, feed_tagged h hw]

theorem fold_items {ns : List Node} (hn : ∀ n ∈ ns, n.Assembled) (items : List (Yaml.Tree String))
    (frames : List Frame) :
    (itemsTokens ns).foldlM feed (behind (.block .none true items) frames) =
      .ok (behind (.block .none true ((itemsSyntax ns).reverse ++ items)) frames) := by
  induction ns generalizing items with
  | nil => rfl
  | cons n ns ih =>
    rw [List.forall_mem_cons] at hn
    rw [itemsTokens, List.foldlM_cons, feed_entry, ok_bind, List.foldlM_append,
      hn.1 _ (blockContext_block items), ok_bind]
    show (itemsTokens ns).foldlM feed
      (behind (.block .none true (n.syntaxTree :: items)) frames) = _
    rw [ih hn.2]
    simp [itemsSyntax]

theorem fold_entries {es : List (String × Node)} (hn : ∀ e ∈ es, e.2.Assembled)
    (entries : List (Yaml.Tree String × Yaml.Tree String)) (frames : List Frame) :
    (entriesTokens es).foldlM feed (behind (.blockMapping .none entries none) frames) =
      .ok (behind (.blockMapping .none ((entriesSyntax es).reverse ++ entries) none) frames) := by
  induction es generalizing entries with
  | nil => rfl
  | cons e es ih =>
    obtain ⟨k, n⟩ := e
    rw [List.forall_mem_cons] at hn
    rw [entriesTokens, List.foldlM_cons, feed_key, ok_bind, List.foldlM_cons, keyToken,
      feed_scalar (blockContext_mapping entries none), ok_bind, List.foldlM_cons]
    show (feed (behind (.blockMapping .none entries (some (keyTree k))) frames) .value >>= _) = _
    rw [feed_value, ok_bind, List.foldlM_append, hn.1 _ (blockContext_mapping entries _), ok_bind]
    show (entriesTokens es).foldlM feed
      (behind (.blockMapping .none ((keyTree k, n.syntaxTree) :: entries) none) frames) = _
    rw [ih hn.2]
    simp [entriesSyntax]

theorem assembled {n : Node} (hp : n.Pruned) : n.Assembled := by
  induction n with
  | null => exact hp.elim
  | scalar s => exact assembled_scalar s
  | sequence ns ih =>
    have hp := (pruned_sequence _).1 hp
    intro frames h
    rw [tokens, List.foldlM_cons, (feed_start h).1, ok_bind, List.foldlM_append]
    have hfold := fold_items (fun n hn => ih n hn (hp.2 n hn)) [] frames
    show ((itemsTokens ns).foldlM feed (behind (.block .none true []) frames) >>= _) = _
    rw [hfold, ok_bind, List.foldlM_cons, (feed_end _ []).1, ok_bind]
    simp [syntaxTree]
    rfl
  | mapping es ih =>
    have hp := (pruned_mapping _).1 hp
    intro frames h
    rw [tokens, List.foldlM_cons, (feed_start h).2, ok_bind, List.foldlM_append]
    have hfold := fold_entries (fun e he => ih e he (hp.2.2 e he)) [] frames
    show ((entriesTokens es).foldlM feed (behind (.blockMapping .none [] none) frames) >>= _) = _
    rw [hfold, ok_bind, List.foldlM_cons, (feed_end [] _).2, ok_bind]
    simp [syntaxTree]
    rfl

/-- a document may begin with the first token of a tree -/
theorem feed_fresh {n : Node} (hp : n.Pruned) :
    n.tokens.foldlM feed .fresh = n.tokens.foldlM feed (due []) := by
  have hfirst : ∃ tok ts, n.tokens = tok :: ts ∧ Assembly.fresh.feed tok = (due []).feed tok := by
    cases n with
    | null => exact hp.elim
    | scalar s =>
      rw [tokens]
      cases ht : s.isTagged with
      | false => exact ⟨_, _, (Scalar.tokens_untagged ht).1, rfl⟩
      | true =>
        obtain ⟨w, -, htok, -⟩ := Scalar.tokens_tagged ht
        exact ⟨_, _, htok, rfl⟩
    | sequence ns => exact ⟨_, _, rfl, rfl⟩
    | mapping es => exact ⟨_, _, rfl, rfl⟩
  obtain ⟨tok, ts, ht, hf⟩ := hfirst
  rw [ht, List.foldlM_cons, List.foldlM_cons, hf]

theorem ofTokens_tokens {n : Node} (hp : n.Pruned) :
    Yaml.Tree.ofTokens n.tokens = .ok (some n.syntaxTree) := by
  rw [Yaml.Tree.ofTokens, feed_fresh hp, assembled hp [] (fun f h => by cases h)]
  rfl

/-! ## no aliases -/

theorem begin?_none (l : Links) : l.begin? .none = (none, l) := rfl

theorem link_keyTree (l : Links) (k : String) :
    (keyTree k : Yaml.Tree String).link l = .ok (keyTree k, l) := rfl

theorem link_syntaxTree (n : Node) (l : Links) :
    (n.syntaxTree : Yaml.Tree String).link l = .ok (n.syntaxTree, l) := by
  induction n with
  | null => rfl
  | scalar s => rfl
  | sequence ns ih =>
    have hitems : Yaml.Tree.linkItems l (itemsSyntax ns) = .ok (itemsSyntax ns, l) := by
      induction ns with
      | nil => rfl
      | cons n ns ih' =>
        rw [List.forall_mem_cons] at ih
        rw [itemsSyntax, Yaml.Tree.linkItems, ih.1, ok_bind]
        simp only [ih' ih.2]
        rfl
    rw [syntaxTree, Yaml.Tree.link]
    simp only [begin?_none, hitems]
    rfl
  | mapping es ih =>
    have hentries : Yaml.Tree.linkEntries l (entriesSyntax es) = .ok (entriesSyntax es, l) := by
      induction es with
      | nil => rfl
      | cons e es ih' =>
        obtain ⟨k, n⟩ := e
        rw [List.forall_mem_cons] at ih
        rw [entriesSyntax, Yaml.Tree.linkEntries, link_keyTree, ok_bind]
        simp only [ih.1]
        simp only [ok_bind, ih' ih.2]
        rfl
    rw [syntaxTree, Yaml.Tree.link]
    simp only [begin?_none, hentries]
    rfl

end Node

end ConfigReconcile
