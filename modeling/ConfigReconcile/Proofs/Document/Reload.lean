import ConfigReconcile.Proofs.Document.Characters
import ConfigReconcile.Proofs.Document.Reread

/-!
# Documents written and read again

* `Scalar.Reloads`, `KeyReloads`   leaves and keys without a stray character, no literal block whose
                            first line begins with a tab, no leaf behind a core tag, no key of more
                            than 1024 characters;
* `Node.parse_write`        a tree of such leaves and keys is read back as `Node.reread`;
* `Node.reloads_of_parse`   a tree that is read back so that it is written the same is one of them;
* `Node.exists_reload_iff`  both, from text to text.
-/

namespace ConfigReconcile

open Text Yaml

/-- a leaf that is read back so that it is written the same -/
def Scalar.Reloads (s : Scalar) : Prop := StrayFree s.value ∧ s.Scans ∧ s.isTagged = false

instance : DecidablePred Scalar.Reloads := fun _ => inferInstanceAs (Decidable (_ ∧ _))

/-- a key that is read back -/
def KeyReloads (k : String) : Prop := StrayFree k ∧ KeyScans k

instance : DecidablePred KeyReloads := fun _ => inferInstanceAs (Decidable (_ ∧ _))

namespace Node

/-- leaves and keys are read back so that they are written the same -/
abbrev Reloads (n : Node) : Prop := n.Every Scalar.Reloads KeyReloads

theorem Every.and {P Q : Scalar → Prop} {K L : String → Prop} {n : Node} (h : n.Every P K)
    (h' : n.Every Q L) : n.Every (fun s => P s ∧ Q s) fun k => K k ∧ L k := by
  induction n with
  | null => trivial
  | scalar s => exact ⟨h, h'⟩
  | sequence ns ih =>
    rw [every_sequence] at *
    exact fun n hn => ih n hn (h n hn) (h' n hn)
  | mapping es ih =>
    rw [every_mapping] at *
    exact fun e he => ⟨⟨(h e he).1, (h' e he).1⟩, ih e he (h e he).2 (h' e he).2⟩

theorem Loaded.spelled {levels : Nat} {n : Node} (h : n.Loaded levels) : n.Spelled :=
  h.leaves.imp (fun _ hs => hs.spelled) fun _ _ => trivial

/-- what is left of what is read is pruned, and as it is read -/
theorem Loaded.prune {levels : Nat} {n m : Node} (h : n.Loaded levels) (hm : n.prune = some m) :
    m.Pruned ∧ m.Loaded levels := by
  have hp := pruned_of_prune h.keys hm
  exact ⟨hp, h.leaves.prune hm, h.within.prune hm, hp.wellKeyed⟩

/-! ## no blank text -/

theorem not_isWhiteSpace {c : Char} (hopens : opensLine c = true) (hgraphic : isGraphic c = true) :
    isWhiteSpace c = false := by
  have hspace : c.toNat ≠ 0x20 := fun h => by
    obtain rfl : c = ' ' := Char.toNat_inj.1 h
    exact absurd hopens (by decide)
  simp only [isGraphic, Bool.and_eq_true, decide_eq_true_eq] at hgraphic
  simp [isWhiteSpace]
  omega

theorem exists_nonblank {n : Node} (hp : n.Pruned) (hn : n.Every Scalar.Loaded fun _ => True) :
    ∃ c ∈ n.write, isWhiteSpace c = false := by
  cases n with
  | null => exact hp.elim
  | scalar s =>
    show ∃ c ∈ s.write 2, _
    cases hl : s.isLiteral with
    | true =>
      rw [Scalar.write_literal hl]
      exact ⟨'|', List.mem_cons_self .., by decide⟩
    | false =>
      cases hpl : s.isPlain with
      | true =>
        obtain ⟨c, cs, hc, hopens, -⟩ := (Scalar.Loaded.spelled hn hpl).start
        have hgraphic := isGraphic_plain hn hpl c (hc ▸ List.mem_cons_self ..)
        rw [Scalar.write_plain hpl, hc]
        exact ⟨c, List.mem_cons_self .., not_isWhiteSpace hopens hgraphic⟩
      | false =>
        rw [Scalar.write_quoted hl hpl]
        exact ⟨'"', List.mem_append_right _ (List.mem_cons_self ..), by decide⟩
  | sequence ns =>
    obtain ⟨n, ns, rfl⟩ := List.exists_cons_of_ne_nil ((pruned_sequence _).1 hp).1
    exact ⟨'-', List.mem_cons_self .., by decide⟩
  | mapping es =>
    obtain ⟨⟨k, n⟩, es, rfl⟩ := List.exists_cons_of_ne_nil ((pruned_mapping _).1 hp).1
    refine ⟨':', ?_, by decide⟩
    show ':' ∈ [] ++ writeKey k ++ ':' :: writeValue 0 n ++ _
    simp

theorem isBlankText_write {n : Node} (hp : n.Pruned)
    (hn : n.Every Scalar.Loaded fun _ => True) : isBlankText (String.ofList n.write) = false := by
  obtain ⟨c, hc, hwhite⟩ := exists_nonblank hp hn
  rw [isBlankText, String.toList_ofList, List.all_eq_false]
  exact ⟨c, hc, by simp [hwhite]⟩

/-! ## reading a written tree -/

theorem ofTree_syntaxTree (n : Node) :
    ∃ d, Document.ofTree n.syntaxTree = .ok d ∧ d.root = n.syntaxTree := by
  refine ⟨⟨n.syntaxTree, .none, 100 * (n.syntaxTree : Yaml.Tree String).eventCount⟩, ?_, rfl⟩
  rw [Document.ofTree, link_syntaxTree, ok_bind]
  rfl

/-- a written tree is the document of its syntax tree if its characters and its lines are such -/
theorem ofText_write {n : Node} (hp : n.Pruned) (hs : n.Spelled)
    (h : n.write.all isReadable = true ∧ n.Scans) :
    ∃ d, Document.ofText (String.ofList n.write) = .ok (some d) ∧ d.root = n.syntaxTree := by
  obtain ⟨d, hd, hroot⟩ := ofTree_syntaxTree n
  refine ⟨d, ?_, hroot⟩
  unfold Document.ofText
  rw [String.toList_ofList, Token.ofText, if_pos h.1, (scan_write hp hs).1 h.2, ok_bind,
    ofTokens_tokens hp, ok_bind]
  dsimp only
  rw [hd]
  rfl

/-- a tree that has other characters or lines is no document -/
theorem ofText_write_error {n : Node} (hp : n.Pruned) (hs : n.Spelled)
    (h : ¬(n.write.all isReadable = true ∧ n.Scans)) :
    ∃ e, Document.ofText (String.ofList n.write) = .error e := by
  unfold Document.ofText
  rw [String.toList_ofList, Token.ofText]
  by_cases hread : n.write.all isReadable = true
  · obtain ⟨e, he⟩ := (scan_write hp hs).2 fun hscans => h ⟨hread, hscans⟩
    rw [if_pos hread, he]
    exact ⟨e, rfl⟩
  · rw [if_neg hread]
    exact ⟨_, rfl⟩

/-- a tree is read back, with the leaves that are not written plain as texts -/
theorem parse_write {n : Node} (hp : n.Pruned) (hl : n.Loaded Document.maxLevels)
    (hr : n.Reloads) : Node.parse (String.ofList n.write) = .ok n.reread := by
  have hs := hl.spelled
  have hread : n.write.all isReadable = true :=
    (isReadable_write hp hl.leaves).2 (hr.imp (fun s hs => hs.1) fun k hk => hk.1)
  have hscans : n.Scans := hr.imp (fun s hs => hs.2.1) fun k hk => hk.2
  have huntagged : n.Untagged := (hl.leaves.and hr).imp (fun s hs => ⟨hs.1, hs.2.2.2⟩)
    fun _ _ => trivial
  obtain ⟨d, hd, hroot⟩ := ofText_write hp hs ⟨hread, hscans⟩
  obtain ⟨v, hv, hnode, hkeys⟩ := expand_syntaxTree (d := d) hp huntagged hl.within 0
  have hvalue : Value.ofText (String.ofList n.write) = .ok v := by
    unfold Value.ofText
    rw [hd, ok_bind]
    dsimp only
    rw [Document.value, hroot, hv, ok_bind]
    dsimp only
    rw [if_pos hkeys]
    rfl
  rw [Node.parse, isBlankText_write hp hl.leaves, hvalue]
  exact congrArg Except.ok hnode

theorem render_reread {n : Node} (hp : n.Pruned) (hn : n.Untagged) :
    n.reread.render = some (String.ofList n.write) := by
  rw [render, prune_of_pruned (pruned_reread hp), Option.map_some, write_reread hp hn]

/-! ## no others -/

/-- a tag among the tokens -/
def HasTag (ts : List Token) : Prop := ∃ handle bytes, .tag handle bytes ∈ ts

theorem hasTag_append (ts us : List Token) : HasTag (ts ++ us) ↔ HasTag ts ∨ HasTag us := by
  simp only [HasTag, List.mem_append, exists_or]

theorem hasTag_cons {t : Token} (h : ∀ handle bytes, t ≠ .tag handle bytes) (ts : List Token) :
    HasTag (t :: ts) ↔ HasTag ts := by
  simp only [HasTag, List.mem_cons]
  refine exists₂_congr fun handle bytes => or_iff_right fun heq => h handle bytes heq.symm

theorem hasTag_scalar (s : Scalar) : HasTag s.tokens ↔ s.isTagged = true := by
  cases ht : s.isTagged with
  | false => simp [(Scalar.tokens_untagged ht).1, HasTag]
  | true =>
    obtain ⟨w, -, htok, -⟩ := Scalar.tokens_tagged ht
    simp [htok, HasTag]

/-- there is a tag among the tokens of a tree if some leaf has one -/
theorem hasTag_tokens {n : Node} :
    ¬HasTag n.tokens ↔ n.Every (fun s => s.isTagged = false) fun _ => True := by
  induction n with
  | null => simp [tokens, HasTag, Every]
  | scalar s =>
    show ¬HasTag s.tokens ↔ s.isTagged = false
    rw [hasTag_scalar, Bool.not_eq_true]
  | sequence ns ih =>
    have hitems : ¬HasTag (itemsTokens ns) ↔
        ∀ n ∈ ns, n.Every (fun s => s.isTagged = false) fun _ => True := by
      induction ns with
      | nil => simp [itemsTokens, HasTag]
      | cons n ns ihns =>
        rw [List.forall_mem_cons] at ih ⊢
        rw [itemsTokens, hasTag_cons (by simp), hasTag_append, not_or, ih.1, ihns ih.2]
    rw [every_sequence, ← hitems, tokens, hasTag_cons (by simp), hasTag_append, not_or]
    exact and_iff_left (by simp [HasTag])
  | mapping es ih =>
    have hentries : ¬HasTag (entriesTokens es) ↔
        ∀ e ∈ es, True ∧ e.2.Every (fun s => s.isTagged = false) fun _ => True := by
      induction es with
      | nil => simp [entriesTokens, HasTag]
      | cons e es ihes =>
        obtain ⟨k, n⟩ := e
        rw [List.forall_mem_cons] at ih ⊢
        rw [entriesTokens, hasTag_cons (by simp), hasTag_cons (by simp [keyToken]),
          hasTag_cons (by simp), hasTag_append, not_or, ih.1, ihes ih.2, true_and]
    rw [every_mapping, ← hentries, tokens, hasTag_cons (by simp), hasTag_append, not_or]
    exact and_iff_left (by simp [HasTag])

theorem of_parse_write {n m : Node} (hp : n.Pruned) (hl : n.Loaded Document.maxLevels)
    (hm : Node.parse (String.ofList n.write) = .ok m) :
    n.write.all isReadable = true ∧ n.Scans ∧ m.Untagged := by
  rw [Node.parse, isBlankText_write hp hl.leaves] at hm
  have hgood : n.write.all isReadable = true ∧ n.Scans := by
    by_contra hbad
    obtain ⟨e, he⟩ := ofText_write_error hp hl.spelled hbad
    have hvalue : Value.ofText (String.ofList n.write) = .error e := by
      unfold Value.ofText
      rw [he]
      rfl
    rw [hvalue] at hm
    cases hm
  obtain ⟨d, hd, hroot⟩ := ofText_write hp hl.spelled hgood
  have hvalue : Value.ofText (String.ofList n.write) = d.value := by
    unfold Value.ofText
    rw [hd, ok_bind]
  rw [hvalue] at hm
  refine ⟨hgood.1, hgood.2, ?_⟩
  cases hv : d.value with
  | error e => rw [hv] at hm; cases hm
  | ok v =>
    rw [hv] at hm
    cases hm
    obtain ⟨⟨w, jumps⟩, hw, hv⟩ := ok_of_bind hv
    rw [hroot] at hw
    dsimp only at hv
    split at hv
    next => cases hv; exact untagged_of_expand hp hw
    next => cases hv

/-- a tree that is read back so that it is written the same -/
theorem reloads_of_parse {n m : Node} (hp : n.Pruned) (hl : n.Loaded Document.maxLevels)
    (hm : Node.parse (String.ofList n.write) = .ok m)
    (hr : m.render = some (String.ofList n.write)) : n.Reloads := by
  obtain ⟨hread, hscans, huntagged⟩ := of_parse_write hp hl hm
  obtain ⟨m', hm', hwrite⟩ := Option.map_eq_some_iff.1 hr
  have hwrite : m'.write = n.write := String.ofList_inj.1 hwrite
  obtain ⟨hp', hl'⟩ := (loaded_of_parse hm).prune hm'
  have hscan := (scan_write hp hl.spelled).1 hscans
  -- both are cut into the same tokens, and those of what has been read hold no tag
  have htokens : n.tokens = m'.tokens := by
    obtain ⟨hok, herror⟩ := scan_write hp' hl'.spelled
    rw [hwrite, hscan] at hok herror
    by_cases h : m'.Scans
    · exact Except.ok.inj (hok h)
    · obtain ⟨e, he⟩ := herror h
      cases he
  have hnotag : n.Every (fun s => s.isTagged = false) fun _ => True := by
    rw [← hasTag_tokens, htokens, hasTag_tokens]
    exact (huntagged.prune hm').imp (fun s hs => hs.2) fun _ _ => trivial
  have hstray := (isReadable_write hp hl.leaves).1 hread
  exact (hstray.and (hscans.and hnotag)).imp (fun s hs => hs) fun k hk => ⟨hk.1, hk.2.1⟩

/-! ## from text to text -/

/-- a document is written so that it can be read again, and is then written the same, if what is
left of it once it is pruned has no leaf and no key that it must not have, and not otherwise -/
theorem exists_reload_iff {t s : String} {n : Node} (ht : Node.parse t = .ok n)
    (hs : n.render = some s) :
    (∃ m, Node.parse s = .ok m ∧ m.render = some s) ↔ ∃ p, n.prune = some p ∧ p.Reloads := by
  obtain ⟨p, hprune, rfl⟩ := Option.map_eq_some_iff.1 hs
  obtain ⟨hp, hl⟩ := (loaded_of_parse ht).prune hprune
  constructor
  · rintro ⟨m, hm, hr⟩
    exact ⟨p, hprune, reloads_of_parse hp hl hm hr⟩
  · rintro ⟨p', hprune', hr⟩
    obtain rfl : p = p' := Option.some.inj (hprune.symm.trans hprune')
    have huntagged : p.Untagged := (hl.leaves.and hr).imp (fun s hs => ⟨hs.1, hs.2.2.2⟩)
      fun _ _ => trivial
    exact ⟨p.reread, parse_write hp hl hr, render_reread hp huntagged⟩

example : ¬Scalar.Reloads (.text "\tb\nc") ∧ ¬Scalar.Reloads (.text "\x7f") ∧
    ¬Scalar.Reloads (.ofKind "5" .number) ∧ Scalar.Reloads (.text "\tb") := by decide

/-- a text read and written again -/
def reformat? (t : String) : Option String :=
  match Node.parse t with
  | .ok n => n.render
  | .error _ => none

theorem reformat?_eq_some {t s : String} :
    reformat? t = some s ↔ ∃ n, Node.parse t = .ok n ∧ n.render = some s := by
  unfold reformat?
  cases Node.parse t with
  | error e => simp
  | ok n => simp

/-- a number under a tag of the document's own is no leaf that stays as it is: it loses its tag -/
theorem exists_reload_iff_tagged :
    ∃ n, Node.parse "a: !int 5\n" = .ok n ∧ n.render = some "a: !!int \"5\"\n" ∧
      ((∃ m, Node.parse "a: !!int \"5\"\n" = .ok m ∧ m.render = some "a: !!int \"5\"\n") ↔
        ∃ p, n.prune = some p ∧ p.Reloads) := by
  have h : reformat? "a: !int 5\n" = some "a: !!int \"5\"\n" := by decide +kernel
  obtain ⟨n, ht, hs⟩ := reformat?_eq_some.1 h
  exact ⟨n, ht, hs, exists_reload_iff ht hs⟩

/-- not every document is written so that it can be read again: a text of two lines of which the
first begins with a tab becomes a block that no reader takes -/
theorem not_forall_reload :
    ¬∀ (t s : String) (n : Node), Node.parse t = .ok n → n.render = some s →
      ∃ m, Node.parse s = .ok m ∧ m.render = some s := by
  intro h
  have hwritten : reformat? "a: \"\\tb\\nc\"\n" = some "a: |-\n  \tb\n  c\n" := by decide +kernel
  have hagain : reformat? "a: |-\n  \tb\n  c\n" = none := by decide +kernel
  obtain ⟨n, ht, hs⟩ := reformat?_eq_some.1 hwritten
  have hsome := reformat?_eq_some.2 (h _ _ n ht hs)
  rw [hagain] at hsome
  cases hsome

end Node

end ConfigReconcile
