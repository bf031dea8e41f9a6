import ConfigReconcile.Proofs.Document.Loaded

/-!
# The characters of a written tree

* `isStray`            characters that stand for themselves in quotes although no stream may hold
                       them;
* `isReadable_write`   a stream may hold a tree as it is written if no text in it, and no key, has
                       such a character, and not otherwise.
-/

namespace ConfigReconcile

open Text Yaml

/-- the controls from `U+007F` on, next line apart, and the noncharacters `U+FFFE` and `U+FFFF` -/
def isStray (c : Char) : Bool :=
  (0x7F ≤ c.toNat && c.toNat ≤ 0x9F && c.toNat != 0x85) || c.toNat == 0xFFFE || c.toNat == 0xFFFF

/-- a text without them -/
abbrev StrayFree (v : String) : Prop := ∀ c ∈ v.toList, isStray c = false

instance (v : String) : Decidable (StrayFree v) :=
  decidable_of_iff (v.toList.all (fun c => !isStray c) = true) (by simp)

/-! ## characters -/

/-- from the space on, a stream may hold every character that is no stray -/
theorem isReadable_iff {c : Char} (h : 0x20 ≤ c.toNat) :
    isReadable c = true ↔ isStray c = false := by
  have hvalid : c.toNat < 0xD800 ∨ 0xDFFF < c.toNat ∧ c.toNat < 0x110000 := c.valid
  unfold isReadable isStray
  simp
  omega

/-- no character below `U+007F` is a stray -/
theorem isStray_of_lt {c : Char} (h : c.toNat < 0x7F) : isStray c = false := by
  unfold isStray
  simp
  omega

theorem isReadable_hexDigit {n : Nat} (h : n < 16) : isReadable (Quoted.hexDigit n) = true := by
  have hall : ∀ n < 16, isReadable (Quoted.hexDigit n) = true := by decide
  exact hall n h

theorem isReadable_letter {c l : Char} (h : Quoted.letter? c = some l) :
    isStray c = false ∧ isReadable l = true := by
  unfold Quoted.letter? at h
  repeat' split at h
  all_goals
    cases h
  all_goals
    subst_vars
    decide

theorem isReadable_escape (c : Char) :
    (∀ d ∈ Quoted.escape c, isReadable d = true) ↔ isStray c = false := by
  have hslash : isReadable '\\' = true := by decide
  unfold Quoted.escape
  split
  next l hl => simp [hslash, isReadable_letter hl]
  next hl =>
    split
    next hlt =>
      have hu : isReadable 'u' = true := by decide
      have h0 : isReadable '0' = true := by decide
      simp [hslash, hu, h0, isReadable_hexDigit (n := c.toNat / 16) (by omega),
        isReadable_hexDigit (n := c.toNat % 16) (by omega), isStray_of_lt (c := c) (by omega)]
    next hge => rw [List.forall_mem_singleton, isReadable_iff (Nat.not_lt.1 hge)]

theorem isReadable_encode (v : String) :
    (∀ d ∈ Quoted.encode v.toList, isReadable d = true) ↔ StrayFree v := by
  have hquote : isReadable '"' = true := by decide
  have hbody : (∀ d ∈ Quoted.body v.toList, isReadable d = true) ↔ StrayFree v := by
    rw [Quoted.body, List.forall_mem_flatMap]
    exact forall₂_congr fun c _ => isReadable_escape c
  rw [Quoted.encode, List.forall_mem_cons, List.forall_mem_append, List.forall_mem_singleton, hbody]
  simp [hquote]

/-! ## literal blocks -/

section
variable {P : Char → Prop} (hspace : P ' ') (hfeed : P '\n')
include hfeed

theorem forall_mem_pieces (cs : List Char) :
    (∀ l ∈ pieces '\n' cs, ∀ c ∈ l, P c) ↔ ∀ c ∈ cs, P c := by
  constructor
  · intro h c hc
    have hmem : c ∈ (pieces '\n' cs).flatMap (· ++ ['\n']) := by
      rw [flatMap_pieces]
      exact List.mem_append_left _ hc
    obtain ⟨l, hl, hc⟩ := List.mem_flatMap.1 hmem
    rcases List.mem_append.1 hc with hc | hc
    · exact h l hl c hc
    · exact List.mem_singleton.1 hc ▸ hfeed
  · exact fun h l hl c hc => h c (mem_of_mem_pieces hl hc).1

theorem forall_mem_withoutLastFeed (cs : List Char) :
    (∀ c ∈ (Literal.withoutLastFeed? cs).getD cs, P c) ↔ ∀ c ∈ cs, P c := by
  cases h : Literal.withoutLastFeed? cs with
  | none => rfl
  | some r =>
    rw [Literal.withoutLastFeed?_eq_some h, Option.getD_some, List.forall_mem_append,
      List.forall_mem_singleton]
    exact (and_iff_left hfeed).symm

include hspace

theorem forall_mem_lines (n : Nat) (cs : List Char) :
    (∀ c ∈ (Literal.lines cs).flatMap (Literal.indented n), P c) ↔ ∀ c ∈ cs, P c := by
  have hindented (l : List Char) : (∀ c ∈ Literal.indented n l, P c) ↔ ∀ c ∈ l, P c := by
    unfold Literal.indented
    split
    next hl => simp [hl, hfeed]
    next =>
      have hspaces : ∀ c ∈ List.replicate n ' ', P c := fun c hc =>
        (List.mem_replicate.1 hc).2 ▸ hspace
      simp only [List.forall_mem_append, List.forall_mem_singleton]
      exact ⟨fun h => h.1.2, fun h => ⟨⟨hspaces, h⟩, hfeed⟩⟩
  rw [List.forall_mem_flatMap, forall₂_congr fun l _ => hindented l, Literal.lines,
    forall_mem_pieces hfeed, forall_mem_withoutLastFeed hfeed]

end

theorem isReadable_block {v : String} (hf : Literal.fits v.toList = true) (n : Nat) :
    (∀ d ∈ Literal.block n v.toList, isReadable d = true) ↔ StrayFree v := by
  have hmark : ∀ c ∈ Literal.chomping v.toList, isReadable c = true := by
    rw [← List.all_eq_true]
    unfold Literal.chomping
    split
    · rfl
    · split <;> rfl
  -- no control but tabs and line feeds, which are as readable as they are no strays
  have hchar : ∀ c ∈ v.toList, (isReadable c = true ↔ isStray c = false) := by
    intro c hc
    simp only [Literal.fits, Bool.and_eq_true, Bool.not_eq_true', List.any_eq_false] at hf
    have hc := hf.1 c hc
    by_cases h : 0x20 ≤ c.toNat
    · exact isReadable_iff h
    · have hcontrol : isControl c = true := by simp [isControl]; omega
      have : c = '\n' ∨ c = '\t' := by
        simp [hcontrol] at hc
        grind
      rcases this with rfl | rfl <;> decide
  rw [Literal.block_eq, List.cons_append, List.forall_mem_cons, List.forall_mem_append,
    List.forall_mem_cons,
    forall_mem_lines (P := fun c => isReadable c = true) (by decide) (by decide),
    forall₂_congr hchar]
  exact ⟨fun h => h.2.2.2, fun h => ⟨by decide, hmark, by decide, h⟩⟩

/-! ## leaves and keys -/

theorem isReadable_lineEnd : ∀ d ∈ ['\n'], isReadable d = true := List.all_eq_true.1 rfl

/-- printable ASCII -/
def isGraphic (c : Char) : Bool := 0x20 ≤ c.toNat && c.toNat ≤ 0x7E

theorem isReadable_ascii {c : Char} (h : isGraphic c = true) :
    isReadable c = true ∧ isStray c = false := by
  simp only [isGraphic, Bool.and_eq_true, decide_eq_true_eq] at h
  have hstray : isStray c = false := isStray_of_lt (by omega)
  exact ⟨(isReadable_iff h.1).2 hstray, hstray⟩

theorem isGraphic_of_isAlphanum {c : Char} (h : c.isAlphanum = true) : isGraphic c = true := by
  have hval : c.val.toNat = c.toNat := rfl
  have h : (decide ('A'.val ≤ c.val ∧ c.val ≤ 'Z'.val) ||
    ('a'.val ≤ c.val && c.val ≤ 'z'.val) || ('0'.val ≤ c.val && c.val ≤ '9'.val)) = true := h
  simp only [Bool.or_eq_true, Bool.and_eq_true, decide_eq_true_eq, UInt32.le_iff_toNat_le,
    hval] at h
  have hA : 'A'.val.toNat = 65 := rfl
  have hZ : 'Z'.val.toNat = 90 := rfl
  have ha : 'a'.val.toNat = 97 := rfl
  have hz : 'z'.val.toNat = 122 := rfl
  have h0 : '0'.val.toNat = 48 := rfl
  have h9 : '9'.val.toNat = 57 := rfl
  simp only [isGraphic, Bool.and_eq_true, decide_eq_true_eq]
  omega

theorem isGraphic_plainKey {k : String} (h : isPlainKey k = true) :
    ∀ c ∈ k.toList, isGraphic c = true := by
  unfold isPlainKey at h
  split at h
  next => cases h
  next c cs hk =>
    simp only [Bool.and_eq_true, Bool.or_eq_true, beq_iff_eq, List.all_eq_true] at h
    obtain ⟨⟨hc, hcs⟩, -⟩ := h
    rw [hk, List.forall_mem_cons]
    constructor
    · rcases hc with hc | rfl
      · exact isGraphic_of_isAlphanum (by simp [Char.isAlphanum, hc])
      · decide
    · intro d hd
      rcases hcs d hd with ((hd | rfl) | rfl) | rfl
      · exact isGraphic_of_isAlphanum hd
      · decide
      · decide
      · decide

theorem isGraphic_number {neg : Bool} {cs : List Char}
    (h : ∀ c ∈ cs, c.isDigit = true ∨ c = '.' ∨ c = 'e' ∨ c = '-') :
    ∀ c ∈ Decimal.Notation.withSign neg cs, isGraphic c = true := by
  have hcs : ∀ c ∈ cs, isGraphic c = true := by
    intro c hc
    rcases h c hc with hd | rfl | rfl | rfl
    · exact isGraphic_of_isAlphanum (by simp [Char.isAlphanum, hd])
    · decide
    · decide
    · decide
  cases neg with
  | false => exact hcs
  | true => exact List.forall_mem_cons.2 ⟨by decide, hcs⟩

theorem isGraphic_plain {s : Scalar} (hs : s.Loaded) (hp : s.isPlain = true) :
    ∀ c ∈ s.value.toList, isGraphic c = true := by
  cases hs with
  | text v => simp [Scalar.isPlain, Scalar.text, Scalar.ofKind] at hp
  | boolean b => cases b <;> exact List.all_eq_true.1 rfl
  | @integer n h =>
    show ∀ c ∈ (toString n).toList, _
    rw [Decimal.toList_toString_int]
    exact isGraphic_number fun c hc => .inl (Decimal.isDigit_toDigits hc)
  | @float x h =>
    show ∀ c ∈ (Decimal.Notation.yaml.write x).toList, _
    cases x with
    | nan => exact List.all_eq_true.1 rfl
    | infinite neg => cases neg <;> exact List.all_eq_true.1 rfl
    | finite neg m p =>
      obtain ⟨t, ht, -⟩ := Decimal.exists_spelling (f := .yaml) rfl rfl neg m p
      rw [ht, String.toList_ofList]
      exact isGraphic_number fun c hc => mem_text t hc
  | typed v h => simp [Scalar.isPlain, Scalar.ofKind] at hp

theorem isReadable_writeKey (k : String) :
    (∀ d ∈ writeKey k, isReadable d = true) ↔ StrayFree k := by
  unfold writeKey
  split
  next h =>
    have h c hc := isReadable_ascii (isGraphic_plainKey h c hc)
    exact ⟨fun _ c hc => (h c hc).2, fun _ c hc => (h c hc).1⟩
  next => exact isReadable_encode k

theorem isReadable_scalar {s : Scalar} (hs : s.Loaded) (n : Nat) :
    (∀ d ∈ s.write n, isReadable d = true) ↔ StrayFree s.value := by
  cases hl : s.isLiteral with
  | true =>
    rw [Scalar.write_literal hl]
    simp only [Scalar.isLiteral, Bool.and_eq_true] at hl
    exact isReadable_block hl.2 n
  | false =>
    cases hp : s.isPlain with
    | true =>
      have h c hc := isReadable_ascii (isGraphic_plain hs hp c hc)
      rw [Scalar.write_plain hp, List.forall_mem_append]
      exact ⟨fun _ c hc => (h c hc).2, fun _ => ⟨fun c hc => (h c hc).1, isReadable_lineEnd⟩⟩
    | false =>
      have htag : ∀ d ∈ ((Scalar.tagWord? s.kind).elim [] fun w => '!' :: '!' :: (w ++ [' '])),
          isReadable d = true := by
        cases s.kind <;> exact List.all_eq_true.1 rfl
      rw [Scalar.write_quoted hl hp, List.forall_mem_append, List.forall_mem_append,
        isReadable_encode]
      exact ⟨fun h => h.2.1, fun h => ⟨htag, h, isReadable_lineEnd⟩⟩

/-! ## trees -/

namespace Node

/-- no text in a tree and no key has a stray character -/
abbrev StrayFree (n : Node) : Prop :=
  n.Every (fun s => ConfigReconcile.StrayFree s.value) ConfigReconcile.StrayFree

theorem isReadable_spaces (c : Nat) : ∀ d ∈ spaces c, isReadable d = true :=
  fun d hd => by rw [(List.mem_replicate.1 hd).2]; decide

theorem isReadable_body {n : Node} (hp : n.Pruned) (hn : n.Every Scalar.Loaded fun _ => True)
    (c : Nat) : (∀ d ∈ n.body c, isReadable d = true) ↔ n.StrayFree := by
  induction n generalizing c with
  | null => exact hp.elim
  | scalar s => exact isReadable_scalar hn c
  | sequence ns ih =>
    rw [pruned_sequence] at hp
    rw [every_sequence] at hn
    have hitems (lead : List Char) (hlead : ∀ d ∈ lead, isReadable d = true) :
        (∀ d ∈ writeItems c lead ns, isReadable d = true) ↔ ∀ n ∈ ns, n.StrayFree := by
      obtain ⟨-, hp⟩ := hp
      induction ns generalizing lead with
      | nil => simp [writeItems]
      | cons n ns ihns =>
        rw [List.forall_mem_cons] at hp hn ih ⊢
        have htail := ihns ih.2 hn.2 (spaces c) (isReadable_spaces c) hp.2
        rw [writeItems, List.forall_mem_append, htail, List.forall_mem_append,
          List.forall_mem_cons, List.forall_mem_cons, writeItem_eq hp.1, ih.1 hp.1 hn.1]
        exact ⟨fun h => ⟨h.1.2.2.2, h.2⟩,
          fun h => ⟨⟨hlead, by decide, by decide, h.1⟩, h.2⟩⟩
    rw [StrayFree, every_sequence]
    exact hitems [] (by simp)
  | mapping es ih =>
    rw [pruned_mapping] at hp
    rw [every_mapping] at hn
    have hentries (lead : List Char) (hlead : ∀ d ∈ lead, isReadable d = true) :
        (∀ d ∈ writeEntries c lead es, isReadable d = true) ↔
          ∀ e ∈ es, ConfigReconcile.StrayFree e.1 ∧ e.2.StrayFree := by
      obtain ⟨-, -, hp⟩ := hp
      induction es generalizing lead with
      | nil => simp [writeEntries]
      | cons e es ihes =>
        obtain ⟨k, n⟩ := e
        rw [List.forall_mem_cons] at hp hn ih ⊢
        have htail := ihes ih.2 hn.2 (spaces c) (isReadable_spaces c) hp.2
        have hvalue : (∀ d ∈ n.writeValue c, isReadable d = true) ↔ n.StrayFree := by
          rw [writeValue_eq hp.1, List.forall_mem_append, ih.1 hp.1 hn.1.2]
          refine and_iff_right ?_
          split
          · exact isReadable_spaces 1
          · exact List.forall_mem_cons.2 ⟨by decide, isReadable_spaces (c + 2)⟩
        rw [writeEntries, List.forall_mem_append, htail, List.forall_mem_append,
          List.forall_mem_append, List.forall_mem_cons, hvalue, isReadable_writeKey]
        exact ⟨fun h => ⟨⟨h.1.1.2, h.1.2.2⟩, h.2⟩,
          fun h => ⟨⟨⟨hlead, h.1.1⟩, by decide, h.1.2⟩, h.2⟩⟩
    rw [StrayFree, every_mapping]
    exact hentries [] (by simp)

/-- a stream may hold a tree as it is written if it is free of stray characters -/
theorem isReadable_write {n : Node} (hp : n.Pruned) (hn : n.Every Scalar.Loaded fun _ => True) :
    n.write.all isReadable = true ↔ n.StrayFree := by
  rw [List.all_eq_true, write_eq_body, isReadable_body hp hn]

end Node

end ConfigReconcile
