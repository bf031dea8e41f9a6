import ConfigReconcile.Proofs.Document.Pruned
import ConfigReconcile.Proofs.Yaml.Steps

/-!
# The tokens of a written tree

* `Scalar.tokens`, `Node.tokens`   what the lines of a tree are cut into;
* `Scalar.Scans`, `KeyScans`       what a leaf and a key must not be: a literal block whose first
                                   line begins with a tab, a key of more than 1024 characters;
* `Node.scan_write`                the scanner cuts a pruned tree into its tokens if all its leaves
                                   and keys are such, and fails otherwise.
-/

namespace ConfigReconcile

open Text Yaml

/-! ## leaves and keys -/

namespace Scalar

/-- written as a literal block -/
def isLiteral (s : Scalar) : Bool := s.isMultiline && Literal.fits s.value.toList

/-- written plain -/
def isPlain (s : Scalar) : Bool :=
  !s.isLiteral && s.raw && !s.isMultiline && !s.value.toList.any isUnicodeBreak

/-- the word of the core tag of a kind -/
def tagWord? : ScalarKind → Option (List Char)
  | .number => some ['i', 'n', 't']
  | .float => some ['f', 'l', 'o', 'a', 't']
  | .boolean => some ['b', 'o', 'o', 'l']
  | .string => none
  | .multilineString => none

/-- written behind a core tag -/
def isTagged (s : Scalar) : Bool := !s.isLiteral && !s.isPlain && (tagWord? s.kind).isSome

theorem write_literal {s : Scalar} (h : s.isLiteral = true) (n : Nat) :
    s.write n = Literal.block n s.value.toList := if_pos h

theorem write_plain {s : Scalar} (h : s.isPlain = true) (n : Nat) :
    s.write n = s.value.toList ++ ['\n'] := by
  simp only [isPlain, Bool.and_eq_true, Bool.not_eq_true'] at h
  obtain ⟨⟨⟨hl, hr⟩, hm⟩, hu⟩ := h
  simp [write, hr, hm, hu]

theorem coreTag?_eq (k : ScalarKind) :
    (coreTag? k).map String.toList = (tagWord? k).map fun w => '!' :: '!' :: w := by
  cases k <;> rfl

theorem write_quoted {s : Scalar} (hl : s.isLiteral = false) (hp : s.isPlain = false) (n : Nat) :
    s.write n =
      ((tagWord? s.kind).elim [] fun w => '!' :: '!' :: (w ++ [' '])) ++
        (Quoted.encode s.value.toList ++ ['\n']) := by
  have h : ¬((s.raw && !s.isMultiline && !s.value.toList.any isUnicodeBreak) = true) := by
    simpa [isPlain, hl] using hp
  have ht := coreTag?_eq s.kind
  have hl' : ¬((s.isMultiline && Literal.fits s.value.toList) = true) := by
    rw [← isLiteral, hl]
    exact Bool.false_ne_true
  simp only [write]
  rw [if_neg hl', if_neg h]
  cases hw : tagWord? s.kind with
  | none =>
    rw [hw] at ht
    simp only [Option.map_none, Option.map_eq_none_iff] at ht
    simp [ht]
  | some w =>
    rw [hw] at ht
    obtain ⟨tag, htag, he⟩ := Option.map_eq_some_iff.1 ht
    simp [htag, he]

/-- what a leaf is cut into -/
def tokens (s : Scalar) : List Token :=
  if s.isLiteral then [.scalar .literal s.value]
  else if s.isPlain then [.scalar .plain s.value]
  else
    ((tagWord? s.kind).elim [] fun w => [.tag "!!" (asciiBytes w)]) ++
      [.scalar .doubleQuoted s.value]

/-- a leaf of which no literal block begins with a tab -/
def Scans (s : Scalar) : Prop := ¬(s.isLiteral = true ∧ Literal.tabFirst s.value.toList = true)

instance : DecidablePred Scans := fun _ => inferInstanceAs (Decidable (¬_))

/-- what is written plain is a plain word -/
def Spelled (s : Scalar) : Prop := s.isPlain = true → Scanner.PlainWord s.value.toList

end Scalar

/-- the colon stands near enough behind a key -/
def KeyScans (k : String) : Prop := (writeKey k).length ≤ 1024

instance : DecidablePred KeyScans := fun _ => inferInstanceAs (Decidable (_ ≤ _))

/-- what a key is cut into -/
def keyToken (k : String) : Token :=
  .scalar (if isPlainKey k then .plain else .doubleQuoted) k

theorem isWordChar_of_isNameChar {c : Char} (h : isNameChar c = true ∨ c = '.') :
    isWordChar c = true := by
  have hne (d : Char) (hd : isNameChar d = false) (hdot : d ≠ '.') : c ≠ d := by
    rintro rfl
    rcases h with h | h
    · rw [hd] at h; cases h
    · exact hdot h
  simp [isWordChar, isBlank, isBreak, hne ' ' (by decide) (by decide),
    hne '\t' (by decide) (by decide), hne '\n' (by decide) (by decide),
    hne '\r' (by decide) (by decide), hne '\u0085' (by decide) (by decide),
    hne '\u2028' (by decide) (by decide), hne '\u2029' (by decide) (by decide),
    hne ':' (by decide) (by decide)]

theorem starts_of_isAlphanum {c : Char} (h : (c.isAlphanum || c == '_') = true) :
    opensLine c = true ∧ isIndicator c = false ∧ c ≠ '-' ∧ c ≠ '.' := by
  have hne (d : Char) (hd : (d.isAlphanum || d == '_') = false) : c ≠ d := by
    rintro rfl
    rw [hd] at h
    cases h
  refine ⟨?_, ?_, hne _ (by decide), hne _ (by decide)⟩
  · simp [opensLine, isBlank, isBreak, byteOrderMark, hne ' ' (by decide), hne '\t' (by decide),
      hne '\n' (by decide), hne '\r' (by decide), hne '\u0085' (by decide),
      hne '\u2028' (by decide), hne '\u2029' (by decide), hne '#' (by decide),
      hne '\ufeff' (by decide)]
  · simp only [isIndicator, List.contains_eq_mem, decide_eq_false_iff_not]
    intro hm
    have hall : ['-', '?', ':', ',', '[', ']', '\x7b', '\x7d', '#', '&', '*', '!', '|', '>', '\'',
      '"', '%', '@', Char.ofNat 96].all (fun d => !(d.isAlphanum || d == '_')) = true := rfl
    exact hne c (Bool.not_eq_true' _ ▸ List.all_eq_true.1 hall c hm) rfl

/-- a document mark starts with a dash or a full stop -/
theorem isDocumentMark_cons {c : Char} (h1 : c ≠ '-') (h2 : c ≠ '.') (cs : List Char) :
    isDocumentMark (c :: cs) = false := by
  unfold isDocumentMark
  split
  next heq => cases heq; exact absurd rfl h1
  next heq => cases heq; exact absurd rfl h2
  next => rfl

theorem plainWord_of_isPlainKey {k : String} (h : isPlainKey k = true) :
    Scanner.PlainWord k.toList := by
  unfold isPlainKey at h
  split at h
  next => cases h
  next c cs hk =>
    simp only [Bool.and_eq_true] at h
    obtain ⟨⟨hc, hcs⟩, -⟩ := h
    have hc' : (c.isAlphanum || c == '_') = true := by
      simp only [Char.isAlphanum, Bool.or_eq_true] at hc ⊢
      exact hc.imp_left .inl
    obtain ⟨hopens, hind, hdash, hdot⟩ := starts_of_isAlphanum hc'
    have hword : (c :: cs).all isWordChar = true := by
      rw [List.all_cons, Bool.and_eq_true, List.all_eq_true]
      refine ⟨isWordChar_of_isNameChar (.inl ?_), fun d hd => isWordChar_of_isNameChar ?_⟩
      · simp only [isNameChar, Bool.or_eq_true] at hc' ⊢
        exact .inl hc'
      · have := List.all_eq_true.1 hcs d hd
        simpa [isNameChar] using this
    rw [hk]
    exact ⟨hword, ⟨c, cs, rfl, hopens, .inl hind⟩, fun _ => isDocumentMark_cons hdash hdot _⟩

namespace Node

mutual

/-- what the lines of a tree are cut into -/
def tokens : Node → List Token
  | .null => []
  | .scalar s => s.tokens
  | .sequence items => .blockSequenceStart :: (itemsTokens items ++ [.blockEnd])
  | .mapping entries => .blockMappingStart :: (entriesTokens entries ++ [.blockEnd])

def itemsTokens : List Node → List Token
  | [] => []
  | n :: ns => .blockEntry :: (n.tokens ++ itemsTokens ns)

def entriesTokens : List (String × Node) → List Token
  | [] => []
  | (k, n) :: es => .key :: keyToken k :: .value :: (n.tokens ++ entriesTokens es)

end

end Node

/-! ## going on -/

namespace Yaml.Scanner

/-- `x` goes on as `next` from the start of some line if `ok`, and fails otherwise -/
structure GoesOn (ok : Prop) (x : Except Fault (List Token))
    (next : Place → Except Fault (List Token)) : Prop where
  holds : ok → ∃ q : Place, q.column = 0 ∧ x = next q
  fails : ¬ok → ∃ e, x = .error e

namespace GoesOn

variable {a b : Prop} {x y : Except Fault (List Token)} {f g : Place → Except Fault (List Token)}

theorem trans (h : GoesOn a x f) (hf : ∀ q : Place, q.column = 0 → GoesOn b (f q) g) :
    GoesOn (a ∧ b) x g where
  holds hab := by
    obtain ⟨q, hq, rfl⟩ := h.holds hab.1
    exact (hf q hq).holds hab.2
  fails hab := by
    by_cases ha : a
    · obtain ⟨q, hq, rfl⟩ := h.holds ha
      exact (hf q hq).fails fun hb => hab ⟨ha, hb⟩
    · exact h.fails ha

theorem of_eq (h : GoesOn a y f) (hxy : x = y) : GoesOn a x f := hxy ▸ h

theorem iff (h : GoesOn a x f) (hab : b ↔ a) : GoesOn b x f :=
  ⟨fun hb => h.holds (hab.1 hb), fun hb => h.fails fun ha => hb (hab.2 ha)⟩

theorem next_eq (h : GoesOn a x f) (hfg : ∀ q : Place, q.column = 0 → f q = g q) :
    GoesOn a x g where
  holds ha := by
    obtain ⟨q, hq, rfl⟩ := h.holds ha
    exact ⟨q, hq, hfg q hq⟩
  fails := h.fails

/-- what fails unless `a` holds goes on if what it comes to does -/
theorem guard (hy : a → x = y) (hn : ¬a → ∃ e, x = .error e) (h : GoesOn b y f) :
    GoesOn (a ∧ b) x f where
  holds hab := (hy hab.1) ▸ h.holds hab.2
  fails hab := by
    by_cases ha : a
    · exact (hy ha) ▸ h.fails fun hb => hab ⟨ha, hb⟩
    · exact hn ha

end GoesOn

variable {p : Place} {cs : List Char} {i : Int} {o : List Int} {ka : Bool} {ts : List Token}

theorem goesOn_scalar {s : Scalar} (hs : s.Spelled) {n : Nat} (hn : i < n) (h0 : 0 < n)
    (hi : i < p.column) (hcs : LineAhead i cs) :
    GoesOn s.Scans (block p (s.write n ++ cs) i o ka none ts).proceed fun q =>
      (atLine q cs i o (s.tokens.reverse ++ ts)).scan := by
  cases hl : s.isLiteral with
  | true =>
    rw [Scalar.write_literal hl, Scalar.tokens, if_pos hl]
    refine ⟨fun h => ?_, fun h => ?_⟩
    · have ht : Literal.tabFirst s.value.toList = false :=
        Bool.eq_false_iff.2 fun ht => h ⟨hl, ht⟩
      simp only [Scalar.isLiteral, Bool.and_eq_true] at hl
      simpa using proceed_literal hl.2 ht hn h0 idle_none hcs
    · have ht : Literal.tabFirst s.value.toList = true := by
        simp only [Scalar.Scans, Decidable.not_not] at h
        exact h.2
      exact ⟨_, proceed_literal_tab ht idle_none⟩
  | false =>
    have hscans : s.Scans := fun h => by simp [hl] at h
    refine ⟨fun _ => ?_, fun h => absurd hscans h⟩
    rw [Scalar.tokens, if_neg (by simp [hl])]
    cases hp : s.isPlain with
    | true =>
      simpa [Scalar.write_plain hp] using proceed_plainLine (hs hp) hi idle_none hcs
    | false =>
      rw [Scalar.write_quoted hl hp]
      cases hw : Scalar.tagWord? s.kind with
      | none =>
        simpa using proceed_quotedLine (v := s.value.toList) hi idle_none
      | some w =>
        have hword : w ∈ coreWords := by
          unfold Scalar.tagWord? at hw
          split at hw <;> cases hw <;> decide
        simpa using proceed_tagged (v := s.value.toList) hword hi

theorem proceed_key (k : String) (hcs : endsWord cs.head? = true) :
    (block p (writeKey k ++ ':' :: cs) i o true none ts).proceed =
      (block (p.skip (writeKey k).length) (':' :: cs) i o false
        (some ⟨ts.length, i == (p.column : Int), p⟩) (keyToken k :: ts)).scan := by
  unfold writeKey keyToken
  cases h : isPlainKey k with
  | true => simpa using proceed_plainKey (plainWord_of_isPlainKey h) hcs
  | false =>
    rw [if_neg Bool.false_ne_true, if_neg Bool.false_ne_true, proceed_quoted idle_none,
      String.ofList_toList]
    rfl

end Yaml.Scanner

/-! ## lines of a tree -/

namespace Node

/-- the lines of a tree from its first character on; `indent` is where its members stand, or the
lines of its literal block -/
def body (indent : Nat) : Node → List Char
  | .null => []
  | .scalar s => s.write indent
  | .sequence items => writeItems indent [] items
  | .mapping entries => writeEntries indent [] entries

theorem writeItems_spaces (c : Nat) {ns : List Node} (h : ns ≠ []) :
    writeItems c (spaces c) ns = spaces c ++ writeItems c [] ns := by
  obtain ⟨n, ns, rfl⟩ := List.exists_cons_of_ne_nil h
  simp [writeItems]

theorem writeEntries_spaces (c : Nat) {es : List (String × Node)} (h : es ≠ []) :
    writeEntries c (spaces c) es = spaces c ++ writeEntries c [] es := by
  obtain ⟨⟨k, n⟩, es, rfl⟩ := List.exists_cons_of_ne_nil h
  simp [writeEntries]

theorem writeItem_eq {n : Node} (h : n.Pruned) (c : Nat) : n.writeItem c = n.body (c + 2) := by
  cases n with
  | null => exact h.elim
  | _ => rfl

/-- a scalar stands in the line of its key, a container in the lines below -/
theorem writeValue_eq {n : Node} (h : n.Pruned) (c : Nat) :
    n.writeValue c =
      (if n.isScalar then [' '] else '\n' :: spaces (c + 2)) ++ n.body (c + 2) := by
  cases n with
  | null => exact h.elim
  | scalar s => rfl
  | sequence ns =>
    rw [pruned_sequence] at h
    simp [writeValue, body, isScalar, writeItems_spaces _ h.1]
  | mapping es =>
    rw [pruned_mapping] at h
    simp [writeValue, body, isScalar, writeEntries_spaces _ h.1]

/-- leaves that are written plain are plain words -/
abbrev Spelled (n : Node) : Prop := n.Every Scalar.Spelled fun _ => True

/-- leaves and keys are such that the scanner goes through -/
abbrev Scans (n : Node) : Prop := n.Every Scalar.Scans KeyScans

theorem exists_writeKey (k : String) : ∃ c cs, writeKey k = c :: cs ∧ opensLine c = true := by
  unfold writeKey
  split
  next h =>
    obtain ⟨c, cs, hk, hc, -⟩ := (plainWord_of_isPlainKey h).start
    exact ⟨c, cs, hk, hc⟩
  next => exact ⟨_, _, rfl, by decide⟩

theorem exists_writeItems (c : Nat) {ns : List Node} (h : ns ≠ []) :
    ∃ ch r, writeItems c [] ns = ch :: r ∧ opensLine ch = true := by
  obtain ⟨n, ns, rfl⟩ := List.exists_cons_of_ne_nil h
  exact ⟨_, _, rfl, by decide⟩

theorem exists_writeEntries (c : Nat) {es : List (String × Node)} (h : es ≠ []) :
    ∃ ch r, writeEntries c [] es = ch :: r ∧ opensLine ch = true := by
  obtain ⟨⟨k, n⟩, es, rfl⟩ := List.exists_cons_of_ne_nil h
  obtain ⟨ch, r, hk, hch⟩ := exists_writeKey k
  exact ⟨ch, _, by rw [writeEntries, hk]; rfl, hch⟩

theorem exists_write {s : Scalar} (h : s.Spelled) (c : Nat) :
    ∃ ch r, s.write c = ch :: r ∧ opensLine ch = true := by
  cases hl : s.isLiteral with
  | true => exact ⟨_, _, Scalar.write_literal hl c, by decide⟩
  | false =>
    cases hp : s.isPlain with
    | true =>
      obtain ⟨ch, r, hv, hch, -⟩ := (h hp).start
      exact ⟨ch, _, by rw [Scalar.write_plain hp, hv]; rfl, hch⟩
    | false =>
      rw [Scalar.write_quoted hl hp]
      cases Scalar.tagWord? s.kind with
      | none => exact ⟨_, _, rfl, by decide⟩
      | some w => exact ⟨_, _, rfl, by decide⟩

/-- the first character of a tree starts a token -/
theorem exists_body {n : Node} (h : n.Pruned) (hs : n.Spelled) (c : Nat) :
    ∃ ch r, n.body c = ch :: r ∧ opensLine ch = true := by
  cases n with
  | null => exact h.elim
  | scalar s => exact exists_write hs c
  | sequence ns =>
    rw [pruned_sequence] at h
    exact exists_writeItems c h.1
  | mapping es =>
    rw [pruned_mapping] at h
    exact exists_writeEntries c h.1

theorem lineAhead_writeItems {c : Nat} {cs : List Char} (hcs : LineAhead c cs) (ns : List Node) :
    LineAhead c (writeItems c (spaces c) ns ++ cs) := by
  by_cases h : ns = []
  · subst h; exact hcs
  · obtain ⟨ch, r, hw, hch⟩ := exists_writeItems c h
    rw [writeItems_spaces c h, hw, List.append_assoc]
    exact .line c ch _ (Int.le_refl _) hch

theorem lineAhead_writeEntries {c : Nat} {cs : List Char} (hcs : LineAhead c cs)
    (es : List (String × Node)) : LineAhead c (writeEntries c (spaces c) es ++ cs) := by
  by_cases h : es = []
  · subst h; exact hcs
  · obtain ⟨ch, r, hw, hch⟩ := exists_writeEntries c h
    rw [writeEntries_spaces c h, hw, List.append_assoc]
    exact .line c ch _ (Int.le_refl _) hch

/-! ## scanning a tree -/

open Scanner

/-- the scanner, at the first character of a tree, goes through it -/
def Scanned (n : Node) : Prop :=
  ∀ (i : Int) (c : Nat) (p : Yaml.Place) (cs : List Char) (o : List Int) (ka : Bool)
    (ts : List Token), i < c → i < p.column → (n.isScalar = true → 0 < c) →
    (n.isScalar = false → ka = true ∧ p.column = c) → LineAhead i cs →
    GoesOn n.Scans (block p (n.body c ++ cs) i o ka none ts).proceed fun q =>
      (atLine q cs i o (n.tokens.reverse ++ ts)).scan

section
variable {n : Node} {p : Yaml.Place} {cs : List Char} {o : List Int} {ts : List Token} {c : Nat}

theorem Scanned.value (hn : n.Scanned) (hp : n.Pruned) (hs : n.Spelled) (ts : List Token)
    (hc : c < p.column) (hcs : LineAhead c cs) :
    GoesOn n.Scans (block p (n.writeValue c ++ cs) c o false none ts).scan fun q =>
      (atLine q cs c o (n.tokens.reverse ++ ts)).scan := by
  obtain ⟨ch, r, hb, hch⟩ := exists_body hp hs (c + 2)
  rw [writeValue_eq hp]
  cases hsc : n.isScalar with
  | true =>
    have hcol : (c : Int) < (p.skip 1).column := by simp only [Place.skip]; omega
    refine (hn c (c + 2) (p.skip 1) cs o false ts (by omega) hcol (fun _ => by omega)
      (fun h => by rw [hsc] at h; cases h) hcs).of_eq ?_
    rw [scan_eq]
    show ((block p (' ' :: (n.body (c + 2) ++ cs)) c o false none ts).arrive).bind proceed = _
    rw [arrive_space, hb]
    show ((block _ (ch :: (r ++ cs)) c o false none ts).arrive).bind proceed = _
    rw [arrive_here hch (Int.le_of_lt hcol) (fun k h => by cases h)]
    rfl
  | false =>
    have hcol : (p.newLine.skip (c + 2)).column = c + 2 := by simp [Place.newLine, Place.skip]
    refine (hn c (c + 2) (p.newLine.skip (c + 2)) cs o true ts (by omega) (by omega)
      (fun h => by rw [hsc] at h; cases h) (fun _ => ⟨rfl, hcol⟩) hcs).of_eq ?_
    rw [scan_eq]
    show ((block p ('\n' :: (spaces (c + 2) ++ n.body (c + 2) ++ cs)) c o false none
      ts).arrive).bind proceed = _
    rw [arrive_feed, List.append_assoc, spaces, arrive_spaces, hb]
    show ((block _ (ch :: (r ++ cs)) c o true none ts).arrive).bind proceed = _
    rw [arrive_here hch (by omega) (fun k h => by cases h)]
    rfl

theorem Scanned.item (hn : n.Scanned) (hp : n.Pruned) (hs : n.Spelled) (ts : List Token)
    (hc : p.column = c + 1) (hcs : LineAhead c cs) :
    GoesOn n.Scans (block p (' ' :: (n.writeItem c ++ cs)) c o true none ts).scan fun q =>
      (atLine q cs c o (n.tokens.reverse ++ ts)).scan := by
  obtain ⟨ch, r, hb, hch⟩ := exists_body hp hs (c + 2)
  have hcol : (p.skip 1).column = c + 2 := by simp only [Place.skip]; omega
  refine (hn c (c + 2) (p.skip 1) cs o true ts (by omega) (by omega) (fun _ => by omega)
    (fun _ => ⟨rfl, hcol⟩) hcs).of_eq ?_
  rw [scan_eq, arrive_space, writeItem_eq hp, hb]
  show ((block _ (ch :: (r ++ cs)) c o true none ts).arrive).bind proceed = _
  rw [arrive_here hch (by omega) (fun k h => by cases h)]
  rfl

theorem goesOn_items {ns : List Node} (hn : ∀ n ∈ ns, n.Scanned) (hp : ∀ n ∈ ns, n.Pruned)
    (hs : ∀ n ∈ ns, n.Spelled) (hc : p.column = 0) (hcs : LineAhead c cs) :
    GoesOn (∀ n ∈ ns, n.Scans) (atLine p (writeItems c (spaces c) ns ++ cs) c o ts).scan fun q =>
      (atLine q cs c o ((itemsTokens ns).reverse ++ ts)).scan := by
  induction ns generalizing p ts with
  | nil => exact ⟨fun _ => ⟨p, hc, rfl⟩, fun h => absurd (by simp) h⟩
  | cons n ns ih =>
    rw [List.forall_mem_cons] at hn hp hs
    have hcol : (p.skip c).column = c := by simp [Place.skip, hc]
    have hdash : (atLine p (writeItems c (spaces c) (n :: ns) ++ cs) c o ts).scan =
        (block ((p.skip c).skip 1) (' ' :: (n.writeItem c ++ (writeItems c (spaces c) ns ++ cs))) c
          o true none (.blockEntry :: ts)).scan := by
      rw [scan_eq, ← proceed_entry (by rw [hcol])]
      have he : writeItems c (spaces c) (n :: ns) ++ cs =
          spaces c ++ '-' :: ' ' :: (n.writeItem c ++ (writeItems c (spaces c) ns ++ cs)) := by
        simp [writeItems]
      rw [he, spaces, atLine, arrive_spaces,
        arrive_here (by decide) (by omega) (fun k h => by cases h)]
      rfl
    have hitem := hn.1.item (p := (p.skip c).skip 1) (o := o) hp.1 hs.1 (.blockEntry :: ts)
      (by simp only [Place.skip]; omega) (lineAhead_writeItems hcs ns)
    have hall := (hitem.trans fun q hq => ih hn.2 hp.2 hs.2 hq).of_eq hdash
    exact (hall.iff List.forall_mem_cons).next_eq fun q _ => by simp [itemsTokens]

theorem scanned_sequence {ns : List Node} (hn : ∀ n ∈ ns, n.Scanned) (hp : (sequence ns).Pruned)
    (hs : (sequence ns).Spelled) : (sequence ns).Scanned := by
  intro i c p cs o ka ts hic hip _ hka hcs
  obtain ⟨rfl, hcol⟩ := hka rfl
  rw [pruned_sequence] at hp
  rw [Spelled, every_sequence] at hs
  obtain ⟨n, ns, rfl⟩ := List.exists_cons_of_ne_nil hp.1
  rw [List.forall_mem_cons] at hn hs
  have hp := List.forall_mem_cons.1 hp.2
  have hdash : (block p ((sequence (n :: ns)).body c ++ cs) i o true none ts).proceed =
      (block (p.skip 1) (' ' :: (n.writeItem c ++ (writeItems c (spaces c) ns ++ cs))) c (i :: o)
        true none (.blockEntry :: .blockSequenceStart :: ts)).scan := by
    rw [← proceed_entry (by rw [hcol]), ← hcol, ← proceed_firstEntry hip]
    simp [body, writeItems]
  have hcs' : LineAhead c cs := hcs.mono (by omega)
  have hitem := hn.1.item (p := p.skip 1) (o := i :: o) hp.1 hs.1
    (.blockEntry :: .blockSequenceStart :: ts) (by simp only [Place.skip]; omega)
    (lineAhead_writeItems hcs' ns)
  have hall := (hitem.trans fun q hq => goesOn_items hn.2 hp.2 hs.2 hq hcs').of_eq hdash
  refine (hall.iff ?_).next_eq fun q hq => ?_
  · rw [Scans, every_sequence, List.forall_mem_cons]
  · rw [scan_close hcs hic (by omega) hq]
    simp [tokens, itemsTokens]

theorem endsWord_writeValue {n : Node} (h : n.Pruned) (c : Nat) (cs : List Char) :
    endsWord (n.writeValue c ++ cs).head? = true := by
  rw [writeValue_eq h]
  cases n.isScalar <;> rfl

theorem goesOn_entries {es : List (String × Node)} (hn : ∀ e ∈ es, e.2.Scanned)
    (hp : ∀ e ∈ es, e.2.Pruned) (hs : ∀ e ∈ es, e.2.Spelled) (hc : p.column = 0)
    (hcs : LineAhead c cs) :
    GoesOn (∀ e ∈ es, KeyScans e.1 ∧ e.2.Scans)
      (atLine p (writeEntries c (spaces c) es ++ cs) c o ts).scan fun q =>
      (atLine q cs c o ((entriesTokens es).reverse ++ ts)).scan := by
  induction es generalizing p ts with
  | nil => exact ⟨fun _ => ⟨p, hc, rfl⟩, fun h => absurd (by simp) h⟩
  | cons e es ih =>
    obtain ⟨k, n⟩ := e
    rw [List.forall_mem_cons] at hn hp hs
    have hcol : (c : Int) = (p.skip c).column := by simp [Place.skip, hc]
    have hword := endsWord_writeValue hp.1 c (writeEntries c (spaces c) es ++ cs)
    have hkey : (atLine p (writeEntries c (spaces c) ((k, n) :: es) ++ cs) c o ts).scan =
        (block ((p.skip c).skip (writeKey k).length)
          (':' :: (n.writeValue c ++ (writeEntries c (spaces c) es ++ cs))) c o false
          (some ⟨ts.length, (c : Int) == (p.skip c).column, p.skip c⟩)
          (keyToken k :: ts)).scan := by
      rw [scan_eq, ← proceed_key k hword]
      obtain ⟨ch, r, hk, hch⟩ := exists_writeKey k
      have he : writeEntries c (spaces c) ((k, n) :: es) ++ cs =
          spaces c ++
            (writeKey k ++ ':' :: (n.writeValue c ++ (writeEntries c (spaces c) es ++ cs))) := by
        simp [writeEntries]
      rw [he, hk, spaces, atLine, arrive_spaces, List.cons_append,
        arrive_here hch (by omega) (fun k h => by cases h)]
      rfl
    have hvalue := hn.1.value (p := (p.skip c).skip ((writeKey k).length + 1)) (o := o) hp.1 hs.1
      (.value :: keyToken k :: .key :: ts) (by simp only [Place.skip]; omega)
      (lineAhead_writeEntries hcs es)
    have hall := (hvalue.trans fun q hq => ih hn.2 hp.2 hs.2 hq).guard (a := KeyScans k)
      (fun hk => hkey.trans (scan_colon hword hcol hk _))
      (fun hk => hkey ▸ scan_farColon hword (by omega) (Nat.lt_of_not_le hk) _)
    refine (hall.iff ?_).next_eq fun q _ => by simp [entriesTokens]
    rw [List.forall_mem_cons, and_assoc]

theorem scanned_mapping {es : List (String × Node)} (hn : ∀ e ∈ es, e.2.Scanned)
    (hp : (mapping es).Pruned) (hs : (mapping es).Spelled) : (mapping es).Scanned := by
  intro i c p cs o ka ts hic hip _ hka hcs
  obtain ⟨rfl, rfl⟩ := hka rfl
  rw [pruned_mapping] at hp
  rw [Spelled, every_mapping] at hs
  obtain ⟨⟨k, n⟩, es, rfl⟩ := List.exists_cons_of_ne_nil hp.1
  rw [List.forall_mem_cons] at hn hs
  have hp := List.forall_mem_cons.1 hp.2.2
  have hcs' : LineAhead p.column cs := hcs.mono (Int.le_of_lt hip)
  have hword := endsWord_writeValue hp.1 p.column
    (writeEntries p.column (spaces p.column) es ++ cs)
  have hkey : (block p ((mapping ((k, n) :: es)).body p.column ++ cs) i o true none ts).proceed =
      (block (p.skip (writeKey k).length)
        (':' :: (n.writeValue p.column ++ (writeEntries p.column (spaces p.column) es ++ cs))) i o
        false (some ⟨ts.length, i == (p.column : Int), p⟩) (keyToken k :: ts)).scan := by
    rw [← proceed_key k hword]
    simp [body, writeEntries]
  have hvalue := hn.1.value (c := p.column) (p := p.skip ((writeKey k).length + 1)) (o := i :: o)
    hp.1 hs.1.2 (.value :: keyToken k :: .key :: .blockMappingStart :: ts)
    (by simp only [Place.skip]; omega) (lineAhead_writeEntries hcs' es)
  have hentries := hvalue.trans fun q hq =>
    goesOn_entries hn.2 hp.2 (fun e he => (hs.2 e he).2) hq hcs'
  have hall := hentries.guard (a := KeyScans k)
    (fun hk => hkey.trans (scan_firstColon hword hip hk _))
    (fun hk => hkey ▸ scan_farColon hword (Int.le_of_lt hip) (Nat.lt_of_not_le hk) _)
  refine (hall.iff ?_).next_eq fun q hq => ?_
  · rw [Scans, every_mapping, List.forall_mem_cons, and_assoc]
  · rw [scan_close hcs hic (by omega) hq]
    simp [tokens, entriesTokens]

end

/-- the scanner goes through every pruned tree -/
theorem scanned {n : Node} (hp : n.Pruned) (hs : n.Spelled) : n.Scanned := by
  induction n with
  | null => exact hp.elim
  | scalar s =>
    intro i c p cs o ka ts hic hip h0 _ hcs
    exact goesOn_scalar hs hic (h0 rfl) hip hcs
  | sequence ns ih =>
    have hp' := (pruned_sequence _).1 hp
    have hs' := (every_sequence _).1 hs
    exact scanned_sequence (fun n hn => ih n hn (hp'.2 n hn) (hs' n hn)) hp hs
  | mapping es ih =>
    have hp' := (pruned_mapping _).1 hp
    have hs' := (every_mapping _).1 hs
    exact scanned_mapping (fun e he => ih e he (hp'.2.2 e he) (hs' e he).2) hp hs

theorem write_eq_body (n : Node) : n.write = n.body (if n.isScalar then 2 else 0) := by
  cases n <;> rfl

/-- the scanner cuts a pruned tree into its tokens, or fails -/
theorem scan_write {n : Node} (hp : n.Pruned) (hs : n.Spelled) :
    (n.Scans → (Scanner.start n.write).scan = .ok n.tokens) ∧
      (¬n.Scans → ∃ e, (Scanner.start n.write).scan = .error e) := by
  obtain ⟨ch, r, hb, hch⟩ := exists_body hp hs (if n.isScalar then 2 else 0)
  have hstart : (Scanner.start n.write).scan =
      (block Place.start (n.body (if n.isScalar then 2 else 0) ++ []) (-1) [] true none
        []).proceed := by
    rw [write_eq_body, scan_eq, List.append_nil, hb]
    show ((block Place.start (ch :: r) (-1) [] true none []).arrive).bind proceed = _
    rw [arrive_here hch (by decide) (fun k h => by cases h)]
    rfl
  have hgo := scanned hp hs (-1) (if n.isScalar then 2 else 0) Place.start [] [] true []
    (by omega) (by decide) (fun h => by simp [h]) (fun h => by simp [h, Place.start]) .done
  rw [hstart]
  refine ⟨fun h => ?_, hgo.fails⟩
  obtain ⟨q, -, hq⟩ := hgo.holds h
  rw [hq, List.append_nil, scan_done, List.reverse_reverse]

end Node

end ConfigReconcile
