import ConfigReconcile.Proofs.Yaml.Progress
import ConfigReconcile.Proofs.Yaml.Blocks

/-!
# Steps of the scanner in block style

Outside flow collections a scanner is described by its place, the text ahead, the indentations of
the open block collections, whether a key may start, and the pending key.  `atLine` is the scanner
at the start of a line.

* `arrive_*`   how it moves on to a token;
* `scan_close` a line that is indented less closes the innermost collection;
* `scan_entry`, `scan_key`, `scan_literal`, `scan_plain`, `scan_quoted`   the tokens, one by one.
-/

namespace ConfigReconcile.Yaml.Scanner

open Text

/-- outside flow collections -/
def block (p : Place) (cs : List Char) (i : Int) (o : List Int) (allowed : Bool)
    (pending : Option PendingKey) (ts : List Token) : Scanner :=
  ⟨p, cs, i, o, allowed, pending, [], ts⟩

/-- at the start of a line: a key may start, and none is pending -/
def atLine (p : Place) (cs : List Char) (i : Int) (o : List Int) (ts : List Token) : Scanner :=
  block p cs i o true none ts

variable {p : Place} {c : Char} {cs : List Char} {i : Int} {o : List Int} {ka : Bool}
  {k? : Option PendingKey} {ts : List Token}

/-! ## blanks -/

theorem skipBlanks_block :
    (block p cs i o ka k? ts).skipBlanks =
      block (blanksFrom false false ka p cs).2.1 (blanksFrom false false ka p cs).2.2 i o
        (blanksFrom false false ka p cs).1 k? ts := rfl

theorem arrive_space :
    (block p (' ' :: cs) i o ka k? ts).arrive = (block (p.skip 1) cs i o ka k? ts).arrive := by
  have h : (block p (' ' :: cs) i o ka k? ts).skipBlanks =
      (block (p.skip 1) cs i o ka k? ts).skipBlanks := by
    simp [skipBlanks_block, blanksFrom, startsPair_space, isBreak_space]
  rw [arrive, arrive, h]

theorem arrive_feed :
    (block p ('\n' :: cs) i o ka k? ts).arrive = (block p.newLine cs i o true k? ts).arrive := by
  have h : (block p ('\n' :: cs) i o ka k? ts).skipBlanks =
      (block p.newLine cs i o true k? ts).skipBlanks := by
    simp [skipBlanks_block, blanksFrom, startsPair_feed, isBreak_feed]
  rw [arrive, arrive, h]

theorem arrive_spaces (n : Nat) :
    (block p (List.replicate n ' ' ++ cs) i o ka k? ts).arrive =
      (block (p.skip n) cs i o ka k? ts).arrive := by
  induction n generalizing p with
  | zero => rfl
  | succ n ih =>
    rw [List.replicate_succ, List.cons_append, arrive_space, ih, Place.skip_skip, Nat.add_comm 1 n]

/-- an indentation that the column reaches stays open -/
theorem unroll_of_le {s : Scanner} {column : Int} (h : s.indent ≤ column) :
    s.unroll column = s := by
  have hc : closeIndents column s.indent s.outerIndents = (s.indent, s.outerIndents, 0) := by
    cases s.outerIndents with
    | nil => rfl
    | cons o os => rw [closeIndents, if_neg (by omega)]
  unfold unroll
  rw [hc]
  split <;> rfl

theorem skipBlanks_here (hc : opensLine c = true) :
    (block p (c :: cs) i o ka k? ts).skipBlanks = block p (c :: cs) i o ka k? ts := by
  have hb := not_isBlank_of_opensLine hc
  have hn := not_isBreak_of_opensLine hc
  simp [skipBlanks_block, blanksFrom, startsPair_of_not_isBreak hn, hn,
    ne_space_of_not_isBlank hb, ne_tab_of_not_isBlank hb, ne_hash_of_opensLine hc,
    ne_mark_of_opensLine hc]

/-- the scanner stays where a token begins, as long as no pending key is stale -/
theorem arrive_here (hc : opensLine c = true) (hi : i ≤ p.column)
    (hk : ∀ k, k? = some k → k.isStale p = false) :
    (block p (c :: cs) i o ka k? ts).arrive = .ok (block p (c :: cs) i o ka k? ts) := by
  have hd : (block p (c :: cs) i o ka k? ts).dropStale = .ok (block p (c :: cs) i o ka k? ts) := by
    have hr : refresh p k? = .ok k? := by
      cases k? with
      | none => rfl
      | some k => simp [refresh, hk k rfl]
    simp only [dropStale, block, hr]
    rfl
  rw [arrive, skipBlanks_here hc, hd]
  show Except.ok ((block p (c :: cs) i o ka k? ts).unroll p.column) = _
  rw [unroll_of_le (by exact hi)]

theorem line_le_blanksFrom (inFlow comment keyAllowed : Bool) (p : Place) (cs : List Char) :
    p.line ≤ (blanksFrom inFlow comment keyAllowed p cs).2.1.line := by
  induction cs generalizing comment keyAllowed p with
  | nil => exact Nat.le_refl _
  | cons c cs ih =>
    unfold blanksFrom
    split
    · exact ih (p := p.skipReturn) ..
    split
    · exact Nat.le_trans (Nat.le_succ _) (ih (p := p.newLine) ..)
    split
    · exact ih (p := p.skip 1) ..
    · exact Nat.le_refl _

/-- a pending key of an earlier line goes, unless it must not -/
theorem arrive_stale {k : PendingKey} (hk : k.required = false) (hl : k.place.line < p.line) :
    (block p cs i o ka (some k) ts).arrive = (block p cs i o ka none ts).arrive := by
  have hr : refresh (block p cs i o ka (some k) ts).skipBlanks.place (some k) = .ok none := by
    have hs : k.isStale (block p cs i o ka (some k) ts).skipBlanks.place = true := by
      have := line_le_blanksFrom (block p cs i o ka (some k) ts).inFlow false ka p cs
      simp only [PendingKey.isStale, Bool.or_eq_true, decide_eq_true_eq]
      exact .inl (Nat.lt_of_lt_of_le hl this)
    simp [refresh, hs, hk]
  have hd : (block p cs i o ka (some k) ts).skipBlanks.dropStale =
      (block p cs i o ka none ts).skipBlanks.dropStale := by
    show (refresh (block p cs i o ka (some k) ts).skipBlanks.place (some k) >>= _) = _
    rw [hr]
    rfl
  rw [arrive, arrive, hd]

/-! ## lines -/

theorem arrive_toWord {limit : Int} (hcs : LineAhead limit cs) :
    (block (toWord p cs).1 (toWord p cs).2 i o ka k? ts).arrive =
      (block p cs i o ka k? ts).arrive := by
  cases hcs with
  | done => rfl
  | line j c cs hj hc => rw [toWord_spaces hc, arrive_spaces]

theorem unroll_step {a b : Int} {column : Int} (h : column < a) :
    (atLine p cs a (b :: o) ts).unroll column =
      (atLine p cs b o (.blockEnd :: ts)).unroll column := by
  simp only [unroll, atLine, block, inFlow, List.isEmpty_nil, Bool.not_true, Bool.false_eq_true,
    if_false, closeIndents, if_pos h, List.replicate_succ', List.append_assoc, List.cons_append,
    List.nil_append]

theorem unroll_unroll {c d : Int} (h : d ≤ c) :
    ((atLine p cs i o ts).unroll c).unroll d = (atLine p cs i o ts).unroll d := by
  induction o generalizing i ts with
  | nil =>
    have : (atLine p cs i [] ts).unroll c = atLine p cs i [] ts := by
      simp [unroll, atLine, block, inFlow, closeIndents]
    rw [this]
  | cons b o ih =>
    by_cases hc : c < i
    · rw [unroll_step hc, ih, unroll_step (by omega)]
    · have hle : (atLine p cs i (b :: o) ts).indent ≤ c := Int.not_lt.1 hc
      rw [unroll_of_le hle]

theorem arrive_atLine {limit : Int} (hcs : LineAhead limit cs) :
    (atLine p cs i o ts).arrive =
      .ok ((atLine (toWord p cs).1 (toWord p cs).2 i o ts).unroll (toWord p cs).1.column) := by
  cases hcs with
  | done => rfl
  | line j c cs hj hc =>
    rw [toWord_spaces hc, atLine, arrive_spaces]
    rw [arrive, skipBlanks_here hc]
    rfl

/-- a line that is indented less, or the end, closes the innermost collection -/
theorem scan_close {limit a b : Int} (hcs : LineAhead limit cs) (ha : limit < a) (h0 : 0 ≤ a)
    (hp : p.column = 0) :
    (atLine p cs a (b :: o) ts).scan = (atLine p cs b o (.blockEnd :: ts)).scan := by
  rw [scan_eq, scan_eq, arrive_atLine hcs, arrive_atLine hcs]
  cases hcs with
  | done =>
    have hend (i : Int) (o : List Int) (ts : List Token) :
        ((atLine p [] i o ts).unroll 0).proceed =
          (((atLine p [] i o ts).unroll (-1)).dropPending.map fun s => s.tokens.reverse) := by
      have hr : ((atLine p [] i o ts).unroll 0).rest = [] := rest_unroll ..
      rw [proceed, hr]
      show ((atLine p [] i o ts).unroll 0).finish = _
      rw [finish, unroll_unroll (by omega)]
      rfl
    show ((atLine p [] a (b :: o) ts).unroll p.column).proceed =
      ((atLine p [] b o (.blockEnd :: ts)).unroll p.column).proceed
    rw [hp]
    show ((atLine p [] a (b :: o) ts).unroll 0).proceed = _
    rw [hend]
    show _ = ((atLine p [] b o (.blockEnd :: ts)).unroll 0).proceed
    rw [hend, unroll_step (by omega)]
  | line j c cs hj hc =>
    rw [toWord_spaces hc, unroll_step (by simp only [Place.skip, hp]; omega)]

theorem scan_done : (atLine p [] (-1) [] ts).scan = .ok ts.reverse := by
  rw [scan_eq]
  rfl

/-! ## tokens by their first character -/

section
variable {s : Scanner}

theorem fetch_dash : s.fetch '-' (' ' :: cs) = s.blockEntry := by
  have h : isDocumentMark ('-' :: ' ' :: cs) = false := rfl
  simp [fetch, h, endsWord, isBlank_space]

theorem fetch_colon (h : endsWord cs.head? = true) : s.fetch ':' cs = s.value := by
  have hm : isDocumentMark (':' :: cs) = false := rfl
  simp [fetch, hm, h]

theorem fetch_quote : s.fetch '"' cs = s.quotedScalar true cs := by
  have hm : isDocumentMark ('"' :: cs) = false := rfl
  simp [fetch, hm]

theorem fetch_bang : s.fetch '!' cs = s.tag cs := by
  have hm : isDocumentMark ('!' :: cs) = false := rfl
  simp [fetch, hm]

theorem fetch_pipe (h : s.inFlow = false) : s.fetch '|' cs = s.blockScalar false cs := by
  have hm : isDocumentMark ('|' :: cs) = false := rfl
  simp [fetch, hm, h]

/-- what is no indicator starts a plain scalar, and so does a dash that is followed by more -/
theorem fetch_plain (hb : isBlank c = false)
    (hc : isIndicator c = false ∨ (c = '-' ∧ endsWord cs.head? = false))
    (hm : s.place.column = 0 → isDocumentMark (c :: cs) = false) :
    s.fetch c cs = s.plainScalar := by
  have hmark : ¬(s.place.column = 0 ∧ isDocumentMark (c :: cs) = true) := fun h => by
    rw [hm h.1] at h
    exact Bool.false_ne_true h.2
  rcases hc with hc | ⟨rfl, hw⟩
  · simp only [isIndicator, List.contains_eq_mem, List.mem_cons, List.not_mem_nil, or_false,
      decide_eq_false_iff_not, not_or] at hc
    rw [fetch, if_neg (by simp [hc]), if_neg hmark]
    simp [hc, hb, isIndicator]
  · rw [fetch, if_neg (by simp), if_neg hmark]
    simp [hw, hb]

end

/-! ## the entries of sequences and the keys of mappings -/

theorem proceed_entry (hi : (p.column : Int) = i) :
    (block p ('-' :: ' ' :: cs) i o true none ts).proceed =
      (block (p.skip 1) (' ' :: cs) i o true none (.blockEntry :: ts)).scan := by
  have h : (block p ('-' :: ' ' :: cs) i o true none ts).blockEntry =
      .ok (block (p.skip 1) (' ' :: cs) i o true none (.blockEntry :: ts)) := by
    simp only [blockEntry, rollHere, roll, block, inFlow, hi]
    simp
    rfl
  show ((block p ('-' :: ' ' :: cs) i o true none ts).fetch '-' (' ' :: cs)).bind scan = _
  rw [fetch_dash, h]
  rfl

/-- the dash of a first item opens its sequence -/
theorem proceed_firstEntry (hi : i < p.column) :
    (block p ('-' :: ' ' :: cs) i o true none ts).proceed =
      (block p ('-' :: ' ' :: cs) p.column (i :: o) true none
        (.blockSequenceStart :: ts)).proceed := by
  have h : (block p ('-' :: ' ' :: cs) i o true none ts).blockEntry =
      .ok (block (p.skip 1) (' ' :: cs) p.column (i :: o) true none
        (.blockEntry :: .blockSequenceStart :: ts)) := by
    have hn : ¬(p.column : Int) ≤ i := by omega
    simp only [blockEntry, rollHere, roll, block, inFlow, insertAt]
    simp [hn]
    rfl
  rw [proceed_entry rfl]
  show ((block p ('-' :: ' ' :: cs) i o true none ts).fetch '-' (' ' :: cs)).bind scan = _
  rw [fetch_dash, h]
  rfl

/-! ## keys -/

/-- a pending key that may go, of this line or an earlier one -/
def Idle (p : Place) (k? : Option PendingKey) : Prop :=
  ∀ k, k? = some k → k.required = false ∧ k.place.line ≤ p.line

theorem idle_none : Idle p none := fun _ h => by cases h

theorem dropPending_block (hk : Idle p k?) :
    (block p cs i o ka k? ts).dropPending = .ok (block p cs i o ka none ts) := by
  cases k? with
  | none => rfl
  | some k => simp [dropPending, block, (hk k rfl).1]

theorem savePending_block (hk : Idle p k?) :
    (block p cs i o ka k? ts).savePending =
      .ok (block p cs i o ka
        (if ka then some ⟨ts.length, i == (p.column : Int), p⟩ else k?) ts) := by
  unfold savePending
  cases ka with
  | false => rfl
  | true =>
    show ((block p cs i o true k? ts).dropPending >>= _) = _
    rw [dropPending_block hk]
    rfl

/-- a word that a plain scalar starts with and takes in -/
structure PlainWord (w : List Char) : Prop where
  word : w.all isWordChar = true
  start : ∃ c cs, w = c :: cs ∧ opensLine c = true ∧
    (isIndicator c = false ∨ (c = '-' ∧ cs ≠ []))
  mark : ∀ cs, isDocumentMark (w ++ cs) = false

theorem PlainWord.fetch {w : List Char} (hw : PlainWord w) (s : Scanner) (cs : List Char) :
    ∃ c cs', w = c :: cs' ∧ opensLine c = true ∧ s.fetch c (cs' ++ cs) = s.plainScalar := by
  obtain ⟨c, cs', rfl, hopens, hc⟩ := hw.start
  have hword := hw.word
  have hmark := hw.mark cs
  simp only [List.all_cons, Bool.and_eq_true] at hword
  refine ⟨c, cs', rfl, hopens, fetch_plain (not_isBlank_of_opensLine hopens) ?_ fun _ => hmark⟩
  rcases hc with hc | ⟨hc, hne⟩
  · exact .inl hc
  · obtain ⟨d, ds, rfl⟩ := List.exists_cons_of_ne_nil hne
    have hd : isBlank d = false ∧ isBreak d = false := by simp_all [isWordChar]
    exact .inr ⟨hc, by simp [endsWord, hd]⟩

theorem proceed_plainKey {w : List Char} (hw : PlainWord w) (hcs : endsWord cs.head? = true) :
    (block p (w ++ ':' :: cs) i o true none ts).proceed =
      (block (p.skip w.length) (':' :: cs) i o false (some ⟨ts.length, i == (p.column : Int), p⟩)
        (.scalar .plain (String.ofList w) :: ts)).scan := by
  obtain ⟨c, cs', hwc, -, hf⟩ := hw.fetch (block p (w ++ ':' :: cs) i o true none ts) (':' :: cs)
  have hp : (block p (w ++ ':' :: cs) i o true none ts).proceed =
      (block p (w ++ ':' :: cs) i o true none ts).plainScalar.bind scan := by
    rw [← hf]
    simp only [proceed, block, hwc, List.cons_append]
  have hscan : (block p (w ++ ':' :: cs) i o true none ts).plainScalar =
      .ok (block (p.skip w.length) (':' :: cs) i o false
        (some ⟨ts.length, i == (p.column : Int), p⟩) (.scalar .plain (String.ofList w) :: ts)) := by
    rw [plainScalar, savePending_block idle_none]
    show (PlainContext.scan ⟨false, i⟩ [] none p (w ++ ':' :: cs) >>= _) = _
    rw [PlainContext.scan_colon rfl _ _ _ hw.word hcs]
    rfl
  rw [hp, hscan]
  rfl

theorem proceed_quoted {v : List Char} (hk : Idle p k?) :
    (block p (Quoted.encode v ++ cs) i o ka k? ts).proceed =
      (block (p.skip (Quoted.encode v).length) cs i o false
        (if ka then some ⟨ts.length, i == (p.column : Int), p⟩ else k?)
        (.scalar .doubleQuoted (String.ofList v) :: ts)).scan := by
  have hp : (block p (Quoted.encode v ++ cs) i o ka k? ts).proceed =
      ((block p (Quoted.encode v ++ cs) i o ka k? ts).quotedScalar true
        (Quoted.body v ++ '"' :: cs)).bind scan := by
    rw [← fetch_quote]
    simp [proceed, block, Quoted.encode]
  have hscan : (block p (Quoted.encode v ++ cs) i o ka k? ts).quotedScalar true
      (Quoted.body v ++ '"' :: cs) =
      .ok (block (p.skip (Quoted.encode v).length) cs i o false
        (if ka then some ⟨ts.length, i == (p.column : Int), p⟩ else k?)
        (.scalar .doubleQuoted (String.ofList v) :: ts)) := by
    rw [quotedScalar, savePending_block hk]
    show (scanQuoted true [] .word (p.skip 1) (Quoted.body v ++ '"' :: cs) >>= _) = _
    rw [scanQuoted_encode]
    rfl
  rw [hp, hscan]
  rfl

theorem insertAt_block (later opening : List Token) :
    (block p cs i o ka k? (later ++ ts)).insertAt ts.length opening =
      block p cs i o ka k? (later ++ opening.reverse ++ ts) := by
  simp [insertAt, block]

section
variable {tok : Token} {n : Nat}

/-- a colon not too far behind its key finds it pending -/
theorem arrive_colon (hi : i ≤ p.column) (hn : n ≤ 1024) (required : Bool) :
    (block (p.skip n) (':' :: cs) i o false (some ⟨ts.length, required, p⟩) (tok :: ts)).arrive =
      .ok (block (p.skip n) (':' :: cs) i o false (some ⟨ts.length, required, p⟩) (tok :: ts)) := by
  refine arrive_here (by decide) (by simp only [Place.skip]; omega) ?_
  rintro k ⟨⟩
  simp [PendingKey.isStale, Place.skip]
  omega

theorem scan_pendingColon (hcs : endsWord cs.head? = true) (hi : i ≤ p.column) (hn : n ≤ 1024)
    (required : Bool) {i' : Int} {o' : List Int} (opening : List Token)
    (hroll : (block (p.skip n) (':' :: cs) i o false (some ⟨ts.length, required, p⟩)
        ([tok, .key] ++ ts)).roll p.column ts.length .blockMappingStart =
      block (p.skip n) (':' :: cs) i' o' false (some ⟨ts.length, required, p⟩)
        ([tok, .key] ++ opening ++ ts)) :
    (block (p.skip n) (':' :: cs) i o false (some ⟨ts.length, required, p⟩) (tok :: ts)).scan =
      (block (p.skip (n + 1)) cs i' o' false none
        (.value :: tok :: .key :: (opening ++ ts))).scan := by
  have hv : (block (p.skip n) (':' :: cs) i o false (some ⟨ts.length, required, p⟩)
      (tok :: ts)).value =
      .ok (block (p.skip (n + 1)) cs i' o' false none
        (.value :: tok :: .key :: (opening ++ ts))) := by
    have hins : (block (p.skip n) (':' :: cs) i o false (some ⟨ts.length, required, p⟩)
        ([tok] ++ ts)).insertAt ts.length [.key] = _ := insertAt_block [tok] [.key]
    simp only [value, block, List.reverse_singleton, List.cons_append, List.nil_append]
      at hins hroll ⊢
    rw [hins, hroll]
    rfl
  rw [scan_eq, arrive_colon hi hn]
  show ((block _ (':' :: cs) i o false _ (tok :: ts)).fetch ':' cs).bind scan = _
  rw [fetch_colon hcs, hv]
  rfl

theorem scan_colon (hcs : endsWord cs.head? = true) (hi : i = p.column) (hn : n ≤ 1024)
    (required : Bool) :
    (block (p.skip n) (':' :: cs) i o false (some ⟨ts.length, required, p⟩) (tok :: ts)).scan =
      (block (p.skip (n + 1)) cs i o false none (.value :: tok :: .key :: ts)).scan :=
  scan_pendingColon hcs (by omega) hn required [] (by simp [roll, block, inFlow, hi])

/-- the colon of a first entry opens its mapping -/
theorem scan_firstColon (hcs : endsWord cs.head? = true) (hi : i < p.column) (hn : n ≤ 1024)
    (required : Bool) :
    (block (p.skip n) (':' :: cs) i o false (some ⟨ts.length, required, p⟩) (tok :: ts)).scan =
      (block (p.skip (n + 1)) cs p.column (i :: o) false none
        (.value :: tok :: .key :: .blockMappingStart :: ts)).scan := by
  refine scan_pendingColon hcs (by omega) hn required [.blockMappingStart] ?_
  have hn : ¬(p.column : Int) ≤ i := by omega
  have hins : (block (p.skip n) (':' :: cs) p.column (i :: o) false
      (some ⟨ts.length, required, p⟩) ([tok, .key] ++ ts)).insertAt ts.length
        [.blockMappingStart] = _ :=
    insertAt_block [tok, .key] [.blockMappingStart]
  simpa [roll, block, inFlow, hn] using hins

/-- a colon too far behind its key does not find it -/
theorem scan_farColon (hcs : endsWord cs.head? = true) (hi : i ≤ p.column) (hn : 1024 < n)
    (required : Bool) : ∃ e,
    (block (p.skip n) (':' :: cs) i o false (some ⟨ts.length, required, p⟩) (tok :: ts)).scan =
      .error e := by
  have hs : (⟨ts.length, required, p⟩ : PendingKey).isStale (p.skip n) = true := by
    simp [PendingKey.isStale, Place.skip]
    omega
  cases required with
  | true =>
    refine ⟨.keyWithoutColon, ?_⟩
    have hr : refresh (p.skip n) (some ⟨ts.length, true, p⟩) = .error .keyWithoutColon := by
      simp [refresh, hs]
    rw [scan_eq, arrive, skipBlanks_here (by decide), dropStale]
    show ((refresh (p.skip n) (some ⟨ts.length, true, p⟩) >>= _).map _).bind _ = _
    rw [hr]
    rfl
  | false =>
    refine ⟨.misplacedIndicator, ?_⟩
    have hr : refresh (p.skip n) (some ⟨ts.length, false, p⟩) = .ok none := by
      simp [refresh, hs]
    have ha : (block (p.skip n) (':' :: cs) i o false (some ⟨ts.length, false, p⟩)
        (tok :: ts)).arrive = .ok (block (p.skip n) (':' :: cs) i o false none (tok :: ts)) := by
      rw [← arrive_here (by decide) (by simp only [Place.skip]; omega) (fun k h => by cases h)]
      rw [arrive, arrive, skipBlanks_here (by decide), skipBlanks_here (by decide), dropStale,
        dropStale]
      show ((refresh (p.skip n) (some ⟨ts.length, false, p⟩) >>= _).map _) = _
      rw [hr]
      rfl
    rw [scan_eq, ha]
    show ((block _ (':' :: cs) i o false _ (tok :: ts)).fetch ':' cs).bind scan = _
    rw [fetch_colon hcs]
    rfl

end

/-! ## scalars that end their line -/

theorem scan_feed {q : Place} (hk : Idle p k?) (hq : p.line ≤ q.line) :
    (block q ('\n' :: cs) i o ka k? ts).scan = (atLine q.newLine cs i o ts).scan := by
  rw [scan_eq, scan_eq, arrive_feed]
  cases k? with
  | none => rfl
  | some k =>
    obtain ⟨hr, hl⟩ := hk k rfl
    rw [arrive_stale hr (Nat.lt_succ_of_le (Nat.le_trans hl hq))]
    rfl

theorem idle_saved (ka : Bool) (ts : List Token) (hi : i < p.column) (hk : Idle p k?) :
    Idle p (if ka then some ⟨ts.length, i == (p.column : Int), p⟩ else k?) := by
  cases ka with
  | false => exact hk
  | true =>
    rintro k ⟨⟩
    exact ⟨beq_eq_false_iff_ne.2 (by omega), Nat.le_refl _⟩

theorem proceed_quotedLine {v : List Char} (hi : i < p.column) (hk : Idle p k?) :
    ∃ q : Place, q.column = 0 ∧ (block p (Quoted.encode v ++ '\n' :: cs) i o ka k? ts).proceed =
      (atLine q cs i o (.scalar .doubleQuoted (String.ofList v) :: ts)).scan :=
  ⟨_, rfl, by rw [proceed_quoted hk, scan_feed (idle_saved ka ts hi hk) (by exact Nat.le_refl _)]⟩

theorem proceed_plainLine {w : List Char} (hw : PlainWord w) (hi : i < p.column) (hk : Idle p k?)
    (hcs : LineAhead i cs) :
    ∃ q : Place, q.column = 0 ∧ (block p (w ++ '\n' :: cs) i o ka k? ts).proceed =
      (atLine q cs i o (.scalar .plain (String.ofList w) :: ts)).scan := by
  refine ⟨(p.skip w.length).newLine, rfl, ?_⟩
  obtain ⟨c, cs', hwc, -, hf⟩ := hw.fetch (block p (w ++ '\n' :: cs) i o ka k? ts) ('\n' :: cs)
  have hp : (block p (w ++ '\n' :: cs) i o ka k? ts).proceed =
      (block p (w ++ '\n' :: cs) i o ka k? ts).plainScalar.bind scan := by
    rw [← hf]
    simp only [proceed, block, hwc, List.cons_append]
  have hscan : (block p (w ++ '\n' :: cs) i o ka k? ts).plainScalar =
      .ok (block (toWord (p.skip w.length).newLine cs).1 (toWord (p.skip w.length).newLine cs).2 i
        o true (if ka then some ⟨ts.length, i == (p.column : Int), p⟩ else k?)
        (.scalar .plain (String.ofList w) :: ts)) := by
    rw [plainScalar, savePending_block hk]
    show (PlainContext.scan ⟨false, i⟩ [] none p (w ++ '\n' :: cs) >>= _) = _
    rw [PlainContext.scan_line (x := ⟨false, i⟩) rfl _ _ _ hw.word hcs]
    rfl
  have hidle := idle_saved ka ts hi hk
  rw [hp, hscan]
  show scan _ = _
  rw [scan_eq, scan_eq, arrive_toWord hcs]
  generalize (if ka then some ⟨ts.length, i == (p.column : Int), p⟩ else k?) = k' at hidle
  cases k' with
  | none => rfl
  | some k =>
    obtain ⟨hr, hl⟩ := hidle k rfl
    rw [arrive_stale hr (Nat.lt_succ_of_le hl)]
    rfl

theorem marks_chomping (v cs : List Char) :
    BlockHeader.marks (Literal.chomping v ++ '\n' :: cs) =
      .ok (Literal.mark v, 0, (Literal.chomping v).length) := by
  unfold Literal.chomping Literal.mark
  cases Literal.withoutLastFeed? v with
  | none => rfl
  | some r =>
    dsimp only
    split <;> rfl

theorem headerEnd_feed (cs : List Char) : headerEnd p ('\n' :: cs) = .ok (p.newLine, cs) := by
  have hb : isBlank '\n' = false := by decide
  simp [headerEnd, List.dropWhile, hb, startsPair_feed, isBreak_feed, Place.skip_zero]

theorem proceed_block {v : List Char} {n : Nat} (hk : Idle p k?) :
    (block p (Literal.block n v ++ cs) i o ka k? ts).proceed =
      (BlockState.scan (BlockState.literalHeader (Literal.mark v)) i BlockState.blank
        (p.skip (1 + (Literal.chomping v).length)).newLine
        ((Literal.lines v).flatMap (Literal.indented n) ++ cs)).bind fun r =>
          (block r.place r.rest i o true none
            (.scalar .literal (String.ofList r.text) :: ts)).scan := by
  have hp : (block p (Literal.block n v ++ cs) i o ka k? ts).proceed =
      ((block p (Literal.block n v ++ cs) i o ka k? ts).blockScalar false
        (Literal.chomping v ++ '\n' :: ((Literal.lines v).flatMap (Literal.indented n) ++ cs))).bind
        scan := by
    rw [← fetch_pipe (by rfl)]
    simp [proceed, block, Literal.block_eq]
  rw [hp, blockScalar, dropPending_block hk]
  show ((BlockHeader.marks (Literal.chomping v ++ '\n' :: _) >>= _).bind scan) = _
  rw [marks_chomping]
  show (((headerEnd (p.skip (1 + (Literal.chomping v).length))
    ((Literal.chomping v ++ '\n' :: _).drop (Literal.chomping v).length)) >>= _).bind scan) = _
  rw [List.drop_left, headerEnd_feed]
  show ((BlockState.scan (BlockState.literalHeader (Literal.mark v)) i BlockState.blank
    (p.skip (1 + (Literal.chomping v).length)).newLine _ >>= _).bind scan) = _
  cases BlockState.scan (BlockState.literalHeader (Literal.mark v)) i BlockState.blank
    (p.skip (1 + (Literal.chomping v).length)).newLine
    ((Literal.lines v).flatMap (Literal.indented n) ++ cs) <;> rfl

theorem proceed_literal {v : List Char} {n : Nat} (hf : Literal.fits v = true)
    (ht : Literal.tabFirst v = false) (hn : i < n) (h0 : 0 < n) (hk : Idle p k?)
    (hcs : LineAhead i cs) :
    ∃ q : Place, q.column = 0 ∧ (block p (Literal.block n v ++ cs) i o ka k? ts).proceed =
      (atLine q cs i o (.scalar .literal (String.ofList v) :: ts)).scan := by
  obtain ⟨q, hq, hscan⟩ := BlockState.scan_block hf ht h0 hn hn
    (p.skip (1 + (Literal.chomping v).length)).newLine rfl hcs
  refine ⟨q, hq, ?_⟩
  rw [proceed_block hk, hscan]
  show scan _ = _
  rw [scan_eq, scan_eq, arrive_toWord hcs]
  rfl

theorem proceed_literal_tab {v : List Char} {n : Nat} (ht : Literal.tabFirst v = true)
    (hk : Idle p k?) :
    (block p (Literal.block n v ++ cs) i o ka k? ts).proceed = .error .tabIndentation := by
  rw [proceed_block hk, BlockState.scan_block_tab ht _ rfl]
  rfl

/-- the words of the core tags that are written -/
def coreWords : List (List Char) :=
  [['i', 'n', 't'], ['f', 'l', 'o', 'a', 't'], ['b', 'o', 'o', 'l']]

theorem scanTag_core {word : List Char} (h : word ∈ coreWords) (cs : List Char) :
    scanTag false ('!' :: (word ++ ' ' :: cs)) = .ok (.tag "!!" (asciiBytes word), ' ' :: cs) := by
  simp only [coreWords, List.mem_cons, List.not_mem_nil, or_false] at h
  rcases h with rfl | rfl | rfl <;> rfl

theorem proceed_tagged {word v : List Char} (h : word ∈ coreWords) (hi : i < p.column) :
    ∃ q : Place, q.column = 0 ∧
      (block p ('!' :: '!' :: (word ++ ' ' :: (Quoted.encode v ++ '\n' :: cs))) i o ka none
          ts).proceed =
        (atLine q cs i o
          (.scalar .doubleQuoted (String.ofList v) :: .tag "!!" (asciiBytes word) :: ts)).scan := by
  have hlen : word.length ≤ 5 := by
    simp only [coreWords, List.mem_cons, List.not_mem_nil, or_false] at h
    rcases h with rfl | rfl | rfl <;> decide
  have htag : (block p ('!' :: '!' :: (word ++ ' ' :: (Quoted.encode v ++ '\n' :: cs))) i o ka none
      ts).tag ('!' :: (word ++ ' ' :: (Quoted.encode v ++ '\n' :: cs))) =
      .ok (block (p.skip (2 + word.length)) (' ' :: (Quoted.encode v ++ '\n' :: cs)) i o false
        (if ka then some ⟨ts.length, i == (p.column : Int), p⟩ else none)
        (.tag "!!" (asciiBytes word) :: ts)) := by
    rw [tag, savePending_block idle_none]
    show (scanTag false _ >>= _) = _
    rw [scanTag_core h]
    show Except.ok _ = _
    simp only [moveTo, emit, block, List.length_cons, List.length_append]
    congr 3
    omega
  have hidle := idle_saved ka ts hi idle_none
  have hidle' : Idle (p.skip (2 + word.length + 1))
      (if ka then some ⟨ts.length, i == (p.column : Int), p⟩ else none) := hidle
  have hstale (k : PendingKey)
      (hk : (if ka then some ⟨ts.length, i == (p.column : Int), p⟩ else none) = some k) :
      k.isStale (p.skip (2 + word.length + 1)) = false := by
    cases ka <;> cases hk
    simp [PendingKey.isStale, Place.skip]
    omega
  have hcol : i < (p.skip (2 + word.length + 1)).column := by simp only [Place.skip]; omega
  have hline : ∃ q : Place, q.column = 0 ∧
      (block (p.skip (2 + word.length + 1)) (Quoted.encode v ++ '\n' :: cs) i o false
          (if ka then some ⟨ts.length, i == (p.column : Int), p⟩ else none)
          (.tag "!!" (asciiBytes word) :: ts)).proceed =
        (atLine q cs i o
          (.scalar .doubleQuoted (String.ofList v) :: .tag "!!" (asciiBytes word) :: ts)).scan :=
    proceed_quotedLine hcol hidle'
  obtain ⟨q, hq, hscan⟩ := hline
  refine ⟨q, hq, ?_⟩
  show ((block p ('!' :: '!' :: _) i o ka none ts).fetch '!' ('!' :: _)).bind scan = _
  rw [fetch_bang, htag, ← hscan]
  show scan _ = _
  rw [scan_eq, arrive_space, Place.skip_skip]
  show (arrive (block _ ('"' :: _) i o false _ _)).bind proceed = _
  rw [arrive_here (by decide) (Int.le_of_lt hcol) hstale]
  rfl

end ConfigReconcile.Yaml.Scanner
