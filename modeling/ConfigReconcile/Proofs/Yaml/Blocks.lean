import ConfigReconcile.Proofs.Yaml.Scalars
import ConfigReconcile.Text.Literal
import ConfigReconcile.Yaml.Token.Block

/-!
# Literal blocks that have been written are read back

A block is read line by line (`BlockState.addLine`), and what has been read is, line feeds put back,
what has been written (`BlockState.content_addLines`).

* `BlockState.scan_block`       a literal block is read back, provided that its first line that is not
                                empty does not begin with a tab;
* `BlockState.scan_block_tab`   one of which that line does is refused.
-/

namespace ConfigReconcile.Yaml

open Text

/-! ## lines of content -/

namespace BlockState

/-- a literal block without an indentation of its own in the header -/
def literalHeader (chomping : Chomping) : BlockHeader := ⟨false, chomping, 0⟩

/-- before the first line -/
def blank : BlockState := ⟨0, 0, [], [], [], false, false⟩

/-- between two lines, the content being indented by `n` if that is known -/
structure Between (n : Nat) (s : BlockState) : Prop where
  indent : s.indent = 0 ∨ s.indent = n
  widest : s.widest = 0
  inLine : s.inLine = false

/-- with one more line, of which the content is indented by `n` -/
def addLine (n : Nat) (s : BlockState) (l : List Char) : BlockState :=
  if l = [] then { s with trailing := '\n' :: s.trailing }
  else
    { s with
      indent := n
      text := l.reverse ++ (s.trailing ++ s.leading ++ s.text)
      leading := ['\n']
      trailing := []
      afterBlank := l.head?.any isBlank
      inLine := false
      widest := 0 }

/-- all that has been read, with a line feed behind every line -/
def content (s : BlockState) : List Char := (s.trailing ++ s.leading ++ s.text).reverse

theorem content_addLine (n : Nat) (s : BlockState) (l : List Char) :
    (s.addLine n l).content = s.content ++ (l ++ ['\n']) := by
  unfold addLine content
  split
  next h => simp [h]
  next h => simp

theorem content_addLines (n : Nat) (s : BlockState) (ls : List (List Char)) :
    (ls.foldl (addLine n) s).content = s.content ++ ls.flatMap (· ++ ['\n']) := by
  induction ls generalizing s with
  | nil => simp
  | cons l ls ih => rw [List.foldl_cons, ih, content_addLine]; simp

theorem Between.addLine {n : Nat} {s : BlockState} (h : Between n s) (l : List Char) :
    Between n (s.addLine n l) := by
  unfold BlockState.addLine
  split
  next => exact ⟨h.indent, h.widest, h.inLine⟩
  next => exact ⟨.inr rfl, rfl, rfl⟩

section
variable {ch : Chomping} {outer : Int} {n : Nat} {s : BlockState}

theorem scan_inLine (hs : s.inLine = true) (p : Place) (w cs : List Char)
    (hw : w.all (fun c => !isBreak c) = true) :
    scan (literalHeader ch) outer s p (w ++ '\n' :: cs) =
      scan (literalHeader ch) outer
        { s with text := w.reverse ++ s.text, leading := ['\n'], inLine := false, widest := 0 }
        (p.skip w.length).newLine cs := by
  induction w generalizing s p with
  | nil => simp [scan, startsPair_feed, hs, isBreak_feed, breakText_feed, Place.skip_zero]
  | cons c w ih =>
    simp only [List.all_cons, Bool.and_eq_true, Bool.not_eq_true'] at hw
    have hstep : scan (literalHeader ch) outer s p (c :: (w ++ '\n' :: cs)) =
        scan (literalHeader ch) outer { s with text := c :: s.text } (p.skip 1)
          (w ++ '\n' :: cs) := by
      rw [scan]
      simp [startsPair_of_not_isBreak hw.1, hs, hw.1]
    rw [List.cons_append, hstep, ih (s := { s with text := c :: s.text }) hs _ hw.2,
      Place.skip_skip]
    simp [Nat.add_comm]

theorem scan_indent (hs : s.inLine = false) (p : Place) (j : Nat) (cs : List Char)
    (hj : s.indent = 0 ∨ p.column + j ≤ s.indent) :
    scan (literalHeader ch) outer s p (List.replicate j ' ' ++ cs) =
      scan (literalHeader ch) outer s (p.skip j) cs := by
  induction j generalizing p with
  | zero => rfl
  | succ j ih =>
    have hb : s.isBefore p.column = true := by
      simp only [isBefore, Bool.or_eq_true, beq_iff_eq, decide_eq_true_eq]
      omega
    rw [List.replicate_succ, List.cons_append, scan]
    simp only [startsPair_space, hs, hb]
    have hc : (p.skip 1).column = p.column + 1 := rfl
    simp only [Bool.false_eq_true, if_false, beq_self_eq_true, Bool.and_self, if_true]
    rw [ih _ (by omega), Place.skip_skip, Nat.add_comm 1 j]

theorem scan_emptyLine (h : Between n s) (p : Place) (hp : p.column = 0) (cs : List Char) :
    scan (literalHeader ch) outer s p ('\n' :: cs) =
      scan (literalHeader ch) outer (s.addLine n []) p.newLine cs := by
  have hw : max s.widest p.column = s.widest := by simp [h.widest, hp]
  rw [scan]
  simp only [startsPair_feed, h.inLine, isBreak_feed, breakText_feed, hw, addLine]
  simp

/-- the first line that is not empty settles the indentation, so it must not begin with a blank -/
theorem scan_fullLine (h : Between n s) (hn : 0 < n) (ho : outer < n) (p : Place)
    (hp : p.column = 0) (c : Char) (w cs : List Char)
    (hw : (c :: w).all (fun c => !isBreak c) = true) (hc : s.indent = 0 → isBlank c = false) :
    scan (literalHeader ch) outer s p (List.replicate n ' ' ++ (c :: w) ++ '\n' :: cs) =
      scan (literalHeader ch) outer (s.addLine n (c :: w)) (p.skip (n + 1 + w.length)).newLine
        cs := by
  simp only [List.all_cons, Bool.and_eq_true, Bool.not_eq_true'] at hw
  have hcol : (p.skip n).column = n := by simp [Place.skip, hp]
  have hspace : (s.isBefore n && c == ' ') = false := by
    rcases h.indent with h0 | h0
    · simp [ne_space_of_not_isBlank (hc h0)]
    · simp [isBefore, h0, Nat.ne_of_gt hn]
  have htab : (s.isBefore n && c == '\t') = false := by
    rcases h.indent with h0 | h0
    · simp [ne_tab_of_not_isBlank (hc h0)]
    · simp [isBefore, h0, Nat.ne_of_gt hn]
  have hset : s.settle outer n = { s with indent := n } := by
    rcases h.indent with h0 | h0
    · have : max (max (max s.widest n) (outer + 1).toNat) 1 = n := by rw [h.widest]; omega
      simp only [settle, h0, if_true, this]
    · rw [settle, if_neg (by omega), ← h0]
  have hj : s.indent = 0 ∨ p.column + n ≤ s.indent := by
    rcases h.indent with h0 | h0
    · exact .inl h0
    · exact .inr (by omega)
  rw [List.append_assoc, scan_indent h.inLine _ _ _ hj, List.cons_append, scan, hcol]
  simp only [startsPair_of_not_isBreak hw.1, h.inLine, hspace, htab, hw.1, hset,
    Bool.false_eq_true, if_false, if_true, literalHeader, joinLine, Bool.false_and]
  rw [show (⟨false, ch, 0⟩ : BlockHeader) = literalHeader ch from rfl,
    scan_inLine rfl _ _ _ hw.2, Place.skip_skip, Place.skip_skip]
  simp [addLine, Nat.add_assoc]

/-- the blanks before a first line may not be tabs -/
theorem scan_tabLine (h : Between n s) (h0 : s.indent = 0) (p : Place) (w cs : List Char) :
    scan (literalHeader ch) outer s p (List.replicate n ' ' ++ ('\t' :: w) ++ cs) =
      .error .tabIndentation := by
  rw [List.append_assoc, scan_indent h.inLine _ _ _ (.inl h0), List.cons_append, scan]
  have ht : startsPair '\t' (w ++ cs).head? = false := startsPair_of_not_isBreak (by decide) _
  simp only [ht]
  simp [h.inLine, isBefore, h0]

/-- a line that lies before the content ends the scalar -/
theorem scan_end (h : Between n s) (hn : s.indent = n) {limit : Int} (hl : limit < n) (p : Place)
    (hp : p.column = 0) {cs : List Char} (hcs : LineAhead limit cs) :
    scan (literalHeader ch) outer s p cs =
      .ok ⟨s.finish ch, (toWord p cs).1, (toWord p cs).2⟩ := by
  cases hcs with
  | done => rfl
  | line j c cs hj hc =>
    have hb := not_isBlank_of_opensLine hc
    have hk := not_isBreak_of_opensLine hc
    have hcol : (p.skip j).column = j := by simp [Place.skip, hp]
    have hjn : j < n := by omega
    have hset : s.settle outer j = s := by
      rw [settle, if_neg (by omega)]
    have hspace : (c == ' ') = false := beq_eq_false_iff_ne.2 (ne_space_of_not_isBlank hb)
    have htab : (c == '\t') = false := beq_eq_false_iff_ne.2 (ne_tab_of_not_isBlank hb)
    rw [scan_indent h.inLine _ _ _ (.inr (by omega)), scan, toWord_spaces hc, hcol]
    simp only [startsPair_of_not_isBreak hk, h.inLine, hspace, htab, hk, Bool.and_false, hset,
      Bool.false_eq_true, if_false]
    rw [if_neg (by omega)]
    rfl

theorem scan_lines (ch : Chomping) (h : Between n s) (hn : 0 < n) (ho : outer < n) (p : Place)
    (hp : p.column = 0) (ls : List (List Char)) (cs : List Char)
    (hls : ∀ l ∈ ls, l.all (fun c => !isBreak c) = true)
    (hb : s.indent = 0 → ∀ l, ls.find? (· ≠ []) = some l → l.head?.any isBlank = false) :
    ∃ q : Place, q.column = 0 ∧
      scan (literalHeader ch) outer s p (ls.flatMap (Literal.indented n) ++ cs) =
        scan (literalHeader ch) outer (ls.foldl (addLine n) s) q cs := by
  induction ls generalizing s p with
  | nil => exact ⟨p, hp, rfl⟩
  | cons l ls ih =>
    have hls' := fun l' h' => hls l' (List.mem_cons_of_mem _ h')
    rw [List.flatMap_cons, List.append_assoc, List.foldl_cons]
    cases l with
    | nil =>
      obtain ⟨q, hq, he⟩ := ih (h.addLine []) p.newLine rfl hls' (by simpa [addLine] using hb)
      exact ⟨q, hq, (scan_emptyLine h p hp _).trans he⟩
    | cons c w =>
      have hset : ∀ h0 : s.indent = 0, isBlank c = false := fun h0 => by
        simpa using hb h0 (c :: w) (by simp)
      obtain ⟨q, hq, he⟩ := ih (h.addLine (c :: w)) (p.skip (n + 1 + w.length)).newLine rfl hls'
        (by simp [addLine]; omega)
      refine ⟨q, hq, ?_⟩
      rw [← he, ← scan_fullLine h hn ho p hp c w _ (hls _ (List.mem_cons_self ..)) hset]
      simp [Literal.indented]

/-- the lines up to a first one that begins with a tab are refused there -/
theorem scan_lines_tab (h : Between n s) (h0 : s.indent = 0) (p : Place) (hp : p.column = 0)
    (ls : List (List Char)) (cs : List Char) (w : List Char)
    (hw : ls.find? (· ≠ []) = some ('\t' :: w)) :
    scan (literalHeader ch) outer s p (ls.flatMap (Literal.indented n) ++ cs) =
      .error .tabIndentation := by
  induction ls generalizing s p with
  | nil => simp at hw
  | cons l ls ih =>
    rw [List.flatMap_cons, List.append_assoc]
    cases l with
    | nil =>
      have he := ih (h.addLine []) (by simpa [addLine] using h0) p.newLine rfl (by simpa using hw)
      exact (scan_emptyLine h p hp _).trans he
    | cons c w' =>
      obtain ⟨rfl, rfl⟩ : c = '\t' ∧ w' = w := by simpa using hw
      simpa [Literal.indented] using
        scan_tabLine h h0 p w' ('\n' :: (ls.flatMap (Literal.indented n) ++ cs))

end

end BlockState

end ConfigReconcile.Yaml

/-! ## texts as literal blocks -/

namespace ConfigReconcile.Text.Literal

open Yaml

/-- the lines that are written for a text -/
def lines (v : List Char) : List (List Char) := pieces '\n' ((withoutLastFeed? v).getD v)

/-- the first line that is not empty begins with a tab -/
def tabFirst (v : List Char) : Bool :=
  ((pieces '\n' v).find? (· ≠ [])).any (·.head? == some '\t')

theorem block_eq (n : Nat) (v : List Char) :
    block n v = '|' :: chomping v ++ '\n' :: (lines v).flatMap (indented n) := rfl

/-- the header's mark as a reader takes it -/
def mark (v : List Char) : Chomping :=
  match withoutLastFeed? v with
  | none => .strip
  | some r => if r.getLast? = some '\n' then .keep else .clip

theorem withoutLastFeed?_eq_some {v r : List Char} (h : withoutLastFeed? v = some r) :
    v = r ++ ['\n'] := by
  unfold withoutLastFeed? at h
  split at h
  next hl =>
    obtain ⟨r', rfl⟩ := List.getLast?_eq_some_iff.1 hl
    cases h
    rw [List.dropLast_concat]
  next => cases h

theorem withoutLastFeed?_eq_none {v : List Char} (h : withoutLastFeed? v = none) :
    v.getLast? ≠ some '\n' := by
  unfold withoutLastFeed? at h
  split at h
  next => cases h
  next hl => exact hl

/-- leaving out the last line feed loses only an empty line -/
theorem find?_lines (v : List Char) :
    (lines v).find? (· ≠ []) = (pieces '\n' v).find? (· ≠ []) := by
  unfold lines
  cases h : withoutLastFeed? v with
  | none => rfl
  | some r =>
    rw [withoutLastFeed?_eq_some h, pieces_append_mark, List.find?_append]
    simp

section
variable {v : List Char} (hf : fits v = true)
include hf

theorem exists_line_of_fits : ∃ l, (lines v).find? (· ≠ []) = some l ∧ l ≠ [] ∧
    l.head? ≠ some ' ' := by
  simp only [fits, Bool.and_eq_true] at hf
  have h := hf.2
  split at h
  next l hl =>
    exact ⟨l, (find?_lines v).trans hl, by simpa using List.find?_some hl, by simpa using h⟩
  next => cases h

/-- a line feed is the only break in such a text -/
theorem isBreak_of_fits {c : Char} (hc : c ∈ v) (h : isBreak c = true) : c = '\n' := by
  simp only [fits, Bool.and_eq_true, Bool.not_eq_true', List.any_eq_false, Bool.or_eq_true,
    not_or] at hf
  have := hf.1 c hc
  simp only [isBreak, isUnicodeBreak, Bool.or_eq_true, beq_iff_eq] at h this
  rcases h with (((h | h) | h) | h) | h
  · exact h
  · subst h; exact absurd this.1 (by decide)
  · simp [h] at this
  · simp [h] at this
  · simp [h] at this

theorem line_isBreak {l : List Char} (hl : l ∈ lines v) :
    l.all (fun c => !isBreak c) = true := by
  rw [List.all_eq_true]
  intro c hc
  obtain ⟨hm, hne⟩ := mem_of_mem_pieces hl hc
  have hv : c ∈ v := by
    cases h : withoutLastFeed? v with
    | none => rw [h] at hm; exact hm
    | some r =>
      rw [h] at hm
      rw [withoutLastFeed?_eq_some h]
      exact List.mem_append_left _ hm
  cases hb : isBreak c with
  | false => rfl
  | true => exact absurd (isBreak_of_fits hf hv hb) hne

/-- unless line feeds at the end are kept, the last line holds something -/
theorem getLast?_lines (hm : mark v ≠ .keep) : (lines v).getLast? ≠ some [] := by
  obtain ⟨l, hl, hne, -⟩ := exists_line_of_fits hf
  intro h
  rcases getLast?_pieces h with h' | h'
  · rw [lines, h'] at hl
    have := List.mem_of_find?_eq_some hl
    simp [pieces] at this
    exact hne this
  · cases hw : withoutLastFeed? v with
    | none => rw [hw] at h'; exact withoutLastFeed?_eq_none hw h'
    | some r =>
      rw [hw] at h'
      exact hm (by simp only [mark, hw]; exact if_pos h')

end

end ConfigReconcile.Text.Literal

/-! ## blocks are read back -/

namespace ConfigReconcile.Yaml.BlockState

open Text

variable {v : List Char} {outer limit : Int} {n : Nat}

/-- a last line that is not empty leaves no break behind but its own -/
theorem addLines_last (s : BlockState) {ls : List (List Char)} {l : List Char}
    (h : ls.getLast? = some l) (hl : l ≠ []) :
    (ls.foldl (addLine n) s).trailing = [] ∧ (ls.foldl (addLine n) s).leading = ['\n'] := by
  obtain ⟨ls', rfl⟩ := List.getLast?_eq_some_iff.1 h
  rw [List.foldl_append, List.foldl_cons, List.foldl_nil, addLine, if_neg hl]
  exact ⟨rfl, rfl⟩

theorem indent_addLine (s : BlockState) (l : List Char) :
    (s.addLine n l).indent = if l = [] then s.indent else n := by
  unfold addLine
  split <;> rfl

theorem indent_addLines (s : BlockState) {ls : List (List Char)} (h : ∃ l ∈ ls, l ≠ []) :
    (ls.foldl (addLine n) s).indent = n := by
  have hkeep (ls : List (List Char)) (s : BlockState) (hs : s.indent = n) :
      (ls.foldl (addLine n) s).indent = n := by
    induction ls generalizing s with
    | nil => exact hs
    | cons l ls ih => exact ih _ (by rw [indent_addLine, hs]; split <;> rfl)
  induction ls generalizing s with
  | nil => simp at h
  | cons l ls ih =>
    rw [List.foldl_cons]
    by_cases hl : l = []
    · subst hl
      exact ih _ (by simpa using h)
    · exact hkeep _ _ (by rw [indent_addLine, if_neg hl])

theorem Between.addLines {s : BlockState} (h : Between n s) (ls : List (List Char)) :
    Between n (ls.foldl (BlockState.addLine n) s) := by
  induction ls generalizing s with
  | nil => exact h
  | cons l ls ih => exact ih (h.addLine l)

/-- what is read of the lines of a text is the text -/
theorem finish_addLines (hf : Literal.fits v = true) :
    ((Literal.lines v).foldl (addLine n) blank).finish (Literal.mark v) = v := by
  have hcontent : ((Literal.lines v).foldl (addLine n) blank).content =
      (Literal.withoutLastFeed? v).getD v ++ ['\n'] := by
    rw [content_addLines, Literal.lines, flatMap_pieces]
    rfl
  have hlast (hm : Literal.mark v ≠ .keep) :
      ((Literal.lines v).foldl (addLine n) blank).trailing = [] ∧
        ((Literal.lines v).foldl (addLine n) blank).leading = ['\n'] := by
    have hne := Literal.getLast?_lines hf hm
    cases h : (Literal.lines v).getLast? with
    | none => exact absurd (List.getLast?_eq_none_iff.1 h) (pieces_ne_nil _ _)
    | some l => exact addLines_last blank h (fun hl => hne (hl ▸ h))
  unfold content at hcontent
  cases hw : Literal.withoutLastFeed? v with
  | none =>
    have hm : Literal.mark v = .strip := by simp [Literal.mark, hw]
    obtain ⟨ht, hl⟩ := hlast (by simp [hm])
    rw [ht, hl, hw] at hcontent
    rw [hm, finish]
    simpa using hcontent
  | some r =>
    rw [hw, Option.getD_some, ← Literal.withoutLastFeed?_eq_some hw] at hcontent
    by_cases hr : r.getLast? = some '\n'
    · rw [show Literal.mark v = .keep by simp [Literal.mark, hw, hr], finish]
      exact hcontent
    · have hm : Literal.mark v = .clip := by simp [Literal.mark, hw, hr]
      obtain ⟨ht, hl⟩ := hlast (by simp [hm])
      rw [ht, List.nil_append] at hcontent
      rw [hm, finish]
      exact hcontent

/-- a literal block is read back, provided that its first line does not begin with a tab -/
theorem scan_block (hf : Literal.fits v = true) (ht : Literal.tabFirst v = false) (hn : 0 < n)
    (ho : outer < n) (hl : limit < n) (p : Place) (hp : p.column = 0) {cs : List Char}
    (hcs : LineAhead limit cs) :
    ∃ q : Place, q.column = 0 ∧
      scan (literalHeader (Literal.mark v)) outer blank p
          ((Literal.lines v).flatMap (Literal.indented n) ++ cs) =
        .ok ⟨v, (toWord q cs).1, (toWord q cs).2⟩ := by
  obtain ⟨l, hfind, hne, hspace⟩ := Literal.exists_line_of_fits hf
  have hblank (l' : List Char) (h : (Literal.lines v).find? (· ≠ []) = some l') :
      l'.head?.any isBlank = false := by
    obtain rfl : l = l' := Option.some.inj (hfind.symm.trans h)
    rw [Literal.tabFirst, ← Literal.find?_lines, hfind] at ht
    cases l with
    | nil => rfl
    | cons c w => simp_all [isBlank]
  have hb : Between n blank := ⟨.inl rfl, rfl, rfl⟩
  obtain ⟨q, hq, he⟩ := scan_lines (Literal.mark v) hb hn ho p hp (Literal.lines v) cs
    (fun l hl => Literal.line_isBreak hf hl) (fun _ => hblank)
  have hindent := indent_addLines (n := n) blank ⟨l, List.mem_of_find?_eq_some hfind, hne⟩
  refine ⟨q, hq, ?_⟩
  rw [he, scan_end (hb.addLines _) hindent hl q hq hcs, finish_addLines hf]

/-- a literal block whose first line begins with a tab is refused -/
theorem scan_block_tab (ht : Literal.tabFirst v = true) (p : Place) (hp : p.column = 0)
    (cs : List Char) (ch : Chomping) :
    scan (literalHeader ch) outer blank p
      ((Literal.lines v).flatMap (Literal.indented n) ++ cs) = .error .tabIndentation := by
  rw [Literal.tabFirst, ← Literal.find?_lines] at ht
  cases hfind : (Literal.lines v).find? (· ≠ []) with
  | none => rw [hfind] at ht; cases ht
  | some l =>
    rw [hfind] at ht
    cases l with
    | nil => cases ht
    | cons c w =>
      obtain rfl : c = '\t' := by simpa using ht
      exact scan_lines_tab (n := n) ⟨.inl rfl, rfl, rfl⟩ rfl p hp _ cs w hfind

end ConfigReconcile.Yaml.BlockState
