import ConfigReconcile.Proofs.Yaml.Blocks
import Mathlib.Data.List.DropRight

/-!
# Literal blocks by the rules

The rules of literal blocks, taken by themselves and without the scanner, which refuses more:

* `fullLines`     a text is cut behind its line feeds; a line is EMPTY if it is a line feed alone;
* `indentation`   the spaces before the first line that is not empty are the indentation;
* `isContent`     the block goes on up to the first line that is not empty and has fewer of them;
* `unindent`      that many columns are taken off each line, none off an empty one;
* `chomp`         the line feeds at the end are dropped, or one of them is left, or all count.

`read?` puts them together, and `read?_block` says that what is written for a text is read as it.
-/

namespace ConfigReconcile.Text.Literal

open Yaml (Chomping)

/-! ## lines -/

/-- the lines with the line feeds that end them; the last one may have none -/
def fullLines : List Char → List (List Char)
  | [] => []
  | c :: cs =>
    if c = '\n' then ['\n'] :: fullLines cs
    else
      match fullLines cs with
      | [] => [[c]]
      | l :: ls => (c :: l) :: ls

def isEmptyLine (l : List Char) : Bool := l = ['\n']

def leadingSpaces (l : List Char) : Nat := (l.takeWhile (· = ' ')).length

theorem fullLines_feed (cs : List Char) : fullLines ('\n' :: cs) = ['\n'] :: fullLines cs := by
  rw [fullLines, if_pos rfl]

theorem fullLines_cons {c : Char} {cs l : List Char} {ls : List (List Char)} (hc : c ≠ '\n')
    (h : fullLines cs = l :: ls) : fullLines (c :: cs) = (c :: l) :: ls := by
  rw [fullLines, if_neg hc, h]

theorem fullLines_line {l : List Char} (h : '\n' ∉ l) (cs : List Char) :
    fullLines (l ++ '\n' :: cs) = (l ++ ['\n']) :: fullLines cs := by
  induction l with
  | nil => exact fullLines_feed cs
  | cons c l ih =>
    rw [List.mem_cons, not_or] at h
    exact fullLines_cons (Ne.symm h.1) (ih h.2)

theorem flatten_fullLines (cs : List Char) : (fullLines cs).flatten = cs := by
  induction cs with
  | nil => rfl
  | cons c cs ih =>
    by_cases hc : c = '\n'
    · rw [hc, fullLines_feed, List.flatten_cons, ih]
      rfl
    · cases h : fullLines cs with
      | nil =>
        rw [h] at ih
        rw [fullLines, if_neg hc, h, ← ih]
        rfl
      | cons l ls =>
        rw [h, List.flatten_cons] at ih
        rw [fullLines_cons hc h, List.flatten_cons, List.cons_append, ih]

/-- a text begins with the spaces that its first line begins with -/
theorem leadingSpaces_of_fullLines {cs l : List Char} {ls : List (List Char)}
    (h : fullLines cs = l :: ls) : leadingSpaces l = leadingSpaces cs := by
  induction cs generalizing l ls with
  | nil => cases h
  | cons c cs ih =>
    by_cases hc : c = '\n'
    · rw [hc, fullLines_feed, List.cons.injEq] at h
      rw [← h.1, hc]
      rfl
    · cases hcs : fullLines cs with
      | nil =>
        have hnil := flatten_fullLines cs
        rw [hcs] at hnil
        rw [fullLines, if_neg hc, hcs, List.cons.injEq] at h
        rw [← h.1, ← hnil]
        rfl
      | cons l' ls' =>
        rw [fullLines_cons hc hcs, List.cons.injEq] at h
        have ih := ih hcs
        unfold leadingSpaces at ih ⊢
        rw [← h.1, List.takeWhile_cons, List.takeWhile_cons]
        split
        · rw [List.length_cons, List.length_cons, ih]
        · rfl

/-! ## the rules -/

/-- the indentation of the content; none if all lines are empty -/
def indentation (ls : List (List Char)) : Nat :=
  ((ls.find? fun l => !isEmptyLine l).map leadingSpaces).getD 0

def isContent (n : Nat) (l : List Char) : Bool := isEmptyLine l || n ≤ leadingSpaces l

def unindent (n : Nat) (l : List Char) : List Char := if isEmptyLine l then l else l.drop n

def withoutFeeds (t : List Char) : List Char := t.rdropWhile (· = '\n')

def chomp : Chomping → List Char → List Char
  | .strip, t => withoutFeeds t
  | .clip, t =>
    if withoutFeeds t = [] ∨ withoutFeeds t = t then withoutFeeds t else withoutFeeds t ++ ['\n']
  | .keep, t => t

def header? : List Char → Option (Chomping × List Char)
  | '|' :: '-' :: '\n' :: cs => some (.strip, cs)
  | '|' :: '+' :: '\n' :: cs => some (.keep, cs)
  | '|' :: '\n' :: cs => some (.clip, cs)
  | _ => none

/-- the text of lines behind a header, and the lines that are no longer of the block -/
def content (ch : Chomping) (ls : List (List Char)) : List Char × List (List Char) :=
  let n := indentation ls
  (chomp ch ((ls.takeWhile (isContent n)).flatMap (unindent n)), ls.dropWhile (isContent n))

/-- the text of a literal block, and what stands behind the block -/
def read? (cs : List Char) : Option (List Char × List Char) :=
  (header? cs).map fun h =>
    let c := content h.1 (fullLines h.2)
    (c.1, c.2.flatten)

/-- the text ends, or goes on with a line that is not empty and has fewer than `n` spaces before it -/
def Dedented (n : Nat) (cs : List Char) : Prop :=
  cs = [] ∨ cs.head? ≠ some '\n' ∧ leadingSpaces cs < n

/-! ## lines that have been written -/

section
variable {n : Nat} {l : List Char} {ls : List (List Char)}

theorem fullLines_indented (hl : '\n' ∉ l) (cs : List Char) :
    fullLines (indented n l ++ cs) = indented n l :: fullLines cs := by
  unfold indented
  split
  · exact fullLines_feed cs
  · have hmem : '\n' ∉ List.replicate n ' ' ++ l := by
      rw [List.mem_append, not_or]
      exact ⟨fun h => absurd (List.eq_of_mem_replicate h) (by decide), hl⟩
    rw [← fullLines_line hmem, List.append_assoc _ ['\n']]
    rfl

theorem fullLines_flatMap (hls : ∀ l ∈ ls, '\n' ∉ l) (cs : List Char) :
    fullLines (ls.flatMap (indented n) ++ cs) = ls.map (indented n) ++ fullLines cs := by
  induction ls with
  | nil => rfl
  | cons l ls ih =>
    rw [List.forall_mem_cons] at hls
    rw [List.flatMap_cons, List.append_assoc, fullLines_indented hls.1, ih hls.2]
    rfl

theorem isEmptyLine_indented (n : Nat) (l : List Char) :
    isEmptyLine (indented n l) = decide (l = []) := by
  unfold indented isEmptyLine
  by_cases h : l = []
  · rw [if_pos h, h]
    rfl
  · rw [if_neg h, decide_eq_false h, decide_eq_false_iff_not]
    intro he
    have hlen := congrArg List.length he
    have hpos := List.length_pos_iff.2 h
    simp only [List.length_append, List.length_replicate, List.length_singleton] at hlen
    omega

theorem leadingSpaces_indented (n : Nat) (h : l ≠ []) :
    leadingSpaces (indented n l) = n + leadingSpaces (l ++ ['\n']) := by
  unfold indented leadingSpaces
  rw [if_neg h, List.append_assoc, List.takeWhile_append_of_pos, List.length_append,
    List.length_replicate]
  intro c hc
  rw [List.eq_of_mem_replicate hc]
  rfl

theorem isContent_indented (n : Nat) (l : List Char) : isContent n (indented n l) = true := by
  rw [isContent, Bool.or_eq_true, isEmptyLine_indented, decide_eq_true_eq, decide_eq_true_eq]
  by_cases h : l = []
  · exact .inl h
  · right
    rw [leadingSpaces_indented n h]
    omega

theorem unindent_indented (n : Nat) (l : List Char) :
    unindent n (indented n l) = l ++ ['\n'] := by
  rw [unindent, isEmptyLine_indented]
  by_cases h : l = []
  · rw [if_pos (decide_eq_true h), indented, if_pos h, h]
    rfl
  · rw [if_neg (by simpa using h), indented, if_neg h, List.append_assoc]
    exact List.drop_left' (List.length_replicate ..)

/-- the first line that is not empty shows the indentation -/
theorem indentation_indented (h : ls.find? (· ≠ []) = some l) (hl : l.head? ≠ some ' ')
    (fs : List (List Char)) : indentation (ls.map (indented n) ++ fs) = n := by
  have hp : ((fun l => !isEmptyLine l) ∘ indented n) = fun l => decide (l ≠ []) := by
    funext l
    rw [Function.comp_apply, isEmptyLine_indented, decide_not]
  have hne : l ≠ [] := by simpa using List.find?_some h
  rw [indentation, List.find?_append, List.find?_map, hp, h]
  show leadingSpaces (indented n l) = n
  rw [leadingSpaces_indented n hne]
  cases l with
  | nil => exact absurd rfl hne
  | cons c l =>
    have hc : ¬c = ' ' := fun hc => hl (by rw [hc]; rfl)
    rw [leadingSpaces, List.cons_append, List.takeWhile_cons_of_neg (by simpa using hc)]
    rfl

theorem unindent_lines (ls : List (List Char)) :
    (ls.map (indented n)).flatMap (unindent n) = ls.flatMap (· ++ ['\n']) := by
  rw [List.flatMap_map]
  exact congrArg ls.flatMap (funext (unindent_indented n))

/-- what follows the block is not taken for content -/
theorem isContent_of_dedented {cs : List Char} (h : Dedented n cs)
    (hl : fullLines cs = l :: ls) : isContent n l = false := by
  have hcs := flatten_fullLines cs
  rw [hl, List.flatten_cons] at hcs
  rcases h with rfl | ⟨hfeed, hspaces⟩
  · cases hl
  · rw [isContent, Bool.or_eq_false_iff, decide_eq_false_iff_not, leadingSpaces_of_fullLines hl,
      isEmptyLine, decide_eq_false_iff_not]
    refine ⟨?_, Nat.not_le.2 hspaces⟩
    rintro rfl
    exact hfeed (by rw [← hcs]; rfl)

theorem takeWhile_lines (ls : List (List Char)) {cs : List Char} (h : Dedented n cs) :
    (ls.map (indented n) ++ fullLines cs).takeWhile (isContent n) = ls.map (indented n) ∧
      (ls.map (indented n) ++ fullLines cs).dropWhile (isContent n) = fullLines cs := by
  have hls : ∀ l ∈ ls.map (indented n), isContent n l = true :=
    List.forall_mem_map.2 fun l _ => isContent_indented n l
  rw [List.takeWhile_append_of_pos hls, List.dropWhile_append_of_pos hls]
  cases hcs : fullLines cs with
  | nil => exact ⟨List.append_nil _, rfl⟩
  | cons l ls =>
    have hl := isContent_of_dedented h hcs
    rw [List.takeWhile_cons_of_neg (by simp [hl]), List.dropWhile_cons_of_neg (by simp [hl])]
    exact ⟨List.append_nil _, rfl⟩

end

/-! ## texts -/

section
variable {v : List Char}

theorem withoutFeeds_feed (t : List Char) : withoutFeeds (t ++ ['\n']) = withoutFeeds t :=
  List.rdropWhile_concat_pos _ _ _ rfl

theorem withoutFeeds_self (h : v.getLast? ≠ some '\n') : withoutFeeds v = v := by
  rw [withoutFeeds, List.rdropWhile_eq_self_iff]
  intro hne hlast
  rw [decide_eq_true_eq] at hlast
  exact h (by rw [List.getLast?_eq_some_getLast hne, hlast])

theorem ne_nil_of_fits {r : List Char} (hf : fits v = true) (hw : withoutLastFeed? v = some r) :
    r ≠ [] := by
  rintro rfl
  obtain ⟨l, hl, hne, -⟩ := exists_line_of_fits hf
  rw [lines, hw] at hl
  exact hne (by simpa [pieces] using List.mem_of_find?_eq_some hl)

/-- the header says how many line feeds there are at the end -/
theorem chomp_mark (hf : fits v = true) :
    chomp (mark v) ((withoutLastFeed? v).getD v ++ ['\n']) = v := by
  cases hw : withoutLastFeed? v with
  | none =>
    rw [mark, hw]
    show withoutFeeds (v ++ ['\n']) = v
    rw [withoutFeeds_feed, withoutFeeds_self (withoutLastFeed?_eq_none hw)]
  | some r =>
    have hv := withoutLastFeed?_eq_some hw
    rw [mark, hw, Option.getD_some, hv]
    show chomp (if r.getLast? = some '\n' then .keep else .clip) (r ++ ['\n']) = _
    by_cases hr : r.getLast? = some '\n'
    · rw [if_pos hr, chomp]
    · have hne := ne_nil_of_fits hf hw
      rw [if_neg hr, chomp, withoutFeeds_feed, withoutFeeds_self hr, if_neg (by simp [hne])]

theorem header?_block (n : Nat) (v cs : List Char) :
    header? (block n v ++ cs) = some (mark v, (lines v).flatMap (indented n) ++ cs) := by
  rw [block_eq, chomping, mark]
  cases withoutLastFeed? v with
  | none => rfl
  | some r =>
    by_cases hr : r.getLast? = some '\n'
    · simp only [if_pos hr]
      rfl
    · simp only [if_neg hr]
      rfl

/-- what is read of the lines of a text is the text -/
theorem content_lines {n : Nat} {cs : List Char} (hf : fits v = true) (hcs : Dedented n cs) :
    content (mark v) ((lines v).map (indented n) ++ fullLines cs) = (v, fullLines cs) := by
  obtain ⟨l, hfind, -, hspace⟩ := exists_line_of_fits hf
  have htext : (lines v).flatMap (· ++ ['\n']) = (withoutLastFeed? v).getD v ++ ['\n'] :=
    flatMap_pieces '\n' _
  obtain ⟨htake, hdrop⟩ := takeWhile_lines (lines v) hcs
  rw [content, indentation_indented hfind hspace, htake, hdrop, unindent_lines, htext,
    chomp_mark hf]

/-- **a literal block is read as the text that it is written for**, whatever its empty lines, its
lines of spaces and its line feeds at the end, if the text ends behind it or goes on with a line
that is indented less -/
theorem read?_block (v : List Char) (n : Nat) (cs : List Char) (hf : fits v = true)
    (hcs : Dedented n cs) : read? (block n v ++ cs) = some (v, cs) := by
  have hls : ∀ l ∈ lines v, '\n' ∉ l := fun l hl hmem => (mem_of_mem_pieces hl hmem).2 rfl
  have hc : content (mark v) (fullLines ((lines v).flatMap (indented n) ++ cs)) =
      (v, fullLines cs) := by rw [fullLines_flatMap hls, content_lines hf hcs]
  rw [read?, header?_block, Option.map_some]
  show some ((content (mark v) (fullLines _)).1, (content (mark v) (fullLines _)).2.flatten) = _
  rw [hc, flatten_fullLines]

/-- empty lines first, a tab at the start, a line of spaces, spaces at the end of a line and two line
feeds at the end; a line of one space stands behind the block -/
theorem read?_block_kept :
    let v := "\n\n\ta  \n   \n\n b\n\n".toList
    let cs := " \n   x: 1\n".toList
    fits v = true ∧ Dedented 2 cs ∧ read? (block 2 v ++ cs) = some (v, cs) := by
  intro v cs
  have hf : fits v = true := by decide
  have hcs : Dedented 2 cs := .inr ⟨by decide, by decide⟩
  exact ⟨hf, hcs, read?_block v 2 cs hf hcs⟩

end

end ConfigReconcile.Text.Literal
