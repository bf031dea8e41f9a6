import ConfigReconcile.Text.Blank
import ConfigReconcile.Text.Pieces

/-!
# Literal blocks

A text of several lines is written as a LITERAL BLOCK: a header `|`, then its lines, each indented
by the same number of spaces.  The header says what becomes of the line feeds at the end:

* `|-`   there is none;
* `|`    there is one;
* `|+`   there are more, and all count.

`fits` says which texts can be written so; `block` writes one.
-/

namespace ConfigReconcile.Text.Literal

/-! ## writing -/

/-- a text that can be written as a literal block: it has no control character beyond line feeds
and tabs and no other line break, and its first line that is not empty starts with no space -/
def fits (s : List Char) : Bool :=
  !s.any (fun c => (isControl c && c != '\n' && c != '\t') || isUnicodeBreak c) &&
  match (pieces '\n' s).find? (· ≠ []) with
  | some l => l.head? != some ' '
  | none => false

/-- the text without its last line feed, if it ends in one -/
def withoutLastFeed? (s : List Char) : Option (List Char) :=
  if s.getLast? = some '\n' then some s.dropLast else none

/-- the mark in the header -/
def chomping (s : List Char) : List Char :=
  match withoutLastFeed? s with
  | none => ['-']
  | some r => if r.getLast? = some '\n' then ['+'] else []

/-- a line in its place; an empty one gets no indentation -/
def indented (indent : Nat) (l : List Char) : List Char :=
  if l = [] then ['\n'] else List.replicate indent ' ' ++ l ++ ['\n']

/-- a text as a literal block, header and lines, with a line feed at the end -/
def block (indent : Nat) (s : List Char) : List Char :=
  '|' :: chomping s ++ '\n' ::
    (pieces '\n' ((withoutLastFeed? s).getD s)).flatMap (indented indent)

end ConfigReconcile.Text.Literal
