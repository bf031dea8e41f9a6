import ConfigReconcile.Yaml.Char
import ConfigReconcile.Yaml.Fault

/-!
# Block scalars

A block scalar is a header, `|` or `>` with marks, and the lines indented under it.

* `BlockHeader`   whether lines are folded, what becomes of the breaks at the end, and the
                  indentation if it is given;
* `BlockState`    what has been read of the lines.  Without a given indentation the first line
                  that is not empty sets it.
-/

namespace ConfigReconcile.Yaml

/-- what becomes of the breaks at the end -/
inductive Chomping where
  | strip
  | clip
  | keep
  deriving DecidableEq, Repr, Inhabited

structure BlockHeader where
  folded : Bool
  chomping : Chomping
  /-- indentation against the collection around it; zero if it is not given -/
  increment : Nat
  deriving DecidableEq, Repr, Inhabited

namespace BlockHeader

/-- a digit that gives the indentation -/
def increment? (c : Char) : Option Nat := if c.isDigit then some (c.toNat - 48) else none

def chomping? : Char → Option Chomping
  | '+' => some .keep
  | '-' => some .strip
  | _ => none

/-- the marks behind `|` or `>`, in either order, and how many they are; `0` is no indentation -/
def marks : List Char → Except Fault (Chomping × Nat × Nat)
  | [] => .ok (.clip, 0, 0)
  | c :: cs =>
    match chomping? c with
    | some ch =>
      match cs.head?.bind increment? with
      | none => .ok (ch, 0, 1)
      | some 0 => .error .badHeader
      | some n => .ok (ch, n, 2)
    | none =>
      match increment? c with
      | none => .ok (.clip, 0, 0)
      | some 0 => .error .badHeader
      | some n =>
        match cs.head?.bind chomping? with
        | none => .ok (.clip, n, 1)
        | some ch => .ok (ch, n, 2)

end BlockHeader

/-- lines read so far; texts are kept backwards -/
structure BlockState where
  /-- the indentation of the content; zero while it is not known -/
  indent : Nat
  /-- the widest indentation seen while it is not known -/
  widest : Nat
  text : List Char
  /-- the break that ended the last line of content -/
  leading : List Char
  /-- the breaks of the empty lines since -/
  trailing : List Char
  /-- the last line of content began with a blank -/
  afterBlank : Bool
  /-- inside a line of content -/
  inLine : Bool
  deriving DecidableEq, Repr

/-- a block scalar that has been read -/
structure BlockResult where
  text : List Char
  place : Place
  rest : List Char
  deriving DecidableEq, Repr

namespace BlockState

/-- before the first line, under a collection indented by `outer` -/
def start (h : BlockHeader) (outer : Int) : BlockState where
  indent := if h.increment = 0 then 0 else (max outer 0).toNat + h.increment
  widest := 0
  text := []
  leading := []
  trailing := []
  afterBlank := false
  inLine := false

/-- the column lies before the content -/
def isBefore (s : BlockState) (column : Nat) : Bool := s.indent == 0 || column < s.indent

/-- with the indentation settled at a line that is not empty, or at the end -/
def settle (s : BlockState) (outer : Int) (column : Nat) : BlockState :=
  if s.indent = 0 then { s with indent := max (max (max s.widest column) (outer + 1).toNat) 1 }
  else s

/-- with the breaks before a line of content taken into the text; `c` begins that line -/
def joinLine (s : BlockState) (folded : Bool) (c : Char) : BlockState :=
  let joint :=
    if folded && s.leading == ['\n'] && !s.afterBlank && !isBlank c then
      (if s.trailing.isEmpty then [' '] else [])
    else s.leading
  { s with
    text := s.trailing ++ joint ++ s.text
    leading := []
    trailing := []
    afterBlank := isBlank c
    inLine := true }

/-- the text, with the breaks at the end that count -/
def finish (s : BlockState) : Chomping → List Char
  | .strip => s.text.reverse
  | .clip => (s.leading ++ s.text).reverse
  | .keep => (s.trailing ++ s.leading ++ s.text).reverse

/-- reads the lines under a header -/
def scan (h : BlockHeader) (outer : Int) (s : BlockState) (p : Place) :
    List Char → Except Fault BlockResult
  | [] => .ok ⟨s.finish h.chomping, p, []⟩
  | c :: cs =>
    if startsPair c cs.head? then scan h outer s p.skipReturn cs
    else if s.inLine then
      if isBreak c then
        scan h outer { s with leading := [breakText c], inLine := false, widest := 0 } p.newLine cs
      else scan h outer { s with text := c :: s.text } (p.skip 1) cs
    else if s.isBefore p.column && c == ' ' then scan h outer s (p.skip 1) cs
    else if s.isBefore p.column && c == '\t' then .error .tabIndentation
    else if isBreak c then
      scan h outer { s with widest := max s.widest p.column, trailing := breakText c :: s.trailing }
        p.newLine cs
    else
      let s := s.settle outer p.column
      if p.column = s.indent then
        let s := s.joinLine h.folded c
        scan h outer { s with text := c :: s.text } (p.skip 1) cs
      else .ok ⟨s.finish h.chomping, p, c :: cs⟩

end BlockState

end ConfigReconcile.Yaml
