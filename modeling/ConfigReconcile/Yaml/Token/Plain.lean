import ConfigReconcile.Yaml.Char
import ConfigReconcile.Yaml.Fault

/-!
# Plain scalars

A plain scalar is words with gaps between them.  It is read character by character: `plainWord`
inside a word, `plainGap` between two.  It ends at `: `, at ` #`, at an indicator of a flow
collection, at a document mark, or on a line that is not indented enough.
-/

namespace ConfigReconcile.Yaml

/-- where a plain scalar is read -/
structure PlainContext where
  /-- inside a flow collection -/
  inFlow : Bool
  /-- the indentation of the block collection around it -/
  indent : Int
  deriving DecidableEq, Repr

/-- a plain scalar that has been read -/
structure PlainResult where
  text : List Char
  /-- it was followed by a break, which has been read too -/
  atNewLine : Bool
  place : Place
  rest : List Char
  deriving DecidableEq, Repr

namespace PlainContext

/-- a colon inside a flow collection with an indicator against it -/
def badColonAt (x : PlainContext) (c : Char) (ahead : Option Char) : Bool :=
  x.inFlow && c == ':' && ahead.any (fun d => d == '?' || isFlowIndicator d)

/-- a character that ends the scalar -/
def stopsAt (x : PlainContext) (c : Char) (ahead : Option Char) : Bool :=
  (c == ':' && endsWord ahead) || (x.inFlow && isFlowIndicator c)

/-- a column that belongs to the collection around it -/
def isOutdented (x : PlainContext) (column : Nat) : Bool := (column : Int) ≤ x.indent

/-- behind a gap, what ends the scalar: a line not indented enough, a comment, a document mark -/
def endsAfterGap (x : PlainContext) (p : Place) (cs : List Char) : Bool :=
  (!x.inFlow && x.isOutdented p.column) || cs.head? == some '#' ||
  (p.column == 0 && isDocumentMark cs)

/-- reads on after `text`, which is kept backwards; `gap` is what was read since, nothing while
inside a word -/
def scan (x : PlainContext) (text : List Char) (gap : Option Gap) (p : Place) :
    List Char → Except Fault PlainResult
  | [] => .ok ⟨text.reverse, gap.any Gap.hasBreak, p, []⟩
  | c :: cs =>
    let stop : Except Fault PlainResult := .ok ⟨text.reverse, gap.any Gap.hasBreak, p, c :: cs⟩
    let g := gap.getD (.blanks [])
    if isBlank c then
      if c == '\t' && g.hasBreak && x.isOutdented p.column then .error .tabIndentation
      else scan x text (some (g.addBlank c)) (p.skip 1) cs
    else if startsPair c cs.head? then scan x text (some g) p.skipReturn cs
    else if isBreak c then scan x text (some (g.addBreak c)) p.newLine cs
    else if gap.isSome && x.endsAfterGap p (c :: cs) then stop
    else if x.badColonAt c cs.head? then .error .badColon
    else if x.stopsAt c cs.head? then stop
    else scan x (c :: ((gap.map Gap.text).getD []).reverse ++ text) none (p.skip 1) cs

end PlainContext

end ConfigReconcile.Yaml
