import ConfigReconcile.Text.Quoted
import ConfigReconcile.Yaml.Char
import ConfigReconcile.Yaml.Fault

/-!
# Quoted scalars

Between its quotes a scalar may span lines; a gap with a break in it is folded.  In single quotes
a doubled quote stands for one; in double quotes a backslash starts an escape, and at the end of a
line it takes the break away.
-/

namespace ConfigReconcile.Yaml

open Text

/-- what is being read -/
inductive QuotedMode where
  /-- inside a word -/
  | word
  | gap (g : Gap)
  /-- the second of two single quotes is next -/
  | quote
  /-- a break that a backslash takes away is next -/
  | join
  /-- behind a backslash -/
  | escape
  /-- `left` more hexadecimal digits, after those that spell `n` -/
  | hex (left : Nat) (n : Nat)
  deriving DecidableEq, Repr

/-- a quoted scalar that has been read -/
structure QuotedResult where
  text : List Char
  place : Place
  rest : List Char
  deriving DecidableEq, Repr

/-- reads on after `text`, which is kept backwards, up to the closing quote -/
def scanQuoted (double : Bool) (text : List Char) (mode : QuotedMode) (p : Place) :
    List Char → Except Fault QuotedResult
  | [] => .error .openScalar
  | c :: cs =>
    let inWord (text : List Char) : Except Fault QuotedResult :=
      if !double && c == '\'' then
        if cs.head? == some '\'' then scanQuoted double text .quote (p.skip 1) cs
        else .ok ⟨text.reverse, p.skip 1, cs⟩
      else if double && c == '"' then .ok ⟨text.reverse, p.skip 1, cs⟩
      else if double && c == '\\' then
        if cs.head?.any isBreak then scanQuoted double text .join (p.skip 1) cs
        else scanQuoted double text .escape (p.skip 1) cs
      else scanQuoted double (c :: text) .word (p.skip 1) cs
    let inGap (g : Gap) (onWord : Except Fault QuotedResult) : Except Fault QuotedResult :=
      if isBlank c then scanQuoted double text (.gap (g.addBlank c)) (p.skip 1) cs
      else if startsPair c cs.head? then scanQuoted double text (.gap g) p.skipReturn cs
      else if isBreak c then scanQuoted double text (.gap (g.addBreak c)) p.newLine cs
      else onWord
    match mode with
    | .word => inGap (.blanks []) (inWord text)
    | .gap g =>
      inGap g <|
        if p.column == 0 && isDocumentMark (c :: cs) then .error .openScalar
        else inWord (g.text.reverse ++ text)
    | .quote => scanQuoted double ('\'' :: text) .word (p.skip 1) cs
    | .join =>
      if startsPair c cs.head? then scanQuoted double text .join p.skipReturn cs
      else scanQuoted double text (.gap (.folded [] [])) p.newLine cs
    | .escape =>
      match Quoted.ofLetter? c with
      | some d => scanQuoted double (d :: text) .word (p.skip 1) cs
      | none =>
        match Quoted.digitCount? c with
        | some n => scanQuoted double text (.hex n 0) (p.skip 1) cs
        | none => .error .badEscape
    | .hex left n =>
      match Quoted.hexValue? c with
      | none => .error .badEscape
      | some d =>
        if 1 < left then scanQuoted double text (.hex (left - 1) (16 * n + d)) (p.skip 1) cs
        else
          match Quoted.ofCodePoint? (16 * n + d) with
          | none => .error .badEscape
          | some e => scanQuoted double (e :: text) .word (p.skip 1) cs

end ConfigReconcile.Yaml
