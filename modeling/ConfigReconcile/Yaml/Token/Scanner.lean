import ConfigReconcile.Yaml.Token.Plain
import ConfigReconcile.Yaml.Token.Quoted
import ConfigReconcile.Yaml.Token.Block
import ConfigReconcile.Yaml.Token.Tag

/-!
# From text to tokens

`Token.ofText` cuts a text into tokens.  A `Scanner` holds the text ahead and what decides about
the next token:

* the indentations of the open block collections, `-1` outside all of them;
* the open flow collections, in which indentation does not count;
* for the place outside and inside every flow collection, the PENDING key: the last token that
  could be a key written without `?`, should a colon follow on its line within 1024 characters.

When the colon comes, the token `key` is put in before the pending one, and `blockMappingStart`
before that if the key opens a mapping.
-/

namespace ConfigReconcile.Yaml

/-- a token that is a key if a colon follows -/
structure PendingKey where
  /-- how many tokens came before it -/
  position : Nat
  /-- it stands at the indentation of an open mapping, so the colon has to follow -/
  required : Bool
  place : Place
  deriving DecidableEq, Repr

/-- the colon can no longer follow at a place -/
def PendingKey.isStale (k : PendingKey) (p : Place) : Bool :=
  k.place.line < p.line || k.place.index + 1024 < p.index

structure Scanner where
  place : Place
  rest : List Char
  indent : Int
  /-- the indentations around the innermost one -/
  outerIndents : List Int
  /-- a key may start here -/
  keyAllowed : Bool
  pending : Option PendingKey
  /-- the pending keys around the innermost flow collection; none outside all of them -/
  outerPending : List (Option PendingKey)
  /-- the tokens so far, backwards -/
  tokens : List Token
  deriving DecidableEq, Repr

namespace Scanner

def start (cs : List Char) : Scanner where
  place := Place.start
  rest := cs
  indent := -1
  outerIndents := []
  keyAllowed := true
  pending := none
  outerPending := []
  tokens := []

/-! ## moving on -/

def inFlow (s : Scanner) : Bool := !s.outerPending.isEmpty

def column (s : Scanner) : Int := s.place.column

def emit (s : Scanner) (t : Token) : Scanner := { s with tokens := t :: s.tokens }

/-- behind `n` characters of the line -/
def skip (s : Scanner) (n : Nat) : Scanner :=
  { s with place := s.place.skip n, rest := s.rest.drop n }

/-- at `rest`, further on in the line -/
def moveTo (s : Scanner) (rest : List Char) : Scanner :=
  { s with place := s.place.skip (s.rest.length - rest.length), rest := rest }

/-- the blanks, comments and breaks before a token.  A tab counts as a blank only where no key may
start; a break allows a key outside flow collections -/
def blanksFrom (inFlow comment keyAllowed : Bool) (p : Place) :
    List Char → Bool × Place × List Char
  | [] => (keyAllowed, p, [])
  | c :: cs =>
    if startsPair c cs.head? then blanksFrom inFlow comment keyAllowed p.skipReturn cs
    else if isBreak c then blanksFrom inFlow false (keyAllowed || !inFlow) p.newLine cs
    else if comment || c == ' ' || c == '#' || (c == '\t' && (inFlow || !keyAllowed)) ||
        (c == byteOrderMark && p.column == 0) then
      blanksFrom inFlow (comment || c == '#') keyAllowed (p.skip 1) cs
    else (keyAllowed, p, c :: cs)

/-- at the next token -/
def skipBlanks (s : Scanner) : Scanner :=
  let (keyAllowed, place, rest) := blanksFrom s.inFlow false s.keyAllowed s.place s.rest
  { s with keyAllowed := keyAllowed, place := place, rest := rest }

/-! ## pending keys -/

/-- a pending key that went stale is dropped, which must not happen to a required one -/
def refresh (p : Place) (k? : Option PendingKey) : Except Fault (Option PendingKey) :=
  match k? with
  | none => .ok none
  | some k =>
    if !k.isStale p then .ok (some k)
    else if k.required then .error .keyWithoutColon
    else .ok none

/-- without stale keys -/
def dropStale (s : Scanner) : Except Fault Scanner := do
  let pending ← refresh s.place s.pending
  let outer ← s.outerPending.mapM (refresh s.place)
  return { s with pending := pending, outerPending := outer }

/-- without the pending key; a required one must not go -/
def dropPending (s : Scanner) : Except Fault Scanner :=
  if s.pending.any (·.required) then .error .keyWithoutColon
  else .ok { s with pending := none }

/-- the token ahead is the pending key, where a key may start -/
def savePending (s : Scanner) : Except Fault Scanner := do
  if !s.keyAllowed then return s
  let s ← s.dropPending
  return { s with
    pending := some ⟨s.tokens.length, !s.inFlow && s.indent == s.column, s.place⟩ }

/-! ## indentation -/

/-- tokens put in where `position` tokens stand before them -/
def insertAt (s : Scanner) (position : Nat) (ts : List Token) : Scanner :=
  let n := s.tokens.length - position
  { s with tokens := s.tokens.take n ++ ts.reverse ++ s.tokens.drop n }

/-- opens a block collection at a column deeper than the innermost one -/
def roll (s : Scanner) (column : Nat) (position : Nat) (opening : Token) : Scanner :=
  if s.inFlow || (column : Int) ≤ s.indent then s
  else
    { s with
      indent := column
      outerIndents := s.indent :: s.outerIndents }.insertAt position [opening]

/-- closes indentations beyond a column: those left, and how many were closed -/
def closeIndents (column : Int) (indent : Int) : List Int → Int × List Int × Nat
  | [] => (indent, [], 0)
  | o :: os =>
    if column < indent then
      let (i, r, n) := closeIndents column o os
      (i, r, n + 1)
    else (indent, o :: os, 0)

/-- closes the block collections beyond a column -/
def unroll (s : Scanner) (column : Int) : Scanner :=
  if s.inFlow then s
  else
    let (indent, outer, n) := closeIndents column s.indent s.outerIndents
    { s with
      indent := indent
      outerIndents := outer
      tokens := List.replicate n .blockEnd ++ s.tokens }

/-! ## tokens -/

/-- an indicator of one character -/
def indicator (s : Scanner) (t : Token) : Scanner := (s.emit t).skip 1

/-- `---` or `...` -/
def documentMark (s : Scanner) (t : Token) : Except Fault Scanner := do
  let s ← (s.unroll (-1)).dropPending
  return ({ s with keyAllowed := false }.emit t).skip 3

/-- a line that starts with `%` -/
def directive (s : Scanner) (cs : List Char) : Except Fault Scanner := do
  let s ← (s.unroll (-1)).dropPending
  let (t, rest) ← scanDirective cs
  return ({ s with keyAllowed := false }.emit t).moveTo rest

/-- an opening bracket -/
def openFlow (s : Scanner) (t : Token) : Except Fault Scanner := do
  let s ← s.savePending
  return { s with
    pending := none
    outerPending := s.pending :: s.outerPending
    keyAllowed := true }.indicator t

/-- a closing bracket -/
def closeFlow (s : Scanner) (t : Token) : Except Fault Scanner := do
  let s ← s.dropPending
  let s :=
    match s.outerPending with
    | [] => s
    | k :: ks => { s with pending := k, outerPending := ks }
  return { s with keyAllowed := false }.indicator t

/-- `,` -/
def flowEntry (s : Scanner) : Except Fault Scanner := do
  let s ← s.dropPending
  return { s with keyAllowed := true }.indicator .flowEntry

/-- opens a collection at an indicator; outside flow collections it must stand where a key may -/
def rollHere (s : Scanner) (opening : Token) : Except Fault Scanner :=
  if s.inFlow then .ok s
  else if !s.keyAllowed then .error .misplacedIndicator
  else .ok (s.roll s.place.column s.tokens.length opening)

/-- `-` -/
def blockEntry (s : Scanner) : Except Fault Scanner := do
  let s ← s.rollHere .blockSequenceStart
  let s ← s.dropPending
  return { s with keyAllowed := true }.indicator .blockEntry

/-- `?` -/
def explicitKey (s : Scanner) : Except Fault Scanner := do
  let s ← s.rollHere .blockMappingStart
  let s ← s.dropPending
  return { s with keyAllowed := !s.inFlow }.indicator .key

/-- `:` -/
def value (s : Scanner) : Except Fault Scanner := do
  match s.pending with
  | some k =>
    let s := (s.insertAt k.position [.key]).roll k.place.column k.position .blockMappingStart
    return { s with pending := none, keyAllowed := false }.indicator .value
  | none =>
    let s ← s.rollHere .blockMappingStart
    return { s with keyAllowed := !s.inFlow }.indicator .value

/-- an anchor or alias -/
def named (s : Scanner) (mk : String → Token) (cs : List Char) : Except Fault Scanner := do
  let s ← s.savePending
  let (name, rest) ← scanName cs
  return ({ s with keyAllowed := false }.emit (mk name)).moveTo rest

def tag (s : Scanner) (cs : List Char) : Except Fault Scanner := do
  let s ← s.savePending
  let (t, rest) ← scanTag s.inFlow cs
  return ({ s with keyAllowed := false }.emit t).moveTo rest

/-- the rest of the line of a block scalar's header: blanks, a comment and the break -/
def headerEnd (p : Place) (cs : List Char) : Except Fault (Place × List Char) :=
  let rest := cs.dropWhile isBlank
  let rest := if rest.head? == some '#' then rest.dropWhile (fun c => !isBreak c) else rest
  let p := p.skip (cs.length - rest.length)
  match rest with
  | [] => .ok (p, [])
  | c :: rest =>
    if startsPair c rest.head? then .ok (p.skipReturn.newLine, rest.drop 1)
    else if isBreak c then .ok (p.newLine, rest)
    else .error .badHeader

/-- `|` or `>` and its lines -/
def blockScalar (s : Scanner) (folded : Bool) (cs : List Char) : Except Fault Scanner := do
  let s ← s.dropPending
  let (chomping, increment, n) ← BlockHeader.marks cs
  let (p, rest) ← headerEnd (s.place.skip (1 + n)) (cs.drop n)
  let h : BlockHeader := ⟨folded, chomping, increment⟩
  let r ← BlockState.scan h s.indent (BlockState.start h s.indent) p rest
  let style := if folded then Style.folded else Style.literal
  return { s with keyAllowed := true, place := r.place, rest := r.rest }.emit
    (.scalar style (String.ofList r.text))

def quotedScalar (s : Scanner) (double : Bool) (cs : List Char) : Except Fault Scanner := do
  let s ← s.savePending
  let r ← scanQuoted double [] .word (s.place.skip 1) cs
  let style := if double then Style.doubleQuoted else Style.singleQuoted
  return { s with keyAllowed := false, place := r.place, rest := r.rest }.emit
    (.scalar style (String.ofList r.text))

def plainScalar (s : Scanner) : Except Fault Scanner := do
  let s ← s.savePending
  let r ← PlainContext.scan ⟨s.inFlow, s.indent⟩ [] none s.place s.rest
  return { s with keyAllowed := r.atNewLine, place := r.place, rest := r.rest }.emit
    (.scalar .plain (String.ofList r.text))

/-- the token at `c`, with `cs` behind it -/
def fetch (s : Scanner) (c : Char) (cs : List Char) : Except Fault Scanner :=
  let wordEnd := endsWord cs.head?
  if s.place.column = 0 ∧ c = '%' then s.directive cs
  else if s.place.column = 0 ∧ isDocumentMark (c :: cs) then
    s.documentMark (if c = '-' then .documentStart else .documentEnd)
  else if c = '[' then s.openFlow .flowSequenceStart
  else if c = '\x7b' then s.openFlow .flowMappingStart
  else if c = ']' then s.closeFlow .flowSequenceEnd
  else if c = '\x7d' then s.closeFlow .flowMappingEnd
  else if c = ',' then s.flowEntry
  else if c = '-' ∧ wordEnd then s.blockEntry
  else if c = '?' ∧ (s.inFlow ∨ wordEnd) then s.explicitKey
  else if c = ':' ∧ (s.inFlow ∨ wordEnd) then s.value
  else if c = '*' then s.named .alias cs
  else if c = '&' then s.named .anchor cs
  else if c = '!' then s.tag cs
  else if c = '|' ∧ !s.inFlow then s.blockScalar false cs
  else if c = '>' ∧ !s.inFlow then s.blockScalar true cs
  else if c = '\'' then s.quotedScalar false cs
  else if c = '"' then s.quotedScalar true cs
  else if isBlank c ∨ (isIndicator c ∧ c ≠ '-' ∧ c ≠ '?' ∧ c ≠ ':') then .error .strayCharacter
  else s.plainScalar

/-- the end of the text: what is open by indentation closes -/
def finish (s : Scanner) : Except Fault (List Token) := do
  let s ← (s.unroll (-1)).dropPending
  return s.tokens.reverse

/-- the tokens of the text ahead, behind those read; every token takes at least one character -/
def scan (s : Scanner) : Except Fault (List Token) := do
  let t ← s.skipBlanks.dropStale
  let t := t.unroll t.column
  match t.rest with
  | [] => t.finish
  | c :: cs =>
    let u ← t.fetch c cs
    if u.rest.length < s.rest.length then scan u else .error .strayCharacter
  termination_by s.rest.length

end Scanner

/-- the tokens of a text -/
def Token.ofText (cs : List Char) : Except Fault (List Token) :=
  if cs.all isReadable then (Scanner.start cs).scan else .error .unreadable

end ConfigReconcile.Yaml
