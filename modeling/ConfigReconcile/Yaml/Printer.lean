import ConfigReconcile.Decimal.Notation
import ConfigReconcile.Text.Blank
import ConfigReconcile.Yaml.Value

/-!
# The text of a value

`Value.print` writes a value as a block-style document.  Sequences under a key stand at the
indentation of the key; a key that is no short scalar on one line gets a `?` of its own.

A text is plain if that reads back as the same text; else it is in single quotes, or in double
quotes if single ones cannot hold it.  A text with line feeds becomes a literal block where one
can stand.

Texts under construction are kept backwards.
-/

namespace ConfigReconcile.Yaml

open Text Decimal

/-! ## scalars -/

/-- a character that need not be escaped -/
def isPrintable (c : Char) : Bool :=
  let n := c.toNat
  n == 0xA || (0x20 ≤ n && n ≤ 0x7E) || (0xA0 ≤ n && n ≤ 0xD7FF) ||
  (0xE000 ≤ n && n ≤ 0xFFFD && n != 0xFEFF) || 0x10000 ≤ n

/-- words that an older schema takes for booleans -/
def booleanWords : List String :=
  ["y", "Y", "yes", "Yes", "YES", "n", "N", "no", "No", "NO", "true", "True", "TRUE", "false",
    "False", "FALSE", "on", "On", "ON", "off", "Off", "OFF"]

/-- the text reads as something other than a text when it is plain -/
def isAmbiguous (s : String) : Bool :=
  booleanWords.contains s || hasLeadingZero s.toList ||
  (match Value.ofPlain s with
    | .ok (.string _) => false
    | _ => true)

/-- each character with the one before and the one after it -/
def withNeighbours (before : Option Char) : List Char → List (Option Char × Char × Option Char)
  | [] => []
  | c :: cs => (before, c, cs.head?) :: withNeighbours (some c) cs

namespace ScalarText

def isBreakOrNone : Option Char → Bool
  | none => false
  | some c => isBreak c

def isSpace (c : Option Char) : Bool := c == some ' '

/-- a mark that means something to a block collection -/
def hasIndicator (cs : List Char) : Bool :=
  isDocumentMark (cs.take 3) ||
  (withNeighbours none cs).any fun (before, c, after) =>
    if before.isNone then
      (isIndicator c && c != '-' && c != '?' && c != ':') ||
        ((c == '-' || c == '?' || c == ':') && endsWord after)
    else (c == ':' && endsWord after) || (c == '#' && endsWord before)

def hasBreak (cs : List Char) : Bool := cs.any isBreak

/-- characters to escape -/
def hasSpecial (cs : List Char) : Bool := !cs.all isPrintable

/-- a space ahead of a break -/
def hasSpaceBreak (cs : List Char) : Bool :=
  (withNeighbours none cs).any fun (_, c, after) => c == ' ' && isBreakOrNone after

/-- a break ahead of a space -/
def hasBreakSpace (cs : List Char) : Bool :=
  (withNeighbours none cs).any fun (_, c, after) => isBreak c && isSpace after

def endsInSpace (cs : List Char) : Bool := isSpace cs.getLast?

def allowsPlain (cs : List Char) : Bool :=
  !cs.isEmpty && !isSpace cs.head? && !endsInSpace cs && !hasBreak cs && !hasSpecial cs &&
  !hasIndicator cs

def allowsSingle (cs : List Char) : Bool :=
  !hasBreakSpace cs && !hasSpaceBreak cs && !hasSpecial cs

def allowsLiteral (cs : List Char) : Bool :=
  !cs.isEmpty && !endsInSpace cs && !hasSpaceBreak cs && !hasSpecial cs

/-- the spelling of a text; `asKey` says that a colon follows on its line -/
def style (asKey : Bool) (s : String) : Style :=
  let cs := s.toList
  let single : Style := if allowsSingle cs then .singleQuoted else .doubleQuoted
  if asKey && hasBreak cs then .doubleQuoted
  else if cs.contains '\n' then (if allowsLiteral cs && !asKey then .literal else .doubleQuoted)
  else if isAmbiguous s then single
  else if allowsPlain cs then .plain
  else single

def upperHexDigit (n : Nat) : Char := if n < 10 then Char.ofNat (48 + n) else Char.ofNat (55 + n)

/-- the last `n` hexadecimal digits of a number -/
def hexDigits (n : Nat) (k : Nat) : List Char :=
  (List.range n).map fun i => upperHexDigit (k / Nat.pow 16 (n - 1 - i) % 16)

def letter? (c : Char) : Option Char :=
  ['0', 'a', 'b', 't', 'n', 'v', 'f', 'r', 'e', '"', '\\', 'N', '_', 'L', 'P'].find? fun l =>
    Quoted.ofLetter? l == some c

/-- a character in double quotes -/
def escape (c : Char) : List Char :=
  if isPrintable c && !isBreak c && c != '"' && c != '\\' then [c]
  else
    match letter? c with
    | some l => ['\\', l]
    | none =>
      if c.toNat ≤ 0xFF then '\\' :: 'x' :: hexDigits 2 c.toNat
      else if c.toNat ≤ 0xFFFF then '\\' :: 'u' :: hexDigits 4 c.toNat
      else '\\' :: 'U' :: hexDigits 8 c.toNat

/-- lines with their breaks; each that is not empty is indented, but for the first if `inLine` -/
def indentLines (indent : Nat) (inLine : Bool) : List Char → List Char
  | [] => []
  | c :: cs =>
    if isBreak c then c :: indentLines indent false cs
    else (if inLine then [] else List.replicate indent ' ') ++ c :: indentLines indent true cs

/-- the marks behind `|` -/
def literalMarks (cs : List Char) : List Char :=
  let first := if cs.head?.any (fun c => c == ' ' || isBreak c) then ['2'] else []
  let last :=
    match cs.reverse with
    | [] => ['-']
    | c :: r => if !isBreak c then ['-'] else if r.isEmpty || r.head?.any isBreak then ['+'] else []
  first ++ last

/-- a text in a style; its further lines are indented by `indent` -/
def spell (style : Style) (indent : Nat) (cs : List Char) : List Char :=
  match style with
  | .plain => cs
  | .singleQuoted =>
    let body := cs.flatMap fun c => if c == '\'' then ['\'', '\''] else [c]
    let closing := if cs.getLast?.any isBreak then List.replicate indent ' ' else []
    '\'' :: indentLines indent true body ++ closing ++ ['\'']
  | .doubleQuoted => '"' :: cs.flatMap escape ++ ['"']
  | _ => '|' :: literalMarks cs ++ '\n' :: indentLines indent false cs

end ScalarText

namespace Value

/-- the text of a scalar, if it is one, and whether it is plain whatever it reads as -/
def scalarText? : Value → Option (String × Bool)
  | .null => some ("null", true)
  | .bool b => some (if b then "true" else "false", true)
  | .integer n => some (toString n, true)
  | .float x => some (Notation.yaml.write x, true)
  | .string s => some (s, false)
  | _ => none

/-! ## tags -/

/-- a character of a tag, escaped byte by byte if it must be -/
def tagChar (c : Char) : List Char :=
  if isNameChar c || (isUriChar c && c != '!' && c != '%') || [',', '[', ']'].contains c then [c]
  else (String.utf8EncodeChar c).flatMap fun b => '%' :: ScalarText.hexDigits 2 b.toNat

/-- a tag as it stands before its value -/
def tagText (tag : String) : List Char := '!' :: (bareTag tag).flatMap tagChar

/-! ## layout -/

/-- where a value starts -/
inductive Spot where
  /-- at the start of a line, or where a key goes -/
  | ready
  /-- behind the `-` of an item -/
  | item
  /-- behind a `?`, or behind a `:` with a line of its own -/
  | mark
  /-- behind the `:` of a key -/
  | value
  deriving DecidableEq, Repr

/-- behind the blank that sets a word off -/
def setOff (spot : Spot) (out : List Char) : List Char :=
  if spot = .ready then out else ' ' :: out

/-- on a new line at an indentation -/
def newLine (indent : Nat) (out : List Char) : List Char :=
  List.replicate indent ' ' ++ (if out.head? = some '\n' then out else '\n' :: out)

/-- a key that stands before its colon: a scalar on one line or an empty collection, at most 128
bytes with its tag -/
def isSimpleKey (tagLength : Nat) : Value → Bool
  | .sequence items => items.isEmpty && tagLength ≤ 128
  | .mapping entries => entries.isEmpty && tagLength ≤ 128
  | .tagged tag v => isSimpleKey (tagText tag).length v
  | v =>
    match v.scalarText? with
    | some (s, _) => !ScalarText.hasBreak s.toList && s.utf8ByteSize + tagLength ≤ 128
    | none => false

/-- a scalar at a spot, under a collection at `indent` -/
def printScalar (indent : Int) (spot : Spot) (asKey : Bool) (out : List Char) (s : String)
    (plain : Bool) : List Char :=
  let style := if plain then .plain else ScalarText.style asKey s
  (ScalarText.spell style (indent + 2).toNat s.toList).reverse ++ setOff spot out

/-- the indentation of a collection that opens at a spot -/
def innerIndent (isSequence : Bool) (hasTag : Bool) (indent : Int) (spot : Spot) : Int :=
  if indent < 0 then 0
  else if isSequence && (spot = .value || (spot = .mark && hasTag)) then indent
  else indent + 2

/-- up to the place of a collection's first member -/
def openAt (inner : Nat) (hasTag : Bool) (spot : Spot) (out : List Char) : List Char :=
  if spot = .value || hasTag then newLine inner out
  else if spot = .ready then out
  else ' ' :: out

mutual

/-- a value at a spot, behind `out`; `indent` is that of the collection around it, `-1` outside -/
def printAt (indent : Int) (spot : Spot) (hasTag : Bool) (asKey : Bool) (out : List Char) :
    Value → List Char
  | .tagged tag v =>
    let out := (tagText tag).reverse ++ setOff spot out
    -- behind a tag at the start of a line a word is set off as behind a dash
    printAt indent (if spot = .ready then .item else spot) true asKey out v
  | .sequence [] => ']' :: '[' :: setOff spot out
  | .mapping [] => '\x7d' :: '\x7b' :: setOff spot out
  | .sequence (v :: vs) =>
    let inner := innerIndent true hasTag indent spot
    let out := printAt inner .item false false ('-' :: openAt inner.toNat hasTag spot out) v
    printItems inner out vs
  | .mapping ((k, v) :: es) =>
    let inner := innerIndent false hasTag indent spot
    let out := openAt inner.toNat hasTag spot out
    let out :=
      if k.isSimpleKey 0 then
        printAt inner .value false false (':' :: printAt inner .ready false true out k) v
      else
        printAt inner .mark false false
          (':' :: newLine inner.toNat (printAt inner .mark false false ('?' :: out) k)) v
    printEntries inner out es
  | .null => printScalar indent spot asKey out "null" true
  | .bool b => printScalar indent spot asKey out (if b then "true" else "false") true
  | .integer n => printScalar indent spot asKey out (toString n) true
  | .float x => printScalar indent spot asKey out (Notation.yaml.write x) true
  | .string s => printScalar indent spot asKey out s false

/-- the items behind a first one -/
def printItems (indent : Int) (out : List Char) : List Value → List Char
  | [] => out
  | v :: vs =>
    printItems indent (printAt indent .item false false ('-' :: newLine indent.toNat out) v) vs

/-- the entries behind a first one -/
def printEntries (indent : Int) (out : List Char) : List (Value × Value) → List Char
  | [] => out
  | (k, v) :: es =>
    let out := newLine indent.toNat out
    let out :=
      if k.isSimpleKey 0 then
        printAt indent .value false false (':' :: printAt indent .ready false true out k) v
      else
        printAt indent .mark false false
          (':' :: newLine indent.toNat (printAt indent .mark false false ('?' :: out) k)) v
    printEntries indent out es

end

/-- the text of a value, without white space at its end -/
def print (v : Value) : String :=
  String.ofList ((v.printAt (-1) .ready false false []).dropWhile isWhiteSpace).reverse

end Value

end ConfigReconcile.Yaml
