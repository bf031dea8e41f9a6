/-!
# Character classes of YAML

Most tests look at the character ahead, which may be missing at the end of the text; an `Option`
stands for it.
-/

namespace ConfigReconcile.Yaml

/-- what a stream may hold -/
def isReadable (c : Char) : Bool :=
  let n := c.toNat
  n == 0x9 || n == 0xA || n == 0xD || (0x20 ≤ n && n ≤ 0x7E) || n == 0x85 ||
  (0xA0 ≤ n && n ≤ 0xD7FF) || (0xE000 ≤ n && n ≤ 0xFFFD) || 0x10000 ≤ n

def isBlank (c : Char) : Bool := c == ' ' || c == '\t'

def isBreak (c : Char) : Bool :=
  c == '\n' || c == '\r' || c == '\u0085' || c == '\u2028' || c == '\u2029'

/-- the byte order mark -/
def byteOrderMark : Char := '\ufeff'

/-- a blank, a break or the end -/
def endsWord : Option Char → Bool
  | none => true
  | some c => isBlank c || isBreak c

/-- a break or the end -/
def endsLine : Option Char → Bool
  | none => true
  | some c => isBreak c

/-- ASCII letters, digits, `_` and `-`: the characters of anchors and handles -/
def isNameChar (c : Char) : Bool := c.isAlphanum || c == '_' || c == '-'

/-- the characters of a tag, apart from escapes -/
def isUriChar (c : Char) : Bool :=
  isNameChar c ||
  [';', '/', '?', ':', '@', '&', '=', '+', '$', '.', '!', '~', '*', '\'', '(', ')'].contains c

/-- a comma or a bracket: what sets the members of a flow collection apart -/
def isFlowIndicator (c : Char) : Bool :=
  c == ',' || c == '[' || c == ']' || c == '\x7b' || c == '\x7d'

/-- characters that begin no plain scalar, unless `-`, `?` or `:` is followed by more -/
def isIndicator (c : Char) : Bool :=
  ['-', '?', ':', ',', '[', ']', '\x7b', '\x7d', '#', '&', '*', '!', '|', '>', '\'', '"', '%', '@',
    Char.ofNat 96].contains c

/-- what a break stands for inside a scalar -/
def breakText (c : Char) : Char := if c == '\u2028' || c == '\u2029' then c else '\n'

/-- a carriage return whose line feed follows: the two are one break, which the line feed makes -/
def startsPair (c : Char) (ahead : Option Char) : Bool := c == '\r' && ahead == some '\n'

/-- `---` or `...` alone at the start of a line -/
def isDocumentMark : List Char → Bool
  | '-' :: '-' :: '-' :: cs => endsWord cs.head?
  | '.' :: '.' :: '.' :: cs => endsWord cs.head?
  | _ => false

/-! ## places in a text -/

/-- how many characters, how many lines, and how many characters of the line came before -/
structure Place where
  index : Nat
  line : Nat
  column : Nat
  deriving DecidableEq, Repr, Inhabited

namespace Place

def start : Place := ⟨0, 0, 0⟩

/-- behind `n` characters of the line -/
def skip (p : Place) (n : Nat) : Place := ⟨p.index + n, p.line, p.column + n⟩

/-- behind a carriage return that makes a break together with the line feed ahead -/
def skipReturn (p : Place) : Place := ⟨p.index + 1, p.line, p.column⟩

/-- behind a break -/
def newLine (p : Place) : Place := ⟨p.index + 1, p.line + 1, 0⟩

theorem skip_zero (p : Place) : p.skip 0 = p := rfl
theorem skip_skip (p : Place) (m n : Nat) : (p.skip m).skip n = p.skip (m + n) := by
  simp [skip, Nat.add_assoc]

end Place

/-! ## gaps -/

/-- the blanks and breaks between two words of a scalar -/
inductive Gap where
  /-- no break so far -/
  | blanks (cs : List Char)
  /-- a first break, or none if it was escaped, and those after it -/
  | folded (first : List Char) (more : List Char)
  deriving DecidableEq, Repr, Inhabited

namespace Gap

def hasBreak : Gap → Bool
  | .blanks _ => false
  | .folded _ _ => true

/-- with one more blank; blanks beside a break do not count -/
def addBlank (c : Char) : Gap → Gap
  | .blanks cs => .blanks (cs ++ [c])
  | .folded f m => .folded f m

/-- with one more break -/
def addBreak (c : Char) : Gap → Gap
  | .blanks _ => .folded [breakText c] []
  | .folded f m => .folded f (m ++ [breakText c])

/-- what the gap stands for: a single line feed becomes a space, and the first of several goes -/
def text : Gap → List Char
  | .blanks cs => cs
  | .folded ['\n'] [] => [' ']
  | .folded ['\n'] m => m
  | .folded f m => f ++ m

end Gap

end ConfigReconcile.Yaml
