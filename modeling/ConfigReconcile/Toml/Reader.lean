import ConfigReconcile.Text.Quoted
import ConfigReconcile.Toml.Table

/-!
# Reading TOML

`Value.parse?` reads a document line by line: a header, a key with its value, or nothing, each
with a comment after it if wanted.  Strings come in four kinds, of one line or of several, with
escapes or without.  Arrays and tables in braces may go over lines and end with a comma, and nest
at most 80 deep.
-/

namespace ConfigReconcile.Toml

open Text Decimal

/-! ## blanks and comments -/

def isBlank (c : Char) : Bool := c = ' ' || c = '\t'

def skipBlanks (cs : List Char) : List Char := cs.dropWhile isBlank

/-- a character that may stand for itself: no control but the tab -/
def isOrdinary (c : Char) : Bool := c = '\t' || (0x20 ≤ c.toNat && c.toNat ≠ 0x7F)

/-- what follows a line break -/
def afterBreak? : List Char → Option (List Char)
  | '\n' :: cs => some cs
  | '\r' :: '\n' :: cs => some cs
  | _ => none

/-- what follows blanks and a comment: the end of the line -/
def lineEnd? (cs : List Char) : Option (List Char) :=
  match skipBlanks cs with
  | '#' :: cs =>
    match cs.dropWhile isOrdinary with
    | [] => some []
    | rest => (afterBreak? rest).map fun _ => rest
  | cs => some cs

/-- what follows the rest of a line that has nothing more to say -/
def nextLine? (cs : List Char) : Option (List Char) :=
  match lineEnd? cs with
  | none => none
  | some [] => some []
  | some rest => afterBreak? rest

/-- what follows blanks, comments and line breaks; `fuel` bounds the lines -/
def skipLines? (fuel : Nat) (cs : List Char) : Option (List Char) :=
  match fuel with
  | 0 => none
  | fuel + 1 =>
    match lineEnd? cs with
    | none => none
    | some rest =>
      match afterBreak? rest with
      | some rest => skipLines? fuel rest
      | none => some rest

/-! ## strings -/

/-- an escape after its backslash -/
def escape? : List Char → Option (Char × List Char)
  | [] => none
  | l :: cs =>
    let coded (count : Nat) : Option (Char × List Char) :=
      let ds := cs.take count
      if ds.length = count then
        ((Quoted.hexNumber? ds).bind Quoted.ofCodePoint?).map fun c => (c, cs.drop count)
      else none
    if l = 'x' then coded 2
    else if l = 'u' then coded 4
    else if l = 'U' then coded 8
    else if l ∈ ['b', 't', 'n', 'f', 'r', 'e', '"', '\\'] then
      (Quoted.ofLetter? l).map fun c => (c, cs)
    else none

/-- the characters of a string on one line up to the mark that ends it -/
def lineString? (mark : Char) (fuel : Nat) (cs : List Char) : Option (List Char × List Char) :=
  match fuel, cs with
  | 0, _ => none
  | _, [] => none
  | fuel + 1, c :: cs =>
    if c = mark then some ([], cs)
    else if c = '\\' ∧ mark = '"' then
      match escape? cs with
      | some (c, rest) => (lineString? mark fuel rest).map fun (s, rest) => (c :: s, rest)
      | none => none
    else if isOrdinary c then (lineString? mark fuel cs).map fun (s, rest) => (c :: s, rest)
    else none

/-- what follows blanks and line breaks -/
def skipSpace (fuel : Nat) (cs : List Char) : List Char :=
  match fuel with
  | 0 => cs
  | fuel + 1 =>
    match afterBreak? (skipBlanks cs) with
    | some rest => skipSpace fuel rest
    | none => skipBlanks cs

/-- the characters of a string over several lines up to the three marks that end it; one or two
more marks before those belong to the string -/
def blockString? (mark : Char) (fuel : Nat) (cs : List Char) : Option (List Char × List Char) :=
  match fuel, cs with
  | 0, _ => none
  | _, [] => none
  | fuel + 1, c :: cs =>
    let more (s : List Char) (rest : List Char) : Option (List Char × List Char) :=
      (blockString? mark fuel rest).map fun (t, rest) => (s ++ t, rest)
    if c = mark then
      let marks := (c :: cs).takeWhile (· = mark)
      let rest := (c :: cs).dropWhile (· = mark)
      if marks.length < 3 then more marks rest
      else if marks.length < 6 then some (marks.drop 3, rest)
      else none
    else if c = '\\' ∧ mark = '"' then
      match afterBreak? (skipBlanks cs) with
      | some rest => more [] (skipSpace cs.length rest)
      | none =>
        match escape? cs with
        | some (c, rest) => more [c] rest
        | none => none
    else
      match afterBreak? (c :: cs) with
      | some rest => more (if c = '\n' then ['\n'] else ['\r', '\n']) rest
      | none => if isOrdinary c then more [c] cs else none

/-- a string of any kind, or only one on a line -/
def string? (oneLine : Bool) (cs : List Char) : Option (List Char × List Char) :=
  match cs with
  | a :: cs =>
    if a = '"' ∨ a = '\'' then
      match cs with
      | b :: c :: rest =>
        if a = b ∧ b = c ∧ !oneLine then
          blockString? a (rest.length + 1) ((afterBreak? rest).getD rest)
        else lineString? a (cs.length + 1) cs
      | _ => lineString? a (cs.length + 1) cs
    else none
  | [] => none

/-! ## keys -/

def isBare (c : Char) : Bool := c.isAlphanum || c = '_' || c = '-'

/-- a key without dots -/
def simpleKey? (cs : List Char) : Option (String × List Char) :=
  match string? true cs with
  | some (s, rest) => some (String.ofList s, rest)
  | none =>
    match cs.takeWhile isBare with
    | [] => none
    | k => some (String.ofList k, cs.dropWhile isBare)

/-- keys with dots between them, and what follows the blanks after them -/
def key? (fuel : Nat) (cs : List Char) : Option (List String × List Char) :=
  match fuel with
  | 0 => none
  | fuel + 1 =>
    match simpleKey? (skipBlanks cs) with
    | none => none
    | some (k, rest) =>
      match skipBlanks rest with
      | '.' :: rest => (key? fuel rest).map fun (ks, rest) => (k :: ks, rest)
      | rest => some ([k], rest)

/-! ## values -/

/-- a character that ends a scalar -/
def isDelimiter (c : Char) : Bool :=
  isBlank c || c ∈ ['\n', '\r', ',', '#', '=', '[', ']', '\x7b', '\x7d', '"', '\'']

/-- a scalar and what follows it; one blank may stand between a date and a time of day -/
def scalar? (cs : List Char) : Option (Value × List Char) :=
  let word (cs : List Char) : List Char := cs.takeWhile fun c => !isDelimiter c
  let rest (cs : List Char) : List Char := cs.dropWhile fun c => !isDelimiter c
  let whole :=
    match rest cs with
    | ' ' :: c :: more =>
      if isDigit c ∧ afterDate? (word cs) = some [] then
        (word cs ++ ' ' :: word (c :: more), rest (c :: more))
      else (word cs, rest cs)
    | r => (word cs, r)
  (Value.ofScalar? whole.1).map fun v => (v, whole.2)

mutual

/-- a value; `levels` bounds how deep it nests, `fuel` its length -/
def value? (levels : Nat) (fuel : Nat) (cs : List Char) : Option (Value × List Char) :=
  match fuel with
  | 0 => none
  | fuel + 1 =>
    match cs with
    | [] => none
    | c :: rest =>
      if c = '"' ∨ c = '\'' then
        (string? false (c :: rest)).map fun (s, r) => (.string (String.ofList s), r)
      else if c = '[' then
        match levels with
        | 0 => none
        | levels + 1 => (items? levels fuel rest).map fun (vs, r) => (.array vs, r)
      else if c = '\x7b' then
        match levels with
        | 0 => none
        | levels + 1 =>
          (fields? levels fuel [] rest).map fun (fs, r) => (.table (Item.fieldValues fs), r)
      else scalar? (c :: rest)

/-- the items of an array up to its bracket -/
def items? (levels : Nat) (fuel : Nat) (cs : List Char) : Option (List Value × List Char) :=
  match fuel with
  | 0 => none
  | fuel + 1 =>
    match skipLines? (cs.length + 1) cs with
    | none => none
    | some (']' :: rest) => some ([], rest)
    | some rest =>
      match value? levels fuel rest with
      | none => none
      | some (v, rest) =>
        match skipLines? (rest.length + 1) rest with
        | some (',' :: rest) => (items? levels fuel rest).map fun (vs, r) => (v :: vs, r)
        | some (']' :: rest) => some ([v], rest)
        | _ => none

/-- the fields of a table in braces up to its brace -/
def fields? (levels : Nat) (fuel : Nat) (fs : Item.Fields) (cs : List Char) :
    Option (Item.Fields × List Char) :=
  match fuel with
  | 0 => none
  | fuel + 1 =>
    match skipLines? (cs.length + 1) cs with
    | none => none
    | some ('\x7d' :: rest) => some (fs, rest)
    | some rest =>
      match key? (rest.length + 1) rest with
      | some (ks, '=' :: rest) =>
        match value? levels fuel (skipBlanks rest) with
        | none => none
        | some (v, rest) =>
          match Item.assign? v ks fs with
          | none => none
          | some fs =>
            match skipLines? (rest.length + 1) rest with
            | some (',' :: rest) => fields? levels fuel fs rest
            | some ('\x7d' :: rest) => some (fs, rest)
            | _ => none
      | _ => none

end

/-! ## documents -/

/-- how deep arrays and tables in braces may nest -/
def maxLevels : Nat := 80

/-- a document so far: its tables, and the path of the last header -/
structure Progress where
  root : Item.Fields := []
  path : List String := []
  deriving Inhabited

/-- a header after its first bracket, and what follows its last one -/
def header? (p : Progress) (cs : List Char) : Option (Progress × List Char) :=
  match cs with
  | '[' :: cs =>
    match key? (cs.length + 1) cs with
    | some (ks, ']' :: ']' :: rest) =>
      (Item.openElement? ks p.root).map fun root => (⟨root, ks⟩, rest)
    | _ => none
  | cs =>
    match key? (cs.length + 1) cs with
    | some (ks, ']' :: rest) => (Item.openTable? ks p.root).map fun root => (⟨root, ks⟩, rest)
    | _ => none

/-- a key with its value, and what follows -/
def field? (p : Progress) (cs : List Char) : Option (Progress × List Char) :=
  match key? (cs.length + 1) cs with
  | some (ks, '=' :: rest) =>
    match value? maxLevels (2 * rest.length + 2) (skipBlanks rest) with
    | some (v, rest) =>
      (Item.within? (Item.assign? v ks) p.path p.root).map fun root => ({ p with root }, rest)
    | none => none
  | _ => none

/-- the lines from here on -/
def lines? (fuel : Nat) (p : Progress) (cs : List Char) : Option Progress :=
  match fuel with
  | 0 => none
  | fuel + 1 =>
    match skipLines? (cs.length + 1) cs with
    | none => none
    | some [] => some p
    | some (c :: rest) =>
      match if c = '[' then header? p rest else field? p (c :: rest) with
      | none => none
      | some (p, rest) =>
        match nextLine? rest with
        | none => none
        | some rest => lines? fuel p rest

/-- the table that a text holds; a byte order mark at its start does not count -/
def Value.parse? (text : String) : Option Value :=
  let cs :=
    match text.toList with
    | '\ufeff' :: cs => cs
    | cs => cs
  (lines? (cs.length + 1) {} cs).map fun p => .table (Item.fieldValues p.root)

end ConfigReconcile.Toml
