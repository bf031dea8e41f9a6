/-!
# Double-quoted text on one line

* `escape`, `encode`   how a text is written between double quotes: the quote, the backslash and
                       every character that could end a line or is a control below `U+0020` are
                       escaped, all else stands for itself;
* `unescape?`          one escape, read after its backslash;
* `decode`             the text of a whole quoted spelling.
-/

namespace ConfigReconcile.Text.Quoted

/-! ## writing -/

/-- the letter that stands after the backslash for a character that has one -/
def letter? (c : Char) : Option Char :=
  if c = '"' then some '"'
  else if c = '\\' then some '\\'
  else if c = '\x08' then some 'b'
  else if c = '\t' then some 't'
  else if c = '\n' then some 'n'
  else if c = '\x0c' then some 'f'
  else if c = '\r' then some 'r'
  else if c = '\u0085' then some 'N'
  else if c = '\u2028' then some 'L'
  else if c = '\u2029' then some 'P'
  else none

/-- a hexadecimal digit in lower case -/
def hexDigit (n : Nat) : Char := if n < 10 then Char.ofNat (48 + n) else Char.ofNat (87 + n)

/-- one character between the quotes -/
def escape (c : Char) : List Char :=
  match letter? c with
  | some l => ['\\', l]
  | none =>
    if c.toNat < 0x20 then ['\\', 'u', '0', '0', hexDigit (c.toNat / 16), hexDigit (c.toNat % 16)]
    else [c]

/-- the characters between the quotes -/
def body (s : List Char) : List Char := s.flatMap escape

/-- a text in double quotes -/
def encode (s : List Char) : List Char := '"' :: (body s ++ ['"'])

theorem body_nil : body [] = [] := rfl
theorem body_cons (c : Char) (s : List Char) : body (c :: s) = escape c ++ body s := by
  simp [body]

/-! ## reading -/

/-- what a letter after a backslash stands for -/
def ofLetter? : Char → Option Char
  | '0' => some '\x00'
  | 'a' => some '\x07'
  | 'b' => some '\x08'
  | 't' => some '\t'
  | '\t' => some '\t'
  | 'n' => some '\n'
  | 'v' => some '\x0b'
  | 'f' => some '\x0c'
  | 'r' => some '\r'
  | 'e' => some '\x1b'
  | ' ' => some ' '
  | '"' => some '"'
  | '/' => some '/'
  | '\\' => some '\\'
  | 'N' => some '\u0085'
  | '_' => some '\u00a0'
  | 'L' => some '\u2028'
  | 'P' => some '\u2029'
  | _ => none

/-- how many hexadecimal digits follow a letter -/
def digitCount? : Char → Option Nat
  | 'x' => some 2
  | 'u' => some 4
  | 'U' => some 8
  | _ => none

/-- the value of a hexadecimal digit in either case -/
def hexValue? (c : Char) : Option Nat :=
  let n := c.toNat
  if 48 ≤ n ∧ n ≤ 57 then some (n - 48)
  else if 97 ≤ n ∧ n ≤ 102 then some (n - 87)
  else if 65 ≤ n ∧ n ≤ 70 then some (n - 55)
  else none

/-- the number that hexadecimal digits spell, most significant first -/
def hexNumber? (cs : List Char) : Option Nat :=
  cs.foldlM (fun n c => (hexValue? c).map (16 * n + ·)) 0

/-- the character with a code point, unless it is a surrogate or out of range -/
def ofCodePoint? (n : Nat) : Option Char :=
  if h : n.isValidChar then some (Char.ofNatAux n h) else none

/-- the character of an escape, and what follows it; the backslash is already read -/
def unescape? : List Char → Option (Char × List Char)
  | [] => none
  | l :: cs =>
    match ofLetter? l with
    | some c => some (c, cs)
    | none =>
      match digitCount? l with
      | none => none
      | some n =>
        if cs.length < n then none
        else
          match (hexNumber? (cs.take n)).bind ofCodePoint? with
          | none => none
          | some c => some (c, cs.drop n)

theorem length_of_unescape? {cs rest : List Char} {c : Char} (h : unescape? cs = some (c, rest)) :
    rest.length < cs.length := by
  cases cs with
  | nil => simp [unescape?] at h
  | cons l cs =>
    simp only [unescape?] at h
    split at h
    · simp only [Option.some.injEq, Prod.mk.injEq] at h
      simp [h.2.symm]
    · split at h
      · simp at h
      · split at h
        · simp at h
        · split at h
          · simp at h
          · simp only [Option.some.injEq, Prod.mk.injEq] at h
            simp only [h.2.symm, List.length_drop, List.length_cons]
            omega

/-- the text up to the closing quote, which has to come last -/
def decodeBody (cs : List Char) : Option (List Char) :=
  match cs with
  | [] => none
  | c :: cs =>
    if c = '"' then (if cs = [] then some [] else none)
    else if c = '\\' then
      match h : unescape? cs with
      | none => none
      | some (c, rest) =>
        have : rest.length < cs.length := length_of_unescape? h
        (decodeBody rest).map (c :: ·)
    else (decodeBody cs).map (c :: ·)
  termination_by cs.length

/-- the text of a double-quoted spelling -/
def decode : List Char → Option (List Char)
  | [] => none
  | c :: cs => if c = '"' then decodeBody cs else none

end ConfigReconcile.Text.Quoted
