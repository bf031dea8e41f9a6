import ConfigReconcile.Json.Value
import ConfigReconcile.Decimal.Numeral
import ConfigReconcile.Decimal.Word

/-!
# Reading JSON

`Value.parse? levels text` reads one value with blanks around it.  `levels` bounds how deep arrays
and objects nest; `parse?` without a bound of its own allows 127.

Whole numbers beyond 64 bits, and all numbers with a point or an exponent, become doubles.  They
are computed as they are read: the digits that fit 64 bits make a whole number, and that is
multiplied or divided by a power of ten in double arithmetic (`Number.scaled?`), so the last digit
may differ from the nearest double's.
-/

namespace ConfigReconcile.Json

open Text Decimal

/-! ## numbers -/

namespace Number

/-- the greatest unsigned number of 64 bits -/
def maxWord : Nat := UInt64.size - 1

/-- a power of ten as a double -/
def powerOfTen (k : Nat) : Binary64 := .ofDecimal false 1 k

/-- `x * 10^exponent` for a finite `x`, by steps of at most `10^308`; nothing if it grows beyond
the doubles.  `fuel` bounds the steps down, of which three already reach zero. -/
def scaleBy? (fuel : Nat) (x : Binary64) (exponent : Int) : Option Binary64 :=
  if exponent.natAbs ≤ 308 then
    if 0 ≤ exponent then
      let y := x.mul (powerOfTen exponent.toNat)
      if y.isFinite then some y else none
    else some (x.div (powerOfTen exponent.natAbs))
  else if x.isZero then some x
  else if 0 ≤ exponent then none
  else
    match fuel with
    | 0 => some x
    | fuel + 1 => scaleBy? fuel (x.div (powerOfTen 308)) (exponent + 308)

/-- the double for `significand * 10^exponent` -/
def scaled? (neg : Bool) (significand : Nat) (exponent : Int) : Option Number :=
  (scaleBy? 8 (.ofRatio false significand 1) exponent).map fun x =>
    .real (if neg then x.negate else x)

/-- takes digits into a number as long as it fits 64 bits: the number, how many digits went in,
and the rest, which starts with a digit only if that one did not fit -/
def takeDigits (n : Nat) (count : Nat) : List Char → Nat × Nat × List Char
  | [] => (n, count, [])
  | c :: cs =>
    match digitBelow? 10 c with
    | none => (n, count, c :: cs)
    | some d =>
      if maxWord < 10 * n + d then (n, count, c :: cs)
      else takeDigits (10 * n + d) (count + 1) cs

/-- the exponent after its mark, and the end of the number -/
def withExponent? (neg : Bool) (significand : Nat) (start : Int) (cs : List Char) :
    Option (Number × List Char) :=
  let (down, ds) := sign cs
  let exponent := ds.takeWhile isDigit
  let rest := ds.dropWhile isDigit
  match digits? 10 exponent with
  | none => none
  | some e =>
    if Nat.pow 2 31 ≤ e then
      if significand ≠ 0 ∧ !down then none else some (.real (.zero neg), rest)
    else (scaled? neg significand (if down then start - e else start + e)).map fun n => (n, rest)

/-- an exponent, if there is one, and the end of the number -/
def finish? (neg : Bool) (significand : Nat) (exponent : Int) :
    List Char → Option (Number × List Char)
  | 'e' :: cs => withExponent? neg significand exponent cs
  | 'E' :: cs => withExponent? neg significand exponent cs
  | cs => (scaled? neg significand exponent).map fun n => (n, cs)

/-- the digits behind the point; those that do not fit are dropped -/
def withFraction? (neg : Bool) (significand : Nat) (exponent : Int) (cs : List Char) :
    Option (Number × List Char) :=
  match cs with
  | [] => none
  | c :: _ =>
    if isDigit c then
      let (n, count, rest) := takeDigits significand 0 cs
      finish? neg n (exponent - count) (rest.dropWhile isDigit)
    else none

/-- a number after its sign -/
def unsigned? (neg : Bool) (cs : List Char) : Option (Number × List Char) :=
  let word (n : Nat) (rest : List Char) : Option (Number × List Char) :=
    match rest with
    | '.' :: rest => withFraction? neg n 0 rest
    | 'e' :: _ => finish? neg n 0 rest
    | 'E' :: _ => finish? neg n 0 rest
    | _ =>
      if !neg then some (.natural n, rest)
      else if 0 < n ∧ fits 64 (-(n : Int)) then some (.negative n, rest)
      else some (.real (Binary64.ofRatio true n 1), rest)
  match cs with
  | '0' :: rest =>
    match rest with
    | c :: _ => if isDigit c then none else word 0 rest
    | [] => word 0 rest
  | c :: _ =>
    if isDigit c then
      let (n, _, rest) := takeDigits 0 0 cs
      -- a digit that does not fit makes the number a double, and counts only as a place
      let dropped := rest.takeWhile isDigit
      if dropped = [] then word n rest
      else
        match rest.dropWhile isDigit with
        | '.' :: rest => withFraction? neg n dropped.length rest
        | rest => finish? neg n dropped.length rest
    else none
  | [] => none

/-- a number at the start of a text -/
def parse? : List Char → Option (Number × List Char)
  | '-' :: cs => unsigned? true cs
  | cs => unsigned? false cs

end Number

/-! ## strings -/

/-- four hexadecimal digits -/
def codeUnit? (cs : List Char) : Option (Nat × List Char) :=
  match cs with
  | a :: b :: c :: d :: rest => (Quoted.hexNumber? [a, b, c, d]).map fun n => (n, rest)
  | _ => none

/-- the character of `\u` escapes: two of them for a code point beyond 16 bits -/
def unicodeEscape? (cs : List Char) : Option (Char × List Char) :=
  match codeUnit? cs with
  | none => none
  | some (n, rest) =>
    if 0xD800 ≤ n ∧ n < 0xDC00 then
      match rest with
      | '\\' :: 'u' :: rest =>
        match codeUnit? rest with
        | none => none
        | some (m, rest) =>
          if 0xDC00 ≤ m ∧ m < 0xE000 then
            (Quoted.ofCodePoint? (0x10000 + (n - 0xD800) * 0x400 + (m - 0xDC00))).map
              fun c => (c, rest)
          else none
      | _ => none
    else (Quoted.ofCodePoint? n).map fun c => (c, rest)

/-- an escape after its backslash -/
def escape? : List Char → Option (Char × List Char)
  | [] => none
  | l :: cs =>
    if l = 'u' then unicodeEscape? cs
    else if l ∈ ['"', '\\', '/', 'b', 'f', 'n', 'r', 't'] then
      (Quoted.ofLetter? l).map fun c => (c, cs)
    else none

/-- the characters up to the closing quote; `fuel` is at least their number -/
def stringBody? (fuel : Nat) (cs : List Char) : Option (List Char × List Char) :=
  match fuel with
  | 0 => none
  | fuel + 1 =>
    match cs with
    | [] => none
    | c :: cs =>
      if c = '"' then some ([], cs)
      else if c = '\\' then
        match escape? cs with
        | none => none
        | some (c, rest) => (stringBody? fuel rest).map fun (s, rest) => (c :: s, rest)
      else if c.toNat < 0x20 then none
      else (stringBody? fuel cs).map fun (s, rest) => (c :: s, rest)

/-! ## values -/

def isBlank (c : Char) : Bool := c == ' ' || c == '\n' || c == '\t' || c == '\r'

def skipBlanks (cs : List Char) : List Char := cs.dropWhile isBlank

/-- what stands behind a given word -/
def afterWord? (word : List Char) (cs : List Char) : Option (List Char) :=
  if word.isPrefixOf cs then some (cs.drop word.length) else none

/-- a string with its quotes -/
def string? (cs : List Char) : Option (String × List Char) :=
  match cs with
  | '"' :: cs => (stringBody? (cs.length + 1) cs).map fun (s, rest) => (String.ofList s, rest)
  | _ => none

mutual

/-- a value after the blanks before it; `fuel` bounds the length of the text -/
def value? (levels : Nat) (fuel : Nat) (cs : List Char) : Option (Value × List Char) :=
  match fuel with
  | 0 => none
  | fuel + 1 =>
    match skipBlanks cs with
    | [] => none
    | c :: rest =>
      if c = 'n' then (afterWord? ['u', 'l', 'l'] rest).map fun r => (.null, r)
      else if c = 't' then (afterWord? ['r', 'u', 'e'] rest).map fun r => (.bool true, r)
      else if c = 'f' then (afterWord? ['a', 'l', 's', 'e'] rest).map fun r => (.bool false, r)
      else if c = '"' then (string? (c :: rest)).map fun (s, r) => (.string s, r)
      else if c = '[' then
        match levels with
        | 0 => none
        | levels + 1 => (items? levels fuel true rest).map fun (vs, r) => (.array vs, r)
      else if c = '\x7b' then
        match levels with
        | 0 => none
        | levels + 1 => (fields? levels fuel true rest).map fun (fs, r) => (.ofFields fs, r)
      else (Number.parse? (c :: rest)).map fun (n, r) => (.number n, r)

/-- the items of an array up to its bracket; `first` says that none came before -/
def items? (levels : Nat) (fuel : Nat) (first : Bool) (cs : List Char) :
    Option (List Value × List Char) :=
  match fuel with
  | 0 => none
  | fuel + 1 =>
    let item (cs : List Char) : Option (List Value × List Char) :=
      match value? levels fuel cs with
      | none => none
      | some (v, rest) => (items? levels fuel false rest).map fun (vs, r) => (v :: vs, r)
    match skipBlanks cs with
    | [] => none
    | c :: rest =>
      if c = ']' then some ([], rest)
      else if first then item (c :: rest)
      else if c = ',' then item rest
      else none

/-- the fields of an object up to its brace -/
def fields? (levels : Nat) (fuel : Nat) (first : Bool) (cs : List Char) :
    Option (List (String × Value) × List Char) :=
  match fuel with
  | 0 => none
  | fuel + 1 =>
    let field (cs : List Char) : Option (List (String × Value) × List Char) :=
      match string? (skipBlanks cs) with
      | none => none
      | some (k, rest) =>
        match skipBlanks rest with
        | ':' :: rest =>
          match value? levels fuel rest with
          | none => none
          | some (v, rest) => (fields? levels fuel false rest).map fun (fs, r) => ((k, v) :: fs, r)
        | _ => none
    match skipBlanks cs with
    | [] => none
    | c :: rest =>
      if c = '\x7d' then some ([], rest)
      else if first then field (c :: rest)
      else if c = ',' then field rest
      else none

end

/-- the value that a text holds, its containers nested at most `levels` deep -/
def Value.parseWithin? (levels : Nat) (text : String) : Option Value :=
  let cs := text.toList
  match value? levels (2 * cs.length + 2) cs with
  | none => none
  | some (v, rest) => if skipBlanks rest = [] then some v else none

/-- the value that a text holds -/
def Value.parse? (text : String) : Option Value := Value.parseWithin? 127 text

end ConfigReconcile.Json
