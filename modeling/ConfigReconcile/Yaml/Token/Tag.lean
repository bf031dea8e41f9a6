import ConfigReconcile.Text.Quoted
import ConfigReconcile.Yaml.Char
import ConfigReconcile.Yaml.Token
import ConfigReconcile.Yaml.Fault

/-!
# Names, tags and directives

These tokens stand on one line.  Each reader gives its token and what follows it.

* `scanName`        an anchor or an alias, after its mark;
* `scanTag`         a tag: `!<uri>`, `!suffix` or `!handle!suffix`;
* `scanDirective`   a line that starts with `%`.
-/

namespace ConfigReconcile.Yaml

open Text

/-! ## anchors -/

/-- the name of an anchor or alias; what follows has to set it off -/
def scanName (cs : List Char) : Except Fault (String × List Char) :=
  let name := cs.takeWhile isNameChar
  let rest := cs.dropWhile isNameChar
  if name ≠ [] && (endsWord rest.head? ||
      rest.head?.any [':', '?', ',', ']', '\x7d', '%', '@', Char.ofNat 96].contains) then
    .ok (String.ofList name, rest)
  else .error .badAnchor

/-! ## tags -/

/-- how many bytes a character takes whose first byte this is -/
def octets? (b : Nat) : Option Nat :=
  if b < 0x80 then some 1
  else if b / 0x20 = 6 then some 2
  else if b / 0x10 = 14 then some 3
  else if b / 0x08 = 30 then some 4
  else none

/-- the bytes of the longest run of tag characters and `%` escapes; `due` is how many bytes of an
escaped character are missing, and commas and square brackets count if `withFlow` -/
def scanUri (withFlow : Bool) (due : Nat) : List Char → Except Fault (Bytes × List Char)
  | '%' :: a :: b :: cs =>
    match Quoted.hexNumber? [a, b] with
    | none => .error .badTag
    | some n =>
      let due? :=
        if due = 0 then (octets? n).map (· - 1)
        else if n / 0x40 = 2 then some (due - 1)
        else none
      match due? with
      | none => .error .badTag
      | some due => do
        let (bytes, rest) ← scanUri withFlow due cs
        return (UInt8.ofNat n :: bytes, rest)
  | c :: cs =>
    if due ≠ 0 || c == '%' then .error .badTag
    else if isUriChar c || (withFlow && (c == ',' || c == '[' || c == ']')) then do
      let (bytes, rest) ← scanUri withFlow 0 cs
      return (UInt8.ofNat c.toNat :: bytes, rest)
    else .ok ([], c :: cs)
  | [] => if due = 0 then .ok ([], []) else .error .badTag

/-- bytes up to the first zero -/
def untilZero (bytes : Bytes) : Bytes := bytes.takeWhile (· ≠ 0)

/-- a handle after its first `!`: the name characters, and the `!` that closes it if there is one -/
def scanHandle (cs : List Char) : List Char × Bool × List Char :=
  let name := cs.takeWhile isNameChar
  match cs.dropWhile isNameChar with
  | '!' :: rest => (name, true, rest)
  | rest => (name, false, rest)

/-- the bytes of ASCII characters -/
def asciiBytes (cs : List Char) : Bytes := cs.map fun c => UInt8.ofNat c.toNat

/-- a tag as handle and suffix, after its `!`; a tag without a handle of its own has the handle `!`,
and none at all if it is verbatim or nothing but `!` -/
def scanTagParts (cs : List Char) : Except Fault (String × Bytes × List Char) :=
  match cs with
  | '<' :: cs => do
    let (bytes, rest) ← scanUri true 0 cs
    match rest with
    | '>' :: rest => if bytes = [] then .error .badTag else .ok ("", untilZero bytes, rest)
    | _ => .error .badTag
  | cs => do
    let (name, closed, rest) := scanHandle cs
    let (bytes, after) ← scanUri false 0 rest
    if closed then
      if bytes = [] then .error .badTag
      else .ok (String.ofList ('!' :: name ++ ['!']), untilZero bytes, after)
    else
      match untilZero (asciiBytes name ++ bytes) with
      | [] => .ok ("", asciiBytes ['!'], after)
      | suffix => .ok ("!", suffix, after)

/-- a tag after its `!`; a blank or the end of the line follows, or a comma in a flow collection -/
def scanTag (inFlow : Bool) (cs : List Char) : Except Fault (Token × List Char) := do
  let (handle, suffix, rest) ← scanTagParts cs
  if endsWord rest.head? || (inFlow && rest.head? == some ',') then
    return (.tag handle suffix, rest)
  else .error .badTag

/-! ## directives -/

/-- a number of a version, at most nine digits -/
def scanVersionNumber (cs : List Char) : Except Fault (Nat × List Char) :=
  let digits := cs.takeWhile Char.isDigit
  if digits = [] || 9 < digits.length then .error .badDirective
  else .ok (digits.foldl (fun n c => 10 * n + (c.toNat - 48)) 0, cs.dropWhile Char.isDigit)

/-- what follows `%YAML` -/
def scanVersion (cs : List Char) : Except Fault (Token × List Char) := do
  let (major, rest) ← scanVersionNumber (cs.dropWhile isBlank)
  match rest with
  | '.' :: rest => do
    let (minor, rest) ← scanVersionNumber rest
    return (.version major minor, rest)
  | _ => .error .badDirective

/-- what follows `%TAG` -/
def scanTagDirective (cs : List Char) : Except Fault (Token × List Char) :=
  match cs.dropWhile isBlank with
  | '!' :: cs => do
    let (name, closed, rest) := scanHandle cs
    if name ≠ [] && !closed then throw .badDirective
    if !rest.head?.any isBlank then throw .badDirective
    let (bytes, after) ← scanUri true 0 (rest.dropWhile isBlank)
    if bytes = [] || !endsWord after.head? then throw .badDirective
    let handle := String.ofList ('!' :: name ++ (if closed then ['!'] else []))
    return (.tagDirective handle (untilZero bytes), after)
  | _ => .error .badDirective

/-- the end of a directive's line: blanks, and a comment if there is one -/
def endOfDirective (cs : List Char) : Except Fault (List Char) :=
  let rest := cs.dropWhile isBlank
  let rest := if rest.head? == some '#' then rest.dropWhile (fun c => !isBreak c) else rest
  if endsLine rest.head? then .ok rest else .error .badDirective

/-- a directive after its `%`, up to the end of its line -/
def scanDirective (cs : List Char) : Except Fault (Token × List Char) := do
  let name := cs.takeWhile isNameChar
  let rest := cs.dropWhile isNameChar
  if !endsWord rest.head? then throw .badDirective
  let (token, rest) ←
    if name = "YAML".toList then scanVersion rest
    else if name = "TAG".toList then scanTagDirective rest
    else .error .badDirective
  return (token, ← endOfDirective rest)

end ConfigReconcile.Yaml
