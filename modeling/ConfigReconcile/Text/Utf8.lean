/-!
# UTF-8

* `step`      what the first bytes of a list are: a character, or a fault;
* `decode`    the characters of a list of bytes, or where the first fault is and how many bytes it
              takes;
* `repair`    the same with `U+FFFD` in the place of every fault;
* `encode`    the bytes of a text.

A fault takes the bytes that could have begun a character, and at least one.
-/

namespace ConfigReconcile.Text

abbrev Bytes := List UInt8

namespace Utf8

/-- where decoding stopped -/
structure Fault where
  /-- how many bytes before it are well formed -/
  index : Nat
  /-- how many bytes it takes; none if the bytes end within a character -/
  length? : Option Nat
  deriving DecidableEq, Repr, Inhabited

/-- the wording of a fault -/
def Fault.message (f : Fault) : String :=
  match f.length? with
  | some n => s!"invalid utf-8 sequence of {n} bytes from index {f.index}"
  | none => s!"incomplete utf-8 byte sequence from index {f.index}"

/-- what a list of bytes begins with -/
inductive Step where
  | done
  | char (c : Char) (width : Nat) (rest : Bytes)
  | invalid (length : Nat)
  | incomplete

/-- how many bytes a first byte asks for -/
def width? (b : Nat) : Option Nat :=
  if b < 0x80 then some 1
  else if 0xC2 ≤ b ∧ b ≤ 0xDF then some 2
  else if 0xE0 ≤ b ∧ b ≤ 0xEF then some 3
  else if 0xF0 ≤ b ∧ b ≤ 0xF4 then some 4
  else none

/-- a second byte that can follow a first one: some first bytes leave out overlong forms,
surrogates and what is beyond `U+10FFFF` -/
def follows (first second : Nat) : Bool :=
  if first = 0xE0 then 0xA0 ≤ second && second ≤ 0xBF
  else if first = 0xED then 0x80 ≤ second && second ≤ 0x9F
  else if first = 0xF0 then 0x90 ≤ second && second ≤ 0xBF
  else if first = 0xF4 then 0x80 ≤ second && second ≤ 0x8F
  else 0x80 ≤ second && second ≤ 0xBF

def isContinuation (b : Nat) : Bool := 0x80 ≤ b && b ≤ 0xBF

/-- the first character of a list of bytes, or the fault it begins with -/
def step (bytes : Bytes) : Step :=
  match bytes with
  | [] => .done
  | a :: r1 =>
    let a := a.toNat
    match width? a with
    | none => .invalid 1
    | some 1 => .char (Char.ofNat a) 1 r1
    | some w =>
      match r1 with
      | [] => .incomplete
      | b :: r2 =>
        let b := b.toNat
        if !follows a b then .invalid 1
        else if w = 2 then .char (Char.ofNat ((a - 0xC0) * 0x40 + (b - 0x80))) 2 r2
        else
          match r2 with
          | [] => .incomplete
          | c :: r3 =>
            let c := c.toNat
            if !isContinuation c then .invalid 2
            else if w = 3 then
              .char (Char.ofNat ((a - 0xE0) * 0x1000 + (b - 0x80) * 0x40 + (c - 0x80))) 3 r3
            else
              match r3 with
              | [] => .incomplete
              | d :: r4 =>
                let d := d.toNat
                if !isContinuation d then .invalid 3
                else
                  .char (Char.ofNat ((a - 0xF0) * 0x40000 + (b - 0x80) * 0x1000 +
                    (c - 0x80) * 0x40 + (d - 0x80))) 4 r4

theorem length_of_step {bytes rest : Bytes} {c : Char} {w : Nat}
    (h : step bytes = .char c w rest) : rest.length < bytes.length := by
  unfold step at h
  split at h
  · simp at h
  · simp only at h
    repeat' split at h
    all_goals simp only [reduceCtorEq, Step.char.injEq] at h
    all_goals
      obtain ⟨_, _, rfl⟩ := h
      simp only [List.length_cons]
    all_goals omega

/-- the characters of well-formed bytes; `index` counts the bytes before these -/
def decodeFrom (index : Nat) (bytes : Bytes) : Except Fault (List Char) :=
  match h : step bytes with
  | .done => .ok []
  | .char c w rest =>
    have : rest.length < bytes.length := length_of_step h
    (decodeFrom (index + w) rest).map (c :: ·)
  | .invalid n => .error ⟨index, some n⟩
  | .incomplete => .error ⟨index, none⟩
  termination_by bytes.length

/-- the text of well-formed bytes -/
def decode (bytes : Bytes) : Except Fault String := (decodeFrom 0 bytes).map String.ofList

/-- the characters of any bytes -/
def repairChars (bytes : Bytes) : List Char :=
  match h : step bytes with
  | .done => []
  | .char c _ rest =>
    have : rest.length < bytes.length := length_of_step h
    c :: repairChars rest
  | .invalid n =>
    have : (bytes.drop (max n 1)).length < bytes.length := by
      cases bytes with
      | nil => simp [step] at h
      | cons b bs => simp only [List.length_drop, List.length_cons]; omega
    '\ufffd' :: repairChars (bytes.drop (max n 1))
  | .incomplete => ['\ufffd']
  termination_by bytes.length

/-- the text of any bytes -/
def repair (bytes : Bytes) : String := String.ofList (repairChars bytes)

/-- the bytes of a text -/
def encode (s : String) : Bytes := s.toList.flatMap String.utf8EncodeChar

end Utf8

end ConfigReconcile.Text
