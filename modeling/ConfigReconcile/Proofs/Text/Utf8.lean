import ConfigReconcile.Text.Utf8
import Mathlib.Tactic.SplitIfs

/-!
# Reading back the bytes of a text

* `step_utf8EncodeChar`   the bytes of a character are read as that character;
* `decode_encode`         a text is what its bytes are read as.
-/

namespace ConfigReconcile.Text.Utf8

/-! ## the bytes of a number -/

theorem isContinuation_low (n : Nat) : isContinuation (n % 64 + 128) := by
  simp only [isContinuation, Bool.and_eq_true, decide_eq_true_eq]
  omega

/-- a second byte is a continuation, and after four first bytes some are left out -/
theorem follows_iff {a b : Nat} : follows a b ↔
    0x80 ≤ b ∧ b ≤ 0xBF ∧ (a = 0xE0 → 0xA0 ≤ b) ∧ (a = 0xED → b ≤ 0x9F) ∧
      (a = 0xF0 → 0x90 ≤ b) ∧ (a = 0xF4 → b ≤ 0x8F) := by
  unfold follows
  split_ifs <;> simp only [Bool.and_eq_true, decide_eq_true_eq] <;> omega

section step

variable {v : Nat} {rest : Bytes}

theorem step_one (h : v ≤ 0x7F) : step (UInt8.ofNat v :: rest) = .char (Char.ofNat v) 1 rest := by
  have hw : width? v = some 1 := if_pos (by omega)
  simp only [step, UInt8.toNat_ofNat_of_lt' (show v < 256 by omega), hw]

theorem step_two (h : 0x7F < v) (h' : v ≤ 0x7FF) :
    step (UInt8.ofNat (v / 64 % 32 + 192) :: UInt8.ofNat (v % 64 + 128) :: rest) =
      .char (Char.ofNat v) 2 rest := by
  have ha := UInt8.toNat_ofNat_of_lt' (show v / 64 % 32 + 192 < 256 by omega)
  have hb := UInt8.toNat_ofNat_of_lt' (show v % 64 + 128 < 256 by omega)
  have hw : width? (v / 64 % 32 + 192) = some 2 := by
    rw [width?, if_neg (by omega), if_pos (by omega)]
  have hf : follows (v / 64 % 32 + 192) (v % 64 + 128) := follows_iff.2 (by omega)
  have hv : (v / 64 % 32 + 192 - 0xC0) * 0x40 + (v % 64 + 128 - 0x80) = v := by omega
  simp only [step, ha, hb, hw, hf, hv, Bool.not_true, Bool.false_eq_true, if_false, if_true]

/-- neither overlong nor a surrogate, so nothing keeps the second byte out -/
theorem step_three (hv : v.isValidChar) (h : 0x7FF < v) (h' : v ≤ 0xFFFF) :
    step (UInt8.ofNat (v / 4096 % 16 + 224) :: UInt8.ofNat (v / 64 % 64 + 128) ::
      UInt8.ofNat (v % 64 + 128) :: rest) = .char (Char.ofNat v) 3 rest := by
  have ha := UInt8.toNat_ofNat_of_lt' (show v / 4096 % 16 + 224 < 256 by omega)
  have hb := UInt8.toNat_ofNat_of_lt' (show v / 64 % 64 + 128 < 256 by omega)
  have hc := UInt8.toNat_ofNat_of_lt' (show v % 64 + 128 < 256 by omega)
  have hw : width? (v / 4096 % 16 + 224) = some 3 := by
    rw [width?, if_neg (by omega), if_neg (by omega), if_pos (by omega)]
  have hf : follows (v / 4096 % 16 + 224) (v / 64 % 64 + 128) := by
    have hv : v < 55296 ∨ 57343 < v ∧ v < 1114112 := hv
    exact follows_iff.2 (by omega)
  have hv : (v / 4096 % 16 + 224 - 0xE0) * 0x1000 + (v / 64 % 64 + 128 - 0x80) * 0x40 +
      (v % 64 + 128 - 0x80) = v := by omega
  simp only [step, ha, hb, hc, hw, hf, hv, isContinuation_low, Bool.not_true, Bool.false_eq_true,
    if_false, if_true, show ¬3 = 2 by decide]

theorem step_four (hv : v.isValidChar) (h : 0xFFFF < v) :
    step (UInt8.ofNat (v / 262144 % 8 + 240) :: UInt8.ofNat (v / 4096 % 64 + 128) ::
      UInt8.ofNat (v / 64 % 64 + 128) :: UInt8.ofNat (v % 64 + 128) :: rest) =
      .char (Char.ofNat v) 4 rest := by
  have hv : v < 55296 ∨ 57343 < v ∧ v < 1114112 := hv
  have ha := UInt8.toNat_ofNat_of_lt' (show v / 262144 % 8 + 240 < 256 by omega)
  have hb := UInt8.toNat_ofNat_of_lt' (show v / 4096 % 64 + 128 < 256 by omega)
  have hc := UInt8.toNat_ofNat_of_lt' (show v / 64 % 64 + 128 < 256 by omega)
  have hd := UInt8.toNat_ofNat_of_lt' (show v % 64 + 128 < 256 by omega)
  have hw : width? (v / 262144 % 8 + 240) = some 4 := by
    rw [width?, if_neg (by omega), if_neg (by omega), if_neg (by omega), if_pos (by omega)]
  have hf : follows (v / 262144 % 8 + 240) (v / 4096 % 64 + 128) := follows_iff.2 (by omega)
  have hv : (v / 262144 % 8 + 240 - 0xF0) * 0x40000 + (v / 4096 % 64 + 128 - 0x80) * 0x1000 +
      (v / 64 % 64 + 128 - 0x80) * 0x40 + (v % 64 + 128 - 0x80) = v := by omega
  simp only [step, ha, hb, hc, hd, hw, hf, hv, isContinuation_low, Bool.not_true,
    Bool.false_eq_true, if_false, show ¬4 = 2 by decide, show ¬4 = 3 by decide]

end step

theorem step_utf8EncodeChar (c : Char) (rest : Bytes) :
    ∃ w, step (String.utf8EncodeChar c ++ rest) = .char c w rest := by
  have hv : c.val.toNat.isValidChar := c.valid
  have hc : Char.ofNat c.val.toNat = c := Char.ofNat_toNat c
  rw [String.utf8EncodeChar.eq_1]
  generalize c.val.toNat = v at hv hc
  rw [← hc]
  split_ifs with h1 h2 h3
  · exact ⟨1, step_one h1⟩
  · exact ⟨2, step_two (by omega) h2⟩
  · exact ⟨3, step_three hv (by omega) h3⟩
  · exact ⟨4, step_four hv (by omega)⟩

/-! ## a text -/

theorem decodeFrom_nil (i : Nat) : decodeFrom i [] = .ok [] := by
  unfold decodeFrom
  rfl

theorem decodeFrom_of_step {bytes rest : Bytes} {c : Char} {w : Nat} (i : Nat)
    (h : step bytes = .char c w rest) :
    decodeFrom i bytes = (decodeFrom (i + w) rest).map (c :: ·) := by
  rw [decodeFrom]
  split <;> simp_all

theorem decodeFrom_flatMap (cs : List Char) (i : Nat) :
    decodeFrom i (cs.flatMap String.utf8EncodeChar) = .ok cs := by
  induction cs generalizing i with
  | nil => exact decodeFrom_nil i
  | cons c cs ih =>
    obtain ⟨w, hw⟩ := step_utf8EncodeChar c (cs.flatMap String.utf8EncodeChar)
    rw [List.flatMap_cons, decodeFrom_of_step i hw, ih]
    rfl

/-- a text is what its bytes are read as -/
theorem decode_encode (s : String) : decode (encode s) = .ok s := by
  rw [decode, encode, decodeFrom_flatMap]
  exact congrArg Except.ok String.ofList_toList

end ConfigReconcile.Text.Utf8
