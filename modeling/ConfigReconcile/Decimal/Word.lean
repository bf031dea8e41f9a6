/-!
# Numbers that fit words

* `fits`    whether a word of so many bits, signed or unsigned, holds a number;
* `word?`   a number as an unsigned word of 64 bits.
-/

namespace ConfigReconcile.Decimal

/-- whether a signed or an unsigned word of so many bits holds a number -/
def fits (bits : Nat) (n : Int) : Bool :=
  -(Nat.pow 2 (bits - 1) : Int) ≤ n && n < (Nat.pow 2 bits : Int)

/-- the word of 64 bits that is a number -/
def word? (n : Nat) : Option UInt64 := if n < UInt64.size then some (UInt64.ofNat n) else none

theorem word?_toNat (w : UInt64) : word? w.toNat = some w := by
  rw [word?, if_pos w.toNat_lt_size, UInt64.ofNat_toNat]

end ConfigReconcile.Decimal
