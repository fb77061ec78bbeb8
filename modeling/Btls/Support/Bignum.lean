import Btls.Support.Wire
import Mathlib.Data.Nat.Size

/-!
# Support — Bignum

Natural numbers as big-endian byte strings of a width that their bit length fixes, and powers modulo
a number.

A number fits in the bytes that its bit length takes (`lt_of_size_le`), so a remainder is encoded in
as many bytes as its modulus (`mod_lt_bytesFor`), whatever zeros it leads with.  `pow_mod_pow_mod`
is what two sides of an exchange of powers rely on.
-/

namespace Btls.Support

variable {n bits : Nat}

/-- The bytes that a number of `bits` bits takes. -/
def bytesFor (bits : Nat) : Nat := (bits + 7) / 8

theorem size_eq_log2 (n : Nat) : (if n = 0 then 0 else n.log2 + 1) = n.size := by
  split
  · rename_i hzero
    rw [hzero, Nat.size_zero]
  · rename_i hpos
    refine Nat.le_antisymm (Nat.lt_size.mpr (Nat.log2_self_le hpos)) (Nat.size_le.mpr ?_)
    exact Nat.lt_log2_self

theorem pow_256 (k : Nat) : 256 ^ k = 2 ^ (8 * k) := by
  rw [pow_mul]
  rfl

/-- A number fits in the bytes that its bit length takes. -/
theorem lt_of_size_le (h : n.size ≤ bits) : n < 256 ^ bytesFor bits := by
  rw [pow_256]
  refine Nat.size_le.mp (Nat.le_trans h ?_)
  rw [bytesFor]
  omega

theorem bytesFor_size_pos (h : n ≠ 0) : bytesFor n.size ≠ 0 := by
  have hsize := Nat.size_pos.mpr (Nat.pos_of_ne_zero h)
  rw [bytesFor]
  omega

/-- A remainder is encoded in as many bytes as its modulus. -/
theorem mod_lt_bytesFor (a : Nat) {p : Nat} (h : p ≠ 0) : a % p < 256 ^ bytesFor p.size :=
  Nat.lt_trans (Nat.mod_lt a (Nat.pos_of_ne_zero h)) (lt_of_size_le (Nat.le_refl _))

/-- Both orders of two exponents give the same power. -/
theorem pow_mod_pow_mod (g x y p : Nat) : (g ^ x % p) ^ y % p = g ^ (x * y) % p := by
  rw [← Nat.pow_mod, pow_mul]

end Btls.Support
