import Mathlib.Tactic.Common

/-!
# Support — Bytes

Byte strings, and the two-byte big-endian lengths of network formats.
-/

namespace Btls.Support

abbrev Bytes := List UInt8

/-- The low 16 bits of `n`, high byte first. -/
def be16 (n : Nat) : Bytes := [UInt8.ofNat (n / 256), UInt8.ofNat n]

/-- The number of two bytes, high byte first. -/
def readBe16 (hi lo : UInt8) : Nat := hi.toNat * 256 + lo.toNat

@[simp] theorem length_be16 (n : Nat) : (be16 n).length = 2 := rfl

theorem readBe16_be16 {n : Nat} (h : n < 65536) :
    readBe16 (UInt8.ofNat (n / 256)) (UInt8.ofNat n) = n := by
  simp only [readBe16, UInt8.toNat_ofNat']
  omega

end Btls.Support
