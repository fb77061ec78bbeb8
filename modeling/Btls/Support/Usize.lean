import Mathlib.Tactic.Common

/-!
# Support — Usize

Arithmetic on 64-bit sizes, over `Nat`: the saturating operations clamp at `usizeMax`, the checked
ones return `none` past it.

`divCeil a d` is how many pieces of at most `d` make up `a`: where `k` of them do not hold it there are
more (`lt_divCeil`), all but the last are full (`divCeil_mul_lt`), and full ones count one each
(`divCeil_mul_add`).
-/

namespace Btls.Support

/-- `usize::MAX`, and C's `SIZE_MAX`, on a 64-bit target. -/
def usizeMax : Nat := 0xFFFFFFFFFFFFFFFF

def saturatingAdd (a b : Nat) : Nat := min (a + b) usizeMax

def saturatingMul (a b : Nat) : Nat := min (a * b) usizeMax

def checkedAdd (a b : Nat) : Option Nat := if a + b ≤ usizeMax then some (a + b) else none

def checkedMul (a b : Nat) : Option Nat := if a * b ≤ usizeMax then some (a * b) else none

/-- `a.div_ceil(b)`. -/
def divCeil (a b : Nat) : Nat := (a + b - 1) / b

theorem checkedAdd_eq_some {a b c : Nat} :
    checkedAdd a b = some c ↔ a + b ≤ usizeMax ∧ c = a + b := by
  unfold checkedAdd
  by_cases h : a + b ≤ usizeMax
  · simp [h, eq_comm]
  · simp [h]

theorem checkedMul_eq_some {a b c : Nat} :
    checkedMul a b = some c ↔ a * b ≤ usizeMax ∧ c = a * b := by
  unfold checkedMul
  by_cases h : a * b ≤ usizeMax
  · simp [h, eq_comm]
  · simp [h]

/-! ### Division that rounds up -/

section DivCeil

variable {a b d k : Nat}

theorem divCeil_mono (h : a ≤ b) : divCeil a d ≤ divCeil b d :=
  Nat.div_le_div_right (by omega)

/-- Full pieces count one each. -/
theorem divCeil_mul_add (hd : 0 < d) : divCeil (k * d + a) d = k + divCeil a d := by
  unfold divCeil
  rw [show k * d + a + d - 1 = a + d - 1 + k * d by omega, Nat.add_mul_div_right _ _ hd]
  omega

theorem divCeil_add (hd : 0 < d) : divCeil (a + d) d = divCeil a d + 1 := by
  have hone := divCeil_mul_add (a := a) (k := 1) hd
  rw [Nat.one_mul, Nat.add_comm] at hone
  rw [hone, Nat.add_comm]

/-- One piece holds up to its size. -/
theorem divCeil_le_one (h : a ≤ d) : divCeil a d ≤ 1 := by
  unfold divCeil
  rcases Nat.eq_zero_or_pos d with rfl | hd
  · simp
  · exact Nat.le_of_lt_succ (Nat.div_lt_of_lt_mul (by omega))

/-- `k` full pieces and something more are more than `k`. -/
theorem lt_divCeil (hd : 0 < d) (h : k * d < a) : k < divCeil a d := by
  rw [divCeil, Nat.lt_iff_add_one_le, Nat.le_div_iff_mul_le hd, Nat.add_mul, Nat.one_mul]
  omega

/-- All pieces but the last are full. -/
theorem divCeil_mul_lt (hd : 0 < d) : divCeil a d * d < a + d := by
  have hdiv := Nat.div_mul_le_self (a + d - 1) d
  unfold divCeil
  omega

end DivCeil

end Btls.Support
