import Btls.Support.Bytes
import Mathlib.Algebra.Group.Nat.Defs
import Mathlib.Data.List.Induction

/-!
# Support — Wire

Reading a byte string from its front: fixed numbers of bytes, big-endian numbers, and strings with
their length before them.  What a reader returns is exactly what the writer of the same value would
have put in front of the rest (`getUint_eq_some`, `getPrefixed_eq_some`).
-/

namespace Btls.Support

variable {n v : Nat} {bs x rest : Bytes}

/-- The number that bytes are, high byte first. -/
def uintOf (bs : Bytes) : Nat := bs.foldl (fun v b => 256 * v + b.toNat) 0

/-- The low `n` bytes of a number, high byte first. -/
def putUint : (n : Nat) → Nat → Bytes
  | 0, _ => []
  | n + 1, v => putUint n (v / 256) ++ [UInt8.ofNat v]

def getBytes (n : Nat) (bs : Bytes) : Option (Bytes × Bytes) :=
  if n ≤ bs.length then some (bs.take n, bs.drop n) else none

def getUint (n : Nat) (bs : Bytes) : Option (Nat × Bytes) :=
  (getBytes n bs).map fun p => (uintOf p.1, p.2)

/-- A string behind its length in `n` bytes. -/
def getPrefixed (n : Nat) (bs : Bytes) : Option (Bytes × Bytes) :=
  (getUint n bs).bind fun p => getBytes p.1 p.2

def putPrefixed (n : Nat) (x : Bytes) : Bytes := putUint n x.length ++ x

theorem uintOf_append_singleton (bs : Bytes) (b : UInt8) :
    uintOf (bs ++ [b]) = 256 * uintOf bs + b.toNat := by
  rw [uintOf, List.foldl_append]
  rfl

@[simp] theorem length_putUint (n v : Nat) : (putUint n v).length = n := by
  induction n generalizing v with
  | zero => rfl
  | succ n ih => rw [putUint, List.length_append, ih, List.length_singleton]

theorem length_putPrefixed (n : Nat) (x : Bytes) : (putPrefixed n x).length = n + x.length := by
  rw [putPrefixed, List.length_append, length_putUint]

theorem putUint_uintOf (bs : Bytes) : putUint bs.length (uintOf bs) = bs := by
  induction bs using List.reverseRecOn with
  | nil => rfl
  | append_singleton bs b ih =>
      have hdiv : (256 * uintOf bs + b.toNat) / 256 = uintOf bs := by
        have := b.toNat_lt
        omega
      have hlow : UInt8.ofNat (256 * uintOf bs + b.toNat) = b := by
        refine UInt8.toNat_inj.mp ?_
        rw [UInt8.toNat_ofNat']
        have := b.toNat_lt
        omega
      rw [List.length_append, List.length_singleton, uintOf_append_singleton, putUint, hdiv, ih, hlow]

theorem uintOf_putUint (h : v < 256 ^ n) : uintOf (putUint n v) = v := by
  induction n generalizing v with
  | zero =>
      rw [pow_zero] at h
      rw [Nat.lt_one_iff.mp h]
      rfl
  | succ n ih =>
      rw [pow_succ] at h
      rw [putUint, uintOf_append_singleton, ih (Nat.div_lt_of_lt_mul (by rwa [Nat.mul_comm])),
        UInt8.toNat_ofNat']
      omega

theorem uintOf_lt (bs : Bytes) : uintOf bs < 256 ^ bs.length := by
  induction bs using List.reverseRecOn with
  | nil => exact Nat.one_pos
  | append_singleton bs b ih =>
      rw [uintOf_append_singleton, List.length_append, List.length_singleton, pow_succ]
      have := b.toNat_lt
      omega

theorem getBytes_eq_some : getBytes n bs = some (x, rest) ↔ bs = x ++ rest ∧ x.length = n := by
  unfold getBytes
  constructor
  · intro h
    split at h
    · rename_i hle
      obtain ⟨rfl, rfl⟩ := Prod.mk.inj (Option.some.inj h)
      exact ⟨(List.take_append_drop n bs).symm, List.length_take_of_le hle⟩
    · cases h
  · rintro ⟨rfl, rfl⟩
    rw [if_pos (by rw [List.length_append]; exact Nat.le_add_right _ _), List.take_left,
      List.drop_left]

theorem getBytes_append (x rest : Bytes) : getBytes x.length (x ++ rest) = some (x, rest) :=
  getBytes_eq_some.mpr ⟨rfl, rfl⟩

theorem getUint_eq_some :
    getUint n bs = some (v, rest) ↔ bs = putUint n v ++ rest ∧ v < 256 ^ n := by
  unfold getUint
  constructor
  · intro h
    obtain ⟨⟨x, rest'⟩, hx, heq⟩ := Option.map_eq_some_iff.mp h
    obtain ⟨rfl, rfl⟩ := Prod.mk.inj heq
    obtain ⟨rfl, rfl⟩ := getBytes_eq_some.mp hx
    exact ⟨by rw [putUint_uintOf], uintOf_lt x⟩
  · rintro ⟨rfl, h⟩
    rw [getBytes_eq_some.mpr ⟨rfl, length_putUint n v⟩, Option.map_some, uintOf_putUint h]

theorem getPrefixed_eq_some :
    getPrefixed n bs = some (x, rest) ↔ bs = putPrefixed n x ++ rest ∧ x.length < 256 ^ n := by
  unfold getPrefixed
  constructor
  · intro h
    obtain ⟨⟨len, tail⟩, hlen, hx⟩ := Option.bind_eq_some_iff.mp h
    obtain ⟨rfl, hlt⟩ := getUint_eq_some.mp hlen
    obtain ⟨rfl, rfl⟩ := getBytes_eq_some.mp hx
    exact ⟨by rw [putPrefixed, List.append_assoc], hlt⟩
  · rintro ⟨rfl, hlt⟩
    rw [putPrefixed, List.append_assoc, getUint_eq_some.mpr ⟨rfl, hlt⟩, Option.bind_some,
      getBytes_append]

theorem getUint_append (h : v < 256 ^ n) (rest : Bytes) :
    getUint n (putUint n v ++ rest) = some (v, rest) := getUint_eq_some.mpr ⟨rfl, h⟩

theorem getPrefixed_append (h : x.length < 256 ^ n) (rest : Bytes) :
    getPrefixed n (putPrefixed n x ++ rest) = some (x, rest) := getPrefixed_eq_some.mpr ⟨rfl, h⟩

end Btls.Support
