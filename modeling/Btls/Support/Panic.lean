import Mathlib.Tactic.Common

/-!
# Support — Panic

Slicing, subtraction and writes to a buffer where a bound that does not hold is an error: `none` is
a panic, or an access out of range.  A function written over these and shown to be `some` of its
total counterpart stays in range.

Each operation has the lemma that it is `some` where its bounds hold (`sliceFrom_of_le` and the
like).  A loop that updates a buffer in place is `updateRange`, and `updateRange_spec` says what it
leaves where no turn of it fails.
-/

namespace Btls.Support

variable {α : Type*} {xs : List α} {i j a b : Nat}

/-- `&xs[i..]`. -/
def sliceFrom (xs : List α) (i : Nat) : Option (List α) :=
  if i ≤ xs.length then some (xs.drop i) else none

/-- `&xs[..j]`. -/
def sliceTo (xs : List α) (j : Nat) : Option (List α) :=
  if j ≤ xs.length then some (xs.take j) else none

/-- `&xs[i..j]`. -/
def sliceRange (xs : List α) (i j : Nat) : Option (List α) :=
  if i ≤ j ∧ j ≤ xs.length then some ((xs.take j).drop i) else none

/-- `a - b` on sizes. -/
def exactSub (a b : Nat) : Option Nat := if b ≤ a then some (a - b) else none

theorem sliceFrom_of_le (h : i ≤ xs.length) : sliceFrom xs i = some (xs.drop i) := if_pos h

theorem sliceTo_of_le (h : j ≤ xs.length) : sliceTo xs j = some (xs.take j) := if_pos h

theorem sliceRange_of_le (h : i ≤ j) (h' : j ≤ xs.length) :
    sliceRange xs i j = some ((xs.take j).drop i) := if_pos ⟨h, h'⟩

theorem exactSub_of_le (h : b ≤ a) : exactSub a b = some (a - b) := if_pos h

/-! ### Writing into a buffer -/

/-- `dst` with `src` written at `i`. -/
def splice (dst : List α) (i : Nat) (src : List α) : List α :=
  dst.take i ++ src ++ dst.drop (i + src.length)

/-- `memcpy(dst + i, src, …)`. -/
def copyInto (dst : List α) (i : Nat) (src : List α) : Option (List α) :=
  if i + src.length ≤ dst.length then some (splice dst i src) else none

/-- `for k < n: dst[i + k] = f k dst[i + k]`. -/
def updateRange (f : Nat → α → Option α) (dst : List α) (i : Nat) : (n : Nat) → Option (List α)
  | 0 => some dst
  | n + 1 => do
      let ys ← updateRange f dst i n
      let x ← ys[i + n]?
      let y ← f n x
      return ys.set (i + n) y

theorem copyInto_of_le {dst src : List α} (h : i + src.length ≤ dst.length) :
    copyInto dst i src = some (splice dst i src) := if_pos h

theorem length_splice {dst src : List α} (h : i + src.length ≤ dst.length) :
    (splice dst i src).length = dst.length := by
  simp only [splice, List.length_append, List.length_take, List.length_drop]
  omega

theorem getElem?_splice {dst src : List α} (h : i + src.length ≤ dst.length) (j : Nat) :
    (splice dst i src)[j]? =
      if i ≤ j ∧ j < i + src.length then src[j - i]? else dst[j]? := by
  have htake : (dst.take i).length = i := List.length_take_of_le (by omega)
  rw [splice, List.append_assoc, List.getElem?_append, htake]
  split
  · rename_i hj
    rw [List.getElem?_take_of_lt hj, if_neg (by omega)]
  · rename_i hj
    rw [List.getElem?_append]
    split
    · rw [if_pos (by omega)]
    · rw [List.getElem?_drop, if_neg (by omega)]
      congr 1
      omega

/-- Two writes at the front, one behind the other. -/
theorem splice_append (dst xs ys : List α) :
    splice (splice dst 0 xs) xs.length ys = splice dst 0 (xs ++ ys) := by
  have hdrop : (xs ++ dst.drop xs.length).drop (xs.length + ys.length)
      = dst.drop (xs.length + ys.length) := by
    rw [List.drop_append, List.drop_drop, List.drop_eq_nil_of_le (Nat.le_add_right _ _),
      List.nil_append, Nat.add_sub_cancel_left]
  simp only [splice, List.take_zero, List.nil_append, Nat.zero_add, List.length_append, hdrop,
    List.take_left, List.append_assoc]

/-- A write of the first of two parts. -/
theorem copyInto_first {dst xs : List α} (hdst : dst.length = a + b) (hxs : xs.length = a) :
    copyInto dst 0 xs = some (splice dst 0 xs) := copyInto_of_le (by omega)

/-- A buffer filled by two writes. -/
theorem copyInto_two {dst xs ys : List α} (hdst : dst.length = a + b) (hxs : xs.length = a)
    (hys : ys.length = b) :
    copyInto dst 0 xs = some (splice dst 0 xs) ∧ copyInto (splice dst 0 xs) a ys = some (xs ++ ys) := by
  have hlen : (splice dst 0 xs).length = dst.length := length_splice (by omega)
  refine ⟨copyInto_first hdst hxs, ?_⟩
  rw [copyInto_of_le (by omega), ← hxs, splice_append, splice, List.take_zero, List.nil_append,
    List.drop_eq_nil_of_le (by rw [List.length_append]; omega), List.append_nil]

/-- What the loop does where no step of it fails. -/
theorem updateRange_spec {f : Nat → α → Option α} {g : Nat → α → α} {dst : List α} {n : Nat}
    (hf : ∀ k < n, ∀ x, f k x = some (g k x)) (h : i + n ≤ dst.length) :
    ∃ ys, updateRange f dst i n = some ys ∧ ys.length = dst.length
      ∧ ∀ j, ys[j]? = if i ≤ j ∧ j < i + n then dst[j]?.map (g (j - i)) else dst[j]? := by
  induction n with
  | zero =>
      refine ⟨dst, rfl, rfl, fun j => ?_⟩
      rw [if_neg (by omega)]
  | succ n ih =>
      obtain ⟨ys, hys, hlen, hget⟩ := ih (fun k hk => hf k (Nat.lt_succ_of_lt hk)) (by omega)
      obtain ⟨x, hx⟩ : ∃ x, dst[i + n]? = some x :=
        ⟨_, List.getElem?_eq_getElem (show i + n < dst.length by omega)⟩
      have hx' : ys[i + n]? = some x := by rw [hget, if_neg (by omega), hx]
      refine ⟨ys.set (i + n) (g n x), ?_, by rw [List.length_set, hlen], fun j => ?_⟩
      · simp only [updateRange, hys, hx', hf n (Nat.lt_succ_self n) x, Option.bind_eq_bind,
          Option.bind_some, Option.pure_def]
      · rw [List.getElem?_set, hget]
        by_cases hj : i + n = j
        · subst hj
          rw [if_pos rfl, if_pos (by omega), if_pos (by omega), hx, Nat.add_sub_cancel_left]
          rfl
        · rw [if_neg hj]
          split <;> rename_i hin
          · rw [if_pos (by omega)]
          · rw [if_neg (by omega)]

end Btls.Support
