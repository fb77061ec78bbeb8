import Mathlib.Tactic.Common

/-!
# Support — Blocks

A list read in blocks of one size, and a function run over them.  The blocks of a concatenation are
those of its front, as far as they are whole, and then those of what is left (`foldBlocks_prefix`,
`foldBlocks_add`).

So a state that has run over the whole blocks of a message goes on as if it had run over the message
and what follows it, which is what a streaming hash does.
-/

namespace Btls.Support

variable {α σ : Type*} {f : σ → List α → σ} {size : Nat} {s : σ} {xs ys : List α}

/-- The block with number `i`. -/
def block (size : Nat) (xs : List α) (i : Nat) : List α := (xs.drop (size * i)).take size

/-- `f` over the first `n` blocks. -/
def foldBlocks (f : σ → List α → σ) (size : Nat) (s : σ) (xs : List α) : (n : Nat) → σ
  | 0 => s
  | n + 1 => f (foldBlocks f size s xs n) (block size xs n)

theorem getElem?_block (size : Nat) (xs : List α) (i j : Nat) :
    (block size xs i)[j]? = if j < size then xs[size * i + j]? else none := by
  rw [block, List.getElem?_take]
  split
  · rw [List.getElem?_drop]
  · rfl

theorem block_add (size : Nat) (xs : List α) (m n : Nat) :
    block size xs (m + n) = block size (xs.drop (size * m)) n := by
  rw [block, block, List.drop_drop, Nat.mul_add]

theorem block_prefix {n : Nat} (h : size * (n + 1) ≤ xs.length) :
    block size (xs ++ ys) n = block size xs n := by
  rw [Nat.mul_add, Nat.mul_one] at h
  rw [block, block, List.drop_append_of_le_length (by omega),
    List.take_append_of_le_length (by rw [List.length_drop]; omega)]

/-- The first blocks, and then those behind them. -/
theorem foldBlocks_add (m n : Nat) :
    foldBlocks f size s xs (m + n)
      = foldBlocks f size (foldBlocks f size s xs m) (xs.drop (size * m)) n := by
  induction n with
  | zero => rfl
  | succ n ih => rw [← Nat.add_assoc, foldBlocks, ih, block_add, foldBlocks]

/-- Whole blocks in front do not depend on what follows. -/
theorem foldBlocks_prefix {n : Nat} (h : size * n ≤ xs.length) :
    foldBlocks f size s (xs ++ ys) n = foldBlocks f size s xs n := by
  induction n with
  | zero => rfl
  | succ n ih =>
      have hn : size * n ≤ xs.length := Nat.le_trans (Nat.mul_le_mul_left _ (Nat.le_succ n)) h
      rw [foldBlocks, ih hn, block_prefix h, foldBlocks]

end Btls.Support
