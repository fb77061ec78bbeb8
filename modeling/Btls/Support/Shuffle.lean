import Mathlib.Tactic.Common

/-!
# Support — Shuffle

Exchanging two entries of a list, and the Fisher–Yates loop over such exchanges.  Both are defined
only where every index is in bounds; there the result is a permutation (`shuffle_perm`).

Where the indices come from is a parameter: `pick` is asked for one at each turn, and may have none.
-/

namespace Btls.Support

variable {α : Type*} {xs : List α} {i j n : Nat} {pick : Nat → Option Nat}

/-- Entries `i` and `j` exchanged. -/
def swap (xs : List α) (i j : Nat) : Option (List α) :=
  xs[i]?.bind fun x => xs[j]?.map fun y => (xs.set i y).set j x

/-- For `i` from `n` down to 1, entry `i` exchanged with entry `pick i`. -/
def shuffle (pick : Nat → Option Nat) : Nat → List α → Option (List α)
  | 0, xs => some xs
  | n + 1, xs =>
      (pick (n + 1)).bind fun j => (swap xs (n + 1) j).bind fun xs => shuffle pick n xs

theorem swap_perm (hi : i < xs.length) (hj : j < xs.length) :
    ∃ ys, swap xs i j = some ys ∧ ys.Perm xs := by
  refine ⟨_, ?_, List.set_set_perm hi hj⟩
  rw [swap, List.getElem?_eq_getElem hi, Option.bind_some, List.getElem?_eq_getElem hj,
    Option.map_some]

theorem shuffle_perm (hpick : ∀ i, 0 < i → i ≤ n → ∃ j, pick i = some j ∧ j ≤ i)
    (hn : n < xs.length) : ∃ ys, shuffle pick n xs = some ys ∧ ys.Perm xs := by
  induction n generalizing xs with
  | zero => exact ⟨xs, rfl, .refl xs⟩
  | succ n ih =>
      obtain ⟨j, hj, hle⟩ := hpick (n + 1) (Nat.succ_pos n) (Nat.le_refl _)
      obtain ⟨ys, hys, hperm⟩ := swap_perm hn (Nat.lt_of_le_of_lt hle hn)
      have hlen : n < ys.length := by
        rw [hperm.length_eq]
        exact Nat.lt_of_succ_lt hn
      obtain ⟨zs, hzs, hperm'⟩ :=
        ih (fun i hpos hi => hpick i hpos (Nat.le_succ_of_le hi)) hlen
      refine ⟨zs, ?_, hperm'.trans hperm⟩
      rw [shuffle, hj, Option.bind_some, hys, Option.bind_some, hzs]

end Btls.Support
