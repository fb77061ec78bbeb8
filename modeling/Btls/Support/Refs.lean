import Mathlib.Data.List.Perm.Basic
import Mathlib.Tactic.Common

/-!
# Support — Refs

Reference counts.  An object is there while its count is not 0.  `Counted count held`: the counts
are those of the references that are held, so what someone holds is there (`Counted.alive`).

The references held are a list, in which an object is as often as it is held.  Its order does not
matter (`Counted.perm`); taking a reference is `Counted.up`, and letting one go, or many,
`Counted.down` and `Counted.downAll`.
-/

namespace Btls.Support

variable {α : Type} [DecidableEq α]

namespace Refs

def up (a : α) (count : α → Nat) : α → Nat := fun b => if b = a then count b + 1 else count b

def down (a : α) (count : α → Nat) : α → Nat := fun b => if b = a then count b - 1 else count b

end Refs

def Counted (count : α → Nat) (held : List α) : Prop := ∀ a, count a = held.count a

namespace Counted

variable {count : α → Nat} {held held' : List α} {a : α}

theorem perm (h : Counted count held) (hp : held.Perm held') : Counted count held' :=
  fun a => (h a).trans (hp.count_eq a)

theorem up (h : Counted count held) (a : α) : Counted (Refs.up a count) (a :: held) := by
  intro b
  rw [Refs.up, List.count_cons, h b]
  by_cases hb : b = a
  · rw [if_pos hb, if_pos (beq_iff_eq.mpr hb.symm)]
  · rw [if_neg hb, if_neg fun hab => hb (beq_iff_eq.mp hab).symm, Nat.add_zero]

theorem down (h : Counted count (a :: held)) : Counted (Refs.down a count) held := by
  intro b
  have hb := h b
  rw [List.count_cons] at hb
  rw [Refs.down, hb]
  by_cases hab : b = a
  · rw [if_pos hab, if_pos (beq_iff_eq.mpr hab.symm), Nat.add_sub_cancel]
  · rw [if_neg hab, if_neg fun hba => hab (beq_iff_eq.mp hba).symm, Nat.add_zero]

theorem downAll {gone : List α} (h : Counted count (gone ++ held)) :
    Counted (gone.foldl (fun count a => Refs.down a count) count) held := by
  induction gone generalizing count with
  | nil => exact h
  | cons a gone ih => exact ih h.down

theorem alive (h : Counted count held) (ha : a ∈ held) : count a ≠ 0 := by
  rw [h a]
  exact Nat.ne_of_gt (List.count_pos_iff.mpr ha)

end Counted

end Btls.Support
