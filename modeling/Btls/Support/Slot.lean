import Mathlib.Tactic.Common

/-!
# Support — Slot

A place for one value.  A put overwrites what is there, a take empties it.
`Slotted puts taken held` are the values put so far, those taken and what is held: each value taken
was the last one put since the take before it (`Slotted.segments`), so none is taken twice or out of
order.

What a program loses is then seen from its puts: a value is lost exactly if another was put before
the next take.
-/

namespace Btls.Support

variable {α : Type*} {puts taken new : List α} {held : Option α} {a : α}

inductive Slotted : List α → List α → Option α → Prop where
  | empty : Slotted [] [] none
  | put {puts taken : List α} {held : Option α} (h : Slotted puts taken held) (a : α) :
      Slotted (puts ++ [a]) taken (some a)
  | take {puts taken : List α} {a : α} (h : Slotted puts taken (some a)) :
      Slotted puts (taken ++ [a]) none

namespace Slotted

/-- A take of whatever is held. -/
theorem takeAny (h : Slotted puts taken held) : Slotted puts (taken ++ held.toList) none := by
  cases held with
  | none =>
      rw [Option.toList_none, List.append_nil]
      exact h
  | some a => exact h.take

/-- What was put falls into a run of values for each take, which took the last of them, and those put
since, of which the last is held. -/
theorem segments (h : Slotted puts taken held) :
    ∃ (runs : List (List α)) (rest : List α), puts = runs.flatten ++ rest
      ∧ runs.map List.getLast? = taken.map some ∧ held = rest.getLast? := by
  induction h with
  | empty => exact ⟨[], [], rfl, rfl, rfl⟩
  | put _ a ih =>
      obtain ⟨runs, rest, hputs, htaken, -⟩ := ih
      exact ⟨runs, rest ++ [a], by rw [hputs, List.append_assoc], htaken,
        (List.getLast?_concat).symm⟩
  | take _ ih =>
      obtain ⟨runs, rest, hputs, htaken, hheld⟩ := ih
      exact ⟨runs ++ [rest], [], by rw [hputs]; simp, by simp [htaken, hheld], rfl⟩

end Slotted

end Btls.Support
