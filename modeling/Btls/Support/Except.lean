import Mathlib.Tactic.Common

/-!
# Support — Except

Computations that may fail: what a successful one went through (`bind_eq_ok`), and errors that it
never ends with (`Never`).

A computation in parts ends with an error only if one of its parts does, so an error that no part
ends with is excluded from the whole by the lemmas about `Never`, one for each way to put parts
together.
-/

namespace Btls.Support

universe u

variable {ε : Type*} {α β : Type u} {γ : Type*} {e : ε}

theorem bind_eq_ok {x : Except ε α} {f : α → Except ε β} {b : β} :
    (x >>= f) = .ok b ↔ ∃ a, x = .ok a ∧ f a = .ok b := by
  cases x with
  | error e =>
      constructor
      · intro h
        cases h
      · rintro ⟨a, h, -⟩
        cases h
  | ok a =>
      constructor
      · intro h
        exact ⟨a, rfl, h⟩
      · rintro ⟨_, h, hf⟩
        cases h
        exact hf

/-- `x` does not fail with `e`. -/
def Never (e : ε) (x : Except ε α) : Prop := x ≠ .error e

theorem never_ok (a : α) : Never e (.ok a : Except ε α) := by
  intro h
  cases h

theorem never_error {e' : ε} (h : e' ≠ e) : Never e (.error e' : Except ε α) := by
  intro heq
  cases heq
  exact h rfl

theorem Never.bind {x : Except ε α} {f : α → Except ε β} (hx : Never e x) (hf : ∀ a, Never e (f a)) :
    Never e (x >>= f) := by
  cases x with
  | error e' =>
      intro h
      cases h
      exact hx rfl
  | ok a => exact hf a

theorem Never.foldlM {f : β → γ → Except ε β} (h : ∀ b c, Never e (f b c)) (cs : List γ) (b : β) :
    Never e (cs.foldlM f b) := by
  induction cs generalizing b with
  | nil => exact never_ok b
  | cons c cs ih =>
      rw [List.foldlM_cons]
      exact Never.bind (h b c) ih

end Btls.Support
