import Mathlib.Data.List.Induction
import Mathlib.Tactic.Common

/-!
# Support — Runs

Labelled transition systems and their finite runs.  A step takes a state, a label that records what
an observer sees of it, and the next state; a run is a list of steps.  `Run.invariant` is the
induction rule for safety: what every step preserves holds at the end of every run.  `Run.ledger` is
its counterpart for a log that the labels report, at once or later.
-/

namespace Btls.Support

/-- `Run step s ls s'`: from `s`, the steps labelled `ls` lead to `s'`. -/
inductive Run {S L : Type*} (step : S → L → S → Prop) : S → List L → S → Prop where
  | nil (s : S) : Run step s [] s
  | snoc {s s₁ s' : S} {ls : List L} {l : L}
      (t : Run step s ls s₁) (h : step s₁ l s') : Run step s (ls ++ [l]) s'

namespace Run

variable {S L : Type*} {step : S → L → S → Prop} {I : S → Prop} {s s' : S} {ls : List L}

theorem one {l : L} (h : step s l s') : Run step s [l] s' := .snoc (.nil s) h

/-- Any labels are a run of a step function. -/
theorem foldl {f : S → L → S} (s : S) (ls : List L) :
    Run (fun s l s' => s' = f s l) s ls (ls.foldl f s) := by
  induction ls using List.reverseRecOn with
  | nil => exact .nil s
  | append_singleton ls l ih =>
      rw [List.foldl_append]
      exact .snoc ih rfl

/-- Labels that a partial step function accepts are a run of it. -/
theorem foldlM (f : S → L → Option S) (s : S) (ls : List L) (h : ls.foldlM f s = some s') :
    Run (fun s l s' => f s l = some s') s ls s' := by
  induction ls using List.reverseRecOn generalizing s' with
  | nil =>
      cases h
      exact .nil s
  | append_singleton ls l ih =>
      rw [List.foldlM_append] at h
      obtain ⟨s₁, hls, hl⟩ := Option.bind_eq_some_iff.mp h
      rw [List.foldlM_cons] at hl
      obtain ⟨s₂, hl, hnil⟩ := Option.bind_eq_some_iff.mp hl
      cases hnil
      exact .snoc (ih hls) hl

/-- A run of one system is one of another that can do each of its steps. -/
theorem mono {step' : S → L → S → Prop} (hstep : ∀ s l s', step s l s' → step' s l s')
    (h : Run step s ls s') : Run step' s ls s' := by
  induction h with
  | nil => exact .nil _
  | snoc _ h ih => exact .snoc ih (hstep _ _ _ h)

/-- What every step preserves holds at the end of every run. -/
theorem invariant (hI : ∀ s l s', I s → step s l s' → I s') (h : Run step s ls s')
    (hs : I s) : I s' := by
  induction h with
  | nil => exact hs
  | snoc _ h ih => exact hI _ _ _ ih h

/-- A reflexive and transitive relation that holds across every step holds across every run. -/
theorem rel {R : S → S → Prop} (hrefl : ∀ s, R s s) (htrans : ∀ s s₁ s', R s s₁ → R s₁ s' → R s s')
    (hstep : ∀ s l s', step s l s' → R s s') (h : Run step s ls s') : R s s' := by
  induction h with
  | nil => exact hrefl _
  | snoc _ h ih => exact htrans _ _ _ ih (hstep _ _ _ h)

/-- What every step out of a state satisfying `I` says of its label holds of every label. -/
theorem forall_labels {P : L → Prop} (hI : ∀ s l s', I s → step s l s' → I s')
    (hP : ∀ s l s', I s → step s l s' → P l) (h : Run step s ls s') (hs : I s) :
    ∀ l ∈ ls, P l := by
  induction h with
  | nil => simp
  | snoc t h ih =>
      intro l hl
      rcases List.mem_append.mp hl with hl | hl
      · exact ih l hl
      · rw [List.mem_singleton.mp hl]
        exact hP _ _ _ (t.invariant hI hs) h

/-- Accounting over a run.  A step adds something to the log and reports some of it in its label;
what it does not report it still owes.  Then all that was added is what the labels report, in
order, and what is owed in the end. -/
theorem ledger {α : Type*} (log owed : S → List α) (reported : L → List α)
    (hI : ∀ s l s', I s → step s l s' → I s')
    (hl : ∀ s l s', I s → step s l s' →
      ∃ new, log s' = log s ++ new ∧ owed s ++ new = reported l ++ owed s')
    (h : Run step s ls s') (hs : I s) :
    ∃ new, log s' = log s ++ new ∧ owed s ++ new = ls.flatMap reported ++ owed s' := by
  induction h with
  | nil => exact ⟨[], by simp, by simp⟩
  | snoc t h ih =>
      obtain ⟨new, hlog, howed⟩ := ih
      obtain ⟨more, hlog', howed'⟩ := hl _ _ _ (t.invariant hI hs) h
      refine ⟨new ++ more, by rw [hlog', hlog, List.append_assoc], ?_⟩
      rw [← List.append_assoc, howed, List.append_assoc, howed']
      simp

end Run

/-- A state some run from an initial state leads to. -/
def Reachable {S L : Type*} (init : S → Prop) (next : S → L → S → Prop) (s : S) : Prop :=
  ∃ s₀ ls, init s₀ ∧ Run next s₀ ls s

namespace Reachable

variable {S L : Type*} {init : S → Prop} {next : S → L → S → Prop} {I : S → Prop} {s s' : S}

theorem invariant (h₀ : ∀ s, init s → I s) (hI : ∀ s l s', I s → next s l s' → I s')
    (h : Reachable init next s) : I s := by
  obtain ⟨s₀, ls, hs, hr⟩ := h
  exact hr.invariant hI (h₀ _ hs)

end Reachable

end Btls.Support
