import Mathlib.Tactic.Common

/-!
# Support — History

Logs that grow at their end, where every entry was in order when it was appended: `History Q log`
says that each entry `e` of `log` satisfies `Q before e`, with `before` the entries that came before
it.

`History.split` reads this off at any entry of the log, and `History.countP_le_one` is its use for
events that come once: an entry that may not come after another of its kind comes at most once.
-/

namespace Btls.Support

/-- Every entry of the log is as `Q` says, after what came before it. -/
inductive History {E : Type*} (Q : List E → E → Prop) : List E → Prop where
  | nil : History Q []
  | snoc {log : List E} {e : E} (h : History Q log) (he : Q log e) : History Q (log ++ [e])

/-- A log with an entry at its end: the entry is the last one, or it was there before. -/
theorem split_snoc {E : Type*} {log before after : List E} {e x : E}
    (h : log ++ [x] = before ++ e :: after) :
    (before = log ∧ e = x ∧ after = []) ∨ ∃ after', after = after' ++ [x] ∧ log = before ++ e :: after' := by
  rcases List.eq_nil_or_concat after with rfl | ⟨after', y, rfl⟩
  · obtain ⟨hlog, hx⟩ := List.append_inj' h rfl
    cases hx
    exact .inl ⟨hlog.symm, rfl, rfl⟩
  · rw [List.concat_eq_append, ← List.cons_append, ← List.append_assoc] at h
    obtain ⟨hlog, hx⟩ := List.append_inj' h rfl
    cases hx
    exact .inr ⟨after', List.concat_eq_append, hlog⟩

namespace History

variable {E : Type*} {Q : List E → E → Prop} {log before after : List E} {e e' : E}

/-- What the log says of an entry, wherever it is. -/
theorem split (h : History Q log) (hlog : log = before ++ e :: after) : Q before e := by
  induction h generalizing after with
  | nil => exact absurd hlog (List.append_ne_nil_of_right_ne_nil _ (List.cons_ne_nil _ _)).symm
  | snoc h he ih =>
      rcases split_snoc hlog with ⟨rfl, rfl, -⟩ | ⟨after', -, hlog'⟩
      · exact he
      · exact ih hlog'

theorem of_mem (h : History Q log) (he : e ∈ log) : ∃ before after, log = before ++ e :: after
    ∧ Q before e := by
  obtain ⟨before, after, hlog⟩ := List.append_of_mem he
  exact ⟨before, after, hlog, h.split hlog⟩

/-- An entry that does not come after another of its kind comes once. -/
theorem countP_le_one {p : E → Bool} (h : History Q log)
    (hQ : ∀ before e, Q before e → p e → ∀ x ∈ before, ¬ p x) : log.countP p ≤ 1 := by
  induction h with
  | nil => exact Nat.zero_le 1
  | snoc h he ih =>
      rename_i log e
      rw [List.countP_append, List.countP_singleton]
      by_cases hp : p e
      · exact Nat.le_of_eq (congrArg₂ (· + ·) (List.countP_eq_zero.mpr (hQ _ _ he hp)) (if_pos hp))
      · rw [if_neg hp]
        exact ih

end History

end Btls.Support
