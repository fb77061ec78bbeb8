import Mathlib.Tactic.Common

/-!
# Support — Interact

Programs known only by the operations they call.  `Prog Op Res ρ` is a finite tree: it returns a
`ρ`, or calls an operation and goes on with the operation's result.  A handler runs each operation
on a state, and `interp` runs the whole program through it.

A claim about the state is proved of the handler alone and carried to every program (`interp_rel`);
a claim about the result is a property of the leaves the handler's answers can lead to (`Leaves`,
`interp_leaf`), and one about what the operations emit on the way there is a property of the traces
(`Traces`, `interp_traces`).  Where the answers matter too, it is a property of the paths (`Paths`,
`interp_paths`), and each log of the handler's is read off the events of one of them (`interp_log`).
-/

namespace Btls.Support

/-- A program over the operations `Op`, whose results are `Res`, returning a `ρ`. -/
inductive Prog (Op : Type) (Res : Op → Type) (ρ : Type) : Type where
  | ret (r : ρ)
  | call (op : Op) (k : Res op → Prog Op Res ρ)

namespace Prog

variable {Op : Type} {Res : Op → Type} {ρ S : Type}

/-- Runs a program, each operation through the handler. -/
def interp (handler : (op : Op) → S → Res op × S) : Prog Op Res ρ → S → ρ × S
  | .ret r, s => (r, s)
  | .call op k, s => interp handler (k (handler op s).1) (handler op s).2

/-- Every value the program returns, its operations answered as `ok` allows, satisfies `Q`. -/
def Leaves (ok : (op : Op) → Res op → Prop) (Q : ρ → Prop) : Prog Op Res ρ → Prop
  | .ret r => Q r
  | .call op k => ∀ x, ok op x → Leaves ok Q (k x)

variable {ok : (op : Op) → Res op → Prop} {handler : (op : Op) → S → Res op × S}

@[simp] theorem leaves_ret {Q : ρ → Prop} {r : ρ} :
    (ret r : Prog Op Res ρ).Leaves ok Q ↔ Q r := Iff.rfl

/-- A relation to the starting state that every operation extends holds after the program. -/
theorem interp_rel {R : S → S → Prop} (hrefl : ∀ s, R s s)
    (hstep : ∀ s₀ s (op : Op), R s₀ s → R s₀ (handler op s).2) (p : Prog Op Res ρ) (s : S) :
    R s (interp handler p s).2 := by
  suffices h : ∀ s₀ s, R s₀ s → R s₀ (interp handler p s).2 from h s s (hrefl s)
  induction p with
  | ret r => exact fun s₀ s h => h
  | call op k ih => exact fun s₀ s h => ih _ s₀ _ (hstep s₀ s op h)

/-- What every leaf within the handler's answers satisfies, the returned value satisfies. -/
theorem interp_leaf {Q : ρ → Prop} (hok : ∀ s (op : Op), ok op (handler op s).1)
    {p : Prog Op Res ρ} (h : p.Leaves ok Q) (s : S) : Q (interp handler p s).1 := by
  induction p generalizing s with
  | ret r => exact h
  | call op k ih => exact ih _ (h _ (hok s op)) _

/-- Every way through the program, its operations answered as `ok` allows, satisfies `Q` of what its
operations put in the log, in order, and of what it returns. -/
def Traces {α : Type} (ok : (op : Op) → Res op → Prop) (emit : Op → List α) :
    (List α → ρ → Prop) → Prog Op Res ρ → Prop
  | Q, .ret r => Q [] r
  | Q, .call op k => ∀ x, ok op x → Traces ok emit (fun out => Q (emit op ++ out)) (k x)

/-- A log that each operation extends by what it emits is extended by one of the traces. -/
theorem interp_traces {α : Type} {emit : Op → List α} (log : S → List α)
    (hok : ∀ s (op : Op), ok op (handler op s).1)
    (hlog : ∀ s (op : Op), log (handler op s).2 = log s ++ emit op)
    {Q : List α → ρ → Prop} {p : Prog Op Res ρ} (h : p.Traces ok emit Q) (s : S) :
    ∃ out, log (interp handler p s).2 = log s ++ out ∧ Q out (interp handler p s).1 := by
  induction p generalizing s Q with
  | ret r => exact ⟨[], by rw [List.append_nil]; rfl, h⟩
  | call op k ih =>
      obtain ⟨out, hout, hq⟩ := ih _ (h _ (hok s op)) (handler op s).2
      exact ⟨emit op ++ out, by rw [interp, hout, hlog, List.append_assoc], hq⟩

/-- An operation and its answer. -/
abbrev Event (Op : Type) (Res : Op → Type) : Type := (op : Op) × Res op

/-- Every way through the program, its operations answered as `ok` allows, satisfies `Q` of its
events, in order, and of what it returns. -/
def Paths (ok : (op : Op) → Res op → Prop) :
    (List (Event Op Res) → ρ → Prop) → Prog Op Res ρ → Prop
  | Q, .ret r => Q [] r
  | Q, .call op k => ∀ x, ok op x → Paths ok (fun es => Q (⟨op, x⟩ :: es)) (k x)

/-- What happens as a handler runs the program. -/
def events (handler : (op : Op) → S → Res op × S) : Prog Op Res ρ → S → List (Event Op Res)
  | .ret _, _ => []
  | .call op k, s => ⟨op, (handler op s).1⟩ :: events handler (k (handler op s).1) (handler op s).2

/-- What happens within the handler's answers is one of the paths. -/
theorem interp_paths (hok : ∀ s (op : Op), ok op (handler op s).1)
    {Q : List (Event Op Res) → ρ → Prop} {p : Prog Op Res ρ} (h : p.Paths ok Q) (s : S) :
    Q (p.events handler s) (interp handler p s).1 := by
  induction p generalizing s Q with
  | ret r => exact h
  | call op k ih => exact ih _ (h _ (hok s op)) (handler op s).2

/-- A log that each operation extends by something of its event is extended by what happens. -/
theorem interp_log {α : Type} {emit : Event Op Res → List α} (log : S → List α)
    (hlog : ∀ s (op : Op), log (handler op s).2 = log s ++ emit ⟨op, (handler op s).1⟩)
    (p : Prog Op Res ρ) (s : S) :
    log (interp handler p s).2 = log s ++ (p.events handler s).flatMap emit := by
  induction p generalizing s with
  | ret r => exact (List.append_nil _).symm
  | call op k ih => rw [interp, ih, hlog, List.append_assoc, events, List.flatMap_cons]

end Prog

end Btls.Support
