import Btls.Hello.Policy

/-!
# Hello — Closures

The Rust side of an ECH GREASE policy.  A closure is kept in the ex data of its context or
connection, in a slot that its type chooses, and the C callback that is installed beside it
(`Trampoline`) looks there when it is called.  `Linked` says that whatever callback is in force for
the C library refers to the closure that is in force for the application.

A trampoline knows no closure, only a slot; a closure of the same type that is set later is in the
same slot.  So a set that BoringSSL rejects must leave the slots of what is in force alone, and is
followed with that (`Refers.slot`).

* `Policies.set_log`, `Policies.set_runs`: a call that says it installed the closure is logged so,
  and then the callback that it installed runs that closure.
* `right_closure`: in every run, whenever the library invokes a callback, the closure that runs is
  the one that is in force.
-/

namespace Btls.Hello

open Btls.Support

/-! ### The code -/

/-- `parameter_callback::<F, CONTEXT>`; `F` is the type of closure types. -/
structure Trampoline (F : Type) where
  closureType : F
  context : Bool

/-- A closure of any type. -/
abbrev Closure {F : Type} (V : F → Type) : Type := (f : F) × V f

/-- The slots `Option<Callback<F>>` of an object's ex data: `none` where there is no slot yet. -/
abbrev ExData {F : Type} (V : F → Type) : Type := (f : F) → Option (Option (V f))

/-- The C library and what the Rust side stores in it, with a log of what the application installed. -/
structure Policies (K : Type) {F : Type} (V : F → Type) where
  c : World K (Trampoline F)
  sslData : ExData V
  ctxData : K → ExData V
  log : List (Event K (Closure V))

variable {K F : Type} {V : F → Type} (w : Policies K V)

/-- `Ssl::new`, with contexts that have no policy yet. -/
def Policies.new (ctx : K) : Policies K V :=
  ⟨.new (fun _ => none) ctx, fun _ => none, fun _ _ => none, []⟩

/-- The closure that a call of the trampoline runs; `none` in its branch for a missing closure. -/
def Policies.runs (t : Trampoline F) : Option (Closure V) :=
  let slot := if t.context then w.ctxData w.c.connection.ctx t.closureType else w.sslData t.closureType
  slot.join.map (Sigma.mk t.closureType)

section Calls

variable [DecidableEq K] [DecidableEq F]

/-- `SslContextBuilder::set_ech_grease_callback`.  `SSL_CTX_set_ex_data` is assumed to succeed: it fails for want
of memory only, and what it returns is not looked at. -/
def Policies.setOnContext (ctx : K) (closure : Closure V) : Policies K V :=
  let data := Function.update (w.ctxData ctx) closure.1 (some (some closure.2))
  { w with
    ctxData := Function.update w.ctxData ctx data
    c := w.c.step (.setCtxEchGreaseCallback ctx (some ⟨closure.1, true⟩))
    log := w.log ++ [.setOnContext ctx (some closure)] }

/-- `SslContextBuilder::clear_ech_grease_callback`. -/
def Policies.clearOnContext (ctx : K) : Policies K V :=
  { w with
    c := w.c.step (.setCtxEchGreaseCallback ctx none)
    log := w.log ++ [.setOnContext ctx none] }

/-- The connection's ex data, with a slot for closures of type `f`. -/
def Policies.withSlot (f : F) : ExData V :=
  if (w.sslData f).isNone then Function.update w.sslData f (some none) else w.sslData

/-- `SslRef::set_ech_grease_callback`, with whether it succeeds. -/
def Policies.set (closure : Closure V) : Bool × Policies K V :=
  let data := w.withSlot closure.1
  if (data closure.1).isNone then (false, { w with sslData := data })
  else if (w.c.connection.setEchGreaseCallback (some ⟨closure.1, false⟩)).1 then
    (true, { w with
      c := w.c.step (.setEchGreaseCallback (some ⟨closure.1, false⟩))
      sslData := Function.update data closure.1 (some (some closure.2))
      log := w.log ++ [.set (some closure)] })
  else (false, { w with sslData := data })

/-- `SslRef::clear_ech_grease_callback`, with whether it succeeds. -/
def Policies.clear : Bool × Policies K V :=
  if (w.c.connection.setEchGreaseCallback none).1 then
    (true, { w with c := w.c.step (.setEchGreaseCallback none), log := w.log ++ [.set none] })
  else (false, w)

/-- `SslRef::set_ssl_context`, which panics first when only one of the two contexts has X.509 support. -/
def Policies.setSslContext (hasX509Support : K → Bool) (ctx : K) : Policies K V :=
  if hasX509Support w.c.connection.ctx ≠ hasX509Support ctx then w
  else if (w.c.connection.setSslCtx ctx).1 then
    { w with c := w.c.step (.setSslCtx ctx), log := w.log ++ [.switched ctx] }
  else w

/-- The actions of the library and of the application on the handshake, which do not touch policies. -/
def Action.isLibrary {P : Type} : Action K P → Bool
  | .setEchGreaseCallback _ => false
  | .setCtxEchGreaseCallback _ _ => false
  | .setSslCtx _ => false
  | _ => true

inductive RustAction (K : Type) {F : Type} (V : F → Type) where
  | setOnContext (ctx : K) (closure : Closure V)
  | clearOnContext (ctx : K)
  | set (closure : Closure V)
  | clear
  | setSslContext (ctx : K)
  | library (action : Action K (Trampoline F)) (h : action.isLibrary)

def Policies.step (hasX509Support : K → Bool) : RustAction K V → Policies K V
  | .setOnContext ctx closure => w.setOnContext ctx closure
  | .clearOnContext ctx => w.clearOnContext ctx
  | .set closure => (w.set closure).2
  | .clear => w.clear.2
  | .setSslContext ctx => w.setSslContext hasX509Support ctx
  | .library action _ => { w with c := w.c.step action }

end Calls

/-- A trampoline that runs a closure runs it from any slots that have it. -/
theorem runs_withSlot [DecidableEq F] (w : Policies K V) (f : F) (t : Trampoline F) :
    Policies.runs { w with sslData := w.withSlot f } t = w.runs t := by
  unfold Policies.runs
  dsimp only
  by_cases hcontext : t.context
  · rw [if_pos hcontext, if_pos hcontext]
  · rw [if_neg hcontext, if_neg hcontext]
    have hslot : (w.withSlot f t.closureType).join = (w.sslData t.closureType).join := by
      unfold Policies.withSlot
      split
      · rename_i hnone
        by_cases heq : t.closureType = f
        · subst heq
          rw [Function.update_self, Option.isNone_iff_eq_none.mp hnone]
          rfl
        · rw [Function.update_of_ne heq]
      · rfl
    rw [hslot]

/-! ### What the library does on its own -/

variable [DecidableEq K]

/-- The library's own steps are seen as events of the handshake. -/
theorem World.library_events {P : Type} (w : World K P) {action : Action K P} (h : action.isLibrary) :
    ∃ events, (w.step action).trace = w.trace ++ events
      ∧ ∀ e ∈ events, e.handshake = some w.connection.handshakes := by
  cases action with
  | setEchGreaseCallback callback => cases h
  | setCtxEchGreaseCallback ctx callback => cases h
  | setSslCtx ctx => cases h
  | setEnableEchGrease enable => exact ⟨[], rfl, List.forall_mem_nil _⟩
  | startConnect selected maxVersion real t => exact w.advance_events _
  | answer answer => exact w.advance_events _
  | helloVerifyRequest t => exact w.advance_events _
  | helloRetryRequest accepted t => exact w.advance_events _
  | fail => exact w.advance_events _
  | finish shed => exact w.advance_events _
  | clear => exact w.advance_events _
  | renegotiate => exact w.advance_events _

/-! ### Callbacks and the closures they refer to -/

/-- A callback that is installed refers, through a slot of `data`, to the closure that is. -/
inductive Refers (data : ExData V) (context : Bool) : Option (Trampoline F) → Option (Closure V) → Prop where
  | absent : Refers data context none none
  | present {f : F} {v : V f} (h : data f = some (some v)) :
      Refers data context (some ⟨f, context⟩) (some ⟨f, v⟩)

section Links

variable {data : ExData V} {context : Bool} {callback : Option (Trampoline F)}
  {closure? : Option (Closure V)} {closure : Closure V} {ctx : K} {w : Policies K V}

/-- What is in force on a connection made with a context, before anything is installed. -/
def Setting.fresh {P : Type} (ctx : K) : Setting K P := ⟨none, fun _ => none, ctx⟩

/-- The C library's setting and the application's, of a connection made with context `ctx`. -/
structure Linked (ctx : K) (w : Policies K V) : Prop where
  kept : Kept (.fresh ctx) w.c
  own : Refers w.sslData false (inForce (.fresh ctx) w.c.trace).own
    (inForce (.fresh ctx) w.log).own
  onContexts : ∀ k, Refers (w.ctxData k) true
    ((inForce (.fresh ctx) w.c.trace).onContexts k)
    ((inForce (.fresh ctx) w.log).onContexts k)
  ctx : (inForce (.fresh ctx) w.c.trace).ctx
    = (inForce (.fresh ctx) w.log).ctx

/-- **The callback in force runs the closure in force.** -/
theorem Linked.resolves (h : Linked ctx w) {t : Trampoline F}
    (ht : policyOf (.fresh ctx) w.c.trace = some t) :
    ∃ closure, w.runs t = some closure
      ∧ policyOf (.fresh ctx) w.log = some closure := by
  unfold policyOf Setting.policy at ht ⊢
  have hown := h.own
  generalize (inForce (.fresh ctx) w.c.trace).own = own at hown ht
  generalize (inForce (.fresh ctx) w.log).own = own' at hown ⊢
  cases hown with
  | @present f v hslot =>
      cases ht
      refine ⟨⟨f, v⟩, ?_, rfl⟩
      show ((w.sslData f).join).map _ = _
      rw [hslot]
      rfl
  | absent =>
      rw [Option.none_or] at ht ⊢
      have hcontext := h.onContexts (inForce (.fresh ctx) w.log).ctx
      rw [← h.ctx] at hcontext ⊢
      rw [ht] at hcontext
      generalize (inForce (.fresh ctx) w.log).onContexts
        (inForce (.fresh ctx) w.c.trace).ctx = closure? at hcontext ⊢
      rw [h.kept.ctx] at hcontext
      cases hcontext with
      | @present f v hslot =>
          refine ⟨⟨f, v⟩, ?_, rfl⟩
          show ((w.ctxData w.c.connection.ctx f).join).map _ = _
          rw [hslot]
          rfl

/-! ### One step -/

/-- One more event is one more change of what is in force. -/
theorem inForce_snoc {P : Type} (setting : Setting K P) (log : List (Event K P)) (e : Event K P) :
    inForce setting (log ++ [e]) = (inForce setting log).after e := inForce_append setting log [e]

/-- Both sides change the callback of a context. -/
theorem Linked.onContext (h : Linked ctx w) {k : K} {ctxData : K → ExData V}
    (hrefers : Refers (ctxData k) true callback closure?)
    (hother : ∀ k', k' ≠ k → ctxData k' = w.ctxData k') :
    Linked ctx { w with
      ctxData
      c := w.c.step (.setCtxEchGreaseCallback k callback)
      log := w.log ++ [.setOnContext k closure?] } := by
  have hc : inForce (.fresh ctx) (w.c.step (.setCtxEchGreaseCallback k callback)).trace
      = (inForce (.fresh ctx) w.c.trace).after (.setOnContext k callback) := inForce_snoc _ _ _
  have hlog := inForce_snoc (.fresh ctx) w.log (.setOnContext k closure?)
  constructor
  case kept => exact h.kept.step (.setCtxEchGreaseCallback k callback)
  case own =>
    dsimp only
    rw [hc, hlog]
    exact h.own
  case onContexts =>
    intro k'
    dsimp only
    rw [hc, hlog]
    show Refers (ctxData k') true
      (Function.update (inForce (.fresh ctx) w.c.trace).onContexts k callback k')
      (Function.update (inForce (.fresh ctx) w.log).onContexts k closure? k')
    by_cases heq : k' = k
    · rw [heq, Function.update_self, Function.update_self]
      exact hrefers
    · rw [Function.update_of_ne heq, Function.update_of_ne heq, hother k' heq]
      exact h.onContexts k'
  case ctx =>
    dsimp only
    rw [hc, hlog]
    exact h.ctx

/-- Both sides change the callback of the connection. -/
theorem Linked.onConnection (h : Linked ctx w) {sslData : ExData V}
    (hok : (w.c.connection.setEchGreaseCallback callback).1 = true)
    (hrefers : Refers sslData false callback closure?) :
    Linked ctx { w with
      sslData
      c := w.c.step (.setEchGreaseCallback callback)
      log := w.log ++ [.set closure?] } := by
  have hc : inForce (.fresh ctx) (w.c.step (.setEchGreaseCallback callback)).trace
      = (inForce (.fresh ctx) w.c.trace).after (.set callback) := by
    rw [w.c.set_recorded callback hok]
    exact inForce_snoc _ _ _
  have hlog := inForce_snoc (.fresh ctx) w.log (.set closure?)
  constructor
  case kept => exact h.kept.step (.setEchGreaseCallback callback)
  case own =>
    dsimp only
    rw [hc, hlog]
    exact hrefers
  case onContexts =>
    intro k
    dsimp only
    rw [hc, hlog]
    exact h.onContexts k
  case ctx =>
    dsimp only
    rw [hc, hlog]
    exact h.ctx

/-- The connection changes its context. -/
theorem Linked.switched (h : Linked ctx w) {k : K} (hok : (w.c.connection.setSslCtx k).1 = true) :
    Linked ctx { w with c := w.c.step (.setSslCtx k), log := w.log ++ [.switched k] } := by
  have hc : inForce (.fresh ctx) (w.c.step (.setSslCtx k)).trace
      = (inForce (.fresh ctx) w.c.trace).after (.switched k) := by
    have htrace : (w.c.step (.setSslCtx k)).trace = w.c.trace ++ [.switched k] :=
      congrArg (w.c.trace ++ ·) (if_pos hok)
    rw [htrace]
    exact inForce_snoc _ _ _
  have hlog := inForce_snoc (.fresh ctx) w.log (.switched k)
  constructor
  case kept => exact h.kept.step (.setSslCtx k)
  case own =>
    dsimp only
    rw [hc, hlog]
    exact h.own
  case onContexts =>
    intro k'
    dsimp only
    rw [hc, hlog]
    exact h.onContexts k'
  case ctx =>
    dsimp only
    rw [hc, hlog]
    rfl

/-- The library leaves what is in force alone. -/
theorem Linked.library (h : Linked ctx w) {action : Action K (Trampoline F)} (haction : action.isLibrary) :
    Linked ctx { w with c := w.c.step action } := by
  obtain ⟨events, htrace, hevents⟩ := w.c.library_events haction
  have hc : inForce (.fresh ctx) (w.c.step action).trace = inForce (.fresh ctx) w.c.trace := by
    rw [htrace, inForce_append, inForce_of_handshake hevents]
  constructor
  case kept => exact h.kept.step action
  case own =>
    dsimp only
    rw [hc]
    exact h.own
  case onContexts =>
    intro k
    dsimp only
    rw [hc]
    exact h.onContexts k
  case ctx =>
    dsimp only
    rw [hc]
    exact h.ctx

theorem Linked.clear (h : Linked ctx w) : Linked ctx w.clear.2 := by
  unfold Policies.clear
  split
  · rename_i hok
    exact h.onConnection hok .absent
  · exact h

variable [DecidableEq F]

/-- A closure put in its slot is what its own callback refers to. -/
theorem refers_update (data : ExData V) (context : Bool) (closure : Closure V) :
    Refers (Function.update data closure.1 (some (some closure.2))) context
      (some ⟨closure.1, context⟩) (some closure) :=
  .present (Function.update_self _ _ _)

/-- A slot made for a rejected closure is one that nothing referred to. -/
theorem Refers.slot (h : Refers data context callback closure?) {f : F} (hnone : data f = none) :
    Refers (Function.update data f (some none)) context callback closure? := by
  cases h with
  | absent => exact .absent
  | @present f' v hslot =>
      have hne : f' ≠ f := by
        rintro rfl
        cases hnone.symm.trans hslot
      exact .present ((Function.update_of_ne hne _ _).trans hslot)

theorem Linked.rejected (h : Linked ctx w) (f : F) : Linked ctx { w with sslData := w.withSlot f } := by
  refine ⟨h.kept, ?_, h.onContexts, h.ctx⟩
  unfold Policies.withSlot
  cases hslot : w.sslData f with
  | none => exact h.own.slot hslot
  | some slot => exact h.own

theorem Linked.set (h : Linked ctx w) (closure : Closure V) : Linked ctx (w.set closure).2 := by
  unfold Policies.set
  dsimp only
  split
  · exact h.rejected closure.1
  · split
    · rename_i hok
      exact h.onConnection hok (refers_update _ false closure)
    · exact h.rejected closure.1

theorem Linked.step (h : Linked ctx w) (hasX509Support : K → Bool) (action : RustAction K V) :
    Linked ctx (w.step hasX509Support action) := by
  cases action with
  | setOnContext k closure =>
      refine h.onContext ?_ fun k' hne => Function.update_of_ne hne _ _
      rw [Function.update_self]
      exact refers_update _ true closure
  | clearOnContext k => exact h.onContext .absent fun k' _ => rfl
  | set closure => exact h.set closure
  | clear => exact h.clear
  | setSslContext k =>
      show Linked ctx (w.setSslContext hasX509Support k)
      unfold Policies.setSslContext
      split
      · exact h
      · split
        · rename_i hok
          exact h.switched hok
        · exact h
  | library action haction => exact h.library haction

end Links

/-! ### What a call says, and what it does -/

theorem Policies.clear_rejected (w : Policies K V) (h : w.clear.1 = false) : w.clear.2 = w := by
  unfold Policies.clear at h ⊢
  split at h
  · cases h
  · rename_i hrejected
    rw [if_neg hrejected]

theorem Policies.clear_log (w : Policies K V) :
    w.clear.2.log = w.log ++ if w.clear.1 then [.set none] else [] := by
  unfold Policies.clear
  split
  · rfl
  · exact (List.append_nil _).symm

section Said

variable [DecidableEq F]

theorem Policies.set_rejected (w : Policies K V) (closure : Closure V) (h : (w.set closure).1 = false) :
    (w.set closure).2 = { w with sslData := w.withSlot closure.1 } := by
  unfold Policies.set at h ⊢
  dsimp only at h ⊢
  split at h
  · rename_i hslot
    rw [if_pos hslot]
  · split at h
    · cases h
    · rename_i hslot hrejected
      rw [if_neg hslot, if_neg hrejected]

/-- A call that says it installed the closure is one that is recorded so. -/
theorem Policies.set_log (w : Policies K V) (closure : Closure V) :
    (w.set closure).2.log = w.log ++ if (w.set closure).1 then [.set (some closure)] else [] := by
  unfold Policies.set
  dsimp only
  split
  · exact (List.append_nil _).symm
  · split
    · rfl
    · exact (List.append_nil _).symm

/-- Then the callback that it installed runs that closure. -/
theorem Policies.set_runs (w : Policies K V) (closure : Closure V) (h : (w.set closure).1 = true) :
    (w.set closure).2.runs ⟨closure.1, false⟩ = some closure := by
  unfold Policies.set at h ⊢
  dsimp only at h ⊢
  split at h
  · cases h
  · rename_i hslot
    split at h
    · rename_i hok
      rw [if_neg hslot, if_pos hok]
      have hfound : Function.update (w.withSlot closure.1) closure.1 (some (some closure.2)) closure.1
          = some (some closure.2) := Function.update_self _ _ _
      show ((Function.update (w.withSlot closure.1) closure.1 (some (some closure.2)) closure.1).join).map _
        = some closure
      rw [hfound]
      rfl
    · cases h

end Said

/-! ### Every run -/

variable [DecidableEq F] (hasX509Support : K → Bool)

def Policies.Step (w : Policies K V) (action : RustAction K V) (w' : Policies K V) : Prop :=
  w' = w.step hasX509Support action

theorem linked_of_reachable {ctx : K} {w : Policies K V}
    (h : Reachable (· = .new ctx) (Policies.Step hasX509Support) w) : Linked ctx w := by
  refine h.invariant ?_ ?_
  · rintro w rfl
    exact ⟨kept_initial ⟨rfl, rfl⟩, .absent, fun _ => .absent, rfl⟩
  · rintro w action w' hlinked rfl
    exact hlinked.step hasX509Support action

/-- An invocation is of the policy that was in force before the library's step. -/
theorem Kept.invoked_policy {P : Type} {setting : Setting K P} {w : World K P} (h : Kept setting w)
    {trace events : List (Event K P)} (htrace : w.trace = trace ++ events) {n n' : Nat}
    (hevents : ∀ e ∈ events, e.handshake = some n') {policy : P} {info : SizeInfo}
    (hmem : .invoked n policy info ∈ events) : policyOf setting trace = some policy := by
  obtain ⟨before, after, rfl⟩ := List.append_of_mem hmem
  rw [← List.append_assoc] at htrace
  obtain ⟨log, hlog, -, hpolicy⟩ := h.history.split htrace
  have hbefore : inForce setting (trace ++ before) = inForce setting trace := by
    rw [inForce_append, inForce_of_handshake fun e he => hevents e (List.mem_append_left _ he)]
  rw [hlog, inForce_snoc] at hbefore
  exact (congrArg Setting.policy hbefore).symm.trans hpolicy

/-- Calls of the application are not seen as invocations. -/
theorem Policies.step_trace (w : Policies K V) (action : RustAction K V) :
    (∃ action', action'.isLibrary ∧ w.step hasX509Support action = { w with c := w.c.step action' })
      ∨ ∀ events, (w.step hasX509Support action).c.trace = w.c.trace ++ events →
        ∀ e ∈ events, e.handshake = none := by
  have hsame : ∀ w' : Policies K V, w'.c.trace = w.c.trace → ∀ events,
      w'.c.trace = w.c.trace ++ events → ∀ e ∈ events, e.handshake = none := by
    intro w' heq events htrace
    cases List.self_eq_append_right.mp (heq.symm.trans htrace)
    exact List.forall_mem_nil _
  have hone : ∀ (w' : Policies K V) (x : Event K (Trampoline F)), x.handshake = none →
      w'.c.trace = w.c.trace ++ [x] → ∀ events,
      w'.c.trace = w.c.trace ++ events → ∀ e ∈ events, e.handshake = none := by
    intro w' x hx heq events htrace
    cases List.append_cancel_left (heq.symm.trans htrace)
    exact List.forall_mem_singleton.mpr hx
  -- A call records what it did at most, and only where it succeeded.
  cases action with
  | library action haction => exact .inl ⟨action, haction, rfl⟩
  | setOnContext k closure => exact .inr (hone _ _ rfl rfl)
  | clearOnContext k => exact .inr (hone _ _ rfl rfl)
  | set closure =>
      right
      show ∀ events, (w.set closure).2.c.trace = _ → _
      unfold Policies.set
      dsimp only
      split
      · exact hsame _ rfl
      · split
        · rename_i hok
          exact hone _ _ rfl (w.c.set_recorded _ hok)
        · exact hsame _ rfl
  | clear =>
      right
      show ∀ events, w.clear.2.c.trace = _ → _
      unfold Policies.clear
      split
      · rename_i hok
        exact hone _ _ rfl (w.c.set_recorded _ hok)
      · exact hsame _ rfl
  | setSslContext k =>
      right
      show ∀ events, (w.setSslContext hasX509Support k).c.trace = _ → _
      unfold Policies.setSslContext
      split
      · exact hsame _ rfl
      · split
        · rename_i hok
          exact hone _ (.switched k) rfl (congrArg (w.c.trace ++ ·) (if_pos hok))
        · exact hsame _ rfl

/-- **The right closure runs.**  In every run of a connection made with context `ctx`:

* whenever the library invokes a callback, the closure that runs is the one in force, which is the
  connection's last one that was installed and not cleared, or else the last one of its context;
* the same closure would run in every state in which a callback is installed;
* a rejected call leaves the callback, what every callback runs, and what is in force as they were. -/
theorem right_closure (ctx : K) (w : Policies K V)
    (h : Reachable (· = .new ctx) (Policies.Step hasX509Support) w) :
    (∀ action events n t info, (w.step hasX509Support action).c.trace = w.c.trace ++ events →
        .invoked n t info ∈ events →
        ∃ closure, (w.step hasX509Support action).runs t = some closure
          ∧ policyOf (.fresh ctx) w.log = some closure)
      ∧ (∀ config t, w.c.connection.config = some config →
          config.echGreaseCallback.or (w.c.contexts w.c.connection.ctx) = some t →
          ∃ closure, w.runs t = some closure ∧ policyOf (.fresh ctx) w.log = some closure)
      ∧ (∀ closure, (w.set closure).1 = false →
          (w.set closure).2.c = w.c ∧ (w.set closure).2.log = w.log
            ∧ ∀ t, (w.set closure).2.runs t = w.runs t)
      ∧ (w.clear.1 = false → w.clear.2 = w) := by
  have hlinked := linked_of_reachable hasX509Support h
  refine ⟨?_, ?_, ?_, w.clear_rejected⟩
  · intro action events n t info htrace hmem
    rcases w.step_trace hasX509Support action with ⟨action', hlibrary, hstep⟩ | hnone
    · obtain ⟨events', htrace', hevents⟩ := w.c.library_events hlibrary
      rw [hstep] at htrace ⊢
      cases List.append_cancel_left (htrace.symm.trans htrace')
      have hpolicy := (hlinked.kept.step action').invoked_policy htrace hevents hmem
      have hafter : policyOf (.fresh ctx) (w.c.step action').trace = some t := by
        rw [policyOf, htrace, inForce_append, inForce_of_handshake hevents]
        exact hpolicy
      exact (hlinked.library hlibrary).resolves hafter
    · cases hnone events htrace _ hmem
  · intro config t hconfig ht
    exact hlinked.resolves ((hlinked.kept.policyOf_eq hconfig).trans ht)
  · intro closure hrejected
    rw [w.set_rejected closure hrejected]
    exact ⟨rfl, rfl, runs_withSlot w closure.1⟩

/-- A closure on the context, and one of another type on the connection. -/
def Policies.sample : Policies Unit fun _ : Bool => Nat :=
  [.setOnContext () ⟨false, 1⟩, .set ⟨true, 2⟩,
    .library (.setEnableEchGrease true) rfl].foldl (Policies.step · fun _ => true) (.new ())

theorem right_closure_own :
    ∃ closure, (Policies.sample.step (fun _ => true)
        (.library (.startConnect false kTls13Version none .sample) rfl)).runs ⟨true, false⟩ = some closure
      ∧ policyOf (.fresh ()) Policies.sample.log = some closure :=
  (right_closure (fun _ => true) () Policies.sample ⟨_, _, rfl, .foldl _ _⟩).1
    (.library (.startConnect false kTls13Version none .sample) rfl)
    [.started 0 false true, .invoked 0 ⟨true, false⟩
      ⟨41, [0x13, 1], [(23, 0)], false, 0, 0, false, false, 1, 16, 65480, 98⟩] 0 ⟨true, false⟩ _ rfl
    (List.mem_cons_of_mem _ List.mem_cons_self)

end Btls.Hello
