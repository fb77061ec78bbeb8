import Btls.Hello.Building
import Btls.Support.History

/-!
# Hello — Policy

An ECH GREASE policy decides one ClientHello of a handshake, and only as long as
`SSL_set_ech_grease_callback` could still replace it.  What was seen of a connection is a log
(`Event`), and every event is in order after the ones before it (`Follows`); the handshake's own
state says where its events stand (`Standing`).

`policyOf` is the policy in force after a log, the one last set on the connection or else on the
context last switched to.  It is read off the log, and that it is what the library goes by is part
of the invariant (`Kept.policyOf_eq`).  `Kept` holds of a new connection and is kept by every step
(`Kept.step`): what the application calls, also while its policy runs, and what the library does
next, be it a retry, a failure or a handshake that starts again.

* `invoked_once`: within one handshake the policy is invoked at most once.
* `Kept.set_fails`: setting one fails exactly while the running handshake has begun;
  `World.set_unchanged` and `World.set_recorded` say what a call does that fails, and one that
  succeeds.
* `policy_lifetime`: these of every run, with what is invoked, when, and what a later ClientHello
  carries.
-/

namespace Btls.Hello

open Btls.Support

variable {K P : Type}

/-! ### What the log says -/

/-- What is in force: the connection's own callback, those of the contexts, and the context in use. -/
structure Setting (K P : Type) where
  own : Option P
  onContexts : K → Option P
  ctx : K

/-- The connection's own policy, or else that of the context in use. -/
def Setting.policy (setting : Setting K P) : Option P := setting.own.or (setting.onContexts setting.ctx)

/-- No event of handshake `n`. -/
def Untouched (n : Nat) (log : List (Event K P)) : Prop := ∀ e ∈ log, e.handshake ≠ some n

/-- The first ClientHello of handshake `n` has begun to be built. -/
def Begun (n : Nat) (log : List (Event K P)) : Prop :=
  ∃ selected greases, .started n selected greases ∈ log

/-- A policy is set on a live connection whose ClientHello has not been begun, and nowhere else. -/
theorem setEchGreaseCallback_cases (c : Connection K P) (callback : Option P) :
    (c.setEchGreaseCallback callback = (false, c)
        ∧ ∀ config hs, c.config = some config → c.hs = some hs → hs.echGreasePolicyLocked)
      ∨ ∃ config hs, c.config = some config ∧ c.hs = some hs ∧ hs.echGreasePolicyLocked = false
        ∧ c.setEchGreaseCallback callback =
          (true, { c with config := some { config with echGreaseCallback := callback } }) := by
  unfold Connection.setEchGreaseCallback
  cases hconfig : c.config with
  | none => exact .inl ⟨rfl, fun config hs h => by cases h⟩
  | some config =>
      cases hhs : c.hs with
      | none => exact .inl ⟨rfl, fun config hs _ h => by cases h⟩
      | some hs =>
          cases hlocked : hs.echGreasePolicyLocked with
          | true =>
              refine .inl ⟨?_, fun config' hs' _ heq => ?_⟩
              · dsimp only
                rw [hlocked]
                rfl
              · cases heq
                exact hlocked
          | false =>
              refine .inr ⟨config, hs, rfl, rfl, hlocked, ?_⟩
              dsimp only
              rw [hlocked]
              rfl

section Log

variable {log : List (Event K P)} {n : Nat} {e : Event K P}

/-- A handshake that nothing was seen of stays so under events of another. -/
theorem Untouched.append (h : Untouched n log) (he : e.handshake ≠ some n) : Untouched n (log ++ [e]) := by
  intro x hx
  rcases List.mem_append.mp hx with hx | hx
  · exact h x hx
  · exact List.mem_singleton.mp hx ▸ he

/-- Nothing was begun of it. -/
theorem Untouched.not_begun (h : Untouched n log) : ¬ Begun n log := by
  rintro ⟨selected, greases, hmem⟩
  exact h _ hmem rfl

/-- What has begun stays begun. -/
theorem Begun.append (h : Begun n log) (more : List (Event K P)) : Begun n (log ++ more) := by
  obtain ⟨selected, greases, hmem⟩ := h
  exact ⟨selected, greases, List.mem_append_left _ hmem⟩

/-- An event of another handshake begins nothing. -/
theorem begun_append_iff (he : e.handshake ≠ some n) : Begun n (log ++ [e]) ↔ Begun n log := by
  constructor
  · rintro ⟨selected, greases, hmem⟩
    rcases List.mem_append.mp hmem with hmem | hmem
    · exact ⟨selected, greases, hmem⟩
    · exact absurd (congrArg Event.handshake (List.mem_singleton.mp hmem).symm) he
  · intro h
    exact h.append [e]

end Log

variable [DecidableEq K]

def Setting.after (setting : Setting K P) : Event K P → Setting K P
  | .set callback => { setting with own := callback }
  | .setOnContext ctx callback =>
      { setting with onContexts := Function.update setting.onContexts ctx callback }
  | .switched ctx => { setting with ctx }
  | _ => setting

/-- What is in force after a log. -/
def inForce (setting : Setting K P) (log : List (Event K P)) : Setting K P :=
  log.foldl Setting.after setting

/-- The policy in force after a log: the one last set on the connection, or else the one last set on the
context last switched to. -/
def policyOf (setting : Setting K P) (log : List (Event K P)) : Option P := (inForce setting log).policy

/-- Handshake `n` has begun, and its policy was invoked exactly when one was in force then and ECH GREASE
is what its ClientHello sends. -/
def Decided (setting : Setting K P) (n : Nat) (log : List (Event K P)) : Prop :=
  ∃ before selected greases after, log = before ++ .started n selected greases :: after
    ∧ Untouched n before
    ∧ ∀ policy, (∃ info, .invoked n policy info ∈ log)
      ↔ selected = false ∧ greases = true ∧ policyOf setting before = some policy

/-- What may come after what. -/
def Follows (setting : Setting K P) (before : List (Event K P)) : Event K P → Prop
  | .invoked n policy _ => ∃ log, before = log ++ [.started n false true] ∧ Untouched n log
      ∧ policyOf setting log = some policy
  | .reencrypted n => ∃ greases, .started n true greases ∈ before
  | .hello n view block => Decided setting n before ∧ (∃ ech, view.CarriesEch block ech)
      ∧ (.reencrypted n ∉ before → ∀ view' block', .hello n view' block' ∈ before →
          block'.echClientOuter = block.echClientOuter)
  | _ => True

/-- Where the events of handshake `n` stand, by its stage.  `used` is `used_hello_retry_request`. -/
inductive Standing (setting : Setting K P) (log : List (Event K P)) (n : Nat) (used : Bool) :
    Hs → Prop where
  | idle (h : Untouched n log) (hused : used = false) : Standing setting log n used sslHandshakeNew
  | running {hs : Hs} {view : Handshake} (hstage : hs.stage = .running view)
      (hlocked : hs.echGreasePolicyLocked) (hselected : hs.selectedEchConfig = false)
      (hpending : view.echGreasePending)
      (hdecided : Decided setting n log) (hnew : ∀ view block, .hello n view block ∉ log) :
      Standing setting log n used hs
  | waiting {hs : Hs} (hstage : hs.stage = .waiting) (hlocked : hs.echGreasePolicyLocked)
      (hdecided : Decided setting n log)
      (hselected : hs.selectedEchConfig → ∃ greases, .started n true greases ∈ log)
      (hsame : .reencrypted n ∉ log → ∀ view block, .hello n view block ∈ log →
        block.echClientOuter = hs.echClientOuter) :
      Standing setting log n used hs
  | failed {hs : Hs} (hstage : hs.stage = .failed) (hlocked : hs.echGreasePolicyLocked ↔ Begun n log) :
      Standing setting log n used hs

/-- What every step keeps. -/
structure Kept (setting : Setting K P) (w : World K P) : Prop where
  history : History (Follows setting) w.trace
  bounded : ∀ e ∈ w.trace, ∀ n, e.handshake = some n → n ≤ w.connection.handshakes
  onContexts : (inForce setting w.trace).onContexts = w.contexts
  ctx : (inForce setting w.trace).ctx = w.connection.ctx
  own : ∀ config, w.connection.config = some config →
    (inForce setting w.trace).own = config.echGreaseCallback
  present : w.connection.hs.isSome → w.connection.config.isSome
  absent : w.connection.hs = none → Begun w.connection.handshakes w.trace
  standing : ∀ hs, w.connection.hs = some hs →
    Standing setting w.trace w.connection.handshakes w.connection.usedHelloRetryRequest hs

/-! ### The log, entry by entry -/

section Log

variable {setting : Setting K P} {log : List (Event K P)} {n : Nat} {e : Event K P} {hs : Hs} {used : Bool}

/-- A policy is decided on only once the handshake has begun. -/
theorem Decided.begun (h : Decided setting n log) : Begun n log := by
  obtain ⟨before, selected, greases, after, hlog, -, -⟩ := h
  refine ⟨selected, greases, ?_⟩
  rw [hlog]
  exact List.mem_append_right _ List.mem_cons_self

/-- Only an invocation bears on what was decided. -/
theorem Decided.append (h : Decided setting n log) (he : ∀ policy info, e ≠ .invoked n policy info) :
    Decided setting n (log ++ [e]) := by
  obtain ⟨before, selected, greases, after, rfl, huntouched, hpolicy⟩ := h
  refine ⟨before, selected, greases, after ++ [e], ?_, huntouched, fun policy => ?_⟩
  · rw [List.append_assoc, List.cons_append]
  · rw [← hpolicy policy]
    refine exists_congr fun info => ?_
    rw [List.mem_append, List.mem_singleton]
    exact or_iff_left fun heq => he policy info heq.symm

/-- Events of no handshake leave every handshake where it stands. -/
theorem Standing.append (h : Standing setting log n used hs) (he : e.handshake ≠ some n) :
    Standing setting (log ++ [e]) n used hs := by
  have hne : ∀ x : Event K P, x.handshake = some n → x ∉ log → x ∉ log ++ [e] := by
    intro x hx hmem hmem'
    rcases List.mem_append.mp hmem' with hmem' | hmem'
    · exact hmem hmem'
    · exact he (List.mem_singleton.mp hmem' ▸ hx)
  have hinvoked : ∀ policy info, e ≠ .invoked n policy info := by
    rintro policy info rfl
    exact he rfl
  cases h with
  | idle h hused => exact .idle (h.append he) hused
  | running hstage hlocked hselected hpending hdecided hnew =>
      exact .running hstage hlocked hselected hpending (hdecided.append hinvoked)
        fun view block => hne _ rfl (hnew view block)
  | waiting hstage hlocked hdecided hselected hsame =>
      refine .waiting hstage hlocked (hdecided.append hinvoked) ?_ ?_
      · intro hsel
        obtain ⟨greases, hmem⟩ := hselected hsel
        exact ⟨greases, List.mem_append_left _ hmem⟩
      · intro hre view block hmem
        rcases List.mem_append.mp hmem with hmem | hmem
        · exact hsame (fun h => hre (List.mem_append_left _ h)) view block hmem
        · exact absurd (congrArg Event.handshake (List.mem_singleton.mp hmem).symm) he
  | failed hstage hlocked => exact .failed hstage (hlocked.trans (begun_append_iff he).symm)

/-- A handshake is locked once it has begun. -/
theorem Standing.locked_iff (h : Standing setting log n used hs) :
    hs.echGreasePolicyLocked ↔ Begun n log := by
  cases h with
  | idle h hused => exact iff_of_false Bool.false_ne_true h.not_begun
  | running hstage hlocked hselected hpending hdecided hnew => exact iff_of_true hlocked hdecided.begun
  | waiting hstage hlocked hdecided hselected hsame => exact iff_of_true hlocked hdecided.begun
  | failed hstage hlocked => exact hlocked

/-- Events of a handshake change nothing that is in force. -/
theorem Setting.after_of_handshake (setting : Setting K P) (h : e.handshake = some n) :
    setting.after e = setting := by
  cases e with
  | set callback => cases h
  | setOnContext ctx callback => cases h
  | switched ctx => cases h
  | started n selected greases => rfl
  | invoked n policy info => rfl
  | reencrypted n => rfl
  | hello n view block => rfl

/-- The setting is carried through the log event by event. -/
theorem inForce_append (setting : Setting K P) (log events : List (Event K P)) :
    inForce setting (log ++ events) = inForce (inForce setting log) events := List.foldl_append

/-- A handshake changes no setting. -/
theorem inForce_of_handshake {events : List (Event K P)} (h : ∀ e ∈ events, e.handshake = some n)
    (setting : Setting K P) : inForce setting events = setting := by
  induction events with
  | nil => rfl
  | cons e events ih =>
      have hafter := setting.after_of_handshake (h e List.mem_cons_self)
      refine (congrArg (inForce · events) hafter).trans ?_
      exact ih fun x hx => h x (List.mem_cons_of_mem e hx)

end Log

/-! ### The events of a handshake -/

section Turns

variable {setting : Setting K P} {w : World K P} {c : Connection K P} {config : Config P} {hs : Hs}
  {log : List (Event K P)} {events : List (Event K P)} {n : Nat} {selected greases : Bool}

/-- A handshake without a policy to invoke is decided as it starts. -/
theorem decided_started (huntouched : Untouched n log)
    (hpolicy : ¬ (selected = false ∧ greases = true ∧ (policyOf setting log).isSome)) :
    Decided setting n (log ++ [.started n selected greases]) := by
  refine ⟨log, selected, greases, [], rfl, huntouched, fun policy => iff_of_false ?_ ?_⟩
  · rintro ⟨info, hmem⟩
    rcases List.mem_append.mp hmem with hmem | hmem
    · exact huntouched _ hmem rfl
    · cases List.mem_singleton.mp hmem
  · rintro ⟨hselected, hgreases, hsome⟩
    exact hpolicy ⟨hselected, hgreases, hsome ▸ rfl⟩

/-- One with a policy is decided as it is invoked. -/
theorem decided_invoked (huntouched : Untouched n log) {p : P} (hpolicy : policyOf setting log = some p)
    (info : SizeInfo) :
    Decided setting n (log ++ [.started n false true] ++ [.invoked n p info]) := by
  refine ⟨log, false, true, [.invoked n p info], List.append_assoc _ _ _, huntouched, fun policy => ?_⟩
  rw [hpolicy]
  constructor
  · rintro ⟨info', hmem⟩
    rcases List.mem_append.mp hmem with hmem | hmem
    · rcases List.mem_append.mp hmem with hmem | hmem
      · exact absurd rfl (huntouched _ hmem)
      · cases List.mem_singleton.mp hmem
    · cases List.mem_singleton.mp hmem
      exact ⟨rfl, rfl, rfl⟩
  · rintro ⟨-, -, hsome⟩
    cases hsome
    exact ⟨info, List.mem_append_right _ (List.mem_singleton.mpr rfl)⟩

/-- A handshake whose ClientHello is out waits with the `ech_client_outer` that it carries. -/
theorem standing_hello {view : Handshake} {block : Block} {used : Bool} (hstage : hs.stage = .waiting)
    (hlocked : hs.echGreasePolicyLocked) (hdecided : Decided setting n log)
    (hselected : hs.selectedEchConfig → ∃ greases, .started n true greases ∈ log)
    (hsame : .reencrypted n ∉ log → ∀ view' block', .hello n view' block' ∈ log →
      block'.echClientOuter = block.echClientOuter)
    (houter : block.echClientOuter = hs.echClientOuter) :
    Standing setting (log ++ [.hello n view block]) n used hs := by
  refine .waiting hstage hlocked (hdecided.append ?_) ?_ ?_
  · intro policy info heq
    cases heq
  · intro hsel
    obtain ⟨greases, hmem⟩ := hselected hsel
    exact ⟨greases, List.mem_append_left _ hmem⟩
  · intro hre view' block' hmem
    rcases List.mem_append.mp hmem with hmem | hmem
    · exact (hsame (fun h => hre (List.mem_append_left _ h)) view' block' hmem).trans houter
    · cases List.mem_singleton.mp hmem
      exact houter

/-- The policy in force is the one that the library reads. -/
theorem Kept.policyOf_eq (h : Kept setting w) (hconfig : w.connection.config = some config) :
    policyOf setting w.trace = config.echGreaseCallback.or (w.contexts w.connection.ctx) := by
  unfold policyOf Setting.policy
  rw [h.own config hconfig, h.onContexts, h.ctx]

/-- A step of the handshake keeps what it says about itself. -/
theorem Kept.turn (h : Kept setting w) (hconfig : w.connection.config = some config)
    (hconfig' : c.config = w.connection.config) (hctx : c.ctx = w.connection.ctx)
    (hn : c.handshakes = w.connection.handshakes) (hhs : c.hs = some hs)
    (hevents : ∀ e ∈ events, e.handshake = some w.connection.handshakes)
    (hhistory : History (Follows setting) (w.trace ++ events))
    (hstanding : Standing setting (w.trace ++ events) w.connection.handshakes
      c.usedHelloRetryRequest hs) :
    Kept setting (w.record (c, events)) := by
  have hforce : inForce setting (w.trace ++ events) = inForce setting w.trace := by
    rw [inForce_append, inForce_of_handshake hevents]
  constructor
  case history => exact hhistory
  case bounded =>
    intro e he n hne
    rcases List.mem_append.mp he with he | he
    · exact (h.bounded e he n hne).trans_eq hn.symm
    · exact Nat.le_of_eq ((Option.some.inj (hne.symm.trans (hevents e he))).trans hn.symm)
  case onContexts => exact (congrArg Setting.onContexts hforce).trans h.onContexts
  case ctx => exact (congrArg Setting.ctx hforce).trans (h.ctx.trans hctx.symm)
  case own =>
    intro config' hconfig''
    exact (congrArg Setting.own hforce).trans (h.own config' (hconfig'.symm.trans hconfig''))
  case present =>
    intro _
    exact Option.isSome_of_mem (hconfig'.trans hconfig)
  case absent =>
    intro hnone
    cases hnone.symm.trans hhs
  case standing =>
    intro hs' hhs'
    cases hhs.symm.trans hhs'
    show Standing setting _ c.handshakes _ _
    rw [hn]
    exact hstanding

/-- **The first ClientHello.** -/
theorem Kept.startConnect (h : Kept setting w) (hconfig : w.connection.config = some config)
    (huntouched : Untouched w.connection.handshakes w.trace)
    (hused : w.connection.usedHelloRetryRequest = false) (selected : Bool) (maxVersion : Nat)
    (real : Option Bytes) (t : Handshake) :
    Kept setting (w.record (w.connection.startConnect config (w.contexts w.connection.ctx)
      sslHandshakeNew selected maxVersion real t)) := by
  have hfirst := encryptThenAdd_first { sslHandshakeNew with selectedEchConfig := selected, maxVersion }
    hused rfl rfl config (w.contexts w.connection.ctx) real t
  rw [← h.policyOf_eq hconfig] at hfirst
  unfold Connection.startConnect
  dsimp only at hfirst ⊢
  generalize (w.connection.view config _ _ t).greases = greases at hfirst ⊢
  generalize w.connection.encryptThenAdd config _ _ real t = moved at hfirst ⊢
  have hstarted : History (Follows setting)
      (w.trace ++ [.started w.connection.handshakes selected greases]) := h.history.snoc trivial
  -- It fails before any hello, stops at the callback, or sends; the trace tells these apart.
  cases hfirst with
  | failed hstage hlocked =>
      have hbegun : Begun w.connection.handshakes
          (w.trace ++ [.started w.connection.handshakes selected greases]) :=
        ⟨selected, greases, List.mem_append_right _ (List.mem_singleton.mpr rfl)⟩
      exact h.turn hconfig rfl rfl rfl rfl (List.forall_mem_singleton.mpr rfl) hstarted
        (.failed hstage (iff_of_true hlocked hbegun))
  | @invoked hs view p info hpolicy hselected hgreases hstage hlocked hnot hpending =>
      cases hselected
      cases hgreases
      have hhistory : History (Follows setting) (w.trace
          ++ [.started w.connection.handshakes false true, .invoked w.connection.handshakes p info]) := by
        rw [List.append_cons]
        exact hstarted.snoc ⟨w.trace, rfl, huntouched, hpolicy⟩
      refine h.turn hconfig rfl rfl rfl rfl
        (List.forall_mem_cons.mpr ⟨rfl, List.forall_mem_singleton.mpr rfl⟩) hhistory
        (.running hstage hlocked hnot hpending ?_ ?_)
      · rw [List.append_cons]
        exact decided_invoked huntouched hpolicy info
      · intro view block hmem
        rw [List.mem_append, List.mem_cons, List.mem_singleton] at hmem
        rcases hmem with hmem | hmem | hmem
        · exact huntouched _ hmem rfl
        · cases hmem
        · cases hmem
  | @sent hs view block hpolicy hstage hlocked hselected hech houter =>
      have hdecided := decided_started huntouched hpolicy
      have hnone : ∀ view' block', .hello w.connection.handshakes view' block'
          ∉ w.trace ++ [.started w.connection.handshakes selected greases] := by
        intro view' block' hmem
        rw [List.mem_append, List.mem_singleton] at hmem
        rcases hmem with hmem | hmem
        · exact huntouched _ hmem rfl
        · cases hmem
      have hhistory : History (Follows setting) (w.trace
          ++ [.started w.connection.handshakes selected greases,
            .hello w.connection.handshakes view block]) := by
        rw [List.append_cons]
        exact hstarted.snoc ⟨hdecided, hech, fun _ view' block' hmem => absurd hmem (hnone view' block')⟩
      refine h.turn hconfig rfl rfl rfl rfl
        (List.forall_mem_cons.mpr ⟨rfl, List.forall_mem_singleton.mpr rfl⟩) hhistory ?_
      rw [List.append_cons]
      refine standing_hello hstage hlocked hdecided ?_ ?_ houter
      · intro hsel
        cases hselected.symm.trans hsel
        exact ⟨greases, List.mem_append_right _ (List.mem_singleton.mpr rfl)⟩
      · intro _ view' block' hmem
        exact absurd hmem (hnone view' block')

/-- **The policy's answer.** -/
theorem Kept.answer (h : Kept setting w) (hconfig : w.connection.config = some config)
    (hhs : w.connection.hs = some hs) {view : Handshake} (hstage : hs.stage = .running view)
    (answer : Option Parameters) :
    Kept setting (w.record (w.connection.added hs (view.answering answer))) := by
  cases h.standing hs hhs with
  | idle huntouched hused => cases hstage
  | @running hs view' hstage' hlocked hselected hpending hdecided hnew =>
      cases hstage'.symm.trans hstage
      rcases added_cases w.connection hs (view.answering answer) with hadd | ⟨block, hblock, hadd⟩
      · rw [hadd]
        exact h.turn hconfig rfl rfl rfl rfl (List.forall_mem_nil _)
          ((List.append_nil w.trace).symm ▸ h.history)
          (.failed rfl (iff_of_true hlocked (hdecided.begun.append [])))
      · rw [hadd]
        have hnone : .reencrypted w.connection.handshakes ∉ w.trace →
            ∀ view' block', .hello w.connection.handshakes view' block' ∈ w.trace →
              block'.echClientOuter = block.echClientOuter :=
          fun _ view' block' hmem => absurd hmem (hnew view' block')
        have hech := addClienthelloTlsext_invoked (answering_pending hpending answer) hblock
        refine h.turn hconfig rfl rfl rfl rfl (List.forall_mem_singleton.mpr rfl)
          (h.history.snoc ⟨hdecided, hech, hnone⟩) (standing_hello rfl hlocked hdecided ?_ hnone rfl)
        intro hsel
        cases hselected.symm.trans hsel
  | waiting hstage' => cases hstage'.symm.trans hstage
  | failed hstage' => cases hstage'.symm.trans hstage

/-- **A later ClientHello.**  `events` come before it. -/
theorem Kept.later (h : Kept setting w) (hconfig : w.connection.config = some config)
    {outer : Option Bytes} {moved : Connection K P × List (Event K P)}
    (hlater : Later c selected outer moved) (hconfig' : c.config = w.connection.config)
    (hctx : c.ctx = w.connection.ctx) (hn : c.handshakes = w.connection.handshakes)
    (hevents : ∀ e ∈ events, e.handshake = some w.connection.handshakes)
    (hhistory : History (Follows setting) (w.trace ++ events))
    (hdecided : Decided setting w.connection.handshakes (w.trace ++ events))
    (hselected : selected → ∃ greases, .started w.connection.handshakes true greases ∈ w.trace ++ events)
    (hsame : .reencrypted w.connection.handshakes ∉ w.trace ++ events →
      ∃ bytes, outer = some bytes ∧ ∀ view block,
        .hello w.connection.handshakes view block ∈ w.trace ++ events → block.echClientOuter = bytes) :
    Kept setting (w.record (moved.1, events ++ moved.2)) := by
  cases hlater with
  | failed hstage hlocked =>
      rw [List.append_nil]
      exact h.turn hconfig hconfig' hctx hn rfl hevents hhistory
        (.failed hstage (iff_of_true hlocked hdecided.begun))
  | @sent hs view block hstage hlocked hsel hech houter hbytes =>
      have hsame' : .reencrypted w.connection.handshakes ∉ w.trace ++ events →
          ∀ view' block', .hello w.connection.handshakes view' block' ∈ w.trace ++ events →
            block'.echClientOuter = block.echClientOuter := by
        intro hre view' block' hmem
        obtain ⟨bytes, hsome, hall⟩ := hsame hre
        exact (hall view' block' hmem).trans ((hbytes bytes hsome).symm.trans houter.symm)
      rw [hn]
      refine h.turn hconfig hconfig' hctx rfl rfl ?_ ?_ ?_
      · intro e he
        rcases List.mem_append.mp he with he | he
        · exact hevents e he
        · cases List.mem_singleton.mp he
          rfl
      · rw [← List.append_assoc]
        exact hhistory.snoc ⟨hdecided, hech, hsame'⟩
      · rw [← List.append_assoc]
        exact standing_hello hstage hlocked hdecided (hsel ▸ hselected) hsame' houter

/-- A HelloVerifyRequest, after which no policy is pending. -/
theorem Kept.helloVerifyRequest (h : Kept setting w) (hconfig : w.connection.config = some config)
    (hhs : w.connection.hs = some hs) (hstage : hs.stage = .waiting) (t : Handshake) :
    Kept setting (w.record
      (w.connection.helloVerifyRequest config (w.contexts w.connection.ctx) hs t)) := by
  cases h.standing hs hhs with
  | idle huntouched hused => cases hstage
  | running hstage' => cases hstage'.symm.trans hstage
  | waiting hstage' hlocked hdecided hselected hsame =>
      have hlater := addClientHello_later w.connection
        { hs with receivedHelloVerifyRequest := true } (.inr rfl) hlocked config (w.contexts w.connection.ctx) t
      have hnil : w.trace ++ [] = w.trace := List.append_nil _
      refine h.later hconfig hlater rfl rfl rfl (List.forall_mem_nil _) (hnil.symm ▸ h.history)
        (hnil.symm ▸ hdecided) (hnil.symm ▸ hselected) ?_
      rw [hnil]
      intro hre
      exact ⟨hs.echClientOuter, rfl, hsame hre⟩
  | failed hstage' => cases hstage'.symm.trans hstage

/-- Nor after a HelloRetryRequest. -/
theorem Kept.helloRetryRequest (h : Kept setting w) (hconfig : w.connection.config = some config)
    (hhs : w.connection.hs = some hs) (hstage : hs.stage = .waiting) (accepted : Option (Option Bytes))
    (t : Handshake) :
    Kept setting (w.record
      (w.connection.helloRetryRequest config (w.contexts w.connection.ctx) hs accepted t)) := by
  have hnil : w.trace ++ [] = w.trace := List.append_nil _
  cases h.standing hs hhs with
  | idle huntouched hused => cases hstage
  | running hstage' => cases hstage'.symm.trans hstage
  | waiting hstage' hlocked hdecided hselected hsame =>
      unfold Connection.helloRetryRequest
      cases accepted with
      | none =>
          have hlater := addClientHello_later { w.connection with usedHelloRetryRequest := true }
            hs (.inl rfl) hlocked config (w.contexts w.connection.ctx) t
          refine h.later hconfig hlater rfl rfl rfl (List.forall_mem_nil _) (hnil.symm ▸ h.history)
            (hnil.symm ▸ hdecided) (hnil.symm ▸ hselected) ?_
          rw [hnil]
          intro hre
          exact ⟨hs.echClientOuter, rfl, hsame hre⟩
      | some real =>
          dsimp only
          split
          · rename_i hsel
            have hlater := encryptThenAdd_later
              { w.connection with usedHelloRetryRequest := true } hs rfl config
              (w.contexts w.connection.ctx) real t
            refine h.later hconfig hlater rfl rfl rfl (List.forall_mem_singleton.mpr rfl)
              (h.history.snoc (hselected hsel)) (hdecided.append ?_) ?_ ?_
            · intro policy info heq
              cases heq
            · intro _
              obtain ⟨greases, hmem⟩ := hselected hsel
              exact ⟨greases, List.mem_append_left _ hmem⟩
            · intro hre
              exact absurd (List.mem_append_right _ (List.mem_singleton.mpr rfl)) hre
          · exact h.turn hconfig rfl rfl rfl rfl (List.forall_mem_nil _) (hnil.symm ▸ h.history)
              (.failed rfl (iff_of_true hlocked (hdecided.begun.append [])))
  | failed hstage' => cases hstage'.symm.trans hstage

/-- A handshake that fails invokes nothing. -/
theorem Kept.fail (h : Kept setting w) (hconfig : w.connection.config = some config)
    (hhs : w.connection.hs = some hs) : Kept setting (w.record (w.connection.fail hs)) := by
  have hlocked := (h.standing hs hhs).locked_iff
  have hnil : w.trace ++ [] = w.trace := List.append_nil _
  exact h.turn hconfig rfl rfl rfl rfl (List.forall_mem_nil _) (hnil.symm ▸ h.history)
    (.failed rfl (hnil.symm ▸ hlocked))

/-- What leaves the log and what is in force alone. -/
theorem Kept.quiet (h : Kept setting w) (hctx : c.ctx = w.connection.ctx)
    (hn : w.connection.handshakes ≤ c.handshakes)
    (hown : ∀ config, c.config = some config → (inForce setting w.trace).own = config.echGreaseCallback)
    (hpresent : c.hs.isSome → c.config.isSome) (habsent : c.hs = none → Begun c.handshakes w.trace)
    (hstanding : ∀ hs, c.hs = some hs →
      Standing setting w.trace c.handshakes c.usedHelloRetryRequest hs) :
    Kept setting (w.record (c, [])) := by
  have hnil : w.trace ++ [] = w.trace := List.append_nil _
  unfold World.record
  rw [hnil]
  exact ⟨h.history, fun e he n hne => (h.bounded e he n hne).trans hn, h.onContexts,
    h.ctx.trans hctx.symm, hown, hpresent, habsent, hstanding⟩

/-- Nor does one that finishes. -/
theorem Kept.finish (h : Kept setting w) (hhs : w.connection.hs = some hs)
    (hstage : hs.stage = .waiting) (shed : Bool) :
    Kept setting (w.record (w.connection.finish shed, [])) := by
  refine h.quiet rfl (Nat.le_refl _) ?_ ?_ ?_ ?_
  · intro config hconfig
    refine h.own config ?_
    cases shed with
    | false => exact hconfig
    | true => cases hconfig
  · intro hsome
    cases hsome
  · intro _
    cases h.standing hs hhs with
    | idle huntouched hused => cases hstage
    | running hstage' => cases hstage'.symm.trans hstage
    | waiting hstage' hlocked hdecided hselected hsame => exact hdecided.begun
    | failed hstage' => cases hstage'.symm.trans hstage
  · intro hs' hhs'
    cases hhs'

/-- A new handshake object has no events yet. -/
theorem Kept.clear (h : Kept setting w) : Kept setting (w.record (w.connection.clear, [])) := by
  unfold Connection.clear
  cases hconfig : w.connection.config with
  | none => exact h.quiet rfl (Nat.le_refl _) h.own h.present h.absent h.standing
  | some config =>
      refine h.quiet rfl (Nat.le_succ _) (fun config' heq => h.own config' (hconfig.trans heq)) ?_ ?_ ?_
      · intro _
        rfl
      · intro hnone
        cases hnone
      · intro hs' hhs'
        cases hhs'
        refine .idle (fun e he hne => ?_) rfl
        exact absurd (h.bounded e he _ hne) (Nat.not_succ_le_self _)

/-- What the application changes. -/
theorem Kept.call (h : Kept setting w) {contexts : K → Option P} {e : Event K P}
    (he : e.handshake = none) (hhs : c.hs = w.connection.hs)
    (hn : c.handshakes = w.connection.handshakes)
    (hused : c.usedHelloRetryRequest = w.connection.usedHelloRetryRequest)
    (hpresent : c.config.isSome = w.connection.config.isSome)
    (hcontexts : ((inForce setting w.trace).after e).onContexts = contexts)
    (hctx : ((inForce setting w.trace).after e).ctx = c.ctx)
    (hown : ∀ config, c.config = some config →
      ((inForce setting w.trace).after e).own = config.echGreaseCallback) :
    Kept setting ⟨c, contexts, w.trace ++ [e]⟩ := by
  have hne : ∀ n, e.handshake ≠ some n := by
    intro n heq
    cases he.symm.trans heq
  have hforce : inForce setting (w.trace ++ [e]) = (inForce setting w.trace).after e :=
    inForce_append setting w.trace [e]
  -- The events of the application constrain nothing; the others belong to a handshake.
  have hfollows : Follows setting w.trace e := by
    cases e with
    | set callback => trivial
    | setOnContext ctx callback => trivial
    | switched ctx => trivial
    | started n selected greases => cases he
    | invoked n policy info => cases he
    | reencrypted n => cases he
    | hello n view block => cases he
  constructor
  case history => exact h.history.snoc hfollows
  case bounded =>
    intro x hx n hxn
    show n ≤ c.handshakes
    rw [hn]
    rcases List.mem_append.mp hx with hx | hx
    · exact h.bounded x hx n hxn
    · exact absurd (List.mem_singleton.mp hx ▸ hxn) (hne n)
  case onContexts => exact hforce.symm ▸ hcontexts
  case ctx => exact hforce.symm ▸ hctx
  case own => exact hforce.symm ▸ hown
  case present =>
    show c.hs.isSome → c.config.isSome
    rw [hhs, hpresent]
    exact h.present
  case absent =>
    show c.hs = none → Begun c.handshakes _
    rw [hhs, hn]
    exact fun hnone => (h.absent hnone).append [e]
  case standing =>
    show ∀ hs, c.hs = some hs → Standing setting _ c.handshakes c.usedHelloRetryRequest hs
    rw [hhs, hn, hused]
    exact fun hs hsome => (h.standing hs hsome).append (hne _)

/-- **One step keeps everything.** -/
theorem Kept.advance (h : Kept setting w) (hconfig : w.connection.config = some config)
    (hhs : w.connection.hs = some hs) (action : Action K P) :
    Kept setting (w.record
      (w.connection.advance config (w.contexts w.connection.ctx) hs action)) := by
  have hquiet : Kept setting (w.record (w.connection, [])) :=
    h.quiet rfl (Nat.le_refl _) h.own h.present h.absent h.standing
  unfold Connection.advance
  -- What does not fit the stage is not done, and leaves the world as it is.
  cases action with
  | setEchGreaseCallback callback => exact hquiet
  | setCtxEchGreaseCallback ctx callback => exact hquiet
  | setSslCtx ctx => exact hquiet
  | setEnableEchGrease enable => exact hquiet
  | startConnect selected maxVersion real t =>
      dsimp only
      split
      · rename_i hstage
        cases h.standing hs hhs with
        | idle huntouched hused => exact h.startConnect hconfig huntouched hused selected maxVersion real t
        | running hstage' => cases hstage'.symm.trans hstage
        | waiting hstage' => cases hstage'.symm.trans hstage
        | failed hstage' => cases hstage'.symm.trans hstage
      · exact hquiet
  | answer answer =>
      dsimp only
      split
      · rename_i hstage
        exact h.answer hconfig hhs hstage answer
      · exact hquiet
  | helloVerifyRequest t =>
      dsimp only
      split
      · rename_i hstage
        exact h.helloVerifyRequest hconfig hhs hstage t
      · exact hquiet
  | helloRetryRequest accepted t =>
      dsimp only
      split
      · rename_i hstage
        exact h.helloRetryRequest hconfig hhs hstage accepted t
      · exact hquiet
  | fail =>
      dsimp only
      split
      · exact hquiet
      · exact h.fail hconfig hhs
  | finish shed =>
      dsimp only
      split
      · rename_i hstage
        exact h.finish hhs hstage shed
      · exact hquiet
  | clear =>
      dsimp only
      split
      · exact hquiet
      · exact h.clear
  | renegotiate => exact hquiet

/-- What the library does next. -/
theorem Kept.worldAdvance (h : Kept setting w) (action : Action K P) : Kept setting (w.advance action) := by
  unfold World.advance
  split
  · exact h
  · rename_i config hs hconfig hhs
    exact h.advance hconfig hhs action
  · split
    · exact h.clear
    · split
      · exact h
      · exact h.clear
    · exact h

/-- **Every step keeps to what the log says.** -/
theorem Kept.step (h : Kept setting w) (action : Action K P) : Kept setting (w.step action) := by
  cases action with
  | setEchGreaseCallback callback =>
      show Kept setting (w.record ((w.connection.setEchGreaseCallback callback).2,
        if (w.connection.setEchGreaseCallback callback).1 then [.set callback] else []))
      rcases setEchGreaseCallback_cases w.connection callback with
        ⟨heq, -⟩ | ⟨config, hs, hconfig, hhs, -, heq⟩
      · rw [heq]
        exact h.quiet rfl (Nat.le_refl _) h.own h.present h.absent h.standing
      · rw [heq]
        refine h.call (e := .set callback) rfl rfl rfl rfl ?_ h.onContexts h.ctx ?_
        · rw [hconfig]
          rfl
        · intro config' hconfig'
          cases hconfig'
          rfl
  | setCtxEchGreaseCallback ctx callback =>
      refine h.call rfl rfl rfl rfl rfl ?_ h.ctx h.own
      exact congrArg (Function.update · ctx callback) h.onContexts
  | setSslCtx ctx =>
      show Kept setting (w.record ((w.connection.setSslCtx ctx).2,
        if (w.connection.setSslCtx ctx).1 then [.switched ctx] else []))
      unfold Connection.setSslCtx
      cases hconfig : w.connection.config with
      | none => exact h.quiet rfl (Nat.le_refl _) h.own h.present h.absent h.standing
      | some config =>
          exact h.call (e := .switched ctx) rfl rfl rfl rfl (congrArg Option.isSome hconfig.symm)
            h.onContexts rfl fun config' heq => h.own config' (hconfig.trans heq)
  | setEnableEchGrease enable =>
      refine h.quiet rfl (Nat.le_refl _) ?_ ?_ h.absent h.standing
      · intro config hconfig
        obtain ⟨config', hconfig', rfl⟩ := Option.map_eq_some_iff.mp hconfig
        exact h.own config' hconfig'
      · intro hsome
        exact Option.isSome_map.trans (h.present hsome)
  | startConnect selected maxVersion real t => exact h.worldAdvance _
  | answer answer => exact h.worldAdvance _
  | helloVerifyRequest t => exact h.worldAdvance _
  | helloRetryRequest accepted t => exact h.worldAdvance _
  | fail => exact h.worldAdvance _
  | finish shed => exact h.worldAdvance _
  | clear => exact h.worldAdvance _
  | renegotiate => exact h.worldAdvance _

end Turns

/-! ### Every run -/

/-- A connection made from one of the contexts, which may have callbacks already. -/
def World.Initial (setting : Setting K P) (w : World K P) : Prop :=
  setting.own = none ∧ w = .new setting.onContexts setting.ctx

/-- So does a new connection. -/
theorem kept_initial {setting : Setting K P} {w : World K P} (h : World.Initial setting w) :
    Kept setting w := by
  obtain ⟨hown, rfl⟩ := h
  refine ⟨.nil, ?_, rfl, rfl, ?_, fun _ => rfl, ?_, ?_⟩
  · intro e he
    cases he
  · intro config hconfig
    cases hconfig
    exact hown
  · intro hnone
    cases hnone
  · intro hs hhs
    cases hhs
    exact .idle (List.forall_mem_nil _) rfl

/-- So does every reachable state. -/
theorem kept_of_reachable {setting : Setting K P} {w : World K P}
    (h : Reachable (World.Initial setting) World.Step w) : Kept setting w := by
  refine h.invariant (fun w hw => kept_initial hw) ?_
  rintro w action w' hkept rfl
  exact hkept.step action

/-- Whether an event is an invocation in handshake `n`. -/
def Event.isInvocation (n : Nat) : Event K P → Bool
  | .invoked m _ _ => m == n
  | _ => false

/-- **A policy is invoked at most once in a handshake.** -/
theorem invoked_once {setting : Setting K P} {log : List (Event K P)}
    (h : History (Follows setting) log) (n : Nat) : log.countP (Event.isInvocation n) ≤ 1 := by
  refine h.countP_le_one fun before e hfollows he x hx hxn => ?_
  cases e with
  | invoked m policy info =>
      cases eq_of_beq he
      obtain ⟨log, rfl, huntouched, -⟩ := hfollows
      rcases List.mem_append.mp hx with hx | hx
      · cases x with
        | invoked m' policy' info' => exact huntouched _ hx (congrArg some (eq_of_beq hxn))
        | set callback => cases hxn
        | setOnContext ctx callback => cases hxn
        | switched ctx => cases hxn
        | started m' selected greases => cases hxn
        | reencrypted m' => cases hxn
        | hello m' view block => cases hxn
      · cases List.mem_singleton.mp hx
        cases hxn
  | set callback => cases he
  | setOnContext ctx callback => cases he
  | switched ctx => cases he
  | started m selected greases => cases he
  | reencrypted m => cases he
  | hello m view block => cases he

/-- **A policy cannot be set exactly while the running handshake has begun.** -/
theorem Kept.set_fails {setting : Setting K P} {w : World K P} (h : Kept setting w)
    (callback : Option P) :
    (w.connection.setEchGreaseCallback callback).1 = false ↔ Begun w.connection.handshakes w.trace := by
  rcases setEchGreaseCallback_cases w.connection callback with
    ⟨heq, hlocked⟩ | ⟨config, hs, hconfig, hhs, hlocked, heq⟩
  · rw [heq]
    refine iff_of_true rfl ?_
    cases hhs : w.connection.hs with
    | none => exact h.absent hhs
    | some hs =>
        obtain ⟨config, hconfig⟩ := Option.isSome_iff_exists.mp (h.present (Option.isSome_of_mem hhs))
        exact (h.standing hs hhs).locked_iff.mp (hlocked config hs hconfig hhs)
  · rw [heq]
    refine iff_of_false (fun htrue => by cases htrue) fun hbegun => ?_
    exact Bool.false_ne_true (hlocked.symm.trans ((h.standing hs hhs).locked_iff.mpr hbegun))

/-- A set that fails changes nothing. -/
theorem World.set_unchanged (w : World K P) (callback : Option P)
    (h : (w.connection.setEchGreaseCallback callback).1 = false) :
    w.step (.setEchGreaseCallback callback) = w := by
  rcases setEchGreaseCallback_cases w.connection callback with ⟨heq, -⟩ | ⟨config, hs, -, -, -, heq⟩
  · show w.record ((w.connection.setEchGreaseCallback callback).2,
      if (w.connection.setEchGreaseCallback callback).1 then [.set callback] else []) = w
    rw [heq]
    show ({ w with trace := w.trace ++ [] } : World K P) = w
    rw [List.append_nil]
  · rw [heq] at h
    cases h

/-- A set that succeeds is what the log records. -/
theorem World.set_recorded (w : World K P) (callback : Option P)
    (h : (w.connection.setEchGreaseCallback callback).1 = true) :
    (w.step (.setEchGreaseCallback callback)).trace = w.trace ++ [.set callback] :=
  congrArg (w.trace ++ ·) (if_pos h)

/-- **The life of an ECH GREASE policy.**  In every run of a connection and after every step of it, also
while the policy runs:

* within one handshake the policy is invoked at most once, at the start of the first ClientHello, which
  sends ECH GREASE and not real ECH, and it is the policy then in force;
* it is invoked for every first ClientHello for which one is in force;
* a later ClientHello carries the same ECH extension, unless real ECH was encrypted again for it;
* `SSL_set_ech_grease_callback` fails, and changes nothing, if and only if the last handshake's
  ClientHello has begun to be built; else its callback is the connection's own from then on. -/
theorem policy_lifetime (setting : Setting K P) (w : World K P)
    (h : Reachable (World.Initial setting) World.Step w) :
    (∀ n, w.trace.countP (Event.isInvocation n) ≤ 1)
      ∧ (∀ n policy info before after, w.trace = before ++ .invoked n policy info :: after →
          ∃ log, before = log ++ [.started n false true] ∧ (∀ e ∈ log, e.handshake ≠ some n)
            ∧ policyOf setting log = some policy)
      ∧ (∀ n view block before after, w.trace = before ++ .hello n view block :: after →
          ∃ log selected greases rest, before = log ++ .started n selected greases :: rest
            ∧ ∀ policy, (∃ info, .invoked n policy info ∈ before)
              ↔ selected = false ∧ greases = true ∧ policyOf setting log = some policy)
      ∧ (∀ n view block before after, w.trace = before ++ .hello n view block :: after →
          .reencrypted n ∉ before → ∀ view' block', .hello n view' block' ∈ before →
          ∃ ech, view'.CarriesEch block' ech ∧ view.CarriesEch block ech)
      ∧ (∀ n, .reencrypted n ∈ w.trace → ∃ greases, .started n true greases ∈ w.trace)
      ∧ ∀ callback,
        ((w.connection.setEchGreaseCallback callback).1 = false
          ↔ ∃ selected greases, .started w.connection.handshakes selected greases ∈ w.trace)
        ∧ ((w.connection.setEchGreaseCallback callback).1 = false →
          w.step (.setEchGreaseCallback callback) = w)
        ∧ ((w.connection.setEchGreaseCallback callback).1 = true →
          (w.step (.setEchGreaseCallback callback)).trace = w.trace ++ [.set callback]) := by
  have hkept := kept_of_reachable h
  refine ⟨fun n => invoked_once hkept.history n, ?_, ?_, ?_, ?_, fun callback => ?_⟩
  · intro n policy info before after hlog
    exact hkept.history.split hlog
  · intro n view block before after hlog
    obtain ⟨⟨log, selected, greases, rest, hbefore, -, hpolicy⟩, -⟩ := hkept.history.split hlog
    exact ⟨log, selected, greases, rest, hbefore, hpolicy⟩
  · intro n view block before after hlog hre view' block' hmem
    obtain ⟨-, ⟨ech, hech⟩, hsame⟩ := hkept.history.split hlog
    obtain ⟨before', after', hbefore⟩ := List.append_of_mem hmem
    rw [hbefore, List.append_assoc, List.cons_append] at hlog
    obtain ⟨-, ⟨ech', hech'⟩, -⟩ := hkept.history.split hlog
    have heq : ech' = ech := by
      have houter := hech'.1
      rw [hsame hre view' block' hmem, hech.1] at houter
      exact (Option.some.inj houter).symm
    exact ⟨ech, heq ▸ hech', hech⟩
  · intro n hmem
    obtain ⟨before, after, hlog, greases, hstarted⟩ := hkept.history.of_mem hmem
    exact ⟨greases, hlog ▸ List.mem_append_left _ hstarted⟩
  · exact ⟨hkept.set_fails callback, w.set_unchanged callback, w.set_recorded callback⟩

/-- A connection whose policy is running. -/
def World.sample : World Unit Nat :=
  [.setEchGreaseCallback (some 1), .setEnableEchGrease true,
    .startConnect false kTls13Version none .sample].foldl World.step (.new (fun _ => none) ())

/-- A handshake that has invoked its policy refuses another. -/
theorem policy_lifetime_running :
    (World.sample.connection.setEchGreaseCallback (some 2)).1 = false
      ∧ World.sample.trace.countP (Event.isInvocation 0) = 1 := by
  have htrace : World.sample.trace = [.set (some 1), .started 0 false true, .invoked 0 1
      ⟨41, [0x13, 1], [(23, 0)], false, 0, 0, false, false, 1, 16, 65480, 98⟩] := rfl
  obtain ⟨honce, -, -, -, -, hset⟩ := policy_lifetime ⟨none, fun _ => none, ()⟩ .sample
    ⟨_, _, ⟨rfl, rfl⟩, .foldl _ _⟩
  refine ⟨(hset (some 2)).1.mpr ⟨false, true, ?_⟩, Nat.le_antisymm (honce 0) ?_⟩
  · rw [htrace]
    exact List.mem_cons_of_mem _ List.mem_cons_self
  · rw [htrace]
    exact Nat.le_refl 1

end Btls.Hello
