import Btls.Session.ClientSession
import Btls.Support.Descent
import Btls.Support.Runs

/-!
# Session — Lineage

Connections of any number of connectors, one after another or at once, each full or resuming a
session that an earlier one reported.  The certificate is looked at only where a handshake is full;
`Covers` says what such a root must have in common with a connection that resumes from it, link by
link, and `no_laundering` that every session kept for resumption has such a root.

The invariant is that everything on record was made as it says (`World.Invariant`): an issuer
belongs to one context, a connection to the context that made it, a reported session to the
connection that reported it, and what a connection resumes is what it kept.  Each of these is kept
by every step on its own (`Step.issuers`, `Step.made`, `Step.established`, `Step.recorded`), since
steps only add to the record (`Step.grows`).

Issuers are the numbers of a 64-bit counter; that there are some left is a hypothesis
(`World.IssuerLeft`).
-/

namespace Btls.Session

open Btls.Support

/-! ### Connections over time -/

/-- A connection `into_ssl` returned.  `config` is what its configuration was then, and `offered` says
which of the reported sessions it kept. -/
structure Connection where
  config : SslConfig
  ssl : Ssl
  domain : Bytes
  sni : Bool
  verifyHostname : Bool
  offered : Option Nat

/-- How a handshake ended, and the session it established. -/
structure Established where
  resumed : Bool
  session : SslSession

/-- A session handed to the callback, and the connection that received it. -/
structure Report where
  session : ClientSession
  connection : Nat

/-- `builders` are the callbacks of contexts under construction; connections and reports are counted
from 0. -/
structure World where
  nextIssuer : UInt64
  builders : Nat → Option ClientSessionCallback
  contexts : List SslContext
  connections : List Connection
  established : Nat → Option Established
  reports : List Report

def World.init : World where
  nextIssuer := 1
  builders _ := none
  contexts := []
  connections := []
  established _ := none
  reports := []

/-- `NEXT_ISSUER` does not come around with the next callback: fewer than `UInt64.size - 1` were set. -/
def World.IssuerLeft (w : World) : Prop := w.nextIssuer.toNat + 1 < UInt64.size

inductive Event where
  | setClientSessionCallback (builder : Nat)
  | build (builder : Nat) (hasX509Support : Bool)
  | intoSsl (domain : Bytes)
  | full (connection : Nat)
  | resume (connection : Nat)
  | report (connection : Nat)

/-- A configuration made by `configure`, and by whatever else its owner did, short of offering a
session. -/
structure World.Fresh (w : World) (cfg : ConnectConfiguration) : Prop where
  context : cfg.ssl.sslContext ∈ w.contexts
  sessionCtx : ∃ context ∈ w.contexts, cfg.ssl.sessionCtx = some context
  noPeer : cfg.ssl.sessionPeer = none
  noSession : cfg.ssl.session = none
  noOffer : cfg.session = none

/-- `set_client_session`, or not. -/
def World.offer (w : World) (cfg : ConnectConfiguration) :
    (offered : Option Nat) → Option ConnectConfiguration
  | none => some cfg
  | some k => w.reports[k]?.map fun report => cfg.setClientSession report.session

/-- A full handshake establishes a session in the connection's own scope; a resumed one, the session
it resumed.  What is reported is a ticket for that session, and the configuration may be shed by
then.  Issuers are taken not to run out (`IssuerLeft`). -/
inductive Step (lib : Library) : World → Event → World → Prop where
  | setClientSessionCallback (w : World) (b : Nat) (hleft : w.IssuerLeft) :
      Step lib w (.setClientSessionCallback b)
        { w with
          nextIssuer := w.nextIssuer + 1
          builders := fun b' => if b' = b then some ⟨w.nextIssuer⟩ else w.builders b' }
  | build (w : World) (b : Nat) (hasX509Support : Bool) :
      Step lib w (.build b hasX509Support)
        { w with
          builders := fun b' => if b' = b then none else w.builders b'
          contexts := w.contexts ++ [⟨w.contexts.length, hasX509Support, w.builders b⟩] }
  | intoSsl {w : World} {cfg offering : ConnectConfiguration} {config : SslConfig}
      {offered : Option Nat} {domain : Bytes} {now : Option Int} {ssl : Ssl}
      (hfresh : w.Fresh cfg) (hconfig : cfg.ssl.config = some config)
      (hoffer : w.offer cfg offered = some offering)
      (h : offering.intoSsl lib domain now = some ssl) :
      Step lib w (.intoSsl domain)
        { w with connections := w.connections ++
          [⟨config, ssl, domain, cfg.usesSni lib domain, cfg.verifyHostname,
            if ssl.session.isSome then offered else none⟩] }
  | full {w : World} {j : Nat} {c : Connection} (chain : Option (List X509))
      (hc : w.connections[j]? = some c) (h : w.established j = none) :
      Step lib w (.full j)
        { w with established := fun j' => if j' = j
            then some ⟨false, ⟨c.config.sessionIdContext, chain⟩⟩ else w.established j' }
  | resume {w : World} {j : Nat} {c : Connection} {s : SslSession}
      (hc : w.connections[j]? = some c) (h : w.established j = none) (hs : c.ssl.session = some s) :
      Step lib w (.resume j)
        { w with established := fun j' => if j' = j then some ⟨true, s⟩ else w.established j' }
  | report {w : World} {j : Nat} {c : Connection} {e : Established} {session : ClientSession}
      (shed : Bool) (hc : w.connections[j]? = some c) (he : w.established j = some e)
      (h : rawClientSession (if shed then { c.ssl with config := none } else c.ssl) e.session
        = some session) :
      Step lib w (.report j) { w with reports := w.reports ++ [⟨session, j⟩] }

/-- `j` resumed a session that `i` reported. -/
def World.ResumedFrom (w : World) (j i : Nat) : Prop :=
  ∃ e c k report, w.established j = some e ∧ e.resumed = true ∧ w.connections[j]? = some c
    ∧ c.offered = some k ∧ w.reports[k]? = some report ∧ report.connection = i

/-- The certificate was looked at. -/
def World.Full (w : World) (i : Nat) : Prop := ∃ e, w.established i = some e ∧ e.resumed = false

def SslConfig.verifiesPeer (config : SslConfig) : Bool := config.verifyMode.testBit 0

/-- `root` was made for the same peer in the same scope as `c`, and checked at least as much. -/
structure Covers (root c : Connection) : Prop where
  domain : eqIgnoreAsciiCase root.domain c.domain
  sni : root.sni = c.sni
  scope : root.config.sessionIdContext = c.config.sessionIdContext
  context : root.config.sessionIdContext = [] → root.ssl.sslContext = c.ssl.sslContext
  verifyPeer : c.config.verifiesPeer → root.config.verifiesPeer
  verifyHostname : c.verifyHostname → root.verifyHostname

/-- Names are compared as their lower-case forms. -/
theorem eqIgnoreAsciiCase_iff {a b : Bytes} :
    eqIgnoreAsciiCase a b = true ↔ a.map toAsciiLowercase = b.map toAsciiLowercase := by
  rw [eqIgnoreAsciiCase, decide_eq_true_eq]

/-- A connection covers itself. -/
theorem Covers.refl (c : Connection) : Covers c c where
  domain := eqIgnoreAsciiCase_iff.mpr rfl
  sni := rfl
  scope := rfl
  context _ := rfl
  verifyPeer h := h
  verifyHostname h := h

/-- A session that is passed on stays within what its first connection was verified for. -/
theorem Covers.trans {a b c : Connection} (h₁ : Covers a b) (h₂ : Covers b c) : Covers a c where
  domain := eqIgnoreAsciiCase_iff.mpr
    ((eqIgnoreAsciiCase_iff.mp h₁.domain).trans (eqIgnoreAsciiCase_iff.mp h₂.domain))
  sni := h₁.sni.trans h₂.sni
  scope := h₁.scope.trans h₂.scope
  context h := (h₁.context h).trans (h₂.context (h₁.scope ▸ h))
  verifyPeer h := h₁.verifyPeer (h₂.verifyPeer h)
  verifyHostname h := h₁.verifyHostname (h₂.verifyHostname h)

/-! ### What the functions say -/

/-- A live connection verifies its peer as its configuration says. -/
theorem verifiesPeer_of_config {ssl : Ssl} {config : SslConfig} (h : ssl.config = some config) :
    verifiesPeer ssl = config.verifiesPeer := by
  rw [verifiesPeer, Ssl.verifyMode, h]
  simp [SslConfig.verifiesPeer]

/-- A session is offered only to a connection like the one that reported it. -/
structure Allows (session : ClientSession) (config : SslConfig) (context : SslContext)
    (domain : Bytes) (sni verifyHostname : Bool) : Prop where
  scope : config.sessionIdContext = session.session.idContext
  issuer : session.session.idContext = [] → ∃ t, session.issuer = some t ∧ context.issuer = some t
  domain : eqIgnoreAsciiCase session.peer.domain domain
  sni : session.peer.sni = sni
  verifyHostname : verifyHostname = true → session.peer.verifyHostname = true
  verifyPeer : config.verifiesPeer = true → session.verifyPeer = true

/-- What `resumes` checks is what the policy of the connection demands. -/
theorem ClientSession.resumes_allows {session : ClientSession} {ssl : Ssl} {config : SslConfig}
    {domain : Bytes} {sni verifyHostname : Bool} {now : Option Int} (hconfig : ssl.config = some config)
    (h : session.resumes ssl domain sni verifyHostname now = true) :
    Allows session config ssl.sslContext domain sni verifyHostname := by
  simp only [ClientSession.resumes, verifiesPeer_of_config hconfig, Ssl.sessionIdContext, hconfig,
    Option.map_some, Option.some.injEq, Bool.and_eq_true, Bool.or_eq_true, decide_eq_true_eq,
    beq_iff_eq, Bool.not_eq_true', List.isEmpty_eq_false_iff] at h
  obtain ⟨⟨⟨⟨⟨⟨hscope, hissuer⟩, hdomain⟩, hsni⟩, hhostname⟩, hpeer⟩, -⟩ := h
  refine ⟨hscope, fun hempty => ?_, hdomain, hsni, fun hv => ?_, fun hv => ?_⟩
  · obtain ⟨hsome, heq⟩ := hissuer.resolve_left fun hne => hne hempty
    obtain ⟨t, ht⟩ := Option.isSome_iff_exists.mp hsome
    exact ⟨t, ht, heq ▸ ht⟩
  · exact hhostname.resolve_right (by rw [hv]; exact Bool.noConfusion)
  · exact hpeer.resolve_right (by rw [hv]; exact Bool.noConfusion)

/-- What `into_ssl` leaves as it was, until the session. -/
structure Kept (ssl ssl' : Ssl) : Prop where
  config : ssl'.config = ssl.config
  sslContext : ssl'.sslContext = ssl.sslContext
  session : ssl'.session = ssl.session

/-- Nothing was done. -/
theorem Kept.refl (ssl : Ssl) : Kept ssl ssl := ⟨rfl, rfl, rfl⟩

/-- And nothing after it. -/
theorem Kept.trans {a b c : Ssl} (h₁ : Kept a b) (h₂ : Kept b c) : Kept a c where
  config := h₂.config.trans h₁.config
  sslContext := h₂.sslContext.trans h₁.sslContext
  session := h₂.session.trans h₁.session

section IntoSsl

variable {lib : Library} {cfg : ConnectConfiguration} {ssl ssl' : Ssl} {domain : Bytes}
  {now : Option Int}

/-- The host name does not touch the session. -/
theorem Ssl.setHostname_kept (h : ssl.setHostname lib domain = some ssl') :
    Kept ssl ssl' ∧ ssl'.sessionPeer = ssl.sessionPeer := by
  unfold Ssl.setHostname at h
  split at h
  · cases h
  · split at h
    · obtain rfl := Option.some.inj h
      exact ⟨⟨rfl, rfl, rfl⟩, rfl⟩
    · cases h

/-- Nor does the name to verify. -/
theorem setupVerifyHostname_kept (h : setupVerifyHostname lib ssl domain = some ssl') :
    Kept ssl ssl' ∧ ssl'.sessionPeer = ssl.sessionPeer := by
  unfold setupVerifyHostname at h
  split at h <;> split at h <;> cases h <;> exact ⟨⟨rfl, rfl, rfl⟩, rfl⟩

/-- A step of `prepare` that is taken or not. -/
theorem kept_of_cond {b : Bool} {x : Option Ssl}
    (hx : ∀ ssl', x = some ssl' → Kept ssl ssl' ∧ ssl'.sessionPeer = ssl.sessionPeer)
    (h : (bif b then x else some ssl) = some ssl') :
    Kept ssl ssl' ∧ ssl'.sessionPeer = ssl.sessionPeer := by
  cases b with
  | true => exact hx ssl' h
  | false =>
      obtain rfl := Option.some.inj h
      exact ⟨.refl ssl, rfl⟩

/-- The peer that is recorded is the one the names were set up for. -/
theorem ConnectConfiguration.prepare_kept (h : cfg.prepare lib domain = some ssl) :
    Kept cfg.ssl ssl ∧ (cfg.ssl.sessionPeer = none → ∀ p, ssl.sessionPeer = some p →
      p = ⟨domain, cfg.usesSni lib domain, cfg.verifyHostname⟩) := by
  simp only [ConnectConfiguration.prepare, Option.bind_eq_bind, Option.bind_eq_some_iff,
    Option.pure_def, Option.some.injEq] at h
  obtain ⟨ssl₁, h₁, ssl₂, h₂, rfl⟩ := h
  obtain ⟨hk₁, hp₁⟩ := kept_of_cond (fun _ => Ssl.setHostname_kept) h₁
  obtain ⟨hk₂, hp₂⟩ := kept_of_cond (fun _ => setupVerifyHostname_kept) h₂
  have hk := hk₁.trans hk₂
  split
  · exact ⟨⟨hk.config, hk.sslContext, hk.session⟩, fun _ p hp => (Option.some.inj hp).symm⟩
  · refine ⟨hk, fun hnone p hp => ?_⟩
    rw [hp₂, hp₁, hnone] at hp
    cases hp

/-- What `into_ssl` does to a connection that had no session. -/
structure IntoSsl (lib : Library) (cfg : ConnectConfiguration) (domain : Bytes) (config : SslConfig)
    (ssl : Ssl) : Prop where
  configured : ssl.config = some config
  sslContext : ssl.sslContext = cfg.ssl.sslContext
  peer : ∀ p, ssl.sessionPeer = some p → p = ⟨domain, cfg.usesSni lib domain, cfg.verifyHostname⟩
  session : ∀ s, ssl.session = some s → ∃ session, cfg.session = some session ∧ session.session = s
    ∧ Allows session config ssl.sslContext domain (cfg.usesSni lib domain) cfg.verifyHostname

/-- **What `into_ssl` makes of a fresh configuration**: with or without a session, the same
connection. -/
theorem ConnectConfiguration.intoSsl_spec {config : SslConfig} (hconfig : cfg.ssl.config = some config)
    (hpeer : cfg.ssl.sessionPeer = none) (hsession : cfg.ssl.session = none)
    (h : cfg.intoSsl lib domain now = some ssl) : IntoSsl lib cfg domain config ssl := by
  simp only [ConnectConfiguration.intoSsl, Option.bind_eq_bind, Option.bind_eq_some_iff] at h
  obtain ⟨ssl₁, h₁, h⟩ := h
  obtain ⟨hk, hp⟩ := ConnectConfiguration.prepare_kept h₁
  have hconfig₁ : ssl₁.config = some config := hk.config.trans hconfig
  split at h
  · rename_i session hkeeps
    obtain ⟨hmem, hresumes⟩ := Option.filter_eq_some_iff.mp hkeeps
    unfold Ssl.setSession at h
    split at h
    · obtain rfl := Option.some.inj h
      refine ⟨hconfig₁, hk.sslContext, hp hpeer, fun s hs => ⟨session, hmem, Option.some.inj hs, ?_⟩⟩
      exact ClientSession.resumes_allows hconfig₁ hresumes
    · cases h
  · obtain rfl := Option.some.inj h
    refine ⟨hconfig₁, hk.sslContext, hp hpeer, fun s hs => ?_⟩
    rw [hk.session, hsession] at hs
    cases hs

end IntoSsl

/-- What a reported session records. -/
theorem rawClientSession_spec {ssl : Ssl} {session : SslSession} {reported : ClientSession}
    (h : rawClientSession ssl session = some reported) :
    ssl.sessionPeer = some reported.peer ∧ reported.session = session
      ∧ reported.verifyPeer = verifiesPeer ssl ∧ reported.issuer = ssl.sslContext.issuer := by
  unfold rawClientSession at h
  split at h
  · cases h
  · rename_i peer hpeer
    split at h
    · cases h
    · obtain rfl := Option.some.inj h
      exact ⟨hpeer, rfl, rfl, rfl⟩

/-! ### The invariant -/

/-- An issuer belongs to one callback. -/
structure World.Issuers (w : World) : Prop where
  builder_lt : ∀ b cb, w.builders b = some cb → cb.issuer < w.nextIssuer
  builder_inj : ∀ b b' cb cb', w.builders b = some cb → w.builders b' = some cb' →
    cb.issuer = cb'.issuer → b = b'
  context_lt : ∀ context ∈ w.contexts, ∀ t, context.issuer = some t → t < w.nextIssuer
  context_ne : ∀ context ∈ w.contexts, ∀ b cb, w.builders b = some cb →
    context.issuer ≠ some cb.issuer
  context_inj : ∀ context ∈ w.contexts, ∀ context' ∈ w.contexts, ∀ t,
    context.issuer = some t → context'.issuer = some t → context = context'

/-- Connection number `j` is as `into_ssl` left it, and what it kept was reported before. -/
structure World.Made (w : World) (j : Nat) (c : Connection) : Prop where
  context : c.ssl.sslContext ∈ w.contexts
  config : c.ssl.config = some c.config
  peer : ∀ p, c.ssl.sessionPeer = some p → p = ⟨c.domain, c.sni, c.verifyHostname⟩
  session : ∀ s, c.ssl.session = some s → ∃ k report, c.offered = some k
    ∧ w.reports[k]? = some report ∧ report.connection < j ∧ report.session.session = s
    ∧ Allows report.session c.config c.ssl.sslContext c.domain c.sni c.verifyHostname

/-- A session is in its connection's scope, or the one its connection kept. -/
def Established.From (e : Established) (c : Connection) : Prop :=
  if e.resumed then c.ssl.session = some e.session
  else e.session.idContext = c.config.sessionIdContext

/-- A report records its connection. -/
structure World.Recorded (w : World) (report : Report) (c : Connection) (e : Established) : Prop where
  connection : w.connections[report.connection]? = some c
  established : w.established report.connection = some e
  session : report.session.session = e.session
  peer : report.session.peer = ⟨c.domain, c.sni, c.verifyHostname⟩
  verifyPeer : report.session.verifyPeer = true → c.config.verifiesPeer = true
  issuer : report.session.issuer = c.ssl.sslContext.issuer

structure World.Invariant (w : World) : Prop where
  issuers : w.Issuers
  made : ∀ (j : Nat) c, w.connections[j]? = some c → w.Made j c
  established : ∀ j e, w.established j = some e → ∃ c, w.connections[j]? = some c ∧ e.From c
  recorded : ∀ report ∈ w.reports, ∃ c e, w.Recorded report c e

/-- At first no issuer is in use. -/
theorem World.init_invariant : World.init.Invariant where
  issuers :=
    { builder_lt := fun _ _ h => absurd h (Option.some_ne_none _).symm
      builder_inj := fun _ _ _ _ h => absurd h (Option.some_ne_none _).symm
      context_lt := fun _ h => absurd h List.not_mem_nil
      context_ne := fun _ h => absurd h List.not_mem_nil
      context_inj := fun _ h => absurd h List.not_mem_nil }
  made _ _ h := by cases h
  established _ _ h := by cases h
  recorded _ h := absurd h List.not_mem_nil

section Steps

variable {lib : Library} {w w' : World} {event : Event}

/-- While issuers are left, the next one is new. -/
theorem World.IssuerLeft.lt (h : w.IssuerLeft) : w.nextIssuer < w.nextIssuer + 1 := by
  have hadd : (w.nextIssuer + 1).toNat = w.nextIssuer.toNat + 1 := by
    rw [UInt64.toNat_add]
    exact Nat.mod_eq_of_lt h
  rw [UInt64.lt_iff_toNat_lt, hadd]
  exact Nat.lt_succ_self _

/-- A callback is given an issuer that no builder or context has, while there is one left. -/
theorem World.Issuers.setClientSessionCallback (hi : w.Issuers) (hleft : w.IssuerLeft) (b : Nat) :
    World.Issuers { w with
      nextIssuer := w.nextIssuer + 1
      builders := fun b' => if b' = b then some ⟨w.nextIssuer⟩ else w.builders b' } where
  builder_lt b' cb h := by
    dsimp only at h ⊢
    split at h
    · cases h
      exact hleft.lt
    · exact UInt64.lt_trans (hi.builder_lt b' cb h) hleft.lt
  builder_inj b₁ b₂ cb₁ cb₂ h₁ h₂ heq := by
    dsimp only at h₁ h₂
    split at h₁ <;> split at h₂ <;> rename_i hb₁ hb₂
    · rw [hb₁, hb₂]
    · cases h₁
      exact absurd (heq ▸ hi.builder_lt b₂ cb₂ h₂) (UInt64.lt_irrefl _)
    · cases h₂
      exact absurd (heq ▸ hi.builder_lt b₁ cb₁ h₁) (UInt64.lt_irrefl _)
    · exact hi.builder_inj b₁ b₂ cb₁ cb₂ h₁ h₂ heq
  context_lt context hmem t ht := UInt64.lt_trans (hi.context_lt context hmem t ht) hleft.lt
  context_ne context hmem b' cb h ht := by
    dsimp only at h
    split at h
    · cases h
      exact absurd (hi.context_lt context hmem _ ht) (UInt64.lt_irrefl _)
    · exact hi.context_ne context hmem b' cb h ht
  context_inj := hi.context_inj

/-- A context takes over the issuer of its builder. -/
theorem World.Issuers.build (hi : w.Issuers) (b : Nat) (hasX509Support : Bool) :
    World.Issuers { w with
      builders := fun b' => if b' = b then none else w.builders b'
      contexts := w.contexts ++ [⟨w.contexts.length, hasX509Support, w.builders b⟩] } := by
  have hnew : ∀ t, SslContext.issuer ⟨w.contexts.length, hasX509Support, w.builders b⟩ = some t →
      ∃ cb, w.builders b = some cb ∧ cb.issuer = t := by
    intro t ht
    exact Option.map_eq_some_iff.mp ht
  constructor
  case builder_lt =>
    intro b' cb h
    dsimp only at h
    split at h
    · cases h
    · exact hi.builder_lt b' cb h
  case builder_inj =>
    intro b₁ b₂ cb₁ cb₂ h₁ h₂ heq
    dsimp only at h₁ h₂
    split at h₁
    · cases h₁
    · split at h₂
      · cases h₂
      · exact hi.builder_inj b₁ b₂ cb₁ cb₂ h₁ h₂ heq
  case context_lt =>
    intro context hmem t ht
    rcases List.mem_append.mp hmem with hold | hlast
    · exact hi.context_lt context hold t ht
    · rw [List.mem_singleton.mp hlast] at ht
      obtain ⟨cb, hcb, rfl⟩ := hnew t ht
      exact hi.builder_lt b cb hcb
  case context_ne =>
    intro context hmem b' cb h ht
    dsimp only at h
    split at h
    · cases h
    · rename_i hne
      rcases List.mem_append.mp hmem with hold | hlast
      · exact hi.context_ne context hold b' cb h ht
      · rw [List.mem_singleton.mp hlast] at ht
        obtain ⟨cb', hcb', heq⟩ := hnew _ ht
        exact hne (hi.builder_inj b' b cb cb' h hcb' heq.symm)
  -- No context had the issuer while the builder still held it.
  case context_inj =>
    intro context hmem context' hmem' t ht ht'
    rcases List.mem_append.mp hmem with hold | hlast <;>
      rcases List.mem_append.mp hmem' with hold' | hlast'
    · exact hi.context_inj context hold context' hold' t ht ht'
    · rw [List.mem_singleton.mp hlast'] at ht'
      obtain ⟨cb, hcb, rfl⟩ := hnew t ht'
      exact absurd ht (hi.context_ne context hold b cb hcb)
    · rw [List.mem_singleton.mp hlast] at ht
      obtain ⟨cb, hcb, rfl⟩ := hnew t ht
      exact absurd ht' (hi.context_ne context' hold' b cb hcb)
    · rw [List.mem_singleton.mp hlast, List.mem_singleton.mp hlast']

/-- What is there stays, at its place. -/
structure World.Grows (w w' : World) : Prop where
  contexts : ∀ context ∈ w.contexts, context ∈ w'.contexts
  connections : ∀ (j : Nat) c, w.connections[j]? = some c → w'.connections[j]? = some c
  established : ∀ j e, w.established j = some e → w'.established j = some e
  reports : ∀ (k : Nat) report, w.reports[k]? = some report → w'.reports[k]? = some report

/-- What is recorded is not moved by what is recorded later. -/
theorem getElem?_append_of_some {α : Type*} {xs ys : List α} {i : Nat} {x : α}
    (h : xs[i]? = some x) : (xs ++ ys)[i]? = some x := by
  obtain ⟨hi, -⟩ := List.getElem?_eq_some_iff.mp h
  rw [List.getElem?_append_left hi, h]

/-- Contexts, connections and reports are only ever added. -/
theorem Step.grows (h : Step lib w event w') : w.Grows w' := by
  cases h with
  | setClientSessionCallback => exact ⟨fun _ h => h, fun _ _ h => h, fun _ _ h => h, fun _ _ h => h⟩
  | build =>
      exact ⟨fun _ h => List.mem_append_left _ h, fun _ _ h => h, fun _ _ h => h, fun _ _ h => h⟩
  | intoSsl =>
      exact ⟨fun _ h => h, fun _ _ h => getElem?_append_of_some h, fun _ _ h => h, fun _ _ h => h⟩
  | full _ _ hnone | resume _ hnone _ =>
      refine ⟨fun _ h => h, fun _ _ h => h, fun j e he => ?_, fun _ _ h => h⟩
      dsimp only
      split
      · rename_i hj
        rw [hj, hnone] at he
        cases he
      · exact he
  | report =>
      exact ⟨fun _ h => h, fun _ _ h => h, fun _ _ h => h, fun _ _ h => getElem?_append_of_some h⟩

/-- What a connection was made with stays on record. -/
theorem World.Made.grows {j : Nat} {c : Connection} (hg : w.Grows w') (h : w.Made j c) :
    w'.Made j c where
  context := hg.contexts _ h.context
  config := h.config
  peer := h.peer
  session s hs := by
    obtain ⟨k, report, hoffered, hreport, hrest⟩ := h.session s hs
    exact ⟨k, report, hoffered, hg.reports k report hreport, hrest⟩

/-- And what a session was reported with. -/
theorem World.Recorded.grows {report : Report} {c : Connection} {e : Established} (hg : w.Grows w')
    (h : w.Recorded report c e) : w'.Recorded report c e where
  connection := hg.connections _ c h.connection
  established := hg.established _ e h.established
  session := h.session
  peer := h.peer
  verifyPeer := h.verifyPeer
  issuer := h.issuer

/-- No step gives an issuer to two contexts. -/
theorem Step.issuers (hi : w.Invariant) (h : Step lib w event w') : w'.Issuers := by
  cases h with
  | setClientSessionCallback b hleft => exact hi.issuers.setClientSessionCallback hleft b
  | build b hasX509Support => exact hi.issuers.build b hasX509Support
  | intoSsl | full | resume | report =>
      exact ⟨hi.issuers.builder_lt, hi.issuers.builder_inj, hi.issuers.context_lt,
        hi.issuers.context_ne, hi.issuers.context_inj⟩

/-- A last element, or one that was there. -/
theorem getElem?_snoc {α : Type*} {xs : List α} {x y : α} {i : Nat} (h : (xs ++ [x])[i]? = some y) :
    xs[i]? = some y ∨ i = xs.length ∧ x = y := by
  rw [List.getElem?_append] at h
  split at h
  · exact .inl h
  · rename_i hge
    obtain ⟨hlt, heq⟩ := List.getElem?_eq_some_iff.mp h
    rw [List.length_singleton] at hlt
    have hi : i = xs.length := by omega
    subst hi
    exact .inr ⟨rfl, by simpa using h⟩

/-- What `into_ssl` returns is made as `Made` says. -/
theorem World.made_intoSsl {cfg offering : ConnectConfiguration} {config : SslConfig}
    {offered : Option Nat} {domain : Bytes} {now : Option Int} {ssl : Ssl} (hi : w.Invariant)
    (hfresh : w.Fresh cfg) (hconfig : cfg.ssl.config = some config)
    (hoffer : w.offer cfg offered = some offering)
    (h : offering.intoSsl lib domain now = some ssl) :
    w.Made w.connections.length ⟨config, ssl, domain, cfg.usesSni lib domain, cfg.verifyHostname,
      if ssl.session.isSome then offered else none⟩ := by
  cases offered with
  | none =>
      obtain rfl := Option.some.inj hoffer
      have hspec := ConnectConfiguration.intoSsl_spec hconfig hfresh.noPeer hfresh.noSession h
      refine ⟨hspec.sslContext ▸ hfresh.context, hspec.configured, hspec.peer, fun s hs => ?_⟩
      obtain ⟨session, hsession, -⟩ := hspec.session s hs
      rw [hfresh.noOffer] at hsession
      cases hsession
  | some k =>
      obtain ⟨report, hreport, rfl⟩ := Option.map_eq_some_iff.mp hoffer
      have hspec := ConnectConfiguration.intoSsl_spec
        (show (cfg.setClientSession report.session).ssl.config = _ from hconfig) hfresh.noPeer
        hfresh.noSession h
      have hcontext : ssl.sslContext ∈ w.contexts := by
        rw [hspec.sslContext]
        exact hfresh.context
      refine ⟨hcontext, hspec.configured, hspec.peer, fun s hs => ?_⟩
      obtain ⟨session, hsession, hs', hallows⟩ := hspec.session s hs
      obtain rfl := Option.some.inj hsession
      obtain ⟨c, e, hrecorded⟩ := hi.recorded report (List.mem_of_getElem? hreport)
      obtain ⟨hlt, -⟩ := List.getElem?_eq_some_iff.mp hrecorded.connection
      refine ⟨k, report, ?_, hreport, hlt, hs', hallows⟩
      exact if_pos (Option.isSome_iff_exists.mpr ⟨s, hs⟩)

/-- Every connection was made by `into_ssl` from a context on record. -/
theorem Step.made (hi : w.Invariant) (h : Step lib w event w') :
    ∀ (j : Nat) c, w'.connections[j]? = some c → w'.Made j c := by
  intro j c hc
  have hg := h.grows
  cases h with
  | setClientSessionCallback | build | full | resume | report => exact (hi.made j c hc).grows hg
  | intoSsl hfresh hconfig hoffer h =>
      rcases getElem?_snoc hc with hold | ⟨rfl, rfl⟩
      · exact (hi.made j c hold).grows hg
      · exact (World.made_intoSsl hi hfresh hconfig hoffer h).grows hg

/-- What a handshake established, it established for its own connection. -/
theorem Step.established (hi : w.Invariant) (h : Step lib w event w') :
    ∀ j e, w'.established j = some e → ∃ c, w'.connections[j]? = some c ∧ e.From c := by
  intro j e he
  have hg := h.grows
  have hold : w.established j = some e → ∃ c, w'.connections[j]? = some c ∧ e.From c := by
    intro h
    obtain ⟨c, hc, hfrom⟩ := hi.established j e h
    exact ⟨c, hg.connections j c hc, hfrom⟩
  cases h with
  | setClientSessionCallback | build | intoSsl | report => exact hold he
  | full _ hc _ | resume hc _ hc' =>
      dsimp only at he
      split at he
      · rename_i hj
        cases he
        exact ⟨_, hj ▸ hc, by first | exact rfl | exact hc'⟩
      · exact hold he

/-- A session is reported by the callback of the connection that it was made on. -/
theorem Step.recorded (hi : w.Invariant) (h : Step lib w event w') :
    ∀ report ∈ w'.reports, ∃ c e, w'.Recorded report c e := by
  intro report hmem
  have hg := h.grows
  have hold : report ∈ w.reports → ∃ c e, w'.Recorded report c e := by
    intro h
    obtain ⟨c, e, hrecorded⟩ := hi.recorded report h
    exact ⟨c, e, hrecorded.grows hg⟩
  cases h with
  | setClientSessionCallback | build | intoSsl | full | resume => exact hold hmem
  | @report j c e session shed hc he h =>
      rcases List.mem_append.mp hmem with hmem | hlast
      · exact hold hmem
      · rw [List.mem_singleton.mp hlast]
        obtain ⟨hpeer, hsession, hverify, hissuer⟩ := rawClientSession_spec h
        have hmade := hi.made j c hc
        refine ⟨c, e, hc, he, hsession, ?_, fun hv => ?_, ?_⟩
        · cases shed <;> exact hmade.peer _ hpeer
        · rw [hverify] at hv
          cases shed with
          | true => cases hv
          | false => rwa [if_neg Bool.false_ne_true, verifiesPeer_of_config hmade.config] at hv
        · cases shed <;> exact hissuer

/-- **Every step keeps the lineage.** -/
theorem Step.invariant (hi : w.Invariant) (h : Step lib w event w') : w'.Invariant where
  issuers := h.issuers hi
  made := h.made hi
  established := h.established hi
  recorded := h.recorded hi

end Steps

/-! ### The lineage of a session -/

section Lineage

variable {w : World} {j : Nat} {c : Connection}

/-- The connection that reported what `c` kept covers `c`. -/
theorem World.Recorded.covers {report : Report} {d : Connection} {e : Established} (hi : w.Invariant)
    (hc : w.connections[j]? = some c) (hrecorded : w.Recorded report d e)
    (hallows : Allows report.session c.config c.ssl.sslContext c.domain c.sni c.verifyHostname) :
    Covers d c := by
  have hscope : report.session.session.idContext = d.config.sessionIdContext := by
    obtain ⟨d', hd', hfrom⟩ := hi.established _ e hrecorded.established
    obtain rfl := Option.some.inj (hd'.symm.trans hrecorded.connection)
    rw [hrecorded.session]
    unfold Established.From at hfrom
    split at hfrom
    · obtain ⟨_, _, _, _, _, hs, hallows'⟩ := (hi.made _ d' hd').session _ hfrom
      rw [← hs, hallows'.scope]
    · exact hfrom
  have hpeer := hrecorded.peer
  constructor
  case domain =>
    have hdomain := hallows.domain
    rwa [hpeer] at hdomain
  case sni =>
    have hsni := hallows.sni
    rwa [hpeer] at hsni
  case scope => rw [hallows.scope, hscope]
  case context =>
    intro hempty
    obtain ⟨t, ht, ht'⟩ := hallows.issuer (hscope.trans hempty)
    exact hi.issuers.context_inj _ (hi.made _ d hrecorded.connection).context _
      (hi.made j c hc).context t (hrecorded.issuer ▸ ht) ht'
  case verifyPeer => exact fun hv => hrecorded.verifyPeer (hallows.verifyPeer hv)
  case verifyHostname =>
    intro hv
    have hhostname := hallows.verifyHostname hv
    rwa [hpeer] at hhostname

/-- What a kept session came from. -/
theorem World.Invariant.kept {s : SslSession} (hi : w.Invariant) (hc : w.connections[j]? = some c)
    (hs : c.ssl.session = some s) :
    ∃ k report d e, c.offered = some k ∧ w.reports[k]? = some report ∧ report.connection < j
      ∧ report.session.session = s ∧ w.Recorded report d e ∧ Covers d c := by
  obtain ⟨k, report, hoffered, hreport, hlt, hs', hallows⟩ := (hi.made j c hc).session s hs
  obtain ⟨d, e, hrecorded⟩ := hi.recorded report (List.mem_of_getElem? hreport)
  exact ⟨k, report, d, e, hoffered, hreport, hlt, hs', hrecorded, hrecorded.covers hi hc hallows⟩

/-- A connection whose handshake ended is full, or resumed from an earlier one. -/
theorem World.Invariant.root_or_resumed (hi : w.Invariant)
    (h : (w.established j).isSome) :
    w.Full j ∨ ∃ i, w.ResumedFrom j i ∧ (w.established i).isSome ∧ i < j := by
  obtain ⟨e, he⟩ := Option.isSome_iff_exists.mp h
  obtain ⟨c, hc, hfrom⟩ := hi.established j e he
  cases hresumed : e.resumed with
  | false => exact .inl ⟨e, he, hresumed⟩
  | true =>
      rw [Established.From, if_pos hresumed] at hfrom
      obtain ⟨k, report, d, e', hoffered, hreport, hlt, -, hrecorded, -⟩ := hi.kept hc hfrom
      refine .inr ⟨report.connection, ⟨e, c, k, report, he, hresumed, hc, hoffered, hreport, rfl⟩, ?_,
        hlt⟩
      exact Option.isSome_iff_exists.mpr ⟨e', hrecorded.established⟩

/-- Across one resumption. -/
theorem World.Invariant.covers_resumed (hi : w.Invariant) {i : Nat} (h : w.ResumedFrom j i)
    (hc : w.connections[j]? = some c) : ∃ d, w.connections[i]? = some d ∧ Covers d c := by
  obtain ⟨e, c', k, report, he, hresumed, hc', hoffered, hreport, rfl⟩ := h
  obtain rfl := Option.some.inj (hc'.symm.trans hc)
  obtain ⟨c'', hc'', hfrom⟩ := hi.established j e he
  obtain rfl := Option.some.inj (hc''.symm.trans hc)
  rw [Established.From, if_pos hresumed] at hfrom
  obtain ⟨k', report', d, e', hoffered', hreport', -, -, hrecorded, hcovers⟩ := hi.kept hc hfrom
  obtain rfl := Option.some.inj (hoffered.symm.trans hoffered')
  obtain rfl := Option.some.inj (hreport.symm.trans hreport')
  exact ⟨d, hrecorded.connection, hcovers⟩

/-- Down to a root. -/
theorem World.Invariant.covers_root (hi : w.Invariant) {r : Nat} {root : Connection}
    (h : Descends w.ResumedFrom w.Full j r) (hc : w.connections[j]? = some c)
    (hr : w.connections[r]? = some root) : Covers root c := by
  have hrel := h.rel (R := fun i j => ∀ c, w.connections[j]? = some c →
    ∃ d, w.connections[i]? = some d ∧ Covers d c)
    (fun _ c hc => ⟨c, hc, .refl c⟩)
    (fun _ _ _ h₁ h₂ c hc => by
      obtain ⟨d, hd, hcovers⟩ := h₂ c hc
      obtain ⟨b, hb, hcovers'⟩ := h₁ d hd
      exact ⟨b, hb, hcovers'.trans hcovers⟩)
    (fun _ _ hlink c hc => hi.covers_resumed hlink hc)
  obtain ⟨d, hd, hcovers⟩ := hrel c hc
  obtain rfl := Option.some.inj (hr.symm.trans hd)
  exact hcovers

end Lineage

/-- **Resumption launders no verification.**  In every world that connections lead to, a session that
`into_ssl` kept was reported by an earlier connection, which descends through resumptions from a full
handshake; and each full handshake it descends from was made for the same domain, with the same use of
SNI, in the same scope, and verified the peer and the hostname if the connection that kept the session
does. -/
theorem no_laundering {lib : Library} {w : World}
    (h : Reachable (· = World.init) (Step lib) w) {j : Nat} {c : Connection} {s : SslSession}
    (hc : w.connections[j]? = some c) (hs : c.ssl.session = some s) :
    ∃ k report, c.offered = some k ∧ w.reports[k]? = some report ∧ report.session.session = s
      ∧ report.connection < j
      ∧ (∃ r root, w.connections[r]? = some root
        ∧ Descends w.ResumedFrom w.Full report.connection r)
      ∧ ∀ r root, w.connections[r]? = some root →
        Descends w.ResumedFrom w.Full report.connection r → Covers root c := by
  have hi : w.Invariant := by
    refine h.invariant ?_ fun _ _ _ hi hstep => hstep.invariant hi
    rintro _ rfl
    exact World.init_invariant
  obtain ⟨k, report, d, e, hoffered, hreport, hlt, hs', hrecorded, hcovers⟩ := hi.kept hc hs
  refine ⟨k, report, hoffered, hreport, hs', hlt, ?_, fun r root hr hdescends => ?_⟩
  · obtain ⟨r, hr⟩ := exists_descends id (P := fun i => (w.established i).isSome)
      (fun i hi' => hi.root_or_resumed hi')
      (Option.isSome_iff_exists.mpr ⟨e, hrecorded.established⟩)
    obtain ⟨e', he', -⟩ := hr.2
    obtain ⟨root, hroot, -⟩ := hi.established r e' he'
    exact ⟨r, root, hroot, hr⟩
  · exact (hi.covers_root hdescends hrecorded.connection hr).trans hcovers

/-- A library on which every call succeeds, and no name is an address. -/
def Library.sample : Library where
  parseIpAddr _ := none
  setTlsextHostName _ := true
  setHost _ := true
  setIp _ := true
  setSession _ := true

/-- A first context, without a session ID context. -/
def sampleContext : SslContext := ⟨0, true, some ⟨1⟩⟩

def sampleConfig : SslConfig := ⟨1, []⟩

/-- What `configure` returns. -/
def sampleConfiguration : ConnectConfiguration :=
  configure ⟨some sampleConfig, sampleContext, some sampleContext, none, none, ⟨0, none, none⟩, none⟩

/-- What `into_ssl` returns. -/
def sampleSsl (domain : Bytes) (session : Option SslSession) : Ssl :=
  ⟨some sampleConfig, sampleContext, some sampleContext, some ⟨domain, true, true⟩, some domain,
    ⟨4, some domain, none⟩, session⟩

/-- What a connection reports. -/
def sampleSession (domain : Bytes) : ClientSession :=
  ⟨⟨[], none⟩, ⟨domain, true, true⟩, true, none, some 1⟩

/-- The sample configuration has its context. -/
theorem sampleConfiguration_fresh {w : World} (h : sampleContext ∈ w.contexts) :
    w.Fresh sampleConfiguration := ⟨h, ⟨_, h, rfl⟩, rfl, rfl, rfl⟩

/-- A full handshake with "ab", a connection that resumes it and reports again, and one that keeps
the second session for "AB". -/
theorem no_laundering_twice : ∃ (w : World) (c root : Connection),
    Reachable (· = World.init) (Step .sample) w
      ∧ w.connections[2]? = some c ∧ c.domain = [65, 66] ∧ c.ssl.session = some ⟨[], none⟩
      ∧ w.connections[0]? = some root ∧ root.domain = [97, 98] ∧ Covers root c := by
  have hfresh {w : World} (h : sampleContext ∈ w.contexts) := sampleConfiguration_fresh h
  have hleft : World.IssuerLeft .init := show 1 + 1 < UInt64.size by decide
  have h₁ := Run.one (@Step.setClientSessionCallback .sample .init 0 hleft)
  have h₂ := h₁.snoc (.build _ 0 true)
  have h₃ := h₂.snoc (@Step.intoSsl .sample _ _ _ _ none [97, 98] none (sampleSsl [97, 98] none)
    (hfresh (.head _)) rfl rfl rfl)
  have h₄ := h₃.snoc (@Step.full _ _ 0 _ none rfl rfl)
  have h₅ := h₄.snoc (@Step.report _ _ 0 _ _ (sampleSession [97, 98]) false rfl rfl rfl)
  have h₆ := h₅.snoc (@Step.intoSsl .sample _ _ _ _ (some 0) [97, 66] none
    (sampleSsl [97, 66] (some ⟨[], none⟩)) (hfresh (.head _)) rfl rfl rfl)
  have h₇ := h₆.snoc (@Step.resume _ _ 1 _ _ rfl rfl rfl)
  have h₈ := h₇.snoc (@Step.report _ _ 1 _ _ (sampleSession [97, 66]) false rfl rfl rfl)
  have h₉ := h₈.snoc (@Step.intoSsl .sample _ _ _ _ (some 1) [65, 66] none
    (sampleSsl [65, 66] (some ⟨[], none⟩)) (hfresh (.head _)) rfl rfl rfl)
  have h : Reachable (· = World.init) (Step .sample) _ := ⟨_, _, rfl, h₉⟩
  obtain ⟨k, report, hk, hreport, -, -, -, hall⟩ := no_laundering (j := 2) h rfl rfl
  cases hk
  cases hreport
  refine ⟨_, _, _, h, rfl, rfl, rfl, rfl, rfl, hall 0 _ rfl ⟨.single ?_, ⟨_, rfl, rfl⟩⟩⟩
  exact ⟨_, _, _, _, rfl, rfl, rfl, rfl, rfl, rfl⟩

end Btls.Session
