import Btls.Support.Assoc
import Btls.Support.Refs
import Btls.Support.Runs

/-!
# ExData — Running

Closures that run.  BoringSSL calls a trampoline, which takes the closure from the extra data of the
connection or of one of its contexts and calls it; the closure belongs to the program, which may
then switch the connection to another context, set another closure, let contexts go, and have the
next one called from inside.  Contexts and `Arc`s are counted, and freed with what they hold when
the count is 0.  What a closure may do is what Rust lets it do with the connection it is handed: an
`&mut SslRef`, or less.

A trampoline keeps the closure with a reference of its own (`contextOwned`, `arc`), relies on the
context at `SESSION_CTX_INDEX`, or borrows it from the connection.  A closure that is borrowed is
safe if it is handed a shared reference only.  Those of `raw_verify` and `raw_cert_verify` are
handed an `&mut X509StoreContextRef`, from which `X509StoreContextRef::ex_data_mut` with the index
of `X509StoreContext::ssl_idx`, both of them safe, gives an `&mut SslRef` too: they are `loose`.
`closures_alive` says when they live all the same, and `verify_switching_freed` that they can be
freed while they run.
-/

namespace Btls.ExData.Running

open Btls.Support

abbrev Ctx : Type := Nat
abbrev Arc : Type := Nat
abbrev Ssl : Type := Nat

/-! ### Trampolines -/

/-- Where the closure comes from. -/
inductive Source where
  /-- the connection's context, of which the trampoline has a reference: `ssl.ssl_context().to_owned()` -/
  | contextOwned
  /-- the connection's context -/
  | context
  /-- the context at `SESSION_CTX_INDEX` -/
  | sessionContext
  /-- a clone of an `Arc` in the extra data of the connection -/
  | arc
  /-- the extra data of the connection -/
  | slot
  deriving DecidableEq

/-- A trampoline, and whether the closure can come by an `&mut SslRef`: it is handed one, or an
`&mut X509StoreContextRef`. -/
structure Trampoline where
  source : Source
  mutable : Bool
  deriving DecidableEq

def rawVerify : Trampoline := ⟨.context, true⟩
def rawCustomVerify : Trampoline := ⟨.contextOwned, true⟩
def rawCertVerify : Trampoline := ⟨.context, true⟩
def sslRawCustomVerify : Trampoline := ⟨.arc, true⟩
def rawClientPsk : Trampoline := ⟨.contextOwned, true⟩
def rawServerPsk : Trampoline := ⟨.contextOwned, true⟩
def sslRawVerify : Trampoline := ⟨.arc, true⟩
/-- BoringSSL hands over the closure: it is that of the connection's context, or of the one at
`SESSION_CTX_INDEX`. -/
def rawSni (CONTEXT : Bool) : Trampoline := ⟨if CONTEXT then .context else .sessionContext, true⟩
def rawTicketKey : Trampoline := ⟨.contextOwned, false⟩
def rawAlpnSelect : Trampoline := ⟨.contextOwned, true⟩
def rawSelectCert : Trampoline := ⟨.contextOwned, true⟩
def rawTlsextStatus : Trampoline := ⟨.contextOwned, true⟩
def rawNewSession : Trampoline := ⟨.sessionContext, true⟩
def rawClientSession : Trampoline := ⟨.sessionContext, true⟩
def rawGetSession : Trampoline := ⟨.sessionContext, true⟩
def rawKeylog : Trampoline := ⟨.context, false⟩
def rawPrivateKeyCallback : Trampoline := ⟨.contextOwned, true⟩
def rawInfoCallback : Trampoline := ⟨.context, false⟩
def rawSslCertCompress : Trampoline := ⟨.context, false⟩
def rawSslCertDecompress : Trampoline := ⟨.context, false⟩
def withMethod : Trampoline := ⟨.contextOwned, true⟩
def parameterCallback (CONTEXT : Bool) : Trampoline := ⟨if CONTEXT then .context else .slot, false⟩

/-- The trampolines that run on a connection, `rawSni` and `parameterCallback` for each `CONTEXT`.
`raw_remove_session` is not among them: it is handed a context and no connection. -/
def trampolines : List Trampoline :=
  [rawVerify, rawCustomVerify, rawCertVerify, sslRawCustomVerify, rawClientPsk, rawServerPsk, sslRawVerify,
    rawSni true, rawSni false, rawTicketKey, rawAlpnSelect, rawSelectCert, rawTlsextStatus, rawNewSession,
    rawClientSession, rawGetSession, rawKeylog, rawPrivateKeyCallback, rawInfoCallback, rawSslCertCompress,
    rawSslCertDecompress, withMethod, parameterCallback true, parameterCallback false]

/-- Nothing but a shared reference keeps the closure there. -/
def Source.borrowed : Source → Bool
  | .context | .slot => true
  | .contextOwned | .sessionContext | .arc => false

/-- Nothing but a shared reference keeps the closure there, and it can come by what switches the connection to
another context. -/
def Trampoline.loose (t : Trampoline) : Bool := t.source.borrowed && t.mutable

/-- Those are the closures of contexts that verify, and that of `raw_sni` once the connection was switched. -/
theorem loose_trampolines :
    ∀ t ∈ trampolines, t.loose = true ↔ t = rawVerify ∨ t = rawCertVerify ∨ t = rawSni true := by
  decide

/-- A closure that is borrowed loosely lives in a context. -/
theorem loose_context : ∀ t ∈ trampolines, t.loose = true → t.source = .context := by
  decide

/-- A closure that is borrowed from a connection's own extra data is not handed what could replace it. -/
theorem slot_shared : ∀ t ∈ trampolines, t.source = .slot → t.mutable = false := by
  decide

/-! ### Connections -/

/-- What a closure lives in. -/
inductive Home where
  | context (c : Ctx)
  | arc (a : Arc)

/-- A closure that runs. -/
structure Frame where
  trampoline : Trampoline
  home : Home

/-- The reference that its trampoline has, if any. -/
def Frame.context (f : Frame) : Option Ctx :=
  match f.trampoline.source, f.home with
  | .contextOwned, .context c => some c
  | _, _ => none

def Frame.arc (f : Frame) : Option Arc :=
  match f.trampoline.source, f.home with
  | .arc, .arc a => some a
  | _, _ => none

/-- A connection: its context, that at `SESSION_CTX_INDEX`, the closures in its extra data, by index, and those
that run, the innermost first. -/
structure Conn where
  ctx : Ctx
  session : Ctx
  own : Assoc Nat Arc
  frames : List Frame

namespace Conn

/-- The references to contexts that there are on its account. -/
def contexts (conn : Conn) : List Ctx := conn.ctx :: conn.session :: conn.frames.filterMap Frame.context

def arcs (conn : Conn) : List Arc := Assoc.values conn.own ++ conn.frames.filterMap Frame.arc

/-- Everything that runs was handed an `&mut SslRef`, so there is one to use. -/
def exclusive (conn : Conn) : Bool := conn.frames.all (·.trampoline.mutable)

/-- The closure of a trampoline; `i` is its index in the extra data of the connection. -/
def find (conn : Conn) (i : Nat) : Source → Option Home
  | .contextOwned | .context => some (.context conn.ctx)
  | .sessionContext => some (.context conn.session)
  | .arc | .slot => (conn.own.lookup i).map .arc

end Conn

/-- The counts, the `SslContext`s that the program has, and the connections. -/
structure Program where
  contexts : Ctx → Nat
  arcs : Arc → Nat
  handles : List Ctx
  conns : Assoc Ssl Conn

/-! ### Steps -/

inductive Op where
  /-- `SslContextBuilder::build` -/
  | newContext (c : Ctx)
  /-- `SslContext::clone` -/
  | cloneContext (c : Ctx)
  /-- `Drop` of an `SslContext` -/
  | dropContext (c : Ctx)
  /-- `Ssl::new` -/
  | newSsl (s : Ssl) (c : Ctx)
  /-- `Drop` of an `Ssl` -/
  | dropSsl (s : Ssl)
  /-- `SslRef::set_ssl_context` -/
  | setSslContext (s : Ssl) (c : Ctx)
  /-- `SslRef::set_verify_callback` and its like -/
  | setCallback (s : Ssl) (i : Nat) (a : Arc)
  | enter (s : Ssl) (t : Trampoline) (i : Nat)
  | leave (s : Ssl)

open Refs

/-- What the program or BoringSSL does; `none` is what it cannot. -/
def exec : Op → Program → Option Program
  | .newContext c, p =>
      if p.contexts c = 0 then some { p with contexts := up c p.contexts, handles := c :: p.handles } else none
  | .cloneContext c, p =>
      if p.contexts c = 0 then none else some { p with contexts := up c p.contexts, handles := c :: p.handles }
  | .dropContext c, p =>
      if c ∈ p.handles then some { p with contexts := down c p.contexts, handles := p.handles.erase c } else none
  | .newSsl s c, p =>
      -- BoringSSL has a reference, and `SESSION_CTX_INDEX` another
      if p.contexts c = 0 ∨ s ∈ p.conns then none
      else some { p with
        contexts := up c (up c p.contexts)
        conns := p.conns.insert s ⟨c, c, ∅, []⟩ }
  | .dropSsl s, p => do
      let conn ← p.conns.lookup s
      if conn.frames.isEmpty then
        return { p with
          contexts := conn.contexts.foldl (fun count c => down c count) p.contexts
          arcs := conn.arcs.foldl (fun count a => down a count) p.arcs
          conns := p.conns.erase s }
      else none
  | .setSslContext s c, p => do
      let conn ← p.conns.lookup s
      if conn.exclusive ∧ p.contexts c ≠ 0 then
        return { p with
          contexts := down conn.ctx (up c p.contexts)
          conns := p.conns.insert s { conn with ctx := c } }
      else none
  | .setCallback s i a, p => do
      let conn ← p.conns.lookup s
      if conn.exclusive ∧ p.arcs a = 0 then
        return { p with
          arcs := (conn.own.lookup i).toList.foldl (fun count a => down a count) (up a p.arcs)
          conns := p.conns.insert s { conn with own := conn.own.insert i a } }
      else none
  | .enter s t i, p => do
      let conn ← p.conns.lookup s
      let home ← conn.find i t.source
      if t.mutable → conn.exclusive then
        return { p with
          contexts := (Frame.context ⟨t, home⟩).toList.foldl (fun count c => up c count) p.contexts
          arcs := (Frame.arc ⟨t, home⟩).toList.foldl (fun count a => up a count) p.arcs
          conns := p.conns.insert s { conn with frames := ⟨t, home⟩ :: conn.frames } }
      else none
  | .leave s, p => do
      let conn ← p.conns.lookup s
      match conn.frames with
      | [] => none
      | f :: frames =>
          return { p with
            contexts := f.context.toList.foldl (fun count c => down c count) p.contexts
            arcs := f.arc.toList.foldl (fun count a => down a count) p.arcs
            conns := p.conns.insert s { conn with frames := frames } }

/-- BoringSSL calls only trampolines. -/
def Step (p : Program) (op : Op) (p' : Program) : Prop :=
  (∀ s t i, op = .enter s t i → t ∈ trampolines) ∧ exec op p = some p'

/-- What a step does, and when it can. -/
inductive Does (p : Program) : Op → Program → Prop where
  | newContext (c : Ctx) (hc : p.contexts c = 0) :
      Does p (.newContext c) { p with contexts := up c p.contexts, handles := c :: p.handles }
  | cloneContext (c : Ctx) (hc : p.contexts c ≠ 0) :
      Does p (.cloneContext c) { p with contexts := up c p.contexts, handles := c :: p.handles }
  | dropContext (c : Ctx) (hc : c ∈ p.handles) :
      Does p (.dropContext c) { p with contexts := down c p.contexts, handles := p.handles.erase c }
  | newSsl (s : Ssl) (c : Ctx) (hc : p.contexts c ≠ 0) (hs : s ∉ p.conns) :
      Does p (.newSsl s c)
        { p with contexts := up c (up c p.contexts), conns := p.conns.insert s ⟨c, c, ∅, []⟩ }
  | dropSsl {s : Ssl} {conn : Conn} (hs : p.conns.lookup s = some conn) (hframes : conn.frames.isEmpty) :
      Does p (.dropSsl s)
        { p with
          contexts := conn.contexts.foldl (fun count c => down c count) p.contexts
          arcs := conn.arcs.foldl (fun count a => down a count) p.arcs
          conns := p.conns.erase s }
  | setSslContext {s : Ssl} {conn : Conn} (hs : p.conns.lookup s = some conn) (c : Ctx)
      (hx : conn.exclusive = true) (hc : p.contexts c ≠ 0) :
      Does p (.setSslContext s c)
        { p with
          contexts := down conn.ctx (up c p.contexts)
          conns := p.conns.insert s { conn with ctx := c } }
  | setCallback {s : Ssl} {conn : Conn} (hs : p.conns.lookup s = some conn) (i : Nat) (a : Arc)
      (hx : conn.exclusive = true) (ha : p.arcs a = 0) :
      Does p (.setCallback s i a)
        { p with
          arcs := (conn.own.lookup i).toList.foldl (fun count a => down a count) (up a p.arcs)
          conns := p.conns.insert s { conn with own := conn.own.insert i a } }
  | enter {s : Ssl} {conn : Conn} (hs : p.conns.lookup s = some conn) {t : Trampoline} {i : Nat}
      {home : Home} (ht : t ∈ trampolines) (hhome : conn.find i t.source = some home)
      (hx : t.mutable = true → conn.exclusive = true) :
      Does p (.enter s t i)
        { p with
          contexts := (Frame.context ⟨t, home⟩).toList.foldl (fun count c => up c count) p.contexts
          arcs := (Frame.arc ⟨t, home⟩).toList.foldl (fun count a => up a count) p.arcs
          conns := p.conns.insert s { conn with frames := ⟨t, home⟩ :: conn.frames } }
  | leave {s : Ssl} {conn : Conn} (hs : p.conns.lookup s = some conn) {f : Frame} {frames : List Frame}
      (hf : conn.frames = f :: frames) :
      Does p (.leave s)
        { p with
          contexts := f.context.toList.foldl (fun count c => down c count) p.contexts
          arcs := f.arc.toList.foldl (fun count a => down a count) p.arcs
          conns := p.conns.insert s { conn with frames := frames } }

/-- A call that succeeds does what it says. -/
theorem Step.does {p p' : Program} {op : Op} (hstep : Step p op p') : Does p op p' := by
  obtain ⟨ht, hexec⟩ := hstep
  cases op with
  | newContext c =>
      obtain ⟨hc, hexec⟩ := Option.ite_none_right_eq_some.mp hexec
      cases hexec
      exact .newContext c hc
  | cloneContext c =>
      obtain ⟨hc, hexec⟩ := Option.ite_none_left_eq_some.mp hexec
      cases hexec
      exact .cloneContext c hc
  | dropContext c =>
      obtain ⟨hc, hexec⟩ := Option.ite_none_right_eq_some.mp hexec
      cases hexec
      exact .dropContext c hc
  | newSsl s c =>
      obtain ⟨hnot, hexec⟩ := Option.ite_none_left_eq_some.mp hexec
      cases hexec
      exact .newSsl s c (fun hc => hnot (.inl hc)) fun hs => hnot (.inr hs)
  | dropSsl s =>
      obtain ⟨conn, hs, hexec⟩ := Option.bind_eq_some_iff.mp hexec
      obtain ⟨hframes, hexec⟩ := Option.ite_none_right_eq_some.mp hexec
      cases hexec
      exact .dropSsl hs hframes
  | setSslContext s c =>
      obtain ⟨conn, hs, hexec⟩ := Option.bind_eq_some_iff.mp hexec
      obtain ⟨hx, hexec⟩ := Option.ite_none_right_eq_some.mp hexec
      cases hexec
      exact .setSslContext hs c hx.1 hx.2
  | setCallback s i a =>
      obtain ⟨conn, hs, hexec⟩ := Option.bind_eq_some_iff.mp hexec
      obtain ⟨hx, hexec⟩ := Option.ite_none_right_eq_some.mp hexec
      cases hexec
      exact .setCallback hs i a hx.1 hx.2
  | enter s t i =>
      obtain ⟨conn, hs, hexec⟩ := Option.bind_eq_some_iff.mp hexec
      obtain ⟨home, hhome, hexec⟩ := Option.bind_eq_some_iff.mp hexec
      obtain ⟨hx, hexec⟩ := Option.ite_none_right_eq_some.mp hexec
      cases hexec
      exact .enter hs (ht s t i rfl) hhome hx
  | leave s =>
      obtain ⟨conn, hs, hexec⟩ := Option.bind_eq_some_iff.mp hexec
      split at hexec
      · cases hexec
      · next f frames hf =>
          cases hexec
          exact .leave hs hf

def nothing : Program := ⟨fun _ => 0, fun _ => 0, [], ∅⟩

/-! ### The references are counted -/

namespace Program

/-- Every reference to a context that there is. -/
def contextRefs (p : Program) : List Ctx := p.handles ++ (Assoc.values p.conns).flatMap Conn.contexts

def arcRefs (p : Program) : List Arc := (Assoc.values p.conns).flatMap Conn.arcs

/-- Those that are not on the account of the connection. -/
def otherContexts (p : Program) (s : Ssl) : List Ctx :=
  p.handles ++ (Assoc.values (p.conns.erase s)).flatMap Conn.contexts

def otherArcs (p : Program) (s : Ssl) : List Arc := (Assoc.values (p.conns.erase s)).flatMap Conn.arcs

end Program

def Home.alive (p : Program) : Home → Prop
  | .context c => p.contexts c ≠ 0
  | .arc a => p.arcs a ≠ 0

/-- The closure is where its trampoline found it, as far as nothing else keeps it there and it cannot move the
connection itself. -/
structure Frame.At (f : Frame) (conn : Conn) : Prop where
  trampoline : f.trampoline ∈ trampolines
  home : match f.trampoline.source with
    | .contextOwned => ∃ c, f.home = .context c
    | .context => (f.trampoline.mutable = true ∧ ∃ c, f.home = .context c) ∨ f.home = .context conn.ctx
    | .sessionContext => f.home = .context conn.session
    | .arc => ∃ a, f.home = .arc a
    | .slot => ∃ i a, conn.own.lookup i = some a ∧ f.home = .arc a

structure Sound (p : Program) : Prop where
  contexts : Counted p.contexts p.contextRefs
  arcs : Counted p.arcs p.arcRefs
  frames : ∀ s conn, p.conns.lookup s = some conn → ∀ f ∈ conn.frames, f.At conn

variable {p p' : Program} {s : Ssl} {conn conn' : Conn} {contexts arcs : Nat → Nat}

/-- At first nothing is counted. -/
theorem Sound.nothing : Sound nothing := ⟨fun _ => rfl, fun _ => rfl, fun _ _ h => by cases h⟩

/-- The references to contexts are those of one connection and the others. -/
theorem contextRefs_perm (hs : p.conns.lookup s = some conn) :
    p.contextRefs.Perm (conn.contexts ++ p.otherContexts s) := by
  have hperm := ((Assoc.values_erase hs).flatMap_right Conn.contexts).append_left p.handles
  rw [List.flatMap_cons, ← List.append_assoc] at hperm
  rw [Program.otherContexts, ← List.append_assoc]
  exact hperm.trans (List.perm_append_comm.append_right _)

/-- And so are those to closures. -/
theorem arcRefs_perm (hs : p.conns.lookup s = some conn) :
    p.arcRefs.Perm (conn.arcs ++ p.otherArcs s) := by
  have hperm := (Assoc.values_erase hs).flatMap_right Conn.arcs
  rwa [List.flatMap_cons] at hperm

/-- One connection changes, and the counts with it. -/
theorem Sound.update (h : Sound p) (hcontexts : Counted contexts (conn'.contexts ++ p.otherContexts s))
    (harcs : Counted arcs (conn'.arcs ++ p.otherArcs s)) (hframes : ∀ f ∈ conn'.frames, f.At conn') :
    Sound { p with contexts := contexts, arcs := arcs, conns := p.conns.insert s conn' } where
  contexts := by
    refine hcontexts.perm ?_
    show (conn'.contexts ++ p.otherContexts s).Perm
      (p.handles ++ (Assoc.values (p.conns.insert s conn')).flatMap Conn.contexts)
    rw [Assoc.values_insert, List.flatMap_cons, Program.otherContexts, ← List.append_assoc,
      ← List.append_assoc]
    exact List.perm_append_comm.append_right _
  arcs := by
    show Counted arcs ((Assoc.values (p.conns.insert s conn')).flatMap Conn.arcs)
    rw [Assoc.values_insert, List.flatMap_cons]
    exact harcs
  frames s' c hc := by
    rw [Assoc.lookup_insert_eq] at hc
    split at hc
    · cases Option.some.inj hc
      exact hframes
    · exact h.frames s' c hc

/-- So the counts are of one connection and the others. -/
theorem Sound.split (h : Sound p) (hs : p.conns.lookup s = some conn) :
    Counted p.contexts (conn.contexts ++ p.otherContexts s) ∧ Counted p.arcs (conn.arcs ++ p.otherArcs s) :=
  ⟨h.contexts.perm (contextRefs_perm hs), h.arcs.perm (arcRefs_perm hs)⟩

/-! ### What runs is where it was found -/

/-- What is not borrowed stays where it is, whatever becomes of the connection's context and closures. -/
theorem Frame.At.exclusive {f : Frame} (h : f.At conn) (hx : f.trampoline.mutable = true)
    (hsession : conn'.session = conn.session) : f.At conn' := by
  refine ⟨h.trampoline, ?_⟩
  have hshared := slot_shared f.trampoline h.trampoline
  have hhome := h.home
  cases hsource : f.trampoline.source with
  | contextOwned => rwa [hsource] at hhome
  | context =>
      rw [hsource] at hhome
      rcases hhome with hmoved | hhome
      · exact .inl hmoved
      · exact .inl ⟨hx, conn.ctx, hhome⟩
  | sessionContext => rwa [hsource, ← hsession] at hhome
  | arc => rwa [hsource] at hhome
  | slot => exact nomatch hx.symm.trans (hshared hsource)

/-- What only an `&mut SslRef` allows leaves the closures that run where they were found. -/
theorem frames_at_exclusive (conn : Conn) (h : ∀ f ∈ conn.frames, f.At conn) (hx : conn.exclusive = true)
    (hsession : conn'.session = conn.session) : ∀ f ∈ conn.frames, f.At conn' :=
  fun f hf => (h f hf).exclusive (List.all_eq_true.mp hx f hf) hsession

/-- What is found is where the trampoline says. -/
theorem At.found {t : Trampoline} {i : Nat} {home : Home} (ht : t ∈ trampolines)
    (hhome : conn.find i t.source = some home) (frames : List Frame) :
    Frame.At ⟨t, home⟩ { conn with frames := frames } := by
  refine ⟨ht, ?_⟩
  cases hsource : t.source with
  | contextOwned =>
      rw [hsource] at hhome
      exact ⟨conn.ctx, (Option.some.inj hhome).symm⟩
  | context =>
      rw [hsource] at hhome
      exact .inr (Option.some.inj hhome).symm
  | sessionContext =>
      rw [hsource] at hhome
      exact (Option.some.inj hhome).symm
  | arc =>
      rw [hsource] at hhome
      obtain ⟨a, -, rfl⟩ := Option.map_eq_some_iff.mp hhome
      exact ⟨a, rfl⟩
  | slot =>
      rw [hsource] at hhome
      obtain ⟨a, ha, rfl⟩ := Option.map_eq_some_iff.mp hhome
      exact ⟨i, a, ha, rfl⟩

/-- A closure that is loose is where the connection keeps it all the same: at its context, or at
`SESSION_CTX_INDEX`. -/
def Frame.Held (f : Frame) (conn : Conn) : Prop :=
  f.trampoline.loose = true → f.home = .context conn.ctx ∨ f.home = .context conn.session

/-- A closure that runs lives, if it is held. -/
theorem Sound.alive (h : Sound p) (hs : p.conns.lookup s = some conn) {f : Frame} (hf : f ∈ conn.frames)
    (hheld : f.Held conn) : f.home.alive p := by
  obtain ⟨hcontexts, harcs⟩ := h.split hs
  have hctx : p.contexts conn.ctx ≠ 0 := hcontexts.alive (List.mem_append_left _ List.mem_cons_self)
  have hsession : p.contexts conn.session ≠ 0 :=
    hcontexts.alive (List.mem_append_left _ (List.mem_cons_of_mem _ List.mem_cons_self))
  have hhome := (h.frames s conn hs f hf).home
  have hown : ∀ c, f.context = some c → p.contexts c ≠ 0 := fun c hc =>
    hcontexts.alive (List.mem_append_left _ (List.mem_cons_of_mem _ (List.mem_cons_of_mem _
      (List.mem_filterMap.mpr ⟨f, hf, hc⟩))))
  cases hsource : f.trampoline.source with
  | contextOwned =>
      rw [hsource] at hhome
      obtain ⟨c, hc⟩ := hhome
      rw [hc]
      exact hown c (by rw [Frame.context, hsource, hc])
  | context =>
      rw [hsource] at hhome
      rcases hhome with ⟨hmutable, -⟩ | hhome
      · have hloose : f.trampoline.loose = true := by rw [Trampoline.loose, hsource, hmutable]; rfl
        rcases hheld hloose with hhome | hhome
        · rw [hhome]
          exact hctx
        · rw [hhome]
          exact hsession
      · rw [hhome]
        exact hctx
  | sessionContext =>
      rw [hsource] at hhome
      rw [hhome]
      exact hsession
  | arc =>
      rw [hsource] at hhome
      obtain ⟨a, ha⟩ := hhome
      rw [ha]
      exact harcs.alive (List.mem_append_left _ (List.mem_append_right _
        (List.mem_filterMap.mpr ⟨f, hf, by rw [Frame.arc, hsource, ha]⟩)))
  | slot =>
      rw [hsource] at hhome
      obtain ⟨i, a, hi, ha⟩ := hhome
      rw [ha]
      exact harcs.alive (List.mem_append_left _ (List.mem_append_left _ (Assoc.mem_values hi)))

/-! ### Every step -/

/-- A new context is held once. -/
theorem Sound.newContext (h : Sound p) (c : Ctx) :
    Sound { p with contexts := up c p.contexts, handles := c :: p.handles } :=
  ⟨h.contexts.up c, h.arcs, h.frames⟩

/-- A handle that is dropped is one less. -/
theorem Sound.dropContext (h : Sound p) {c : Ctx} (hc : c ∈ p.handles) :
    Sound { p with contexts := down c p.contexts, handles := p.handles.erase c } :=
  ⟨(h.contexts.perm ((List.perm_cons_erase hc).append_right _)).down, h.arcs, h.frames⟩

/-- A connection holds its context twice, as the one it has and the one of its session. -/
theorem Sound.newSsl (h : Sound p) (hs : s ∉ p.conns) (c : Ctx) :
    Sound { p with contexts := up c (up c p.contexts), conns := p.conns.insert s ⟨c, c, ∅, []⟩ } where
  contexts := by
    refine ((h.contexts.up c).up c).perm ?_
    show (c :: c :: (p.handles ++ _)).Perm (p.handles ++ (Assoc.values (p.conns.insert s _)).flatMap _)
    rw [Assoc.values_insert_new hs, List.flatMap_cons]
    have hperm : ([c, c] ++ p.handles).Perm (p.handles ++ [c, c]) := List.perm_append_comm
    exact (hperm.append_right _).trans (by rw [List.append_assoc]; rfl)
  arcs := by
    show Counted p.arcs ((Assoc.values (p.conns.insert s _)).flatMap _)
    rw [Assoc.values_insert_new hs]
    exact h.arcs
  frames s' conn hconn := by
    rw [Assoc.lookup_insert_eq] at hconn
    split at hconn
    · cases Option.some.inj hconn
      exact fun f hf => absurd hf List.not_mem_nil
    · exact h.frames s' conn hconn

/-- A connection that is freed lets go of all it holds. -/
theorem Sound.dropSsl (h : Sound p) (hs : p.conns.lookup s = some conn) :
    Sound { p with
      contexts := conn.contexts.foldl (fun count c => down c count) p.contexts
      arcs := conn.arcs.foldl (fun count a => down a count) p.arcs
      conns := p.conns.erase s } where
  contexts := (h.split hs).1.downAll
  arcs := (h.split hs).2.downAll
  frames s' conn hconn := by
    rw [Assoc.lookup_erase_eq] at hconn
    split at hconn
    · cases hconn
    · exact h.frames s' conn hconn

/-- The new context is held before the old one is let go. -/
theorem Sound.setSslContext (h : Sound p) (hs : p.conns.lookup s = some conn) (hx : conn.exclusive = true)
    (c : Ctx) :
    Sound { p with contexts := down conn.ctx (up c p.contexts),
                   conns := p.conns.insert s { conn with ctx := c } } := by
  obtain ⟨hcontexts, harcs⟩ := h.split hs
  refine h.update ?_ harcs (frames_at_exclusive conn (h.frames s conn hs) hx rfl)
  exact ((hcontexts.up c).perm (.swap _ _ _)).down

/-- The old closure goes when the new one is there. -/
theorem Sound.setCallback (h : Sound p) (hs : p.conns.lookup s = some conn) (hx : conn.exclusive = true)
    (i : Nat) (a : Arc) :
    Sound { p with arcs := (conn.own.lookup i).toList.foldl (fun count a => down a count) (up a p.arcs),
                   conns := p.conns.insert s { conn with own := conn.own.insert i a } } := by
  obtain ⟨hcontexts, harcs⟩ := h.split hs
  refine h.update hcontexts ?_ (frames_at_exclusive conn (h.frames s conn hs) hx rfl)
  refine Counted.downAll ((harcs.up a).perm ?_)
  have hperm := (Assoc.values_insert_perm i a conn.own).append_right
    (conn.frames.filterMap Frame.arc ++ p.otherArcs s)
  simp only [Conn.arcs, List.append_assoc, List.cons_append] at hperm ⊢
  exact hperm

/-- A reference of the trampoline's own is taken before the closure runs. -/
theorem Sound.enter (h : Sound p) (hs : p.conns.lookup s = some conn) {t : Trampoline} {i : Nat} {home : Home}
    (ht : t ∈ trampolines) (hhome : conn.find i t.source = some home) :
    Sound { p with
      contexts := (Frame.context ⟨t, home⟩).toList.foldl (fun count c => up c count) p.contexts
      arcs := (Frame.arc ⟨t, home⟩).toList.foldl (fun count a => up a count) p.arcs
      conns := p.conns.insert s { conn with frames := ⟨t, home⟩ :: conn.frames } } := by
  obtain ⟨hcontexts, harcs⟩ := h.split hs
  refine h.update ?_ ?_ ?_
  · simp only [Conn.contexts, List.filterMap_cons] at hcontexts ⊢
    cases Frame.context ⟨t, home⟩ with
    | none => exact hcontexts
    | some c =>
        refine (hcontexts.up c).perm ?_
        exact (List.Perm.swap _ _ _).trans ((List.Perm.swap _ _ _).cons _)
  · simp only [Conn.arcs, List.filterMap_cons] at harcs ⊢
    cases Frame.arc ⟨t, home⟩ with
    | none => exact harcs
    | some a =>
        refine (harcs.up a).perm ?_
        simp only [List.append_assoc, List.cons_append]
        exact List.perm_middle.symm
  · intro f hf
    rcases List.mem_cons.mp hf with rfl | hf
    · exact At.found ht hhome _
    · exact ⟨(h.frames s conn hs f hf).trampoline, (h.frames s conn hs f hf).home⟩

/-- A closure that returns lets go of what its frame held. -/
theorem Sound.leave (h : Sound p) (hs : p.conns.lookup s = some conn) {f : Frame} {frames : List Frame}
    (hf : conn.frames = f :: frames) :
    Sound { p with
      contexts := f.context.toList.foldl (fun count c => down c count) p.contexts
      arcs := f.arc.toList.foldl (fun count a => down a count) p.arcs
      conns := p.conns.insert s { conn with frames := frames } } := by
  obtain ⟨hcontexts, harcs⟩ := h.split hs
  refine h.update (Counted.downAll (hcontexts.perm ?_)) (Counted.downAll (harcs.perm ?_)) fun g hg => ?_
  · simp only [Conn.contexts, hf, List.filterMap_cons]
    cases f.context with
    | none => exact List.Perm.refl _
    | some c => exact ((List.Perm.swap _ _ _).cons _).trans (.swap _ _ _)
  · simp only [Conn.arcs, hf, List.filterMap_cons]
    cases f.arc with
    | none => exact List.Perm.refl _
    | some a =>
        simp only [List.append_assoc, List.cons_append, Option.toList_some, List.nil_append]
        exact List.perm_middle
  · have hat := h.frames s conn hs g (by rw [hf]; exact List.mem_cons_of_mem _ hg)
    exact ⟨hat.trampoline, hat.home⟩

/-- **Every step keeps the counts.** -/
theorem Step.sound {op : Op} (h : Sound p) (hstep : Step p op p') : Sound p' := by
  cases hstep.does with
  | newContext c => exact h.newContext c
  | cloneContext c => exact h.newContext c
  | dropContext c hc => exact h.dropContext hc
  | newSsl s c _ hs => exact h.newSsl hs c
  | dropSsl hs => exact h.dropSsl hs
  | setSslContext hs c hx => exact h.setSslContext hs hx c
  | setCallback hs i a hx => exact h.setCallback hs hx i a
  | enter hs ht hhome => exact h.enter hs ht hhome
  | leave hs hf => exact h.leave hs hf

/-! ### What is held stays held -/

/-- A step that does not switch a connection with a loose closure running, unless it is still at the context
that `SESSION_CTX_INDEX` keeps. -/
def Tame (p : Program) (op : Op) : Prop :=
  ∀ s c conn, op = .setSslContext s c → p.conns.lookup s = some conn → conn.ctx ≠ conn.session →
    ∀ f ∈ conn.frames, f.trampoline.loose = false

def Program.AllHeld (p : Program) : Prop :=
  ∀ s conn, p.conns.lookup s = some conn → ∀ f ∈ conn.frames, f.Held conn

/-- One connection changes. -/
theorem Program.AllHeld.insert (h : p.AllHeld) (hconn : ∀ f ∈ conn'.frames, f.Held conn')
    (hconns : p'.conns = p.conns.insert s conn') : p'.AllHeld := by
  intro s' c hc
  rw [hconns, Assoc.lookup_insert_eq] at hc
  split at hc
  · cases Option.some.inj hc
    exact hconn
  · exact h s' c hc

/-- What is found is held when it begins to run. -/
theorem Frame.Held.found {t : Trampoline} {i : Nat} {home : Home} (ht : t ∈ trampolines)
    (hhome : conn.find i t.source = some home) (frames : List Frame) :
    Frame.Held ⟨t, home⟩ { conn with frames := frames } := by
  intro hloose
  rw [loose_context t ht hloose] at hhome
  exact .inl (Option.some.inj hhome).symm

/-- **A tame step lets no closure go.** -/
theorem Step.allHeld {op : Op} (h : p.AllHeld) (hstep : Step p op p') (htame : Tame p op) : p'.AllHeld := by
  cases hstep.does with
  | newContext c => exact h
  | cloneContext c => exact h
  | dropContext c => exact h
  | newSsl s c => exact h.insert (fun f hf => absurd hf List.not_mem_nil) rfl
  | @dropSsl s conn hs =>
      intro s' c hc
      rw [Assoc.lookup_erase_eq] at hc
      split at hc
      · cases hc
      · exact h s' c hc
  | @setSslContext s conn hs c =>
      refine h.insert (fun f hf hloose => ?_) rfl
      by_cases hsession : conn.ctx = conn.session
      · rcases h s conn hs f hf hloose with hhome | hhome
        · exact .inr (hsession ▸ hhome)
        · exact .inr hhome
      · exact nomatch (htame s c conn rfl hs hsession f hf).symm.trans hloose
  | @setCallback s conn hs i a =>
      refine h.insert (fun f hf => ?_) rfl
      exact h s conn hs f hf
  | @enter s conn hs t i home ht hhome =>
      refine h.insert (fun f hf => ?_) rfl
      rcases List.mem_cons.mp hf with rfl | hf
      · exact Frame.Held.found ht hhome _
      · exact h s conn hs f hf
  | @leave s conn hs f frames hf =>
      refine h.insert (fun g hg => ?_) rfl
      exact h s conn hs g (by rw [hf]; exact List.mem_cons_of_mem _ hg)

/-- **A closure that runs is not freed.**  Whatever the program does, from inside closures or outside, on this
connection or others:

* what a closure lives in is there until it returns, except for a loose one whose connection was switched
  away from it;
* in a run of tame steps there is no exception, from the first call of a closure to its return;
* no context or `Arc` outlives the last reference to it, or goes before. -/
theorem closures_alive {ops : List Op} (hr : Run Step nothing ops p) :
    (∀ s conn, p.conns.lookup s = some conn → ∀ f ∈ conn.frames, f.Held conn → f.home.alive p)
      ∧ (Run (fun p op p' => Step p op p' ∧ Tame p op) nothing ops p →
        ∀ s conn, p.conns.lookup s = some conn → ∀ f ∈ conn.frames, f.home.alive p)
      ∧ (∀ c, p.contexts c = p.contextRefs.count c) ∧ ∀ a, p.arcs a = p.arcRefs.count a := by
  have h : Sound p := hr.invariant (fun _ _ _ h hstep => Step.sound h hstep) .nothing
  refine ⟨fun s conn hs f hf => h.alive hs hf, fun htame s conn hs f hf => ?_, h.contexts, h.arcs⟩
  have hheld : p.AllHeld :=
    htame.invariant (fun _ _ _ h hstep => Step.allHeld h hstep.1 hstep.2) fun _ _ h => by cases h
  exact h.alive hs hf (hheld s conn hs f hf)

/-! ### Examples -/

/-- An operation that enters no closure is no trampoline. -/
theorem enters_trampolines {op : Op} (hop : ∀ s t i, op ≠ .enter s t i) :
    ∀ s t i, op = .enter s t i → t ∈ trampolines :=
  fun s t i h => absurd h (hop s t i)

/-- A connection is switched away from the context whose closure runs, which the program has let go. -/
def switching : List Op :=
  [] ++ [.newContext 1] ++ [.newSsl 7 1] ++ [.newContext 2] ++ [.setSslContext 7 2] ++ [.enter 7 rawAlpnSelect 0]
    ++ [.dropContext 2] ++ [.setSslContext 7 1]

/-- A closure switches its connection to another context while it runs. -/
theorem switching_run : ∃ p, Run (fun p op p' => Step p op p' ∧ Tame p op) nothing switching p
    ∧ (p.conns.lookup 7).map (fun conn => (conn.ctx, conn.frames.map (·.home)))
      = some (1, [.context 2]) := by
  refine ⟨_, .snoc (.snoc (.snoc (.snoc (.snoc (.snoc (.snoc (.nil _)
    ⟨⟨?_, rfl⟩, ?_⟩) ⟨⟨?_, rfl⟩, ?_⟩) ⟨⟨?_, rfl⟩, ?_⟩) ⟨⟨?_, rfl⟩, ?_⟩) ⟨⟨?_, rfl⟩, ?_⟩)
    ⟨⟨?_, rfl⟩, ?_⟩) ⟨⟨?_, rfl⟩, ?_⟩, rfl⟩
  case refine_9 =>
    rintro _ _ _ ⟨⟩
    simp [trampolines]
  case refine_8 =>
    rintro _ _ _ ⟨⟩ ⟨⟩ hne
    exact absurd rfl hne
  case refine_14 =>
    rintro _ _ _ ⟨⟩ ⟨⟩ - f hf
    rw [List.mem_singleton.mp hf]
    rfl
  all_goals first
    | exact enters_trampolines (fun _ _ _ h => by cases h)
    | exact fun _ _ _ h => by cases h

/-- The closure is alive, although its connection has another context now. -/
theorem closures_alive_switching : ∃ p, Run Step nothing switching p
    ∧ (∀ s conn, p.conns.lookup s = some conn → ∀ f ∈ conn.frames, f.home.alive p)
    ∧ (∀ c, p.contexts c = p.contextRefs.count c) ∧ ∀ a, p.arcs a = p.arcRefs.count a := by
  obtain ⟨p, htame, -⟩ := switching_run
  have hr : Run Step nothing switching p := htame.mono fun _ _ _ h => h.1
  exact ⟨p, hr, (closures_alive hr).2.1 htame, (closures_alive hr).2.2⟩

/-- A closure that verifies switches the connection back to its first context, and the one that the closure
lives in was the connection's alone. -/
def verifySwitching : List Op :=
  [] ++ [.newContext 1] ++ [.newSsl 7 1] ++ [.newContext 2] ++ [.setSslContext 7 2] ++ [.dropContext 2]
    ++ [.enter 7 rawVerify 0] ++ [.setSslContext 7 1]

/-- **A loose closure can be freed while it runs.** -/
theorem verify_switching_freed : ∃ p, Run Step nothing verifySwitching p
    ∧ ∃ conn f, p.conns.lookup 7 = some conn ∧ f ∈ conn.frames ∧ f.trampoline = rawVerify
      ∧ ¬ f.home.alive p := by
  refine ⟨_, .snoc (.snoc (.snoc (.snoc (.snoc (.snoc (.snoc (.nil _) ⟨?_, rfl⟩) ⟨?_, rfl⟩) ⟨?_, rfl⟩)
    ⟨?_, rfl⟩) ⟨?_, rfl⟩) ⟨?_, rfl⟩) ⟨?_, rfl⟩, _, ⟨rawVerify, .context 2⟩, rfl, List.mem_cons_self, rfl,
    fun h => h rfl⟩
  case refine_6 =>
    rintro _ _ _ ⟨⟩
    simp [trampolines]
  all_goals exact enters_trampolines (fun _ _ _ h => by cases h)

end Btls.ExData.Running
