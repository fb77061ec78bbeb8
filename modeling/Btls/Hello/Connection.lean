import Btls.Hello.InPlace
import Btls.Support.Runs

/-!
# Hello — Connection

The life of an ECH GREASE policy on a client connection: `SSL_set_ech_grease_callback`,
`ssl_encrypt_client_hello` and `ssl_add_clienthello_tlsext` over the objects that keep its state
(the connection, its configuration, the context in use and the handshake), and the handshake as it
calls them.  The policy itself belongs to the application: it gives any answer, and until then the
application may call whatever it likes.

So a handshake stops where it calls the policy (`Stage.running`) and goes on once there is an
answer.  A policy that fails, an encoder that does, a HelloVerifyRequest, a HelloRetryRequest,
`SSL_clear` and a configuration that has been shed are all there.  What an observer sees is a log of
events: what was set, where, and what was invoked with what it was told and for which handshake.
-/

namespace Btls.Hello

open Btls.Support

/-! ### The objects -/

/-- Where a handshake waits.  One that failed stays so. -/
inductive Stage where
  /-- Before its ClientHello is built. -/
  | idle
  /-- In the policy, with the ClientHello that is being built. -/
  | running (view : Handshake)
  /-- For the server, with a ClientHello sent. -/
  | waiting
  | failed

/-- `SSL_HANDSHAKE`. -/
structure Hs where
  echGreasePolicyLocked : Bool
  receivedHelloVerifyRequest : Bool
  selectedEchConfig : Bool
  maxVersion : Nat
  echClientOuter : Bytes
  stage : Stage

/-- `ssl_handshake_new`. -/
def sslHandshakeNew : Hs := ⟨false, false, false, 0, [], .idle⟩

/-- `SSL_CONFIG`.  `P` is the type of policies, a callback with its argument. -/
structure Config (P : Type) where
  echGreaseCallback : Option P
  echGreaseEnabled : Bool

/-- `SSL`.  `config` is gone once shed and `hs` once the handshake is done; `K` is the type of contexts.
`handshakes` counts the handshake objects before the last one, and so tells them apart. -/
structure Connection (K P : Type) where
  config : Option (Config P)
  ctx : K
  usedHelloRetryRequest : Bool
  hs : Option Hs
  handshakes : Nat

variable {K P : Type} (c : Connection K P)

/-! ### What the application calls -/

/-- `SSL_set_ech_grease_callback`, with what it returns. -/
def Connection.setEchGreaseCallback (callback : Option P) : Bool × Connection K P :=
  match c.config, c.hs with
  | some config, some hs =>
      if hs.echGreasePolicyLocked then (false, c)
      else (true, { c with config := some { config with echGreaseCallback := callback } })
  | _, _ => (false, c)

/-- `SSL_set_SSL_CTX`, with whether it succeeds. -/
def Connection.setSslCtx (ctx : K) : Bool × Connection K P :=
  match c.config with
  | none => (false, c)
  | some _ => (true, { c with ctx })

/-- `SSL_set_enable_ech_grease`. -/
def Connection.setEnableEchGrease (enable : Bool) : Connection K P :=
  { c with config := c.config.map fun config => { config with echGreaseEnabled := enable } }

/-- `SSL_clear`: nothing happens without a configuration. -/
def Connection.clear : Connection K P :=
  match c.config with
  | none => c
  | some _ =>
      { c with
        usedHelloRetryRequest := false
        hs := some sslHandshakeNew
        handshakes := c.handshakes + 1 }

/-! ### Building a ClientHello -/

/-- What an observer of a connection and of the contexts sees.  `started` is the beginning of a
handshake's first ClientHello: whether real ECH was selected for it, and whether ECH GREASE is enabled
and TLS 1.3 offered.  `reencrypted` is real ECH encrypted again for a second ClientHello. -/
inductive Event (K P : Type) where
  | set (callback : Option P)
  | setOnContext (ctx : K) (callback : Option P)
  | switched (ctx : K)
  | started (handshake : Nat) (selected greases : Bool)
  | invoked (handshake : Nat) (policy : P) (info : SizeInfo)
  | reencrypted (handshake : Nat)
  | hello (handshake : Nat) (view : Handshake) (block : Block)

/-- The handshake that an event is about. -/
def Event.handshake : Event K P → Option Nat
  | .set _ => none
  | .setOnContext _ _ => none
  | .switched _ => none
  | .started n _ _ => some n
  | .invoked n _ _ => some n
  | .reencrypted n => some n
  | .hello n _ _ => some n

/-- What `ssl_add_clienthello_tlsext` reads; all but the policy's state is as in `t`.  Its callbacks say
whether there are policies; their answers come with `Handshake.answering`. -/
def Connection.view (config : Config P) (ctxCallback : Option P) (hs : Hs) (t : Handshake) : Handshake :=
  { t with
    usedHelloRetryRequest := c.usedHelloRetryRequest
    receivedHelloVerifyRequest := hs.receivedHelloVerifyRequest
    selectedEchConfig := hs.selectedEchConfig
    maxVersion := hs.maxVersion
    echGreaseEnabled := config.echGreaseEnabled
    configCallback := config.echGreaseCallback.map fun _ _ => none
    ctxCallback := ctxCallback.map fun _ _ => none
    echClientOuter := hs.echClientOuter }

/-- The handshake, in which the policy's answer is `answer`. -/
def Handshake.answering (view : Handshake) (answer : Option Parameters) : Handshake :=
  { view with configCallback := some fun _ => answer }

/-- Whether ECH GREASE is enabled and TLS 1.3 offered. -/
def Handshake.greases (view : Handshake) : Bool :=
  kTls13Version ≤ view.maxVersion && view.echGreaseEnabled

/-- `ssl_encrypt_client_hello`: the new `ech_client_outer`.  `real` is what real ECH makes it, `none` when
that fails. -/
def Handshake.encryptClientHello (view : Handshake) (real : Option Bytes) : Option Bytes :=
  if view.selectedEchConfig then real
  else if view.echGreasePending then some view.echClientOuter
  else if view.greases then some (view.draw.echClientOuter view.draw.defaultParameters)
  else some view.echClientOuter

/-- The handshake fails. -/
def Connection.fail (hs : Hs) : Connection K P × List (Event K P) :=
  ({ c with hs := some { hs with stage := .failed } }, [])

/-- The end of `ssl_add_client_hello`. -/
def Connection.added (hs : Hs) (view : Handshake) : Connection K P × List (Event K P) :=
  match view.addClienthelloTlsext with
  | .error _ => c.fail hs
  | .ok block =>
      ({ c with hs := some { hs with stage := .waiting, echClientOuter := block.echClientOuter } },
        [.hello c.handshakes view block])

/-- `ssl_add_client_hello`, up to the policy when there is one to invoke. -/
def Connection.addClientHello (config : Config P) (ctxCallback : Option P) (hs : Hs) (t : Handshake) :
    Connection K P × List (Event K P) :=
  let view := c.view config ctxCallback hs t
  if view.echGreasePending then
    match view.echGreaseOffer, config.echGreaseCallback.or ctxCallback with
    | .ok info, some policy =>
        ({ c with hs := some { hs with stage := .running view } }, [.invoked c.handshakes policy info])
    | _, _ => c.fail hs
  else c.added hs view

/-- `ssl_encrypt_client_hello`, then `ssl_add_client_hello`. -/
def Connection.encryptThenAdd (config : Config P) (ctxCallback : Option P) (hs : Hs)
    (real : Option Bytes) (t : Handshake) : Connection K P × List (Event K P) :=
  let view := c.view config ctxCallback hs t
  let hs := { hs with echGreasePolicyLocked := true }
  match view.encryptClientHello real with
  | none => c.fail hs
  | some echClientOuter => c.addClientHello config ctxCallback { hs with echClientOuter } t

/-! ### The handshake -/

/-- `do_start_connect`: the version range and the ECH configuration are settled, then the first
ClientHello is built. -/
def Connection.startConnect (config : Config P) (ctxCallback : Option P) (hs : Hs) (selected : Bool)
    (maxVersion : Nat) (real : Option Bytes) (t : Handshake) : Connection K P × List (Event K P) :=
  let hs := { hs with selectedEchConfig := selected, maxVersion }
  let (c', events) := c.encryptThenAdd config ctxCallback hs real t
  (c', .started c.handshakes selected (c.view config ctxCallback hs t).greases :: events)

/-- The second ClientHello of DTLS. -/
def Connection.helloVerifyRequest (config : Config P) (ctxCallback : Option P) (hs : Hs)
    (t : Handshake) : Connection K P × List (Event K P) :=
  c.addClientHello config ctxCallback { hs with receivedHelloVerifyRequest := true } t

/-- The second ClientHello of TLS 1.3.  `accepted` is given when the server accepted real ECH, which is
then encrypted again. -/
def Connection.helloRetryRequest (config : Config P) (ctxCallback : Option P) (hs : Hs)
    (accepted : Option (Option Bytes)) (t : Handshake) : Connection K P × List (Event K P) :=
  let c := { c with usedHelloRetryRequest := true }
  match accepted with
  | some real =>
      if hs.selectedEchConfig then
        let (c', events) := c.encryptThenAdd config ctxCallback hs real t
        (c', .reencrypted c.handshakes :: events)
      else c.fail hs
  | none => c.addClientHello config ctxCallback hs t

/-- The handshake is done. -/
def Connection.finish (shed : Bool) : Connection K P :=
  { c with config := if shed then none else c.config, hs := none }

/-- What the application or the library does next. -/
inductive Action (K P : Type) where
  | setEchGreaseCallback (callback : Option P)
  | setCtxEchGreaseCallback (ctx : K) (callback : Option P)
  | setSslCtx (ctx : K)
  | setEnableEchGrease (enable : Bool)
  | startConnect (selected : Bool) (maxVersion : Nat) (real : Option Bytes) (t : Handshake)
  | answer (answer : Option Parameters)
  | helloVerifyRequest (t : Handshake)
  | helloRetryRequest (accepted : Option (Option Bytes)) (t : Handshake)
  | fail
  | finish (shed : Bool)
  | clear
  /-- A new handshake after one that is done: TLS 1.2, so without a HelloRetryRequest. -/
  | renegotiate

/-- What the library does next in a handshake; an action that is not its turn leaves everything as it
is. -/
def Connection.advance (config : Config P) (ctxCallback : Option P) (hs : Hs) :
    Action K P → Connection K P × List (Event K P)
  | .startConnect selected maxVersion real t =>
      match hs.stage with
      | .idle => c.startConnect config ctxCallback hs selected maxVersion real t
      | _ => (c, [])
  | .answer answer =>
      match hs.stage with
      | .running view => c.added hs (view.answering answer)
      | _ => (c, [])
  | .helloVerifyRequest t =>
      match hs.stage with
      | .waiting => c.helloVerifyRequest config ctxCallback hs t
      | _ => (c, [])
  | .helloRetryRequest accepted t =>
      match hs.stage with
      | .waiting => c.helloRetryRequest config ctxCallback hs accepted t
      | _ => (c, [])
  | .fail =>
      match hs.stage with
      | .running _ => (c, [])
      | _ => c.fail hs
  | .finish shed =>
      match hs.stage with
      | .waiting => (c.finish shed, [])
      | _ => (c, [])
  | .clear =>
      match hs.stage with
      | .running _ => (c, []) -- the policy may not clear its connection
      | _ => (c.clear, [])
  | _ => (c, [])

/-! ### The system -/

/-- The connection, the callbacks of the contexts, and all that was seen. -/
structure World (K P : Type) where
  connection : Connection K P
  contexts : K → Option P
  trace : List (Event K P)

/-- `SSL_new`. -/
def World.new (contexts : K → Option P) (ctx : K) : World K P :=
  ⟨⟨some ⟨none, false⟩, ctx, false, some sslHandshakeNew, 0⟩, contexts, []⟩

/-- The connection after a call, and what was seen of it. -/
def World.record (w : World K P) (moved : Connection K P × List (Event K P)) : World K P :=
  { w with connection := moved.1, trace := w.trace ++ moved.2 }

/-- What the library does next, and `SSL_clear`. -/
def World.advance (w : World K P) (action : Action K P) : World K P :=
  match w.connection.config, w.connection.hs with
  | none, _ => w
  | some config, some hs =>
      w.record (w.connection.advance config (w.contexts w.connection.ctx) hs action)
  | some _, none =>
      match action with
      | .clear => w.record (w.connection.clear, [])
      | .renegotiate =>
          if w.connection.usedHelloRetryRequest then w else w.record (w.connection.clear, [])
      | _ => w

variable [DecidableEq K]

def World.step (w : World K P) : Action K P → World K P
  | .setEchGreaseCallback callback =>
      let (ok, c) := w.connection.setEchGreaseCallback callback
      w.record (c, if ok then [.set callback] else [])
  | .setCtxEchGreaseCallback ctx callback =>
      { w with
        contexts := Function.update w.contexts ctx callback
        trace := w.trace ++ [.setOnContext ctx callback] }
  | .setSslCtx ctx =>
      let (ok, c) := w.connection.setSslCtx ctx
      w.record (c, if ok then [.switched ctx] else [])
  | .setEnableEchGrease enable => w.record (w.connection.setEnableEchGrease enable, [])
  | action => w.advance action

def World.Step (w : World K P) (action : Action K P) (w' : World K P) : Prop := w' = w.step action

end Btls.Hello
