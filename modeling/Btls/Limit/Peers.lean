import Btls.Limit.RecordSizeLimit
import Btls.Support.Runs

/-!
# Limit — Peers

A client and a server of this implementation, each with its end of the record size limit, and the
records between them.  Upstream decides when keys change; here they change at any time after the
negotiation that TLS allows, and a record that was sealed under other keys than the receiver's
cannot be opened.

A direction goes through keys in one order (`Epoch`): none, those of 0-RTT, of the handshake and of
the application, and `next` says which come after which.  A `SealedRecord` is the two lengths of a
record under the keys of its epoch, with the message that it carries, so that its lengths can be
checked by anyone and its message read only by a receiver that has the keys.

`step` is one action of either side, the delivery of the next record, or new keys; it is a partial
function, and `Reached` the states that some run of it leads to.  It covers a HelloRetryRequest,
0-RTT that is accepted or skipped, and versions before TLS 1.3.
-/

namespace Btls.Limit.Peers

open Btls.Support Btls.Tls Btls.Limit

/-! ### Keys and records -/

/-- The keys that a direction goes through, in their order.  `hello` and `retry`, which follows a
HelloRetryRequest, are none; a KeyUpdate moves on to the next `application` keys. -/
inductive Epoch where
  | hello
  | earlyData
  | retry
  | handshake
  | application (n : Nat)
  deriving DecidableEq

namespace Epoch

def level : Epoch → Ssl.Level
  | .hello | .retry => .initial
  | .earlyData => .earlyData
  | .handshake => .handshake
  | .application _ => .application

def rank : Epoch → Nat
  | .hello => 0
  | .earlyData => 1
  | .retry => 2
  | .handshake => 3
  | .application n => 4 + n

/-- The keys after some; `first` come after none. -/
def next (epoch first : Epoch) : Epoch :=
  match epoch with
  | .hello | .retry => first
  | .earlyData => .handshake
  | .handshake => .application 0
  | .application n => .application (n + 1)

end Epoch

/-- What the peers tell each other; the extensions are those with the limit. -/
inductive Message where
  | clientHello (ext : Option Bytes)
  | helloRetryRequest
  | serverHello (ext : Option Bytes)
  | encryptedExtensions (ext : Option Bytes) (earlyDataAccepted : Bool)
  | other
  deriving DecidableEq

/-- A record under the keys of its epoch; its plaintext includes the inner content type. -/
structure SealedRecord where
  epoch : Epoch
  plaintextLen : Nat
  ciphertextLen : Nat
  message : Message
  deriving DecidableEq

/-- What the peers start from, and the version that the server will choose. -/
structure Config where
  clientLimit : Nat
  serverLimit : Nat
  clientMaxVersion : Nat
  version : Nat
  offersEarlyData : Bool
  /-- The cipher suite's `CiphertextLen`. -/
  ciphertextLen : (inLen extraLen : Nat) → Option Nat

inductive ClientPhase where
  | start
  | sentHello
  | retrying
  | sentSecondHello
  | waitExtensions
  | negotiated
  deriving DecidableEq

inductive ServerPhase where
  | waitHello
  | answering
  | waitSecondHello
  | answeringSecond
  | sentHello
  | negotiated
  deriving DecidableEq

/-- One of the two. -/
structure Side (Phase : Type) where
  ssl : Ssl
  phase : Phase
  readEpoch : Epoch
  writeEpoch : Epoch

/-- What comes of a record: a check of the limit rejects it, or it cannot be opened, and is discarded where
0-RTT is to be skipped, or it is opened. -/
inductive Opened (Phase : Type) where
  | rejected (e : LimitError)
  | undecryptable
  | discarded
  | opened (side : Side Phase)

namespace Side

variable {Phase : Type} (C : Config) (side : Side Phase)

/-- `tls_set_read_state`. -/
def installRead (epoch : Epoch) : Side Phase :=
  { side with
    readEpoch := epoch
    ssl := { side.ssl with readNullCipher := epoch.level = Ssl.Level.initial }.setReadState epoch.level }

/-- `tls_set_write_state`. -/
def installWrite (epoch : Epoch) : Side Phase :=
  { side with
    writeEpoch := epoch
    ssl := { side.ssl with writeNullCipher := epoch.level = Ssl.Level.initial }.setWriteState epoch.level }

/-- Seals a record that `tls_max_send_fragment` allows; `max_send_fragment` is at most the protocol's. -/
def sealRecord (inLen : Nat) (message : Message) : Option SealedRecord :=
  if inLen ≤ side.ssl.maxSendFragment maxPlainLength then
    if side.ssl.writeNullCipher then some ⟨side.writeEpoch, inLen, inLen, message⟩
    else
      let extraLen := if tls13Version ≤ side.ssl.protocolVersion then 1 else 0
      (C.ciphertextLen inLen extraLen).map fun len =>
        ⟨side.writeEpoch, inLen + extraLen, len, message⟩
  else none

/-- `tls_open_record`. -/
def openRecord (r : SealedRecord) : Opened Phase :=
  match side.ssl.checkCiphertext C.ciphertextLen r.ciphertextLen with
  | .error e => .rejected e
  | .ok () =>
      if r.epoch = side.readEpoch then
        let hasPadding := !side.ssl.readNullCipher && tls13Version ≤ side.ssl.protocolVersion
        match side.ssl.checkPlaintext r.plaintextLen
            (if hasPadding then maxPlainLength + 1 else maxPlainLength) with
        | (.error e, _) => .rejected e
        | (.ok (), ssl) => .opened { side with ssl := { ssl with skipEarlyData := false } }
      else if side.ssl.skipEarlyData then .discarded
      else .undecryptable

end Side

/-! ### The client -/

/-- `do_start_connect`. -/
def startConnect (C : Config) (client : Side ClientPhase) : Side ClientPhase :=
  let hs := { client.ssl.hs with maxVersion := C.clientMaxVersion }
  { client with ssl := { client.ssl with hs }.snapshotConfig, phase := .sentHello }

/-- `do_enter_early_data`. -/
def enterEarlyData (client : Side ClientPhase) : Side ClientPhase :=
  let hs := { client.ssl.hs with inEarlyData := true }
  { client with ssl := { client.ssl with protocolVersion := tls13Version, hs } }.installWrite .earlyData

/-- The first ClientHello; 0-RTT goes under its own keys from there on. -/
def sendHello (C : Config) (client : Side ClientPhase) (inLen : Nat) :
    Option (Side ClientPhase × SealedRecord) :=
  let client := startConnect C client
  (client.sealRecord C inLen (.clientHello client.ssl.addClienthello)).map fun r =>
    (if C.offersEarlyData then enterEarlyData client else client, r)

/-- The ClientHello after a HelloRetryRequest. -/
def sendSecondHello (C : Config) (client : Side ClientPhase) (inLen : Nat) :
    Option (Side ClientPhase × SealedRecord) :=
  (client.sealRecord C inLen (.clientHello client.ssl.addClienthello)).map fun r =>
    ({ client with phase := .sentSecondHello }, r)

/-- `close_early_data`. -/
def closeEarlyData (client : Side ClientPhase) (epoch : Epoch) : Side ClientPhase :=
  let hs := { client.ssl.hs with inEarlyData := false }
  { client with ssl := { client.ssl with hs } }.installWrite epoch

def clientRetry (client : Side ClientPhase) : Side ClientPhase :=
  let client :=
    if client.ssl.hs.inEarlyData then closeEarlyData client .retry
    else { client with writeEpoch := .retry }
  { client with phase := .retrying }

/-- The client reads a ServerHello; with 0-RTT in progress it refuses versions before TLS 1.3. -/
def clientServerHello (C : Config) (client : Side ClientPhase) (ext : Option Bytes) :
    Option (Side ClientPhase) :=
  let client := { client with ssl := { client.ssl with protocolVersion := C.version } }
  if tls13Version ≤ C.version then
    let client : Side ClientPhase := { client with phase := .waitExtensions }
    let client := client.installRead .handshake
    if client.ssl.hs.inEarlyData then some client else some (client.installWrite .handshake)
  else if client.ssl.hs.inEarlyData then none
  else
    match client.ssl.parseServerhello ext with
    | (.error _, _) => none
    | (.ok (), ssl) => some { client with ssl, phase := .negotiated }

/-- The client reads EncryptedExtensions. -/
def clientExtensions (client : Side ClientPhase) (ext : Option Bytes) (earlyDataAccepted : Bool) :
    Option (Side ClientPhase) :=
  match client.ssl.parseServerhello ext with
  | (.error _, _) => none
  | (.ok (), ssl) =>
      let client := { client with ssl, phase := .negotiated }
      if ssl.hs.inEarlyData && !earlyDataAccepted then some (closeEarlyData client .handshake)
      else some client

def clientReceive (C : Config) (client : Side ClientPhase) : Message → Option (Side ClientPhase)
  | .helloRetryRequest =>
      if client.phase = .sentHello ∧ tls13Version ≤ C.version then some (clientRetry client) else none
  | .serverHello ext =>
      if client.phase = .sentHello ∨ client.phase = .sentSecondHello then clientServerHello C client ext
      else none
  | .encryptedExtensions ext earlyDataAccepted =>
      if client.phase = .waitExtensions then clientExtensions client ext earlyDataAccepted else none
  | .other => some client
  | .clientHello _ => none

/-! ### The server -/

/-- The server reads the first ClientHello: the extension, then whether to accept 0-RTT, which is skipped
otherwise; before TLS 1.3 it would fail on it.  `wanted` is what else that depends on. -/
def serverHello (C : Config) (server : Side ServerPhase) (ext : Option Bytes) (wanted : Bool) :
    Option (Side ServerPhase × Bool) :=
  match { server.ssl with protocolVersion := C.version }.parseClienthello ext with
  | (.error _, _) => none
  | (.ok (), ssl) =>
      let accepted := wanted && C.offersEarlyData && tls13Version ≤ C.version && ssl.allowsEarlyData
      let ssl := { ssl with skipEarlyData := C.offersEarlyData && !accepted }
      some ({ server with ssl, phase := .answering }, accepted)

/-- `do_read_second_client_hello`. -/
def serverSecondHello (server : Side ServerPhase) (ext : Option Bytes) : Option (Side ServerPhase) :=
  match server.ssl.checkSecondClienthello ext with
  | .error _ => none
  | .ok () => some { server with phase := .answeringSecond }

/-! ### Both -/

structure World where
  client : Side ClientPhase
  server : Side ServerPhase
  earlyDataAccepted : Bool
  toServer : List SealedRecord
  toClient : List SealedRecord

inductive Action where
  | sendClientHello (inLen : Nat)
  | sendHelloRetryRequest (inLen : Nat)
  | sendServerHello (inLen : Nat)
  | sendEncryptedExtensions (inLen : Nat)
  | clientSends (inLen : Nat)
  | serverSends (inLen : Nat)
  | clientReads
  | serverReads (wantsEarlyData : Bool)
  | newClientWriteKeys
  | newClientReadKeys
  | newServerWriteKeys
  | newServerReadKeys
  deriving DecidableEq

namespace World

def initial (C : Config) : World where
  client := ⟨.new false false false C.clientLimit, .start, .hello, .hello⟩
  server := ⟨.new true false false C.serverLimit, .waitHello, .hello, .hello⟩
  earlyDataAccepted := false
  toServer := []
  toClient := []

variable (C : Config) (w : World)

def serverReceive (server : Side ServerPhase) (wanted : Bool) :
    Message → Option (Side ServerPhase × Bool)
  | .clientHello ext =>
      if server.phase = .waitHello then serverHello C server ext wanted
      else if server.phase = .waitSecondHello then
        (serverSecondHello server ext).map fun server => (server, w.earlyDataAccepted)
      else none
  | .other => some (server, w.earlyDataAccepted)
  | _ => none

/-- Whether keys may change: before TLS 1.3 they do once. -/
def mayChange (epoch : Epoch) : Bool := epoch.level = .initial || tls13Version ≤ C.version

/-- The server's first read keys. -/
def firstServerReadKeys : Epoch :=
  if C.version < tls13Version then .application 0
  else if w.earlyDataAccepted then .earlyData
  else .handshake

def step : Action → Option World
  | .sendClientHello inLen =>
      if w.client.phase = .start then
        (sendHello C w.client inLen).map fun (client, r) =>
          { w with client, toServer := w.toServer ++ [r] }
      else if w.client.phase = .retrying then
        (sendSecondHello C w.client inLen).map fun (client, r) =>
          { w with client, toServer := w.toServer ++ [r] }
      else none
  | .sendHelloRetryRequest inLen =>
      if w.server.phase = .answering ∧ w.earlyDataAccepted = false ∧ tls13Version ≤ C.version then
        (w.server.sealRecord C inLen .helloRetryRequest).map fun r =>
          { w with
            server := { w.server with phase := .waitSecondHello, readEpoch := .retry }
            toClient := w.toClient ++ [r] }
      else none
  | .sendServerHello inLen =>
      if w.server.phase = .answering ∨ w.server.phase = .answeringSecond then
        if tls13Version ≤ C.version then
          (w.server.sealRecord C inLen (.serverHello none)).map fun r =>
            { w with
              server := { w.server with phase := ServerPhase.sentHello }.installWrite .handshake
              toClient := w.toClient ++ [r] }
        else
          (w.server.sealRecord C inLen (.serverHello w.server.ssl.addServerhello)).map fun r =>
            { w with server := { w.server with phase := .negotiated }, toClient := w.toClient ++ [r] }
      else none
  | .sendEncryptedExtensions inLen =>
      if w.server.phase = .sentHello then
        (w.server.sealRecord C inLen
            (.encryptedExtensions w.server.ssl.addServerhello w.earlyDataAccepted)).map fun r =>
          { w with server := { w.server with phase := .negotiated }, toClient := w.toClient ++ [r] }
      else none
  | .clientSends inLen =>
      -- Until it has read EncryptedExtensions a client sends only alerts under its handshake keys.
      if w.client.ssl.writeNullCipher = false
          ∧ (w.client.phase = .waitExtensions → w.client.writeEpoch = .handshake → inLen ≤ 2) then
        (w.client.sealRecord C inLen .other).map fun r => { w with toServer := w.toServer ++ [r] }
      else none
  | .serverSends inLen =>
      if w.server.ssl.writeNullCipher = false then
        (w.server.sealRecord C inLen .other).map fun r => { w with toClient := w.toClient ++ [r] }
      else none
  | .clientReads =>
      match w.toClient with
      | [] => none
      | r :: rest =>
          match w.client.openRecord C r with
          | .opened client =>
              (clientReceive C client r.message).map fun client => { w with client, toClient := rest }
          | .discarded => some { w with toClient := rest }
          | .rejected _ | .undecryptable => none
  | .serverReads wantsEarlyData =>
      match w.toServer with
      | [] => none
      | r :: rest =>
          match w.server.openRecord C r with
          | .opened server =>
              (w.serverReceive C server wantsEarlyData r.message).map fun (server, earlyDataAccepted) =>
                { w with server, earlyDataAccepted, toServer := rest }
          | .discarded => some { w with toServer := rest }
          | .rejected _ | .undecryptable => none
  | .newClientWriteKeys =>
      -- 0-RTT that was accepted ends here, like any other keys.
      if w.client.phase = .negotiated ∧ mayChange C w.client.writeEpoch then
        some { w with client := closeEarlyData w.client (w.client.writeEpoch.next (.application 0)) }
      else none
  | .newClientReadKeys =>
      if w.client.phase = .negotiated ∧ mayChange C w.client.readEpoch then
        some { w with client := w.client.installRead (w.client.readEpoch.next (.application 0)) }
      else none
  | .newServerWriteKeys =>
      if w.server.phase = .negotiated ∧ mayChange C w.server.writeEpoch then
        some { w with server := w.server.installWrite (w.server.writeEpoch.next (.application 0)) }
      else none
  | .newServerReadKeys =>
      if w.server.phase = .negotiated ∧ mayChange C w.server.readEpoch then
        some { w with server := w.server.installRead (w.server.readEpoch.next (w.firstServerReadKeys C)) }
      else none

/-- The states that some run of the two leads to. -/
def Reached : World → Prop :=
  Reachable (fun w => w = initial C) fun w a w' => w.step C a = some w'

end World

end Btls.Limit.Peers
