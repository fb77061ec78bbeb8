import Btls.Support.Bytes

/-!
# Stream — Transport

The errors of the crate and the transport under a stream.  `AsyncStream τ` is any
`AsyncRead + AsyncWrite` implementation over a state `τ`: what it does at a poll is a function of
its state alone, so a `τ` that holds a script of answers gives every behaviour in every order.  Its
laws are the two the traits promise, that a write takes no more than it is offered and a read
returns no more than there is room for.

`Transport` adds ghosts to it: every byte it took (`accepted`), every byte it gave (`received`) and
every poll of it (`events`), with the part of the crate that issued a write.
-/

namespace Btls.Stream

open Btls.Support

/-- `task::Poll`. -/
inductive Poll (α : Type) where
  | ready (a : α)
  | pending
  deriving DecidableEq

/-- `io::ErrorKind`; the code looks at the first two only. -/
inductive ErrorKind where
  | wouldBlock
  | notConnected
  | writeZero
  | other
  | rest (n : Nat)
  deriving DecidableEq

/-- `ssl::ErrorCode`; the code never tells the rest apart. -/
inductive ErrorCode where
  | zeroReturn
  | wantRead
  | wantWrite
  | syscall
  | ssl
  | rest (n : Nat)
  deriving DecidableEq

/-- An entry of BoringSSL's error queue, as far as the code tells them apart. -/
inductive QueuedError where
  /-- `SSL_R_PROTOCOL_IS_SHUTDOWN` of `ERR_LIB_SSL`. -/
  | protocolIsShutdown
  /-- The crate's own "SSL_seal_app_data reported more than it was given". -/
  | sealReportedMore
  | rest (n : Nat)
  deriving DecidableEq

abbrev ErrorStack := List QueuedError

/-- `io::Error`. -/
inductive IoError where
  /-- `io::Error::from(kind)`. -/
  | simple (kind : ErrorKind)
  /-- An error of the transport's own making. -/
  | transport (kind : ErrorKind) (id : Nat)
  /-- `io::Error::other` of an `ssl::Error` that no I/O error caused. -/
  | other (code : ErrorCode) (stack : Option ErrorStack)
  deriving DecidableEq

def IoError.kind : IoError → ErrorKind
  | .simple kind => kind
  | .transport kind _ => kind
  | .other _ _ => .other

inductive InnerError where
  | io (e : IoError)
  | ssl (stack : ErrorStack)
  deriving DecidableEq

/-- `ssl::Error`. -/
structure SslError where
  code : ErrorCode
  cause : Option InnerError
  deriving DecidableEq

namespace SslError

def ioError (e : SslError) : Option IoError :=
  match e.cause with
  | some (.io e) => some e
  | _ => none

def sslError (e : SslError) : Option ErrorStack :=
  match e.cause with
  | some (.ssl stack) => some stack
  | _ => none

/-- `e.into_io_error().unwrap_or_else(io::Error::other)`. -/
def intoIoErrorOrOther (e : SslError) : IoError :=
  match e.cause with
  | some (.io io) => io
  | some (.ssl stack) => .other e.code (some stack)
  | none => .other e.code none

/-- `ssl::Error::from(ErrorStack)`. -/
def ofStack (stack : ErrorStack) : SslError := ⟨.ssl, some (.ssl stack)⟩

end SslError

def cvt {α : Type} : Except IoError α → Poll (Except IoError α)
  | .ok v => .ready (.ok v)
  | .error e => if e.kind = .wouldBlock then .pending else .ready (.error e)

def cvtOssl {α : Type} : Except SslError α → Poll (Except SslError α)
  | .ok v => .ready (.ok v)
  | .error e =>
      if e.code = .wantRead ∨ e.code = .wantWrite then .pending else .ready (.error e)

def closedByAlert (e : SslError) : Bool :=
  match e.sslError with
  | some stack => stack.any (· == .protocolIsShutdown)
  | none => false

theorem cvt_eq_ok {α : Type} {r : Except IoError α} {v : α} :
    cvt r = .ready (.ok v) ↔ r = .ok v := by
  cases r with
  | ok v' => simp [cvt]
  | error e => by_cases h : e.kind = .wouldBlock <;> simp [cvt, h]

/-! ### The underlying stream -/

/-- An `AsyncRead + AsyncWrite` implementation.  A vectored write offers its slices in order. -/
structure AsyncStream (τ : Type) where
  pollWrite : τ → Bytes → Poll (Except IoError Nat) × τ
  pollWriteVectored : τ → List Bytes → Poll (Except IoError Nat) × τ
  isWriteVectored : τ → Bool
  pollFlush : τ → Poll (Except IoError Unit) × τ
  pollShutdown : τ → Poll (Except IoError Unit) × τ
  pollRead : τ → Nat → Poll (Except IoError Bytes) × τ
  pollWrite_le : ∀ s buf n, (pollWrite s buf).1 = .ready (.ok n) → n ≤ buf.length
  pollWriteVectored_le : ∀ s bufs n,
    (pollWriteVectored s bufs).1 = .ready (.ok n) → n ≤ bufs.flatten.length
  pollRead_le : ∀ s cap data, (pollRead s cap).1 = .ready (.ok data) → data.length ≤ cap

/-- What polls the transport to write: the drain of `retry`, that of `drain_unless_blocked`, the
write of `write_last`, or `StreamWrapper::flush`. -/
inductive Issuer where
  | retry
  | finish
  | writeLast
  | flush
  deriving DecidableEq

/-- A poll of the transport and its answer. -/
inductive TransportEvent where
  | write (issuer : Issuer) (r : Poll (Except IoError Nat))
  | flush (r : Poll (Except IoError Unit))
  | shutdown (r : Poll (Except IoError Unit))
  | read (r : Poll (Except IoError Bytes))

/-- The underlying stream, with what it took and gave so far. -/
structure Transport (τ : Type) where
  stream : τ
  accepted : Bytes
  received : Bytes
  events : List TransportEvent

/-- The bytes a write poll took. -/
def Poll.taken : Poll (Except IoError Nat) → Nat
  | .ready (.ok n) => n
  | _ => 0

/-- The bytes a read poll gave. -/
def Poll.given : Poll (Except IoError Bytes) → Bytes
  | .ready (.ok data) => data
  | _ => []

namespace Transport

variable {τ : Type} (io : AsyncStream τ) (t : Transport τ)

def pollWrite (issuer : Issuer) (buf : Bytes) : Poll (Except IoError Nat) × Transport τ :=
  let (r, stream) := io.pollWrite t.stream buf
  (r, { t with
    stream
    accepted := t.accepted ++ buf.take r.taken
    events := t.events ++ [.write issuer r] })

def pollWriteVectored (issuer : Issuer) (bufs : List Bytes) :
    Poll (Except IoError Nat) × Transport τ :=
  let (r, stream) := io.pollWriteVectored t.stream bufs
  (r, { t with
    stream
    accepted := t.accepted ++ bufs.flatten.take r.taken
    events := t.events ++ [.write issuer r] })

def pollFlush : Poll (Except IoError Unit) × Transport τ :=
  let (r, stream) := io.pollFlush t.stream
  (r, { t with stream, events := t.events ++ [.flush r] })

def pollShutdown : Poll (Except IoError Unit) × Transport τ :=
  let (r, stream) := io.pollShutdown t.stream
  (r, { t with stream, events := t.events ++ [.shutdown r] })

def pollRead (cap : Nat) : Poll (Except IoError Bytes) × Transport τ :=
  let (r, stream) := io.pollRead t.stream cap
  (r, { t with
    stream
    received := t.received ++ r.given
    events := t.events ++ [.read r] })

variable {io t} {t' : Transport τ}

theorem pollWrite_spec {issuer : Issuer} {buf : Bytes} {r : Poll (Except IoError Nat)}
    (h : t.pollWrite io issuer buf = (r, t')) :
    t'.accepted = t.accepted ++ buf.take r.taken ∧ r.taken ≤ buf.length
      ∧ t'.received = t.received := by
  obtain ⟨rfl, rfl⟩ := Prod.mk.inj h
  refine ⟨rfl, ?_, rfl⟩
  rcases hr : (io.pollWrite t.stream buf).1 with (e | n) | _
  · exact Nat.zero_le _
  · exact io.pollWrite_le _ _ _ hr
  · exact Nat.zero_le _

theorem pollWriteVectored_spec {issuer : Issuer} {bufs : List Bytes}
    {r : Poll (Except IoError Nat)} (h : t.pollWriteVectored io issuer bufs = (r, t')) :
    t'.accepted = t.accepted ++ bufs.flatten.take r.taken ∧ r.taken ≤ bufs.flatten.length
      ∧ t'.received = t.received := by
  obtain ⟨rfl, rfl⟩ := Prod.mk.inj h
  refine ⟨rfl, ?_, rfl⟩
  rcases hr : (io.pollWriteVectored t.stream bufs).1 with (e | n) | _
  · exact Nat.zero_le _
  · exact io.pollWriteVectored_le _ _ _ hr
  · exact Nat.zero_le _

theorem pollRead_spec {cap : Nat} {r : Poll (Except IoError Bytes)}
    (h : t.pollRead io cap = (r, t')) :
    t'.received = t.received ++ r.given ∧ r.given.length ≤ cap ∧ t'.accepted = t.accepted := by
  obtain ⟨rfl, rfl⟩ := Prod.mk.inj h
  refine ⟨rfl, ?_, rfl⟩
  rcases hr : (io.pollRead t.stream cap).1 with (e | data) | _
  · exact Nat.zero_le _
  · exact io.pollRead_le _ _ _ hr
  · exact Nat.zero_le _

theorem pollFlush_spec {r : Poll (Except IoError Unit)} (h : t.pollFlush io = (r, t')) :
    t'.accepted = t.accepted ∧ t'.received = t.received := by
  obtain ⟨rfl, rfl⟩ := Prod.mk.inj h
  exact ⟨rfl, rfl⟩

theorem pollShutdown_spec {r : Poll (Except IoError Unit)} (h : t.pollShutdown io = (r, t')) :
    t'.accepted = t.accepted ∧ t'.received = t.received := by
  obtain ⟨rfl, rfl⟩ := Prod.mk.inj h
  exact ⟨rfl, rfl⟩

end Transport

end Btls.Stream
