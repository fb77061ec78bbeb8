import Btls.Stream.Bio

/-!
# Stream — Core

The `btls` half of a stream: BoringSSL as the crate sees it, and the calls that turn its results
into `io::Result`s.

`BoringSsl σ` is any library with the contract the crate relies on.  Sealing touches no transport;
everything else is a program over the BIO. `plaintext` is a ghost, the application bytes sealed so
far, and only a seal or an `SSL_write` that succeeds extends it.

`SslStream` is the crate's: the library's state, the stream behind the BIO, and the end of the
stream that a read may have stored.  It keeps the results of `SSL_read` and `SSL_shutdown` as
ghosts, so that what it reports can be compared with them.  `call_spec` is the rule for a call into
the library: whatever it does on the BIO, the accounts are kept, and what holds at the leaves of its
program holds of its result.
-/

namespace Btls.Stream

open Btls.Support

/-- What `SSL_get_error` says of a call that returned 0 or less, and the error queue it left. -/
structure SslFailure where
  code : ErrorCode
  queue : ErrorStack

/-- What `SSL_seal_app_data_limits` reported. -/
structure SealLimits where
  maxFragment : Nat
  recordOverhead : Nat
  pendingLen : Nat
  maxFragment_pos : 0 < maxFragment

/-- The output room needed to seal `len` plaintext bytes, or `none` on overflow. -/
def SealLimits.sealedLen (l : SealLimits) (len : Nat) : Option Nat := do
  let records ← checkedMul (divCeil len l.maxFragment) l.recordOverhead
  let body ← checkedAdd records len
  checkedAdd body l.pendingLen

/-- What `SSL_seal_app_data` returned, with the output it wrote. -/
inductive SealResult where
  | success (out : Bytes) (consumed : Nat)
  | declined
  | error (queue : ErrorStack)

inductive ShutdownResult where
  | sent
  | received
  deriving DecidableEq

/-- The library behind the FFI. -/
structure BoringSsl (σ : Type) where
  sealAppDataLimits : σ → Option SealLimits
  sealAppData : σ → List Bytes → (maxIn room : Nat) → SealResult × σ
  sslRead : σ → (len : Nat) → Boring (Except SslFailure Bytes × σ)
  sslWrite : σ → Bytes → Boring (Except SslFailure Nat × σ)
  sslShutdown : σ → Boring (Except SslFailure ShutdownResult × σ)
  sslDoHandshake : σ → Boring (Except SslFailure Unit × σ)
  /-- Ghost: the application bytes sealed so far. -/
  plaintext : σ → Bytes
  /-- A seal that succeeds wrote within the room, and sealed the first `consumed` bytes, at least
  one where there are any to seal. -/
  sealAppData_success : ∀ s bufs maxIn room out consumed,
    (sealAppData s bufs maxIn room).1 = .success out consumed →
      out.length ≤ room ∧ consumed ≤ min maxIn bufs.flatten.length
        ∧ (0 < min maxIn bufs.flatten.length → 0 < consumed)
        ∧ plaintext (sealAppData s bufs maxIn room).2
            = plaintext s ++ bufs.flatten.take consumed
  sealAppData_declined : ∀ s bufs maxIn room,
    (sealAppData s bufs maxIn room).1 = .declined →
      plaintext (sealAppData s bufs maxIn room).2 = plaintext s
  sealAppData_error : ∀ s bufs maxIn room queue,
    (sealAppData s bufs maxIn room).1 = .error queue →
      plaintext (sealAppData s bufs maxIn room).2 = plaintext s
  /-- Where the BIO takes every write whole, `SSL_write` seals the first `n ≥ 1` bytes and returns
  `n`, or fails having sealed nothing. -/
  sslWrite_spec : ∀ s buf, buf ≠ [] → (sslWrite s buf).Leaves takesWrites fun r =>
    match r.1 with
    | .ok n => 0 < n ∧ n ≤ buf.length ∧ plaintext r.2 = plaintext s ++ buf.take n
    | .error _ => plaintext r.2 = plaintext s
  /-- `SSL_read` returns between 1 and `len` bytes, or fails. -/
  sslRead_spec : ∀ s len, 0 < len → (sslRead s len).Leaves takesWrites fun r =>
    plaintext r.2 = plaintext s ∧ ∀ data, r.1 = .ok data → 0 < data.length ∧ data.length ≤ len
  sslShutdown_spec : ∀ s, (sslShutdown s).Leaves takesWrites fun r => plaintext r.2 = plaintext s
  sslDoHandshake_spec : ∀ s,
    (sslDoHandshake s).Leaves takesWrites fun r => plaintext r.2 = plaintext s

/-- `ssl::SslStream` over the wrapper. -/
structure SslStream (σ τ : Type) where
  ssl : σ
  bio : Bio τ
  /-- Ghost: what the `SSL_read` calls returned, in order. -/
  sslReads : List (Except SslError Bytes)
  /-- Ghost: what the `SSL_shutdown` calls returned, in order. -/
  sslShutdowns : List (Except SslError ShutdownResult)

/-- The largest length an FFI call takes, `c_int::MAX`. -/
def cIntMax : Nat := 0x7FFFFFFF

/-- The plaintext taken and the records written by `seal_app_data`, within `room`. -/
structure Sealed (room : Nat) where
  consumed : Nat
  records : Bytes
  records_le : records.length ≤ room

/-- `SslRef::seal_app_data`. -/
def BoringSsl.sealChecked {σ : Type} (B : BoringSsl σ) (ssl : σ) (bufs : List Bytes)
    (maxIn room : Nat) : Except ErrorStack (Option (Sealed room)) × σ :=
  match B.sealAppData ssl bufs maxIn room with
  | (.success out consumed, ssl) =>
      if h : out.length ≤ room ∧ consumed ≤ maxIn then
        (.ok (some ⟨consumed, out, h.1⟩), ssl)
      else (.error [.sealReportedMore], ssl)
  | (.declined, ssl) => (.ok none, ssl)
  | (.error queue, ssl) => (.error queue, ssl)

namespace SslStream

variable {σ τ : Type} (B : BoringSsl σ) (io : AsyncStream τ) (a : Allocator)

/-- `get_ref` and `get_mut`. -/
def stream (s : SslStream σ τ) : StreamWrapper τ := s.bio.stream

def setStream (s : SslStream σ τ) (stream : StreamWrapper τ) : SslStream σ τ :=
  { s with bio := { s.bio with stream } }

def getBioError (s : SslStream σ τ) : Option IoError × SslStream σ τ :=
  (s.bio.error, { s with bio := { s.bio with error := none } })

def makeError (s : SslStream σ τ) (f : SslFailure) : SslError × SslStream σ τ :=
  match f.code with
  | .ssl => (⟨.ssl, some (.ssl f.queue)⟩, s)
  | .syscall =>
      if f.queue.isEmpty then
        let (e, s) := s.getBioError
        (⟨.syscall, e.map .io⟩, s)
      else (⟨.syscall, some (.ssl f.queue)⟩, s)
  | .wantRead =>
      let (e, s) := s.getBioError
      (⟨.wantRead, e.map .io⟩, s)
  | .wantWrite =>
      let (e, s) := s.getBioError
      (⟨.wantWrite, e.map .io⟩, s)
  | code => (⟨code, none⟩, s)

/-- Runs BoringSSL code on the connection, and `make_error` if it fails. -/
def call {α : Type} (s : SslStream σ τ) (p : Boring (Except SslFailure α × σ)) :
    Except SslError α × SslStream σ τ :=
  match p.interp (Bio.handle io a) s.bio with
  | ((.ok v, ssl), bio) => (.ok v, { s with ssl, bio })
  | ((.error f, ssl), bio) =>
      let (e, s) := makeError { s with ssl, bio } f
      (.error e, s)

def sslReadUninit (s : SslStream σ τ) (len : Nat) : Except SslError Bytes × SslStream σ τ :=
  if len = 0 then (.ok [], s)
  else
    let (r, s) := s.call io a (B.sslRead s.ssl (min cIntMax len))
    (r, { s with sslReads := s.sslReads ++ [r] })

/-- `read_uninit`, calling `SSL_read` at most `fuel` times; `none` if that is not enough. -/
def readUninit : Nat → SslStream σ τ → Nat → Option (Except IoError Bytes × SslStream σ τ)
  | 0, _, _ => none
  | fuel + 1, s, len =>
      match s.sslReadUninit B io a len with
      | (.ok data, s) => some (.ok data, s)
      | (.error e, s) =>
          if e.code = .zeroReturn then some (.ok [], s)
          else if e.code = .syscall ∧ e.ioError = none then some (.ok [], s)
          else if e.code = .wantRead ∧ e.ioError = none then readUninit fuel s len
          else some (.error e.intoIoErrorOrOther, s)

def sslWrite (s : SslStream σ τ) (buf : Bytes) : Except SslError Nat × SslStream σ τ :=
  if buf.isEmpty then (.ok 0, s)
  else s.call io a (B.sslWrite s.ssl (buf.take cIntMax))

/-- `io::Write::write`, calling `SSL_write` at most `fuel` times. -/
def write : Nat → SslStream σ τ → Bytes → Option (Except IoError Nat × SslStream σ τ)
  | 0, _, _ => none
  | fuel + 1, s, buf =>
      match s.sslWrite B io a buf with
      | (.ok n, s) => some (.ok n, s)
      | (.error e, s) =>
          if e.code = .wantRead ∧ e.ioError = none then write fuel s buf
          else some (.error e.intoIoErrorOrOther, s)

def shutdown (s : SslStream σ τ) : Except SslError ShutdownResult × SslStream σ τ :=
  let (r, s) := s.call io a (B.sslShutdown s.ssl)
  (r, { s with sslShutdowns := s.sslShutdowns ++ [r] })

def doHandshake (s : SslStream σ τ) : Except SslError Unit × SslStream σ τ :=
  s.call io a (B.sslDoHandshake s.ssl)

def flush (s : SslStream σ τ) : Except IoError Unit × SslStream σ τ :=
  let (r, stream) := s.stream.flush io
  (r, s.setStream stream)

/-! ### What a call keeps -/

/-- `s'` has kept the accounts of `s` and its stored end. -/
structure Kept (s s' : SslStream σ τ) : Prop where
  accounted : s.stream.Accounted → s'.stream.Accounted
  keeps : s.stream.Accounted → s.stream.Keeps s'.stream

theorem Kept.refl (s : SslStream σ τ) : Kept s s := ⟨id, fun _ => .refl _⟩

theorem Kept.trans {s s₁ s' : SslStream σ τ} (h₁ : Kept s s₁) (h₂ : Kept s₁ s') : Kept s s' :=
  ⟨fun h => h₂.accounted (h₁.accounted h), fun h => (h₁.keeps h).trans (h₂.keeps (h₁.accounted h))⟩

variable {B io a} {s s' : SslStream σ τ}

/-- `make_error` takes at most the BIO's error away. -/
theorem makeError_spec {f : SslFailure} {e : SslError} (h : s.makeError f = (e, s')) :
    s'.ssl = s.ssl ∧ s'.stream = s.stream ∧ s'.sslReads = s.sslReads
      ∧ s'.sslShutdowns = s.sslShutdowns := by
  unfold makeError at h
  rcases f with ⟨code, queue⟩
  cases code <;> simp only [getBioError] at h
  case syscall => split at h <;> obtain ⟨-, rfl⟩ := Prod.mk.inj h <;> exact ⟨rfl, rfl, rfl, rfl⟩
  all_goals
    obtain ⟨-, rfl⟩ := Prod.mk.inj h
    exact ⟨rfl, rfl, rfl, rfl⟩

/-- **A call keeps the accounts, whatever BoringSSL does on the BIO.**  What holds at the leaves of
its program holds of its result. -/
theorem call_spec {α : Type} {p : Boring (Except SslFailure α × σ)}
    {Q : Except SslFailure α × σ → Prop} (hQ : p.Leaves takesWrites Q)
    {r : Except SslError α} (h : s.call io a p = (r, s')) :
    Kept s s' ∧ s'.sslReads = s.sslReads
      ∧ ((∃ v, r = .ok v ∧ Q (.ok v, s'.ssl)) ∨ ∃ e f, r = .error e ∧ Q (.error f, s'.ssl)) := by
  unfold call at h
  rcases hi : p.interp (Bio.handle io a) s.bio with ⟨⟨res, ssl⟩, bio⟩
  have hleaf : Q (res, ssl) := by
    have hq : Q (p.interp (Bio.handle io a) s.bio).1 :=
      Prog.interp_leaf Bio.handle_takesWrites hQ s.bio
    rwa [hi] at hq
  have hbio : s.bio.Kept bio := by
    have hk : s.bio.Kept (p.interp (Bio.handle io a) s.bio).2 := by
      refine Prog.interp_rel (R := Bio.Kept) (fun b hb => ⟨hb, .refl _⟩) ?_ p s.bio
      intro b₀ b op h₀ hb
      obtain ⟨hacc, hkeep⟩ := Bio.handle_kept op b (h₀ hb).1
      exact ⟨hacc, (h₀ hb).2.trans hkeep⟩
    rwa [hi] at hk
  rw [hi] at h
  rcases res with f | v
  · rcases hm : makeError { s with ssl, bio } f with ⟨e, s₁⟩
    obtain ⟨hssl, hstream, hreads, -⟩ := makeError_spec hm
    simp only [hm] at h
    obtain ⟨rfl, rfl⟩ := Prod.mk.inj h
    refine ⟨⟨fun hs => ?_, fun hs => ?_⟩, hreads, .inr ⟨e, f, rfl, by rw [hssl]; exact hleaf⟩⟩
    · rw [hstream]; exact (hbio hs).1
    · rw [hstream]; exact (hbio hs).2
  · obtain ⟨rfl, rfl⟩ := Prod.mk.inj h
    exact ⟨⟨fun hs => (hbio hs).1, fun hs => (hbio hs).2⟩, rfl, .inl ⟨v, rfl, hleaf⟩⟩

theorem flush_spec {r : Except IoError Unit} (h : s.flush io = (r, s')) :
    Kept s s' ∧ s'.ssl = s.ssl ∧ s'.sslReads = s.sslReads := by
  unfold flush at h
  rcases hf : s.stream.flush io with ⟨r₁, w⟩
  rw [hf] at h
  obtain ⟨rfl, rfl⟩ := Prod.mk.inj h
  exact ⟨⟨fun hs => (StreamWrapper.flush_spec hs hf).1, fun hs => (StreamWrapper.flush_spec hs hf).2⟩,
    rfl, rfl⟩

end SslStream

end Btls.Stream
