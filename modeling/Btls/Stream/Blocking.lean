import Btls.Stream.Core
import Btls.Support.Runs
import Btls.Support.Slot
import Mathlib.Algebra.Group.Nat.Defs

/-!
# Stream — Blocking

`ssl::SslStream` over a blocking stream: any `Read + Write` the caller brings, which may fail and
may panic.  BoringSSL calls it through the BIO and cannot be unwound through, so the BIO stores what
it raised, its error in one place and its panic in another, and `make_error` takes them out once the
call is back in Rust.

Nothing is asked of the stream or of BoringSSL. Each place is a `Slotted` one over every run, so
what is reported is the last thing raised since the report before (`errors_reported`,
`panics_resumed`).
-/

namespace Btls.Blocking

open Btls.Support
open Btls.Stream (IoError SslError SslFailure ErrorCode ShutdownResult retriableError cIntMax)

/-- What a call of Rust code comes to: it returns, or it unwinds with a payload. -/
inductive Outcome (π α : Type) where
  | returns (a : α)
  | unwinds (payload : π)

/-- The caller's `Read + Write`.  A read also leaves something in the buffer, whatever it says. -/
structure ReadWrite (π τ : Type) where
  read : τ → (len : Nat) → Outcome π (Except IoError Nat) × Bytes × τ
  write : τ → Bytes → Outcome π (Except IoError Nat) × τ
  flush : τ → Outcome π (Except IoError Unit) × τ

/-! ### The BIO -/

/-- The retry flags of a BIO. -/
inductive RetryFlag where
  | none
  | read
  | write
  deriving DecidableEq

/-- What BoringSSL asks of the BIO.  `other` is any `ctrl` command but the two. -/
inductive BioOp where
  | read (len : Int)
  | write (buf : Bytes) (len : Int)
  | puts (s : Bytes)
  | flush
  | dgramQueryMtu
  | other (cmd : Int)

/-- What it is told: the result, the retry flags, and what is in the buffer of a read. -/
structure BioAnswer where
  ret : Int
  retry : RetryFlag
  data : Bytes

abbrev Boring (α : Type) := Prog BioOp (fun _ => BioAnswer) α

/-- `StreamState`, and the flags of the BIO it is the data of. -/
structure StreamState (π τ : Type) where
  stream : τ
  error : Option IoError
  panic : Option π
  dtlsMtuSize : Int
  retry : RetryFlag
  /-- Ghost: the errors the stream returned to the BIO, in order. -/
  errors : List IoError
  /-- Ghost: the panics the BIO caught, in order. -/
  panics : List π

/-- `n as c_int`. -/
def asCInt (n : Nat) : Int := Int.bmod n (2 ^ 32)

namespace StreamState

variable {π τ : Type} (io : ReadWrite π τ)

def new (stream : τ) : StreamState π τ where
  stream := stream
  error := none
  panic := none
  dtlsMtuSize := 0
  retry := .none
  errors := []
  panics := []

/-- The end of `bread`, `bwrite` and the flush `ctrl`, the flags cleared: `failed` is what they return
where the stream failed or panicked, `flag` what they set where another try may succeed. -/
def settle {α : Type} (b : StreamState π τ) (stream : τ) (flag : RetryFlag) (failed : Int)
    (result : α → Int) : Outcome π (Except IoError α) → Int × StreamState π τ
  | .returns (.ok v) => (result v, { b with stream, retry := .none })
  | .returns (.error e) =>
      (failed, { b with
        stream
        retry := if retriableError e then flag else .none
        error := some e
        errors := b.errors ++ [e] })
  | .unwinds payload =>
      (failed, { b with
        stream
        retry := .none
        panic := some payload
        panics := b.panics ++ [payload] })

def bwrite (b : StreamState π τ) (buf : Bytes) (len : Int) : Int × StreamState π τ :=
  if len < 0 then (-1, { b with retry := .none })
  else
    let (r, stream) := io.write b.stream (buf.take len.toNat)
    b.settle stream .write (-1) asCInt r

def bread (b : StreamState π τ) (len : Int) : Int × Bytes × StreamState π τ :=
  if len < 0 then (-1, [], { b with retry := .none })
  else
    let (r, data, stream) := io.read b.stream len.toNat
    let (ret, b) := b.settle stream .read (-1) asCInt r
    (ret, data, b)

def bputs (b : StreamState π τ) (s : Bytes) : Int × StreamState π τ :=
  b.bwrite io s (asCInt s.length)

/-- `ctrl` with `BIO_CTRL_FLUSH`. -/
def ctrlFlush (b : StreamState π τ) : Int × StreamState π τ :=
  let (r, stream) := io.flush b.stream
  b.settle stream .write 0 (fun _ => 1) r

/-- What BoringSSL sees of an operation that left `data` in the buffer. -/
def answer (data : Bytes) (r : Int × StreamState π τ) : BioAnswer × StreamState π τ :=
  (⟨r.1, r.2.retry, data⟩, r.2)

def handle (op : BioOp) (b : StreamState π τ) : BioAnswer × StreamState π τ :=
  match op with
  | .read len => let r := b.bread io len; answer r.2.1 (r.1, r.2.2)
  | .write buf len => answer [] (b.bwrite io buf len)
  | .puts s => answer [] (b.bputs io s)
  | .flush => answer [] (b.ctrlFlush io)
  | .dgramQueryMtu => answer [] (b.dtlsMtuSize, b)
  | .other _ => answer [] (0, b)

/-- What happened to the two places between `b` and `b'`, `reported` and `resumed` being what was taken
out.  A place is empty at the end only if it was already, or something was taken. -/
structure Settled (b b' : StreamState π τ) (reported : Option IoError) (resumed : Option π) :
    Prop where
  errors : ∀ taken, Slotted b.errors taken b.error →
    Slotted b'.errors (taken ++ reported.toList) b'.error
  panics : ∀ taken, Slotted b.panics taken b.panic →
    Slotted b'.panics (taken ++ resumed.toList) b'.panic
  quiet : b'.panic = none → resumed = none → b.panic = none ∧ b'.panics = b.panics

variable {io} {b b₁ b' : StreamState π τ} {reported : Option IoError} {resumed : Option π}

/-- Nothing put and nothing taken. -/
theorem Settled.same (he : b'.error = b.error) (hes : b'.errors = b.errors)
    (hp : b'.panic = b.panic) (hps : b'.panics = b.panics) : Settled b b' none none := by
  refine ⟨fun taken h => ?_, fun taken h => ?_, fun hq _ => ⟨hp ▸ hq, hps⟩⟩
  · rw [he, hes, Option.toList_none, List.append_nil]
    exact h
  · rw [hp, hps, Option.toList_none, List.append_nil]
    exact h

theorem Settled.refl (b : StreamState π τ) : Settled b b none none := .same rfl rfl rfl rfl

theorem Settled.trans (h₁ : Settled b b₁ none none) (h₂ : Settled b₁ b' reported resumed) :
    Settled b b' reported resumed := by
  refine ⟨fun taken h => ?_, fun taken h => ?_, fun hp hr => ?_⟩
  · simpa using h₂.errors _ (h₁.errors taken h)
  · simpa using h₂.panics _ (h₁.panics taken h)
  · obtain ⟨hq, heq⟩ := h₂.quiet hp hr
    exact ⟨(h₁.quiet hq rfl).1, heq.trans (h₁.quiet hq rfl).2⟩

/-- An error or a panic is put in its place. -/
theorem settle_settled {α : Type} (b : StreamState π τ) (stream : τ) (flag : RetryFlag) (failed : Int)
    (result : α → Int) (r : Outcome π (Except IoError α)) :
    Settled b (b.settle stream flag failed result r).2 none none := by
  rcases r with (e | v) | payload
  · refine ⟨fun taken h => ?_, fun taken h => ?_, fun hq _ => ⟨hq, rfl⟩⟩
    · simpa [settle] using h.put e
    · simpa [settle] using h
  · exact .same rfl rfl rfl rfl
  · refine ⟨fun taken h => ?_, fun taken h => ?_, fun hq _ => ?_⟩
    · simpa [settle] using h
    · simpa [settle] using h.put payload
    · exact absurd hq (Option.some_ne_none payload)

theorem bwrite_settled (b : StreamState π τ) (buf : Bytes) (len : Int) :
    Settled b (b.bwrite io buf len).2 none none := by
  unfold bwrite
  split
  · exact .same rfl rfl rfl rfl
  · exact settle_settled b _ _ _ _ _

theorem bread_settled (b : StreamState π τ) (len : Int) :
    Settled b (b.bread io len).2.2 none none := by
  unfold bread
  split
  · exact .same rfl rfl rfl rfl
  · exact settle_settled b _ _ _ _ _

theorem answer_settled {data : Bytes} {r : Int × StreamState π τ} (h : Settled b r.2 none none) :
    Settled b (answer data r).2 none none := h

/-- **No BIO operation takes anything out.** -/
theorem handle_settled (op : BioOp) (b : StreamState π τ) :
    Settled b (b.handle io op).2 none none := by
  cases op with
  | read len => exact answer_settled (bread_settled b len)
  | write buf len => exact answer_settled (bwrite_settled b buf len)
  | puts s => exact answer_settled (bwrite_settled b s _)
  | flush => exact answer_settled (settle_settled b _ _ _ _ _)
  | dgramQueryMtu => exact .refl b
  | other => exact .refl b

end StreamState

/-! ### The calls -/

/-- The library behind the FFI. -/
structure BoringSsl (σ : Type) where
  setConnectState : σ → σ
  setAcceptState : σ → σ
  sslConnect : σ → Boring (Except SslFailure Unit × σ)
  sslAccept : σ → Boring (Except SslFailure Unit × σ)
  sslDoHandshake : σ → Boring (Except SslFailure Unit × σ)
  sslRead : σ → (len : Nat) → Boring (Except SslFailure Bytes × σ)
  sslWrite : σ → Bytes → Boring (Except SslFailure Nat × σ)
  sslShutdown : σ → Boring (Except SslFailure ShutdownResult × σ)

structure SslStream (σ π τ : Type) where
  ssl : σ
  bio : StreamState π τ

namespace SslStream

variable {σ π τ : Type} (B : BoringSsl σ) (io : ReadWrite π τ)

def new (ssl : σ) (stream : τ) : SslStream σ π τ := ⟨ssl, .new stream⟩

/-- `check_panic`, the payload being what it resumes to unwind with. -/
def checkPanic (s : SslStream σ π τ) : Option π × SslStream σ π τ :=
  (s.bio.panic, { s with bio := { s.bio with panic := none } })

def getBioError (s : SslStream σ π τ) : Option IoError × SslStream σ π τ :=
  (s.bio.error, { s with bio := { s.bio with error := none } })

def makeError (s : SslStream σ π τ) (f : SslFailure) : Outcome π SslError × SslStream σ π τ :=
  match s.checkPanic with
  | (some payload, s) => (.unwinds payload, s)
  | (none, s) =>
      match f.code with
      | .ssl => (.returns ⟨.ssl, some (.ssl f.queue)⟩, s)
      | .syscall =>
          if f.queue.isEmpty then
            let (e, s) := s.getBioError
            (.returns ⟨.syscall, e.map .io⟩, s)
          else (.returns ⟨.syscall, some (.ssl f.queue)⟩, s)
      | .zeroReturn => (.returns ⟨.zeroReturn, none⟩, s)
      | .wantRead =>
          let (e, s) := s.getBioError
          (.returns ⟨.wantRead, e.map .io⟩, s)
      | .wantWrite =>
          let (e, s) := s.getBioError
          (.returns ⟨.wantWrite, e.map .io⟩, s)
      | code => (.returns ⟨code, none⟩, s)

/-- Runs BoringSSL code on the connection, and `make_error` if it fails. -/
def call {α : Type} (s : SslStream σ π τ) (p : Boring (Except SslFailure α × σ)) :
    Outcome π (Except SslError α) × SslStream σ π τ :=
  match p.interp (StreamState.handle io) s.bio with
  | ((.ok v, ssl), bio) => (.returns (.ok v), { ssl, bio })
  | ((.error f, ssl), bio) =>
      match makeError { ssl, bio } f with
      | (.returns e, s) => (.returns (.error e), s)
      | (.unwinds payload, s) => (.unwinds payload, s)

def connect (s : SslStream σ π τ) : Outcome π (Except SslError Unit) × SslStream σ π τ :=
  s.call io (B.sslConnect s.ssl)

def accept (s : SslStream σ π τ) : Outcome π (Except SslError Unit) × SslStream σ π τ :=
  s.call io (B.sslAccept s.ssl)

def doHandshake (s : SslStream σ π τ) : Outcome π (Except SslError Unit) × SslStream σ π τ :=
  s.call io (B.sslDoHandshake s.ssl)

def shutdown (s : SslStream σ π τ) :
    Outcome π (Except SslError ShutdownResult) × SslStream σ π τ :=
  s.call io (B.sslShutdown s.ssl)

def sslRead (s : SslStream σ π τ) (len : Nat) :
    Outcome π (Except SslError Bytes) × SslStream σ π τ :=
  if len = 0 then (.returns (.ok []), s)
  else s.call io (B.sslRead s.ssl (min cIntMax len))

def sslWrite (s : SslStream σ π τ) (buf : Bytes) :
    Outcome π (Except SslError Nat) × SslStream σ π τ :=
  if buf.isEmpty then (.returns (.ok 0), s)
  else s.call io (B.sslWrite s.ssl (buf.take cIntMax))

/-- `read_uninit`, calling `SSL_read` at most `fuel` times; `none` if that is not enough.  The caller
gets the error as `SslError.intoIoErrorOrOther` makes it one. -/
def read : Nat → SslStream σ π τ → Nat →
    Option (Outcome π (Except SslError Bytes) × SslStream σ π τ)
  | 0, _, _ => none
  | fuel + 1, s, len =>
      match s.sslRead B io len with
      | (.unwinds payload, s) => some (.unwinds payload, s)
      | (.returns (.ok data), s) => some (.returns (.ok data), s)
      | (.returns (.error e), s) =>
          if e.code = .zeroReturn then some (.returns (.ok []), s)
          else if e.code = .syscall ∧ e.ioError = none then some (.returns (.ok []), s)
          else if e.code = .wantRead ∧ e.ioError = none then read fuel s len
          else some (.returns (.error e), s)

/-- `io::Write::write`, calling `SSL_write` at most `fuel` times. -/
def write : Nat → SslStream σ π τ → Bytes →
    Option (Outcome π (Except SslError Nat) × SslStream σ π τ)
  | 0, _, _ => none
  | fuel + 1, s, buf =>
      match s.sslWrite B io buf with
      | (.unwinds payload, s) => some (.unwinds payload, s)
      | (.returns (.ok n), s) => some (.returns (.ok n), s)
      | (.returns (.error e), s) =>
          if e.code = .wantRead ∧ e.ioError = none then write fuel s buf
          else some (.returns (.error e), s)

/-- `flush` goes to the stream itself, past the BIO. -/
def flush (s : SslStream σ π τ) : Outcome π (Except IoError Unit) × SslStream σ π τ :=
  let (r, stream) := io.flush s.bio.stream
  (r, { s with bio := { s.bio with stream } })

/-! ### What a call takes out -/

end SslStream

namespace Outcome

variable {π α : Type}

/-- The I/O error that an outcome reports. -/
def reported : Outcome π (Except SslError α) → Option IoError
  | .returns (.error e) => e.ioError
  | _ => none

/-- The panic that an outcome goes on with. -/
def resumed : Outcome π α → Option π
  | .returns _ => none
  | .unwinds payload => some payload

end Outcome

namespace SslStream

variable {σ π τ α : Type} {B : BoringSsl σ} {io : ReadWrite π τ} {s s₁ s' : SslStream σ π τ}
  {r : Outcome π (Except SslError α)}

/-- What a call did that came to `r`: it took out what `r` tells, and where `r` is an error there is no
panic left. -/
structure Told (s s' : SslStream σ π τ) (r : Outcome π (Except SslError α)) : Prop where
  settled : s.bio.Settled s'.bio r.reported r.resumed
  quiet : ∀ e, r = .returns (.error e) → s'.bio.panic = none
  closed : ∀ e, r = .returns (.error e) → e.code = .zeroReturn → e.ioError = none

/-- A call that left the BIO alone. -/
theorem Told.idle (v : α) : Told s s (.returns (.ok v) : Outcome π (Except SslError α)) :=
  ⟨.refl s.bio, fun _ h => by simp at h, fun _ h => by simp at h⟩

/-- One call after another that failed without an I/O error. -/
theorem Told.after {β : Type} {e : SslError}
    (h₁ : Told s s₁ (.returns (.error e) : Outcome π (Except SslError β))) (he : e.ioError = none)
    (h₂ : Told s₁ s' r) : Told s s' r := by
  have hs : s.bio.Settled s₁.bio e.ioError none := h₁.settled
  rw [he] at hs
  exact ⟨hs.trans h₂.settled, h₂.quiet, h₂.closed⟩

/-- A call that failed without an I/O error, passed off as one that did not fail. -/
theorem Told.pass {β : Type} {e : SslError}
    (h : Told s s' (.returns (.error e) : Outcome π (Except SslError β))) (he : e.ioError = none)
    (v : α) : Told s s' (.returns (.ok v) : Outcome π (Except SslError α)) :=
  h.after he (.idle v)

/-- The error is taken, or left where it is. -/
theorem getBioError_settled {e : Option IoError} (h : s.getBioError = (e, s')) :
    s.bio.Settled s'.bio e none ∧ s'.bio.panic = s.bio.panic := by
  obtain ⟨rfl, rfl⟩ := Prod.mk.inj h
  refine ⟨⟨fun taken ht => ht.takeAny, fun taken ht => ?_, fun hq _ => ⟨hq, rfl⟩⟩, rfl⟩
  rw [Option.toList_none, List.append_nil]
  exact ht

/-- What `make_error` takes: a panic where there is one, else the error, if it reports it. -/
theorem makeError_settled {f : SslFailure} {r : Outcome π SslError}
    (h : s.makeError f = (r, s')) :
    (∃ payload, r = .unwinds payload ∧ s.bio.Settled s'.bio none (some payload))
      ∨ ∃ e, r = .returns e ∧ s.bio.Settled s'.bio e.ioError none ∧ s'.bio.panic = none
          ∧ (e.code = .zeroReturn → e.ioError = none) := by
  rw [makeError] at h
  rcases hp : s.bio.panic with _ | payload
  · have hs : s.checkPanic = (none, s) := by
      rw [checkPanic, hp]
      cases s with
      | mk ssl bio =>
          cases bio
          cases hp
          rfl
    simp only [hs] at h
    have hkeep : s.bio.Settled s.bio none none := .refl s.bio
    rcases hb : s.getBioError with ⟨e, s₁⟩
    obtain ⟨htake, hquiet⟩ := getBioError_settled hb
    rw [hp] at hquiet
    rcases f with ⟨code, queue⟩
    have hio : ∀ c : ErrorCode, (⟨c, e.map .io⟩ : SslError).ioError = e := by
      intro c
      cases e <;> rfl
    cases code <;> simp only [hb] at h
    case syscall =>
      split at h <;> obtain ⟨rfl, rfl⟩ := Prod.mk.inj h
      · exact .inr ⟨_, rfl, by rw [hio]; exact htake, hquiet, fun hc => by cases hc⟩
      · exact .inr ⟨_, rfl, hkeep, hp, fun _ => rfl⟩
    case wantRead | wantWrite =>
      obtain ⟨rfl, rfl⟩ := Prod.mk.inj h
      exact .inr ⟨_, rfl, by rw [hio]; exact htake, hquiet, fun hc => by cases hc⟩
    all_goals
      obtain ⟨rfl, rfl⟩ := Prod.mk.inj h
      exact .inr ⟨_, rfl, hkeep, hp, fun _ => rfl⟩
  · have hs : s.checkPanic = (some payload, { s with bio := { s.bio with panic := none } }) := by
      rw [checkPanic, hp]
    simp only [hs] at h
    obtain ⟨rfl, rfl⟩ := Prod.mk.inj h
    refine .inl ⟨payload, rfl, fun taken ht => ?_, fun taken ht => ?_, fun _ hr => ?_⟩
    · rw [Option.toList_none, List.append_nil]
      exact ht
    · rw [hp] at ht
      exact ht.take
    · exact absurd hr (Option.some_ne_none payload)

/-- **A call tells what it takes out, whatever BoringSSL does on the BIO.** -/
theorem call_told {p : Boring (Except SslFailure α × σ)} (h : s.call io p = (r, s')) :
    Told s s' r := by
  unfold call at h
  have hp : s.bio.Settled (p.interp (StreamState.handle io) s.bio).2 none none :=
    Prog.interp_rel (R := fun b b' => b.Settled b' none none) .refl
      (fun _ b op h => h.trans (StreamState.handle_settled op b)) p s.bio
  rcases hi : p.interp (StreamState.handle io) s.bio with ⟨⟨res, ssl⟩, bio⟩
  rw [hi] at h hp
  rcases res with f | v
  · rcases hm : makeError { ssl, bio } f with ⟨r₁, s₁⟩
    obtain ⟨payload, rfl, hs⟩ | ⟨e, rfl, hs, hq, hz⟩ := makeError_settled hm
    all_goals
      simp only [hm] at h
      obtain ⟨rfl, rfl⟩ := Prod.mk.inj h
    · exact ⟨hp.trans hs, fun _ h => by simp at h, fun _ h => by simp at h⟩
    · refine ⟨hp.trans hs, fun _ _ => hq, fun e' he hc => ?_⟩
      cases he
      exact hz hc
  · obtain ⟨rfl, rfl⟩ := Prod.mk.inj h
    exact ⟨hp, fun _ h => by simp at h, fun _ h => by simp at h⟩

theorem sslRead_told {len : Nat} {r : Outcome π (Except SslError Bytes)}
    (h : s.sslRead B io len = (r, s')) : Told s s' r := by
  unfold sslRead at h
  split at h
  · obtain ⟨rfl, rfl⟩ := Prod.mk.inj h
    exact .idle []
  · exact call_told h

theorem sslWrite_told {buf : Bytes} {r : Outcome π (Except SslError Nat)}
    (h : s.sslWrite B io buf = (r, s')) : Told s s' r := by
  unfold sslWrite at h
  split at h
  · obtain ⟨rfl, rfl⟩ := Prod.mk.inj h
    exact .idle 0
  · exact call_told h

/-- `read` passes over errors that carry no I/O error only. -/
theorem read_told {fuel len : Nat} {r : Outcome π (Except SslError Bytes)}
    (h : s.read B io fuel len = some (r, s')) : Told s s' r := by
  induction fuel generalizing s with
  | zero => cases h
  | succ fuel ih =>
      rw [read] at h
      rcases hr : s.sslRead B io len with ⟨(e | data) | payload, s₁⟩
      all_goals
        have ht := sslRead_told hr
        simp only [hr] at h
      · split at h
        · cases h
          exact ht.pass (ht.closed e rfl ‹_›) []
        split at h
        · cases h
          exact ht.pass (And.right ‹_›) []
        split at h
        · exact ht.after (And.right ‹_›) (ih h)
        · cases h
          exact ht
      all_goals
        cases h
        exact ht

theorem write_told {fuel : Nat} {buf : Bytes} {r : Outcome π (Except SslError Nat)}
    (h : s.write B io fuel buf = some (r, s')) : Told s s' r := by
  induction fuel generalizing s with
  | zero => cases h
  | succ fuel ih =>
      rw [write] at h
      rcases hr : s.sslWrite B io buf with ⟨(e | n) | payload, s₁⟩
      all_goals
        have ht := sslWrite_told hr
        simp only [hr] at h
      · split at h
        · exact ht.after (And.right ‹_›) (ih h)
        · cases h
          exact ht
      all_goals
        cases h
        exact ht

end SslStream

/-! ### The life of a stream -/

/-- What the caller holds: an `SslStreamBuilder`, a `MidHandshakeSslStream` with its error, an
`SslStream`, or nothing since an unwinding call had taken the stream by value. -/
inductive Phase where
  | builder
  | midHandshake (error : SslError)
  | established
  | gone

structure Endpoint (σ π τ : Type) where
  phase : Phase
  stream : SslStream σ π τ

inductive Call (τ : Type) where
  | setupConnect
  | setupAccept
  | handshake
  | connect
  | accept
  | doHandshake
  | sslRead (len : Nat)
  | sslWrite (buf : Bytes)
  | read (len : Nat)
  | write (buf : Bytes)
  | flush
  | shutdown
  /-- The caller does as it likes with `get_mut`. -/
  | getMut (f : τ → τ)

/-- What the caller gets.  The `io::Error` of `read` and `write` stands as the `ssl::Error` it was made
of, and `flush` reports what the stream itself said. -/
inductive Reply (π : Type) where
  | done (r : Outcome π (Except SslError Unit))
  | data (r : Outcome π (Except SslError Bytes))
  | count (r : Outcome π (Except SslError Nat))
  | shut (r : Outcome π (Except SslError ShutdownResult))
  | flushed (r : Outcome π (Except IoError Unit))
  /-- `HandshakeError::WouldBlock`, or `HandshakeError::Failure`. -/
  | interrupted (wouldBlock : Bool) (e : SslError)
  /-- The error a handshake that has not begun is given. -/
  | setUp (e : SslError)
  | nothing

namespace Reply

variable {π : Type}

/-- The I/O error that the BIO had stored. -/
def reported : Reply π → Option IoError
  | .done r => r.reported
  | .data r => r.reported
  | .count r => r.reported
  | .shut r => r.reported
  | .interrupted _ e => e.ioError
  | _ => none

/-- The panic that the BIO had stored. -/
def resumed : Reply π → Option π
  | .done r => r.resumed
  | .data r => r.resumed
  | .count r => r.resumed
  | .shut r => r.resumed
  | _ => none

/-- It is an error of `make_error`'s. -/
def Failed : Reply π → Prop
  | .done r => ∃ e, r = .returns (.error e)
  | .data r => ∃ e, r = .returns (.error e)
  | .count r => ∃ e, r = .returns (.error e)
  | .shut r => ∃ e, r = .returns (.error e)
  | .interrupted _ _ => True
  | _ => False

end Reply

/-- `Error::would_block`, over BoringSSL's numbers for the codes that are not told apart elsewhere. -/
def wouldBlock (e : SslError) : Bool :=
  match e.code with
  | .wantRead => true
  | .wantWrite => true
  | .rest n => n ∈ [4, 11, 12, 13, 14, 16]
  | _ => false

namespace Endpoint

variable {σ π τ : Type} (B : BoringSsl σ) (io : ReadWrite π τ)

/-- The error that `setup_connect` and `setup_accept` make up. -/
def notStarted (code : ErrorCode) : SslError := ⟨code, some (.io (.simple .wouldBlock))⟩

/-- `MidHandshakeSslStream::handshake`, `SslStreamBuilder::handshake`. -/
def handshake (s : SslStream σ π τ) : Reply π × Endpoint σ π τ :=
  match s.doHandshake B io with
  | (.returns (.ok ()), s) => (.done (.returns (.ok ())), ⟨.established, s⟩)
  | (.returns (.error e), s) => (.interrupted (wouldBlock e) e, ⟨.midHandshake e, s⟩)
  | (.unwinds payload, s) => (.done (.unwinds payload), ⟨.gone, s⟩)

/-- A call on an `SslStream`. -/
def onStream (fuel : Nat) (s : SslStream σ π τ) : Call τ → Option (Reply π × SslStream σ π τ)
  | .connect => let (r, s) := s.connect B io; some (.done r, s)
  | .accept => let (r, s) := s.accept B io; some (.done r, s)
  | .doHandshake => let (r, s) := s.doHandshake B io; some (.done r, s)
  | .sslRead len => let (r, s) := s.sslRead B io len; some (.data r, s)
  | .sslWrite buf => let (r, s) := s.sslWrite B io buf; some (.count r, s)
  | .read len => (s.read B io fuel len).map fun (r, s) => (.data r, s)
  | .write buf => (s.write B io fuel buf).map fun (r, s) => (.count r, s)
  | .flush => let (r, s) := s.flush io; some (.flushed r, s)
  | .shutdown => let (r, s) := s.shutdown B io; some (.shut r, s)
  | .getMut f => some (.nothing, { s with bio := { s.bio with stream := f s.bio.stream } })
  | _ => none

/-- A call, with `fuel` for its loop; `none` where the type has no such method or the loop needs
more. -/
def step (fuel : Nat) (p : Endpoint σ π τ) (c : Call τ) : Option (Reply π × Endpoint σ π τ) :=
  match p.phase, c with
  | .builder, .setupConnect =>
      let e := notStarted .wantWrite
      some (.setUp e, ⟨.midHandshake e, { p.stream with ssl := B.setConnectState p.stream.ssl }⟩)
  | .builder, .setupAccept =>
      let e := notStarted .wantRead
      some (.setUp e, ⟨.midHandshake e, { p.stream with ssl := B.setAcceptState p.stream.ssl }⟩)
  | .builder, .handshake => some (handshake B io p.stream)
  | .midHandshake _, .handshake => some (handshake B io p.stream)
  | .gone, _ => none
  | .established, c =>
      (onStream B io fuel p.stream c).map fun (r, s) => (r, ⟨.established, s⟩)
  | phase, .getMut f =>
      (onStream B io fuel p.stream (.getMut f)).map fun (r, s) => (r, ⟨phase, s⟩)
  | _, _ => none

/-- A stream that no call was made on. -/
def New (p : Endpoint σ π τ) : Prop :=
  (p.phase = .builder ∨ p.phase = .established) ∧ ∃ ssl stream, p.stream = .new ssl stream

/-- A call that comes to an end. -/
def Step (p : Endpoint σ π τ) (l : Call τ × Reply π) (p' : Endpoint σ π τ) : Prop :=
  ∃ fuel, step B io fuel p l.1 = some (l.2, p')

/-- `SslStream.Told`, of a reply. -/
structure Told (p p' : Endpoint σ π τ) (r : Reply π) : Prop where
  settled : p.stream.bio.Settled p'.stream.bio r.reported r.resumed
  quiet : r.Failed → p'.stream.bio.panic = none

variable {B io} {p p' : Endpoint σ π τ} {s s' : SslStream σ π τ} {r : Reply π}

theorem handshake_told (h : handshake B io s = (r, p')) (hp : p.stream = s) : Told p p' r := by
  subst hp
  rw [handshake] at h
  rcases hr : p.stream.doHandshake B io with ⟨(e | v) | payload, s₁⟩
  all_goals
    have ht := SslStream.call_told hr
    simp only [hr] at h
    obtain ⟨rfl, rfl⟩ := Prod.mk.inj h
  · exact ⟨ht.settled, fun _ => ht.quiet e rfl⟩
  · exact ⟨ht.settled, fun ⟨_, hf⟩ => by simp at hf⟩
  · exact ⟨ht.settled, fun ⟨_, hf⟩ => by simp at hf⟩

/-- One that tells it of a call, told of its reply. -/
theorem Told.of {α : Type} {q : Outcome π (Except SslError α)} {phase : Phase}
    (h : SslStream.Told p.stream s' q) (hr : r.reported = q.reported) (hp : r.resumed = q.resumed)
    (hf : r.Failed → ∃ e, q = .returns (.error e)) : Told p ⟨phase, s'⟩ r := by
  refine ⟨?_, fun hr => ?_⟩
  · rw [hr, hp]
    exact h.settled
  · obtain ⟨e, he⟩ := hf hr
    exact h.quiet e he

/-- A step that leaves both places alone. -/
theorem Told.idle {phase : Phase} (hb : p.stream.bio.Settled s'.bio none none)
    (hr : r.reported = none) (hp : r.resumed = none) (hf : ¬ r.Failed) : Told p ⟨phase, s'⟩ r := by
  refine ⟨?_, fun h => absurd h hf⟩
  rw [hr, hp]
  exact hb

theorem onStream_told {fuel : Nat} {c : Call τ} {phase : Phase}
    (h : onStream B io fuel p.stream c = some (r, s')) : Told p ⟨phase, s'⟩ r := by
  cases c with
  | setupConnect | setupAccept | handshake => cases h
  | connect | accept | doHandshake | shutdown =>
      cases h
      exact .of (SslStream.call_told rfl) rfl rfl id
  | sslRead len =>
      cases h
      exact .of (SslStream.sslRead_told rfl) rfl rfl id
  | sslWrite buf =>
      cases h
      exact .of (SslStream.sslWrite_told rfl) rfl rfl id
  | read len =>
      obtain ⟨⟨q, s₁⟩, hq, hs⟩ := Option.map_eq_some_iff.mp h
      cases hs
      exact .of (SslStream.read_told hq) rfl rfl id
  | write buf =>
      obtain ⟨⟨q, s₁⟩, hq, hs⟩ := Option.map_eq_some_iff.mp h
      cases hs
      exact .of (SslStream.write_told hq) rfl rfl id
  | flush =>
      cases h
      exact .idle (.same rfl rfl rfl rfl) rfl rfl id
  | getMut f =>
      cases h
      exact .idle (.same rfl rfl rfl rfl) rfl rfl id

/-- **What a step does to the two places.** -/
theorem step_told {l : Call τ × Reply π} (h : Step B io p l p') : Told p p' l.2 := by
  obtain ⟨fuel, h⟩ := h
  obtain ⟨c, r⟩ := l
  unfold step at h
  split at h
  · cases h
    exact .idle (.same rfl rfl rfl rfl) rfl rfl id
  · cases h
    exact .idle (.same rfl rfl rfl rfl) rfl rfl id
  · exact handshake_told (Option.some.inj h) rfl
  · exact handshake_told (Option.some.inj h) rfl
  · cases h
  · obtain ⟨⟨q, s₁⟩, hq, hs⟩ := Option.map_eq_some_iff.mp h
    cases hs
    exact onStream_told hq
  · obtain ⟨⟨q, s₁⟩, hq, hs⟩ := Option.map_eq_some_iff.mp h
    cases hs
    exact onStream_told hq
  · cases h

/-! ### Over whole runs -/

variable {ls : List (Call τ × Reply π)}

/-- Both places are `Slotted` over a run, by what its replies tell. -/
theorem run_slotted (hn : New p) (h : Run (Step B io) p ls p') :
    Slotted p'.stream.bio.errors (ls.filterMap (·.2.reported)) p'.stream.bio.error
      ∧ Slotted p'.stream.bio.panics (ls.filterMap (·.2.resumed)) p'.stream.bio.panic := by
  obtain ⟨-, ssl, stream, hnew⟩ := hn
  induction h with
  | nil =>
      rw [hnew]
      exact ⟨.empty, .empty⟩
  | @snoc _ _ ls l _ hstep ih =>
      have ht := (step_told hstep).settled
      have htail : ∀ {β : Type} (f : Call τ × Reply π → Option β),
          (ls ++ [l]).filterMap f = ls.filterMap f ++ (f l).toList := by
        intro β f
        rw [List.filterMap_append]
        cases hf : f l <;> simp [hf]
      rw [htail, htail]
      exact ⟨ht.errors _ ih.1, ht.panics _ ih.2⟩

/-- **Of the errors the stream raised, in order, each one reported is the last of a run of them**: the
run begins after the one reported before, the rest are never reported, and those raised since the last
report wait for the next, which will report the last of them. -/
theorem errors_reported (hn : New p) (h : Run (Step B io) p ls p') :
    ∃ (runs : List (List IoError)) (rest : List IoError),
      p'.stream.bio.errors = runs.flatten ++ rest
        ∧ runs.map List.getLast? = (ls.filterMap (·.2.reported)).map some
        ∧ p'.stream.bio.error = rest.getLast? :=
  (run_slotted hn h).1.segments

/-- A stream that never gets a byte through, and panics when flushed. -/
def broken : ReadWrite Nat Unit where
  read _ _ := (.returns (.error (.simple .wouldBlock)), [], ())
  write _ _ := (.returns (.error (.simple .notConnected)), ())
  flush _ := (.unwinds 7, ())

/-- A library that sends what it has before a read, does not mind if that fails, and flushes last. -/
def careless : BoringSsl Unit where
  setConnectState := id
  setAcceptState := id
  sslConnect _ := .ret (.ok (), ())
  sslAccept _ := .ret (.ok (), ())
  sslDoHandshake _ := .ret (.ok (), ())
  sslRead _ len := .call (.write [0] 1) fun _ => .call (.read len) fun _ =>
    .ret (.error ⟨.wantRead, []⟩, ())
  sslWrite _ buf := .ret (.ok buf.length, ())
  sslShutdown _ := .call .flush fun _ => .ret (.ok .sent, ())

/-- After a flush whose panic nobody saw, a read goes on with the panic and leaves its errors behind,
and the next reports the last of all. -/
theorem run_careless :
    ∃ p', Run (Step careless broken) ⟨.established, .new () ()⟩
        [(.shutdown, .shut (.returns (.ok .sent))),
          (.sslRead 5, .data (.unwinds 7)),
          (.sslRead 5, .data (.returns (.error ⟨.wantRead, some (.io (.simple .wouldBlock))⟩)))] p'
      ∧ p'.stream.bio.errors
          = [.simple .notConnected, .simple .wouldBlock, .simple .notConnected, .simple .wouldBlock]
      ∧ p'.stream.bio.panics = [7] :=
  ⟨_, .snoc (.snoc (.one ⟨1, rfl⟩) ⟨1, rfl⟩) ⟨1, rfl⟩, rfl, rfl⟩

theorem errors_reported_careless :
    ∃ (runs : List (List IoError)) (rest : List IoError),
      [.simple .notConnected, .simple .wouldBlock, .simple .notConnected, .simple .wouldBlock]
          = runs.flatten ++ rest
        ∧ runs.map List.getLast? = [some (.simple .wouldBlock)] := by
  obtain ⟨p', hrun, herrors, -⟩ := run_careless
  obtain ⟨runs, rest, hall, hlast, -⟩ := errors_reported ⟨.inr rfl, (), (), rfl⟩ hrun
  exact ⟨runs, rest, herrors ▸ hall, hlast⟩

/-- **So it is with the panics, and no error overtakes one**: where a call that reaches `make_error`
returns an error, the stream raised no panic that was not resumed before the call, and none in it. -/
theorem panics_resumed (hn : New p) (h : Run (Step B io) p ls p') :
    (∃ (runs : List (List π)) (rest : List π),
      p'.stream.bio.panics = runs.flatten ++ rest
        ∧ runs.map List.getLast? = (ls.filterMap (·.2.resumed)).map some
        ∧ p'.stream.bio.panic = rest.getLast?)
      ∧ ∀ l p'', Step B io p' l p'' → l.2.Failed →
          p'.stream.bio.panic = none ∧ p''.stream.bio.panic = none
            ∧ p''.stream.bio.panics = p'.stream.bio.panics := by
  refine ⟨(run_slotted hn h).2.segments, fun l p'' hstep hf => ?_⟩
  have ht := step_told hstep
  have hr : l.2.resumed = none := by
    obtain ⟨c, r⟩ := l
    cases r with
    | done r | data r | count r | shut r =>
        obtain ⟨e, rfl⟩ := hf
        rfl
    | interrupted | setUp | flushed | nothing => rfl
  obtain ⟨hq, heq⟩ := ht.settled.quiet (ht.quiet hf) hr
  exact ⟨hq, ht.quiet hf, heq⟩

theorem panics_resumed_careless :
    ∃ (runs : List (List Nat)) (rest : List Nat),
      [7] = runs.flatten ++ rest ∧ runs.map List.getLast? = [some 7] := by
  obtain ⟨p', hrun, -, hpanics⟩ := run_careless
  obtain ⟨⟨runs, rest, hall, hlast, -⟩, -⟩ := panics_resumed ⟨.inr rfl, (), (), rfl⟩ hrun
  exact ⟨runs, rest, hpanics ▸ hall, hlast⟩

end Endpoint

end Btls.Blocking
