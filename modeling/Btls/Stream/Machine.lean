import Btls.Stream.Read
import Btls.Stream.Write
import Btls.Support.Runs

/-!
# Stream — Machine

A stream over all the polls made of it.  A step is one call; its label is what the caller gave and
was given.  The two results are about whole runs: what was written (`write_fidelity`) and what was
read (`read_fidelity`), whatever the transport and BoringSSL do at each call.

`Sound` is what holds between calls: the bytes that crossed the BIO are accounted for, and an end of
the stream is stored only where the last `SSL_read` met it.  A step keeps it (`Sound.step`), seals
what it reports (`Step.seals`) and reads what it tells the reader or stores (`Step.reads`);
`Run.ledger` adds these up over a run.

* `write_fidelity`: what the transport took and what is buffered are all that BoringSSL produced, in
  order, and what was sealed is what the writes reported.
* `read_fidelity`: what BoringSSL was handed and what is buffered are all that the transport gave.
  What the reads delivered is what `SSL_read` returned, in order, and every read keeps the rules of
  `ReadRules`: bytes come with `Ready(Ok)` alone, and an end that was met after bytes is what the
  next read reports.
-/

namespace Btls.Stream

open Btls.Support

namespace SslStream

variable {σ τ : Type} (B : BoringSsl σ) (io : AsyncStream τ) (a : Allocator)

/-- `SslStream::new`: nothing read, nothing buffered. -/
def new (ssl : σ) (stream : τ) : SslStream σ τ := ⟨ssl, ⟨.new stream, none⟩, [], []⟩

def pollWrite (fuel : Nat) (s : SslStream σ τ) (buf : Bytes) :
    Option (Poll (Except IoError Nat) × SslStream σ τ) :=
  (s.writeRecords B io a fuel [buf]).map fun r => (cvt r.1, r.2)

def pollWriteVectored (fuel : Nat) (s : SslStream σ τ) (bufs : List Bytes) :
    Option (Poll (Except IoError Nat) × SslStream σ τ) :=
  (s.writeRecords B io a fuel bufs).map fun r => (cvt r.1, r.2)

def pollFlush (s : SslStream σ τ) : Poll (Except IoError Unit) × SslStream σ τ :=
  let (r, s) := s.flush io
  (cvt r, s)

def pollDoHandshake (s : SslStream σ τ) : Poll (Except SslError Unit) × SslStream σ τ :=
  let (r, s) := s.doHandshake B io a
  (cvtOssl r, s)

def setShutdownSent (s : SslStream σ τ) : SslStream σ τ :=
  s.setStream { s.stream with shutdownSent := true }

/-- The first half of `poll_shutdown`: `SSL_shutdown`, until it has nothing left to send. -/
def sendShutdown (s : SslStream σ τ) : Poll (Except IoError Unit) × SslStream σ τ :=
  if s.stream.shutdownSent then (.ready (.ok ()), s)
  else
    match s.shutdown B io a with
    | (.ok _, s) => (.ready (.ok ()), s.setShutdownSent)
    | (.error e, s) =>
        if e.code = .zeroReturn then (.ready (.ok ()), s.setShutdownSent)
        -- A fatal alert already closed the write side; flush it and close the transport.
        else if closedByAlert e then (.ready (.ok ()), s.setShutdownSent)
        else if e.code = .wantRead ∨ e.code = .wantWrite then (.pending, s)
        else (.ready (.error e.intoIoErrorOrOther), s)

def pollShutdown (s : SslStream σ τ) : Poll (Except IoError Unit) × SslStream σ τ :=
  match s.sendShutdown B io a with
  | (.ready (.ok ()), s) =>
      match s.pollFlush io with
      | (.ready (.ok ()), s) =>
          let (r, transport) := s.stream.transport.pollShutdown io
          (r, s.setRecords s.stream.writeBuf transport)
      | r => r
  | r => r

end SslStream

/-- What the caller of one poll gave and was given. -/
inductive Label where
  | write (bufs : List Bytes) (r : Poll (Except IoError Nat))
  | flush (r : Poll (Except IoError Unit))
  | shutdown (r : Poll (Except IoError Unit))
  | handshake (r : Poll (Except SslError Unit))
  | read (cap : Nat) (r : Poll (Except IoError Unit)) (got : Bytes)

/-- One call.  A call that BoringSSL keeps going for ever is no step. -/
inductive Step {σ τ : Type} (B : BoringSsl σ) (io : AsyncStream τ) (a : Allocator) :
    SslStream σ τ → Label → SslStream σ τ → Prop where
  | write {s s' : SslStream σ τ} {fuel : Nat} {buf : Bytes} {r : Poll (Except IoError Nat)}
      (h : s.pollWrite B io a fuel buf = some (r, s')) : Step B io a s (.write [buf] r) s'
  | writeVectored {s s' : SslStream σ τ} {fuel : Nat} {bufs : List Bytes}
      {r : Poll (Except IoError Nat)} (h : s.pollWriteVectored B io a fuel bufs = some (r, s')) :
      Step B io a s (.write bufs r) s'
  | flush {s s' : SslStream σ τ} {r : Poll (Except IoError Unit)}
      (h : s.pollFlush io = (r, s')) : Step B io a s (.flush r) s'
  | shutdown {s s' : SslStream σ τ} {r : Poll (Except IoError Unit)}
      (h : s.pollShutdown B io a = (r, s')) : Step B io a s (.shutdown r) s'
  | handshake {s s' : SslStream σ τ} {r : Poll (Except SslError Unit)}
      (h : s.pollDoHandshake B io a = (r, s')) : Step B io a s (.handshake r) s'
  | read {s s' : SslStream σ τ} {fuel cap : Nat} {r : Poll (Except IoError Unit)} {got : Bytes}
      (h : s.pollRead B io a fuel cap = some (r, got, s')) : Step B io a s (.read cap r got) s'

/-! ### What a call does -/

namespace Label

/-- The plaintext a call reports as sealed: the first `n` bytes of a write that returned
`Ready(Ok(n))`. -/
def sealed : Label → Bytes
  | .write bufs (.ready (.ok n)) => bufs.flatten.take n
  | _ => []

/-- A write reports no more than its input, and something where there is anything. -/
def Honest : Label → Prop
  | .write bufs (.ready (.ok n)) => n ≤ bufs.flatten.length ∧ (bufs.flatten ≠ [] → 0 < n)
  | _ => True

/-- The plaintext a call delivers. -/
def delivered : Label → Bytes
  | .read _ _ got => got
  | _ => []

/-- What a call tells the reader. -/
def reported : Label → List ReadItem
  | .read cap r got => Stream.reported cap r got
  | _ => []

end Label

namespace Step

variable {σ τ : Type} {B : BoringSsl σ} {io : AsyncStream τ} {a : Allocator}
  {s s' : SslStream σ τ} {l : Label}

open SslStream (Seals)

/-- A flush seals nothing. -/
theorem seals_pollFlush {r : Poll (Except IoError Unit)} (h : s.pollFlush io = (r, s')) :
    Seals B s [] s' := by
  unfold SslStream.pollFlush at h
  rcases hf : s.flush io with ⟨r₁, s₁⟩
  obtain ⟨hk, hssl, hreads⟩ := SslStream.flush_spec hf
  rw [hf] at h
  obtain ⟨-, rfl⟩ := Prod.mk.inj h
  exact ⟨hk, by rw [hssl, List.append_nil], hreads⟩

/-- Nor does a handshake. -/
theorem seals_pollDoHandshake {r : Poll (Except SslError Unit)}
    (h : s.pollDoHandshake B io a = (r, s')) : Seals B s [] s' := by
  unfold SslStream.pollDoHandshake at h
  rcases hc : s.doHandshake B io a with ⟨r₁, s₁⟩
  rw [hc] at h
  obtain ⟨-, rfl⟩ := Prod.mk.inj h
  exact SslStream.seals_call (B.sslDoHandshake_spec s.ssl) hc

/-- Nor does `SSL_shutdown`. -/
theorem seals_shutdown {r : Except SslError ShutdownResult}
    (h : s.shutdown B io a = (r, s')) : Seals B s [] s' := by
  unfold SslStream.shutdown at h
  rcases hc : s.call io a (B.sslShutdown s.ssl) with ⟨r₁, s₁⟩
  obtain ⟨hk, hp, hreads⟩ := SslStream.seals_call (B.sslShutdown_spec s.ssl) hc
  rw [hc] at h
  obtain ⟨-, rfl⟩ := Prod.mk.inj h
  exact ⟨⟨hk.accounted, hk.keeps⟩, hp, hreads⟩

/-- Nor does remembering it. -/
theorem seals_setShutdownSent : Seals B s [] s.setShutdownSent :=
  SslStream.seals_setStream (fun hs => ⟨hs.written, hs.read⟩) rfl

/-- Nor does sending the alert. -/
theorem seals_sendShutdown {r : Poll (Except IoError Unit)}
    (h : s.sendShutdown B io a = (r, s')) : Seals B s [] s' := by
  unfold SslStream.sendShutdown at h
  split at h
  · obtain ⟨-, rfl⟩ := Prod.mk.inj h
    exact .refl s
  rcases hc : s.shutdown B io a with ⟨e | v, s₁⟩ <;>
    have hs := seals_shutdown hc <;> simp only [hc] at h
  · split at h
    · obtain ⟨-, rfl⟩ := Prod.mk.inj h
      exact hs.trans seals_setShutdownSent
    split at h
    · obtain ⟨-, rfl⟩ := Prod.mk.inj h
      exact hs.trans seals_setShutdownSent
    split at h <;> obtain ⟨-, rfl⟩ := Prod.mk.inj h <;> exact hs
  · obtain ⟨-, rfl⟩ := Prod.mk.inj h
    exact hs.trans seals_setShutdownSent

/-- Nor does shutting down. -/
theorem seals_pollShutdown {r : Poll (Except IoError Unit)}
    (h : s.pollShutdown B io a = (r, s')) : Seals B s [] s' := by
  unfold SslStream.pollShutdown at h
  rcases hs : s.sendShutdown B io a with ⟨(e | _) | _, s₁⟩ <;>
    have h₁ := seals_sendShutdown hs <;> simp only [hs] at h
  · obtain ⟨-, rfl⟩ := Prod.mk.inj h
    exact h₁
  · rcases hf : s₁.pollFlush io with ⟨(e | _) | _, s₂⟩ <;>
      have h₂ := h₁.trans (seals_pollFlush hf) <;> simp only [hf] at h
    · obtain ⟨-, rfl⟩ := Prod.mk.inj h
      exact h₂
    · rcases hp : s₂.stream.transport.pollShutdown io with ⟨r₂, t⟩
      obtain ⟨ha, hr⟩ := Transport.pollShutdown_spec hp
      rw [hp] at h
      obtain ⟨-, rfl⟩ := Prod.mk.inj h
      exact h₂.trans (SslStream.seals_setRecords (by rw [ha]) hr)
    · obtain ⟨-, rfl⟩ := Prod.mk.inj h
      exact h₂
  · obtain ⟨-, rfl⟩ := Prod.mk.inj h
    exact h₁

/-- **A write seals what it reports.** -/
theorem write_label {fuel : Nat} {bufs : List Bytes} {r : Poll (Except IoError Nat)}
    (h : (s.writeRecords B io a fuel bufs).map (fun r => (cvt r.1, r.2)) = some (r, s')) :
    (Label.write bufs r).Honest ∧ Seals B s (Label.write bufs r).sealed s' := by
  obtain ⟨⟨res, s₁⟩, hw, heq⟩ := Option.map_eq_some_iff.mp h
  obtain ⟨rfl, rfl⟩ := Prod.mk.inj heq
  have hspec := SslStream.writeRecords_spec hw
  rcases res with e | n
  · have hnone : Seals B s [] s₁ := hspec
    by_cases hk : e.kind = .wouldBlock <;> simpa [cvt, hk, Label.Honest, Label.sealed] using hnone
  · exact ⟨⟨hspec.1, hspec.2.1⟩, hspec.2.2⟩

/-- **What one call seals.**  A write seals exactly what it reports, every other call nothing. -/
theorem seals (ha : s.stream.Accounted) (h : Step B io a s l s') :
    l.Honest ∧ s'.stream.Accounted ∧ B.plaintext s'.ssl = B.plaintext s.ssl ++ l.sealed := by
  have done {d : Bytes} (hs : Seals B s d s') :
      s'.stream.Accounted ∧ B.plaintext s'.ssl = B.plaintext s.ssl ++ d :=
    ⟨hs.kept.accounted ha, hs.plaintext⟩
  cases h with
  | write h => exact ⟨(write_label h).1, done (write_label h).2⟩
  | writeVectored h => exact ⟨(write_label h).1, done (write_label h).2⟩
  | flush h => exact ⟨trivial, done (seals_pollFlush h)⟩
  | shutdown h => exact ⟨trivial, done (seals_pollShutdown h)⟩
  | handshake h => exact ⟨trivial, done (seals_pollDoHandshake h)⟩
  | read h =>
      obtain ⟨rs, ha', hp, -⟩ := SslStream.pollRead_spec ha h
      exact ⟨trivial, ha', by rw [hp]; simp [Label.sealed]⟩

/-- **What one call reads.**  What the `SSL_read` calls in it let the reader see is reported, after
anything stored before, or stored. -/
theorem reads (ha : s.stream.Accounted) (h : Step B io a s l s') :
    ∃ rs, s'.sslReads = s.sslReads ++ rs
      ∧ owedBy s.stream.readEnd ++ rs.flatMap observed = l.reported ++ owedBy s'.stream.readEnd
      ∧ (s'.stream.readEnd = some (.ok ()) → s.stream.readEnd = some (.ok ()) ∧ rs = []
          ∨ ∃ rs' e, rs = rs' ++ [.error e] ∧ e.IsEnd) := by
  have none {d : Bytes} (hs : Seals B s d s') : ∃ rs, s'.sslReads = s.sslReads ++ rs
      ∧ owedBy s.stream.readEnd ++ rs.flatMap observed = [] ++ owedBy s'.stream.readEnd
      ∧ (s'.stream.readEnd = some (.ok ()) → s.stream.readEnd = some (.ok ()) ∧ rs = []
          ∨ ∃ rs' e, rs = rs' ++ [.error e] ∧ e.IsEnd) := by
    have hkeep : s'.stream.readEnd = s.stream.readEnd := hs.kept.keeps ha
    exact ⟨[], by simp [hs.sslReads], by rw [hkeep]; simp, fun he => .inl ⟨hkeep ▸ he, rfl⟩⟩
  cases h with
  | write h => exact none (write_label h).2
  | writeVectored h => exact none (write_label h).2
  | flush h => exact none (seals_pollFlush h)
  | shutdown h => exact none (seals_pollShutdown h)
  | handshake h => exact none (seals_pollDoHandshake h)
  | read h =>
      obtain ⟨rs, -, -, hreads, hobs, hend, -⟩ := SslStream.pollRead_spec ha h
      exact ⟨rs, hreads, hobs, fun he => hend (.inl he)⟩

end Step

/-! ### Runs -/

/-- What holds between calls.  The bytes are accounted for, and an end is stored only where the last
`SSL_read` met it. -/
structure Sound {σ τ : Type} (s : SslStream σ τ) : Prop where
  accounted : s.stream.Accounted
  stored : s.stream.readEnd = some (.ok ()) → ∃ e, s.sslReads.getLast? = some (.error e) ∧ e.IsEnd

/-- What a read must do from `s` to `s'`; no other call reads at all. -/
def Label.ReadRules {σ τ : Type} (s s' : SslStream σ τ) : Label → Prop
  | .read cap r got =>
      got.length ≤ cap
      -- Bytes are delivered with `Ready(Ok)` only, so what was met after them waits for the next read.
      ∧ (got ≠ [] → r = .ready (.ok ()))
      -- A read of no bytes consumes neither data nor the stored end.
      ∧ (cap = 0 → r = .ready (.ok ()) ∧ s' = s)
      -- A stored end is reported at once, with nothing else done.
      ∧ (∀ stop, cap ≠ 0 → s.stream.readEnd = some stop →
          r = .ready stop ∧ got = [] ∧ s' = s.setReadEnd none)
      -- Success with no bytes is the end of the stream.
      ∧ (cap ≠ 0 → r = .ready (.ok ()) → got = [] →
          ∃ e, s'.sslReads.getLast? = some (.error e) ∧ e.IsEnd)
      -- Pending is nothing delivered, and a last `SSL_read` that would block.
      ∧ (r = .pending → got = [] ∧
          ∃ rs e, s'.sslReads = s.sslReads ++ rs ++ [.error e] ∧ ¬ e.IsEnd ∧ e.WouldBlock)
  | _ => s'.sslReads = s.sslReads ∧ s'.stream.readEnd = s.stream.readEnd

/-! ### A connection in the clear -/

def clearRecord (data : Bytes) : Bytes :=
  [23, 3, 3, UInt8.ofNat (data.length / 256), UInt8.ofNat data.length] ++ data

/-- A library that encrypts nothing.  It seals one record for each call, and reads two bytes at a
time up to an alert. -/
def clearSsl : BoringSsl Bytes where
  sealAppDataLimits _ := some ⟨maxRecord, 5, 0, by decide⟩
  sealAppData s bufs maxIn room :=
    let data := bufs.flatten.take (min maxIn maxRecord)
    if (clearRecord data).length ≤ room then (.success (clearRecord data) data.length, s ++ data)
    else (.declined, s)
  sslRead s len := .call (.read (min len 2)) fun
    | .ok [] => .ret (.error ⟨.syscall, []⟩, s)
    | .ok (21 :: _) => .ret (.error ⟨.zeroReturn, []⟩, s)
    | .ok (b :: data) => .ret (.ok ((b :: data).take len), s)
    | .error retry => .ret (.error ⟨if retry then .wantRead else .syscall, []⟩, s)
  sslWrite s buf := .call (.write (clearRecord (buf.take maxRecord))) fun
    | .ok _ => .ret (.ok (buf.take maxRecord).length, s ++ buf.take maxRecord)
    | .error _ => .ret (.error ⟨.wantWrite, []⟩, s)
  sslShutdown s := .ret (.ok .sent, s)
  sslDoHandshake s := .ret (.ok (), s)
  plaintext := id
  sealAppData_success s bufs maxIn room out consumed h := by
    simp only at h ⊢
    split at h
    · rename_i hroom
      obtain ⟨rfl, rfl⟩ := SealResult.success.inj h
      rw [if_pos hroom]
      refine ⟨hroom, by rw [List.length_take]; omega, ?_, by simp⟩
      rw [List.length_take, maxRecord]
      omega
    · cases h
  sealAppData_declined s bufs maxIn room h := by
    simp only at h ⊢
    split at h
    · cases h
    · rename_i hroom
      rw [if_neg hroom]
  sealAppData_error s bufs maxIn room queue h := by
    simp only at h
    split at h <;> cases h
  sslWrite_spec s buf hbuf x hx := by
    obtain rfl : x = _ := hx
    have hlen := List.length_pos_iff.mpr hbuf
    refine ⟨?_, ?_, by simp⟩
    · rw [List.length_take, maxRecord]; omega
    · rw [List.length_take]; omega
  sslRead_spec s len hlen x _ := by
    beta_reduce
    split
    · exact ⟨rfl, nofun⟩
    · exact ⟨rfl, nofun⟩
    · refine ⟨rfl, fun data' hd => ?_⟩
      obtain rfl := Except.ok.inj hd
      rw [List.length_take, List.length_cons]
      omega
    · exact ⟨rfl, nofun⟩
  sslShutdown_spec _ := rfl
  sslDoHandshake_spec _ := rfl

/-- A transport that answers each poll from a script, and is pending after its end. -/
structure Script where
  writes : List (Poll (Except IoError Nat))
  reads : List (Poll (Except IoError Bytes))

def Script.answerWrite (s : Script) (len : Nat) : Poll (Except IoError Nat) × Script :=
  match s.writes with
  | [] => (.pending, s)
  | .ready (.ok n) :: writes => (.ready (.ok (min n len)), { s with writes })
  | r :: writes => (r, { s with writes })

/-- A script takes no more than it is offered. -/
theorem Script.answerWrite_le {s : Script} {len n : Nat}
    (h : (s.answerWrite len).1 = .ready (.ok n)) : n ≤ len := by
  rcases s with ⟨_ | ⟨(e | m) | _, writes⟩, reads⟩ <;> simp [answerWrite] at h
  omega

def scripted : AsyncStream Script where
  pollWrite s buf := s.answerWrite buf.length
  pollWriteVectored s bufs := s.answerWrite bufs.flatten.length
  isWriteVectored _ := true
  pollFlush s := (.ready (.ok ()), s)
  pollShutdown s := (.ready (.ok ()), s)
  pollRead s cap :=
    match s.reads with
    | [] => (.pending, s)
    | .ready (.ok data) :: reads => (.ready (.ok (data.take cap)), { s with reads })
    | r :: reads => (r, { s with reads })
  pollWrite_le _ _ _ h := Script.answerWrite_le h
  pollWriteVectored_le _ _ _ h := Script.answerWrite_le h
  pollRead_le s cap data h := by
    rcases s with ⟨writes, _ | ⟨(e | data') | _, reads⟩⟩ <;> simp at h
    rw [← h, List.length_take]
    omega

/-- Vectors that grow to what they need. -/
def exactly : Allocator := ⟨fun _ need => need, fun _ _ => Nat.le_refl _⟩

section Runs

variable {σ τ : Type} {B : BoringSsl σ} {io : AsyncStream τ} {a : Allocator}
  {ssl : σ} {stream : τ} {s s' : SslStream σ τ} {l : Label} {ls : List Label}

/-- A new stream has no error to report. -/
theorem Sound.new : Sound (SslStream.new ssl stream) :=
  ⟨StreamWrapper.accounted_new stream, nofun⟩

/-- **Every step is accounted for.** -/
theorem Sound.step (hs : Sound s) (h : Step B io a s l s') : Sound s' := by
  refine ⟨(h.seals hs.accounted).2.1, fun he => ?_⟩
  obtain ⟨rs, hreads, -, hend⟩ := h.reads hs.accounted
  rcases hend he with ⟨hbefore, rfl⟩ | ⟨rs', e, rfl, hisEnd⟩
  · rw [hreads, List.append_nil]
    exact hs.stored hbefore
  · exact ⟨e, by rw [hreads]; simp, hisEnd⟩

/-- **Every read keeps the rules.** -/
theorem Step.readRules (hs : Sound s) (h : Step B io a s l s') : l.ReadRules s s' := by
  have none {d : Bytes} (hd : SslStream.Seals B s d s') :
      s'.sslReads = s.sslReads ∧ s'.stream.readEnd = s.stream.readEnd :=
    ⟨hd.sslReads, hd.kept.keeps hs.accounted⟩
  cases h with
  | write h => exact none (write_label h).2
  | writeVectored h => exact none (write_label h).2
  | flush h => exact none (seals_pollFlush h)
  | shutdown h => exact none (seals_pollShutdown h)
  | handshake h => exact none (seals_pollDoHandshake h)
  | read h =>
      obtain ⟨rs, -, -, hreads, -, hend, hpend, hle⟩ := SslStream.pollRead_spec hs.accounted h
      refine ⟨hle, SslStream.pollRead_bytes h, ?_, ?_, ?_, ?_⟩
      · rintro rfl
        rw [SslStream.pollRead_zero] at h
        obtain ⟨rfl, -, rfl⟩ : _ ∧ _ ∧ _ := by simpa using h
        exact ⟨rfl, rfl⟩
      · intro stop hcap he
        rw [SslStream.pollRead_stored hcap he] at h
        obtain ⟨rfl, rfl, rfl⟩ : _ ∧ _ ∧ _ := by simpa using h
        exact ⟨rfl, rfl, rfl⟩
      · intro hcap hr hgot
        rcases hend (.inr ⟨hr, hgot, hcap⟩) with ⟨hbefore, rfl⟩ | ⟨rs', e, rfl, hisEnd⟩
        · rw [hreads, List.append_nil]
          exact hs.stored hbefore
        · exact ⟨e, by rw [hreads]; simp, hisEnd⟩
      · intro hr
        obtain ⟨hgot, rs', e, rfl, hne, hb⟩ := hpend hr
        exact ⟨hgot, rs', e, by rw [hreads, List.append_assoc], hne, hb⟩

/-- So does every run. -/
theorem sound_of_run (h : Run (Step B io a) (.new ssl stream) ls s) : Sound s :=
  h.invariant (fun _ _ _ hs hstep => hs.step hstep) .new

/-- **Write-side fidelity.**  After any calls, what the transport took and what is buffered are all
that BoringSSL produced, in order; and what was sealed is what the writes reported, in order. -/
theorem write_fidelity (h : Run (Step B io a) (.new ssl stream) ls s) :
    s.stream.transport.accepted ++ s.stream.writeBuf.buffered = s.stream.produced
      ∧ B.plaintext s.ssl = B.plaintext ssl ++ ls.flatMap Label.sealed
      ∧ ∀ l ∈ ls, l.Honest := by
  refine ⟨(sound_of_run h).accounted.written, ?_, ?_⟩
  · obtain ⟨new, hlog, hnew⟩ := Run.ledger (fun s => B.plaintext s.ssl) (fun _ => []) Label.sealed
      (fun _ _ _ hs hstep => Sound.step hs hstep)
      (fun s l s' hs hstep => ⟨l.sealed, (hstep.seals hs.accounted).2.2, by simp⟩) h .new
    simpa [hlog, SslStream.new] using hnew
  · exact h.forall_labels (fun _ _ _ hs hstep => Sound.step hs hstep)
      (fun s l s' hs hstep => (hstep.seals hs.accounted).1) .new

/-- A write the transport takes three bytes of, and a flush it refuses. -/
theorem write_fidelity_short_write :
    ∃ s, Run (Step clearSsl scripted exactly) (.new [] ⟨[.ready (.ok 3), .pending], []⟩)
        [.write [[7, 8]] (.ready (.ok 2)), .flush .pending] s
      ∧ s.stream.transport.accepted ++ s.stream.writeBuf.buffered = s.stream.produced
      ∧ s.stream.writeBuf.buffered = [0, 2, 7, 8] := by
  have hrun : ∃ s, Run (Step clearSsl scripted exactly)
      (.new [] ⟨[.ready (.ok 3), .pending], []⟩)
      [.write [[7, 8]] (.ready (.ok 2)), .flush .pending] s
      ∧ s.stream.writeBuf.buffered = [0, 2, 7, 8] := by
    refine ⟨_, .snoc (.snoc (.nil _) (Step.write (show SslStream.pollWrite _ _ _ 1 _ _ = _ from rfl)))
      (Step.flush rfl), rfl⟩
  obtain ⟨s, hs, hb⟩ := hrun
  exact ⟨s, hs, (write_fidelity hs).1, hb⟩

/-- The plaintext in what a reader sees. -/
def ReadItem.plaintext : ReadItem → Bytes
  | .byte b => [b]
  | .stop _ => []

/-- The plaintext an `SSL_read` returned. -/
def returned : Except SslError Bytes → Bytes
  | .ok data => data
  | .error _ => []

/-- Bytes are delivered as they are. -/
theorem plaintext_bytes (data : Bytes) : (data.map ReadItem.byte).flatMap ReadItem.plaintext = data := by
  induction data with
  | nil => rfl
  | cons b data ih => simpa [ReadItem.plaintext] using ih

/-- What is seen of an `SSL_read` is what it returned. -/
theorem plaintext_observed (r : Except SslError Bytes) :
    (observed r).flatMap ReadItem.plaintext = returned r := by
  rcases r with e | data
  · simp only [observed]
    split
    · rfl
    · split <;> rfl
  · exact plaintext_bytes data

/-- And what is reported is what was delivered. -/
theorem plaintext_reported (l : Label) : l.reported.flatMap ReadItem.plaintext = l.delivered := by
  cases l with
  | read cap r got =>
      show (reported cap r got).flatMap ReadItem.plaintext = got
      unfold reported
      rw [List.flatMap_append, plaintext_bytes]
      rcases r with (e | _) | _
      · simp [ReadItem.plaintext]
      · simp only
        split <;> simp [ReadItem.plaintext]
      · simp
  | _ => rfl

/-- **Read-side fidelity.**  After any calls, what BoringSSL was handed and what is buffered are all
the transport gave, in order.  What the reads delivered is what the `SSL_read` calls returned, in
order, with each end and error once and in its place: reported already, or stored for the next
read.  And every call reads as it must. -/
theorem read_fidelity (h : Run (Step B io a) (.new ssl stream) ls s) :
    s.stream.handed ++ s.stream.readBuf.buffered = s.stream.transport.received
      ∧ ls.flatMap Label.delivered = s.sslReads.flatMap returned
      ∧ ls.flatMap Label.reported ++ owedBy s.stream.readEnd = s.sslReads.flatMap observed
      ∧ ∀ l s', Step B io a s l s' → l.ReadRules s s' := by
  have hledger : ls.flatMap Label.reported ++ owedBy s.stream.readEnd
      = s.sslReads.flatMap observed := by
    obtain ⟨new, hlog, hnew⟩ := Run.ledger (fun s => s.sslReads.flatMap observed)
      (fun s => owedBy s.stream.readEnd) Label.reported
      (fun _ _ _ hs hstep => Sound.step hs hstep)
      (fun s l s' hs hstep => by
        obtain ⟨rs, hreads, hobs, -⟩ := hstep.reads hs.accounted
        exact ⟨rs.flatMap observed, by rw [hreads, List.flatMap_append], hobs⟩) h .new
    simp only [SslStream.new, List.flatMap_nil, List.nil_append] at hlog
    rw [hlog, ← hnew]
    rfl
  refine ⟨(sound_of_run h).accounted.read, ?_, hledger, fun l s' hstep =>
    hstep.readRules (sound_of_run h)⟩
  have hplain := congrArg (List.flatMap ReadItem.plaintext) hledger
  have howed : (owedBy s.stream.readEnd).flatMap ReadItem.plaintext = [] := by
    rcases s.stream.readEnd with _ | stop <;> rfl
  rw [List.flatMap_append, howed, List.append_nil, List.flatMap_assoc, List.flatMap_assoc] at hplain
  simpa only [plaintext_reported, plaintext_observed] using hplain

/-- Two bytes and an alert in one chunk: the end waits for the next read with room. -/
theorem read_fidelity_stored_end :
    ∃ s, Run (Step clearSsl scripted exactly) (.new [] ⟨[], [.ready (.ok [5, 6, 21, 0])]⟩)
        [.read 8 (.ready (.ok ())) [5, 6], .read 0 (.ready (.ok ())) [],
          .read 8 (.ready (.ok ())) []] s
      ∧ s.stream.handed ++ s.stream.readBuf.buffered = s.stream.transport.received
      ∧ s.stream.handed = [5, 6, 21, 0] := by
  have hrun : ∃ s, Run (Step clearSsl scripted exactly)
      (.new [] ⟨[], [.ready (.ok [5, 6, 21, 0])]⟩)
      [.read 8 (.ready (.ok ())) [5, 6], .read 0 (.ready (.ok ())) [],
        .read 8 (.ready (.ok ())) []] s ∧ s.stream.handed = [5, 6, 21, 0] := by
    refine ⟨_, .snoc (.snoc (.snoc (.nil _) (Step.read
      (show SslStream.pollRead _ _ _ 3 _ _ = _ from rfl))) (Step.read
      (show SslStream.pollRead _ _ _ 1 _ _ = _ from rfl))) (Step.read
      (show SslStream.pollRead _ _ _ 1 _ _ = _ from rfl)), rfl⟩
  obtain ⟨s, hs, hb⟩ := hrun
  exact ⟨s, hs, (read_fidelity hs).1, hb⟩

end Runs

end Btls.Stream
