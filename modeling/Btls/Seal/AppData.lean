import Btls.Seal.Plan

/-!
# Seal — AppData

`tls_seal_app_data`: the pending handshake flight, then whole application data records sealed
straight from the caller's slices, until the input ends, the output is full or a record cannot be
sealed.

`Upstream A` is the one function it calls that is not in the repository, under the contract it is
documented with.  The loops return what they add, so that what a record adds stands in front of what
the rest does.

A call that cannot seal declines before it has changed anything: where the state does not allow it
(`sealPending`), or where the output has no room for the flight and a first record
(`firstRecordFits`).  Where it goes on, `sealLoop` ends in one of three ways (`LoopStatus`), and
`finishSeal` decides what the caller is told of that: only if something is handed over is the flight
taken off the queue.
-/

namespace Btls.Seal

open Btls.Support Btls.Support.Slices Btls.Tls

/-- `sizeof(CRYPTO_IVEC)`. -/
def ivecSize : Nat := 16

section Model

variable {κ ρ : Type} (A : Aead κ ρ)

def explicitNonceLen (s : SslImpl κ) : Nat := ((s.cipher A).map (·.explicitNonceLen)).getD 0

/-- The rest of the record layer. -/
structure Upstream where
  flushPendingHsData : SslImpl κ → Bool × SslImpl κ
  /-- QUIC takes handshake data in frames of its own; nothing is sealed. -/
  flush_quic : ∀ s b s', s.isQuic = true → flushPendingHsData s = (b, s') →
    ∃ errors, s' = { s with pendingHsData := none, errors }
  flush_nothing : ∀ s, s.isQuic = false → s.hsData = [] → flushPendingHsData s = (true, s)
  /-- The queued data is sealed as one record, at the end of the pending flight. -/
  flush_ok : ∀ s s', s.isQuic = false → s.hsData ≠ [] → flushPendingHsData s = (true, s') →
    ∃ outPrefix out outSuffix inp record s₁,
      doSealRecord A s outPrefix out outSuffix rtHandshake inp s.hsData = (some record, s₁)
        ∧ s' = { s₁ with
            pendingHsData := none
            pendingFlight := s.pendingFlight.append record }
  /-- A failure drops the queued data, having tried to seal it or not. -/
  flush_failed : ∀ s s', s.isQuic = false → s.hsData ≠ [] → flushPendingHsData s = (false, s') →
    ∃ s₁ pendingFlight errors,
      (s₁ = s ∨ ∃ outPrefix out outSuffix inp,
        doSealRecord A s outPrefix out outSuffix rtHandshake inp s.hsData = (none, s₁))
        ∧ s' = { s₁ with pendingHsData := none, pendingFlight, errors }

/-- Seals the queued data in place, behind the flight. -/
def Upstream.behindFlight : Upstream A where
  flushPendingHsData s :=
    if s.isQuic then (true, { s with pendingHsData := none })
    else if s.hsData = [] then (true, s)
    else
      let body := headerLength + explicitNonceLen A s
      match doSealRecord A s 0 body (body + s.hsData.length) rtHandshake body s.hsData with
      | (some record, s₁) =>
          (true, { s₁ with
            pendingHsData := none
            pendingFlight := s.pendingFlight.append record })
      | (none, s₁) => (false, { s₁ with pendingHsData := none })
  flush_quic := by
    intro s b s' hquic h
    rw [if_pos hquic] at h
    obtain ⟨-, rfl⟩ := Prod.mk.inj h
    exact ⟨_, rfl⟩
  flush_nothing := by
    intro s hquic h
    rw [if_neg (by simp [hquic]), if_pos h]
  flush_ok := by
    intro s s' hquic hne h
    rw [if_neg (by simp [hquic]), if_neg hne] at h
    dsimp only at h
    split at h
    · obtain ⟨-, rfl⟩ := Prod.mk.inj h
      exact ⟨_, _, _, _, _, _, by assumption, rfl⟩
    · cases h
  flush_failed := by
    intro s s' hquic hne h
    rw [if_neg (by simp [hquic]), if_neg hne] at h
    dsimp only at h
    split at h
    · cases h
    · obtain ⟨-, rfl⟩ := Prod.mk.inj h
      exact ⟨_, _, _, .inr ⟨_, _, _, _, by assumption⟩, rfl⟩

def tlsCanSealAppData (s : SslImpl κ) : Bool :=
  !s.isDtls && !s.isQuic && s.hasDoHandshake
    -- Handshake, 0-RTT, False Start, half-RTT and renegotiation need `SSL_write`.
    && !s.inInit
    && s.writeShutdown == .none
    && s.aeadWriteCtx.isSome && !s.isNullCipher A
    -- Unflushed records and owed retries go through the BIO first.
    && s.writeBuffer.isEmpty && s.pendingWrite.isEmpty && s.unreportedBytesWritten == 0
    && !s.needsRecordSplitting

def tlsSealAppDataPendingLen (s : SslImpl κ) : Option Nat :=
  let len := (s.pendingFlight.data.getD []).length - s.pendingFlight.offset
  if s.hsData.length ≠ 0 then
    (checkedAdd s.hsData.length (s.maxSealOverhead A)).bind fun sealed => checkedAdd len sealed
  else some len

/-- `seal_fits`: whether `room` holds `pending` bytes and one record of `n` plaintext bytes. -/
def sealFits (room pending n overhead : Nat) : Bool :=
  pending ≤ room && (if n = 0 then 0 else n + overhead) ≤ room - pending

def tlsSealBodyIovecBudget (s : SslImpl κ) : Nat :=
  if ((s.cipher A).map (·.aesGcm)).getD false then
    kSealMaxIovecs - (if tls13Version ≤ s.protocolVersion then 1 else 0)
  else 1

/-- What `tls_seal_app_data_record` did: the record it wrote, of `n` input bytes, or why it
failed. -/
inductive RecordResult where
  | sealed (record : Bytes) (n : Nat)
  | failed
  | checkFailed

def tlsSealAppDataRecord (s : SslImpl κ) (out : Nat) (input : SealInput)
    (want prefixLen budget : Nat) : RecordResult × SealInput × SslImpl κ :=
  -- Fail before copying any plaintext.
  if s.writeSequence = usizeMax then (.failed, input, s.putError .overflow)
  else
    match planSealBody input want (out + prefixLen) budget with
    | .error (.reason e) => (.failed, input, s.putError e)
    | .error .checkFailed => (.checkFailed, input, s)
    | .ok (input, iovecs, bodyLen) =>
        if bodyLen = 0 then (.sealed [] 0, input, s)
        else
          match doSealRecordIov A s out iovecs bodyLen (out + prefixLen + bodyLen)
              rtApplicationData with
          | (some record, s) => (.sealed record bodyLen, input, s)
          | (none, s) => (.failed, input, s)

/-- How the loop ended. -/
inductive LoopStatus where
  | ended
  | failed
  | checkFailed
  deriving DecidableEq

/-- What the loop added. -/
structure LoopResult (κ : Type) where
  status : LoopStatus
  records : Bytes
  consumed : Nat
  ssl : SslImpl κ

/-- What stays the same from record to record. -/
structure LoopParams where
  out : OutSpan
  maxIn : Nat
  frag : Nat
  overhead : Nat
  prefixLen : Nat
  budget : Nat

namespace LoopParams

/-- `out.size() - pos < n + overhead`. -/
def Tight (p : LoopParams) (pos n : Nat) : Prop := p.out.size - pos < n + p.overhead

instance (p : LoopParams) (pos n : Nat) : Decidable (p.Tight pos n) :=
  inferInstanceAs (Decidable (_ < _))

/-- How much the next record takes; `none` where no whole record fits. -/
def nextWant (p : LoopParams) (input : SealInput) (pos consumed : Nat) : Option Nat :=
  let want := min p.frag (p.maxIn - consumed)
  if p.Tight pos want then
    let want := input.available want
    if want = 0 ∨ p.Tight pos want then none else some want
  else some want

end LoopParams

/-- The loop of `tls_seal_app_data`.  Every round but the last consumes input, so `maxIn - consumed`
rounds reach its end, and running out of `fuel` is the loop's own exit. -/
def sealLoop (p : LoopParams) :
    (fuel : Nat) → SealInput → (pos consumed : Nat) → SslImpl κ → LoopResult κ
  | 0, _, _, _, s => ⟨.ended, [], 0, s⟩
  | fuel + 1, input, pos, consumed, s =>
      if consumed < p.maxIn then
        match p.nextWant input pos consumed with
        | none => ⟨.ended, [], 0, s⟩
        | some want =>
            match tlsSealAppDataRecord A s (p.out.addr + pos) input want p.prefixLen p.budget with
            | (.failed, _, s) => ⟨.failed, [], 0, s⟩
            | (.checkFailed, _, s) => ⟨.checkFailed, [], 0, s⟩
            | (.sealed record n, input, s) =>
                -- The input ended before `maxIn`.
                if n = 0 then ⟨.ended, [], 0, s⟩
                else
                  let r := sealLoop p fuel input (pos + record.length) (consumed + n) s
                  { r with records := record ++ r.records, consumed := n + r.consumed }
      else ⟨.ended, [], 0, s⟩

/-- `ssl_seal_app_data_result_t`, and a failed `BSSL_CHECK`. -/
inductive SealStatus where
  | success
  | declined
  | error
  | checkFailed
  deriving DecidableEq

/-- What `tls_seal_app_data` returned, with `out[..out_len]`. -/
structure SealReturn where
  status : SealStatus
  out : Bytes
  consumed : Nat

/-- The pending length and the parameters of the loop, or `none` where the state cannot seal. -/
def sealPending (s : SslImpl κ) : Option Nat :=
  if tlsCanSealAppData A s then tlsSealAppDataPendingLen A s else none

/-- Whether `out` holds the pending records and the first record. -/
def firstRecordFits (input : SealInput) (maxIn frag pending overhead : Nat) : Bool :=
  let first := min frag maxIn
  -- `Available` walks the slices only when the room is tight.
  if sealFits input.out.size pending first overhead then true
  else sealFits input.out.size pending (input.available first) overhead

/-- What follows the loop: the flight is copied in front and taken off the queue only if something
is handed over. -/
def finishSeal (flight : Bytes) (r : LoopResult κ) : SealReturn × SslImpl κ :=
  match r.status with
  | .checkFailed => (⟨.checkFailed, [], 0⟩, r.ssl)
  | status =>
      if status = .failed ∧ r.consumed = 0 then (⟨.error, [], 0⟩, r.ssl)
      else
        let s := if status = .failed then { r.ssl with errors := [] } else r.ssl
        let s := if flight = [] then s else { s with pendingFlight := .reset }
        let out := flight ++ r.records
        let s := if out.length = 0 then s else { s with keyUpdatePending := false }
        (⟨.success, out, r.consumed⟩, s)

/-- `tls_seal_app_data`; `slicesAddr` is where the slice array is. -/
def tlsSealAppData (U : Upstream A) (s : SslImpl κ) (out : OutSpan) (slicesAddr : Nat)
    (slices : List Slice) (maxIn : Nat) : SealReturn × SslImpl κ :=
  if buffersAlias slicesAddr (slices.length * ivecSize) out.addr out.size then
    (⟨.error, [], 0⟩, s.putError .outputAliasesInput)
  else
    match sealPending A s with
    | none => (⟨.declined, [], 0⟩, s)
    | some pending =>
        let frag := tlsAppDataFragment A s
        let overhead := s.maxSealOverhead A
        let input := SealInput.new slices maxIn out
        if !firstRecordFits input maxIn frag pending overhead then (⟨.declined, [], 0⟩, s)
        else
          match U.flushPendingHsData s with
          | (false, s) => (⟨.error, [], 0⟩, s)
          | (true, s) =>
              let flight := s.pendingFlight.rest
              if pending < flight.length then
                -- The bound above is wrong.  Never write past it.
                (⟨.error, [], 0⟩, s.putError .internalError)
              else
                let p : LoopParams :=
                  ⟨out, maxIn, frag, overhead, headerLength + explicitNonceLen A s,
                    tlsSealBodyIovecBudget A s⟩
                finishSeal flight (sealLoop A p maxIn input flight.length 0 s)

end Model

end Btls.Seal
