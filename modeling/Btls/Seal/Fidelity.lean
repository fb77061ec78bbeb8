import Btls.Seal.Call

/-!
# Seal — Fidelity

What a call of `tls_seal_app_data` that succeeds has sealed, and that the slices show in it only
through their concatenation.

`Sealed` says it in the terms of a peer.  The output is the flight and then records that open, one
sequence number after another, to the queued handshake data and to the first `consumed` bytes of the
input; all but the last are full.  Where fewer bytes were consumed than could have been, the next
record might not have fitted, or it cannot be sealed after those that were (`FailedAfter`).

`seal_fidelity` is that every successful call is `Sealed`, and that the same bytes in other slices
that can be read give the same output and the same state.  The second half goes through
`sealLoop_congr`: cursors over the same bytes stay in step, and what a plan gathers does not show in
the record.
-/

namespace Btls.Seal

open Btls.Support Btls.Tls

section Fidelity

variable {κ ρ : Type} {A : Aead κ ρ} {U : Upstream A} {s s' : SslImpl κ} {out : OutSpan}
  {slicesAddr maxIn : Nat} {slices : List Slice} {r : SealReturn}

/-- What follows the loop changes nothing else of the connection. -/
theorem finishSeal_cases {flight : Bytes} {res : LoopResult κ} (hno : res.status ≠ .checkFailed)
    (h : (r, s') = finishSeal flight res) :
    (res.status = .failed ∧ res.consumed = 0 ∧ r = ⟨.error, [], 0⟩ ∧ s' = res.ssl)
      ∨ (¬ (res.status = .failed ∧ res.consumed = 0)
          ∧ r = ⟨.success, flight ++ res.records, res.consumed⟩
          ∧ ∃ keyUpdatePending, s' = { res.ssl with
              errors := if res.status = .failed then [] else res.ssl.errors
              pendingFlight := if flight = [] then res.ssl.pendingFlight else .reset
              keyUpdatePending }) := by
  rcases res with ⟨status, records, consumed, ssl⟩
  unfold finishSeal at h
  cases status <;> dsimp only at h hno ⊢
  case checkFailed => exact absurd rfl hno
  case ended =>
    rw [if_neg (by simp)] at h
    obtain ⟨rfl, rfl⟩ := Prod.mk.inj h
    refine .inr ⟨by simp, rfl, ?_⟩
    simp only [if_neg (show ¬ LoopStatus.ended = .failed by decide)]
    split <;> split <;> exact ⟨_, rfl⟩
  case failed =>
    by_cases hzero : consumed = 0
    · rw [if_pos ⟨rfl, hzero⟩] at h
      obtain ⟨rfl, rfl⟩ := Prod.mk.inj h
      exact .inl ⟨rfl, hzero, rfl, rfl⟩
    · rw [if_neg (by simp [hzero])] at h
      obtain ⟨rfl, rfl⟩ := Prod.mk.inj h
      refine .inr ⟨by simp [hzero], rfl, ?_⟩
      simp only [if_true]
      split <;> split <;> exact ⟨_, rfl⟩

/-- No `BSSL_CHECK` fails. -/
theorem status_ne_checkFailed (h : tlsSealAppData A U s out slicesAddr slices maxIn = (r, s')) :
    r.status ≠ .checkFailed := by
  rcases tlsSealAppData_cases h with ⟨-, rfl, -⟩ | ⟨-, -, rfl, -⟩ | ⟨-, _, -, -, hrun⟩
  · nofun
  · nofun
  rcases hrun with ⟨-, rfl⟩ | ⟨s₁, _, s₂, frags, res, -, -, -, hloop, -, hfin⟩
  · nofun
  rcases finishSeal_cases hloop.checks hfin with ⟨-, -, rfl, -⟩ | ⟨-, rfl, -⟩
  · nofun
  · nofun

/-- What a successful call did, where the slices join to `input`. -/
structure Sealed (U : Upstream A) (s s' : SslImpl κ) (out : OutSpan) (slices : List Slice)
    (input : Bytes) (maxIn : Nat) (r : SealReturn) : Prop where
  joins : (slices.map Slice.bytes).flatten = input
  /-- `out[..out_len]` is the pending flight and then whole records.  A peer in step opens these,
  under consecutive sequence numbers, to the queued handshake data, if any, and then to the first
  `consumed` bytes of the input, in full fragments but the last. -/
  opened : ∃ sealed frags ctx ctx', s.aeadWriteCtx = some ctx
    ∧ r.out = s.pendingFlight.rest ++ sealed
    ∧ Opens A (s.extraLen A) ctx s.writeSequence sealed
        (hsPlain s ++ frags.map (rtApplicationData, ·)) ctx'
    ∧ frags.flatten = input.take r.consumed
    ∧ Full (tlsAppDataFragment A s) frags
    ∧ s'.writeSequence = s.writeSequence + (hsPlain s).length + frags.length
  /-- Nothing of the flight is left to send. -/
  sent : s'.pendingFlight.rest = [] ∧ s'.hsData = []
  room : r.out.length ≤ out.size
  le : r.consumed ≤ min maxIn input.length
  pos : 0 < min maxIn input.length → 0 < r.consumed
  /-- It stopped before the end of the input only where the next record might not fit, or where, after
  the records in `out`, it cannot be sealed. -/
  stop : r.consumed < min maxIn input.length →
    out.size - r.out.length
        < min (tlsAppDataFragment A s) (min maxIn input.length - r.consumed) + s.maxSealOverhead A
      ∨ ∃ s₁ records frags s₂, U.flushPendingHsData s = (true, s₁)
          ∧ r.out = s₁.pendingFlight.rest ++ records ∧ s'.writeSequence = s₂.writeSequence
          ∧ FailedAfter A s₁ out slices maxIn r.consumed records frags s₂

theorem sealed_of_success (h : tlsSealAppData A U s out slicesAddr slices maxIn = (r, s'))
    (hsuccess : r.status = .success) :
    Sealed U s s' out slices (slices.map Slice.bytes).flatten maxIn r := by
  rcases tlsSealAppData_cases h with ⟨-, rfl, -⟩ | ⟨-, -, rfl, -⟩ | ⟨-, pending, hpend, hfits, hrun⟩
  · cases hsuccess
  · cases hsuccess
  rcases hrun with ⟨-, rfl⟩ | ⟨s₁, hs, s₂, frags, res, hflush, hf, hflight, hloop, -, hfin⟩
  · cases hsuccess
  set input := (slices.map Slice.bytes).flatten with hinput
  have hstop := hloop.stop
  rcases finishSeal_cases hloop.checks hfin with ⟨-, -, rfl, -⟩ | ⟨hok, rfl, keyUpdatePending, rfl⟩
  · cases hsuccess
  have hdata : (input.take maxIn).length = min maxIn input.length := List.length_take
  obtain ⟨-, -, hseq, -, ctx₁, ctx', hctx₁, hctx', hopens⟩ := hloop.sealed
  obtain ⟨ctx, hctx, hfront⟩ := hf.opens ctx₁ hctx₁
  rw [hf.extraLen] at hopens
  have hbytes : frags.flatten = input.take res.consumed := hloop.bytes_input
  obtain ⟨hlastSeq, hlastFlight, hlastHs⟩ := hloop.kept
  have hfrag : (callParams A s₁ out maxIn).frag = tlsAppDataFragment A s := hf.fragment
  have hover : (callParams A s₁ out maxIn).overhead = s.maxSealOverhead A := hf.maxSealOverhead
  have hout : (s₁.pendingFlight.rest ++ res.records).length
      = s₁.pendingFlight.rest.length + res.records.length := List.length_append
  refine ⟨rfl, ⟨hs ++ res.records, frags, ctx, ctx', hctx, ?_, hfront _ _ _ hopens, hbytes, ?_, ?_⟩,
    ⟨?_, hlastHs.trans hf.hsData⟩, ?_, ?_, ?_, ?_⟩
  · rw [hf.flight, List.append_assoc]
  · rw [← hfrag]
    exact hloop.full
  · rw [← hf.writeSequence, ← hseq]
    exact hlastSeq
  · show (if s₁.pendingFlight.rest = [] then res.ssl.pendingFlight else .reset).rest = []
    split
    · rw [hlastFlight]
      assumption
    · rfl
  · rw [hout]
    exact hloop.fits
  · rw [← hdata]
    exact hloop.le
  · intro hpos
    -- The first record was found to fit, so a loop that took nothing did not stop for room.
    by_contra hzero
    have hzero : res.consumed = 0 := Nat.eq_zero_of_not_pos hzero
    have hnil : res.records.length = 0 := by rw [(hloop.records_eq_nil hzero).2, List.length_nil]
    rcases hst : res.status <;> rw [hst] at hstop
    · have htight := hstop.2 (by omega)
      rw [hnil, LoopParams.Tight, hfrag, hover, hzero] at htight
      have hroom := (sealFits_iff.mp hfits).2
      have hfragPos : 0 < tlsAppDataFragment A s := (tlsMaxSendFragment_bounds A s).1
      rw [if_neg (by omega)] at hroom
      simp only [callParams] at htight
      omega
    · exact hok ⟨hst, hzero⟩
    · exact hloop.checks hst
  · intro hlt
    dsimp only at hlt ⊢
    rcases hst : res.status <;> rw [hst] at hstop
    · have htight := hstop.2 (by omega)
      rw [LoopParams.Tight, hfrag, hover] at htight
      refine .inl ?_
      rw [hout, ← hdata]
      exact htight
    · exact .inr ⟨s₁, res.records, frags, s₂, hflush, rfl, hlastSeq, hloop.failedAfter hst⟩
    · exact absurd hst hloop.checks

/-! ### The slices -/

/-- The caller's side of the contract: neither the array nor the slices overlap the output, and only
an empty slice may be null. -/
structure Usable (out : OutSpan) (slicesAddr : Nat) (slices : List Slice) : Prop where
  array : buffersAlias slicesAddr (slices.length * ivecSize) out.addr out.size = false
  slices : ∀ s ∈ slices, s.Readable out

/-- Usable slices with the same bytes within the budget are sealed alike. -/
theorem tlsSealAppData_congr_take {addr₁ addr₂ : Nat} {slices₁ slices₂ : List Slice}
    (h₁ : Usable out addr₁ slices₁) (h₂ : Usable out addr₂ slices₂)
    (hsame : (slices₁.map Slice.bytes).flatten.take maxIn
      = (slices₂.map Slice.bytes).flatten.take maxIn) :
    tlsSealAppData A U s out addr₁ slices₁ maxIn = tlsSealAppData A U s out addr₂ slices₂ maxIn := by
  have hrest : (SealInput.new slices₁ maxIn out).rest = (SealInput.new slices₂ maxIn out).rest := by
    rw [rest_new, rest_new, hsame]
  have hle (slices : List Slice) : (SealInput.new slices maxIn out).rest.length ≤ maxIn := by
    rw [rest_new]
    exact List.length_take_le _ _
  have hin : SameInput (SealInput.new slices₁ maxIn out) (SealInput.new slices₂ maxIn out) :=
    ⟨valid_new _ _ _, valid_new _ _ _, h₁.slices, h₂.slices, rfl, hrest⟩
  unfold tlsSealAppData
  rw [h₁.array, h₂.array]
  simp only [Bool.false_eq_true, ↓reduceIte]
  rcases hpend : sealPending A s with _ | pending
  · rfl
  have hfirst : ∀ frag overhead,
      firstRecordFits (SealInput.new slices₁ maxIn out) maxIn frag pending overhead
        = firstRecordFits (SealInput.new slices₂ maxIn out) maxIn frag pending overhead := by
    intro frag overhead
    rw [firstRecordFits_eq (valid_new _ _ _) (hle _), firstRecordFits_eq (valid_new _ _ _) (hle _),
      hrest]
    rfl
  simp only [hfirst]
  by_cases hfits : firstRecordFits (SealInput.new slices₂ maxIn out) maxIn
      (tlsAppDataFragment A s) pending (s.maxSealOverhead A) = true
  case neg => rw [if_pos (by simpa using hfits), if_pos (by simpa using hfits)]
  rw [if_neg (by simpa using hfits), if_neg (by simpa using hfits)]
  rcases hflush : U.flushPendingHsData s with ⟨_ | _, s₁⟩
  · rfl
  dsimp only
  by_cases hbound : pending < s₁.pendingFlight.rest.length
  · rw [if_pos hbound, if_pos hbound]
  rw [if_neg hbound, if_neg hbound]
  obtain ⟨hquic, hnull⟩ : s.isQuic = false ∧ s.isNullCipher A = false := by
    unfold sealPending at hpend
    split at hpend
    · exact tlsCanSealAppData_spec (by assumption)
    · cases hpend
  obtain ⟨sealed, hf⟩ := flush_spec hquic hnull hflush
  rw [firstRecordFits_eq (valid_new _ _ _) (hle _)] at hfits
  have hroom : pending ≤ out.size := (sealFits_iff.mp hfits).1
  rw [sealLoop_congr (p := ⟨out, maxIn, tlsAppDataFragment A s, s.maxSealOverhead A,
    headerLength + explicitNonceLen A s₁, tlsSealBodyIovecBudget A s₁⟩)
    ⟨hf.fragment.symm, hf.maxSealOverhead.symm, rfl, rfl⟩ hin rfl (by dsimp only; omega)
    (hf.isNullCipher.trans hnull)]

/-- Usable slices with the same concatenation are sealed alike. -/
theorem tlsSealAppData_congr {addr₁ addr₂ : Nat} {slices₁ slices₂ : List Slice}
    (h₁ : Usable out addr₁ slices₁) (h₂ : Usable out addr₂ slices₂)
    (hsame : (slices₁.map Slice.bytes).flatten = (slices₂.map Slice.bytes).flatten) :
    tlsSealAppData A U s out addr₁ slices₁ maxIn = tlsSealAppData A U s out addr₂ slices₂ maxIn :=
  tlsSealAppData_congr_take h₁ h₂ (by rw [hsame])

/-- **Sealing fidelity.**  A call that succeeds sealed the queued handshake data and then exactly
the first `consumed` bytes of the input, each record under the next sequence number; and it would
have returned the same from any slices with this concatenation. -/
theorem seal_fidelity (h : tlsSealAppData A U s out slicesAddr slices maxIn = (r, s'))
    (hsuccess : r.status = .success) :
    Sealed U s s' out slices (slices.map Slice.bytes).flatten maxIn r
      ∧ ∀ addr₂ slices₂, (slices₂.map Slice.bytes).flatten = (slices.map Slice.bytes).flatten →
          Usable out slicesAddr slices → Usable out addr₂ slices₂ →
          tlsSealAppData A U s out addr₂ slices₂ maxIn = (r, s') :=
  ⟨sealed_of_success h hsuccess, fun _ _ hsame h₁ h₂ => (tlsSealAppData_congr h₂ h₁ hsame).trans h⟩

end Fidelity

/-- A TLS 1.3 connection under the smallest record size limit, with a three-byte handshake message
queued behind an empty flight. -/
def sampleSsl : SslImpl Unit where
  isDtls := false
  isQuic := false
  hasDoHandshake := true
  inInit := false
  protocolVersion := tls13Version
  recordVersion := 0x0303
  needsRecordSplitting := false
  maxSendFragment := .clamp 512
  writeShutdown := .none
  aeadWriteCtx := some ()
  writeSequence := 7
  writeBuffer := []
  pendingWrite := []
  unreportedBytesWritten := 0
  pendingFlight := .reset
  pendingHsData := some [1, 2, 3]
  keyUpdatePending := true
  writeRecordSizeLimit := ⟨64, .inr (Nat.le_refl _)⟩
  errors := []
  attempts := []

/-- Two slices, and a null one of no bytes between them. -/
def sampleSlices : List Slice := [⟨some 100, [10, 11]⟩, ⟨none, []⟩, ⟨some 200, [12]⟩]

/-- The slices become one record behind the queued message. -/
theorem seal_fidelity_two_slices :
    let call := tlsSealAppData Aead.tagOnly (.behindFlight _) sampleSsl ⟨1000, 200⟩ 0 sampleSlices 64
    call.1.consumed = 3 ∧ call.2.writeSequence = 9
      ∧ Sealed (.behindFlight Aead.tagOnly) sampleSsl call.2 ⟨1000, 200⟩ sampleSlices [10, 11, 12] 64
          call.1 := by
  intro call
  have hcall : tlsSealAppData Aead.tagOnly (.behindFlight _) sampleSsl ⟨1000, 200⟩ 0 sampleSlices 64
      = (call.1, call.2) := rfl
  exact ⟨rfl, rfl, (seal_fidelity hcall rfl).1⟩

end Btls.Seal
