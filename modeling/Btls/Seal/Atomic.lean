import Btls.Seal.Fidelity

/-!
# Seal — Atomic

What a call of `tls_seal_app_data` leaves behind, for each way it can end (`seal_atomic`).

* Where it declines, the state is the one before it; and it declines exactly where it may not seal,
  where the pending length overflows, or where the output does not hold the flight and the first
  record.
* Where it fails, nothing is handed over, no sequence number of application data was used, and the
  flight is queued whole, so that a later write sends it once.
* Where a record after the first cannot be sealed, the call succeeds with the records before it,
  queues no error, and leaves the next call to begin with the first byte that was not sealed.

The cases are those of `tlsSealAppData_cases`; which record it was that failed is `FailedAfter`.
-/

namespace Btls.Seal

open Btls.Support Btls.Tls

section Atomic

variable {κ ρ : Type} {A : Aead κ ρ} {U : Upstream A} {s s' : SslImpl κ} {out : OutSpan}
  {slicesAddr maxIn : Nat} {slices : List Slice} {r : SealReturn}

/-- Only `SSL_write` can write now: the state cannot seal, the pending length overflows, or the
output cannot hold the pending records and the first record of `data`. -/
def Declines (A : Aead κ ρ) (s : SslImpl κ) (out : OutSpan) (data : Bytes) : Prop :=
  tlsCanSealAppData A s = false ∨ tlsSealAppDataPendingLen A s = none
    ∨ ∃ pending, tlsSealAppDataPendingLen A s = some pending
        ∧ out.size < pending + (if data = [] then 0
            else min (tlsAppDataFragment A s) data.length + s.maxSealOverhead A)

/-- `s'` has the flight and the sequence number of `s₁`. -/
def Unsent (s₁ s' : SslImpl κ) : Prop :=
  s'.writeSequence = s₁.writeSequence ∧ s'.pendingFlight = s₁.pendingFlight
    ∧ s'.hsData = s₁.hsData

theorem firstFits_iff {data : Bytes} {pending : Nat} :
    FirstFits A s out data pending ↔ pending + (if data = [] then 0
      else min (tlsAppDataFragment A s) data.length + s.maxSealOverhead A) ≤ out.size := by
  have hfrag : 0 < tlsAppDataFragment A s := (tlsMaxSendFragment_bounds A s).1
  rw [FirstFits, sealFits_iff]
  by_cases hnil : data = []
  · subst hnil
    rw [List.length_nil, Nat.min_zero, if_pos rfl, if_pos rfl]
    omega
  · have hlen := List.length_pos_iff.mpr hnil
    rw [if_neg (by omega), if_neg hnil]
    omega

theorem declines_iff {data : Bytes} :
    Declines A s out data
      ↔ ∀ pending, sealPending A s = some pending → ¬ FirstFits A s out data pending := by
  unfold Declines sealPending
  rcases hcan : tlsCanSealAppData A s with _ | _
  · simp
  rcases hpend : tlsSealAppDataPendingLen A s with _ | pending
  · simp
  simp [firstFits_iff]

/-- What a call that declines, fails or stops short leaves behind. -/
structure Atomic (U : Upstream A) (s s' : SslImpl κ) (out : OutSpan) (slicesAddr : Nat)
    (slices : List Slice) (maxIn : Nat) (r : SealReturn) : Prop where
  /-- No `BSSL_CHECK` fails. -/
  checks : r.status ≠ .checkFailed
  declined : r.status = .declined → s' = s ∧ r.out = [] ∧ r.consumed = 0
  declines : buffersAlias slicesAddr (slices.length * ivecSize) out.addr out.size = false →
    (r.status = .declined ↔ Declines A s out ((slices.map Slice.bytes).flatten.take maxIn))
  /-- An error hands nothing over.  Beside a failed flush, it comes from an aliased slice array or
  from a first record that cannot be sealed, uses no sequence number after the flush's, and keeps the
  flight queued whole. -/
  error : r.status = .error → r.out = [] ∧ r.consumed = 0
    ∧ (U.flushPendingHsData s = (false, s')
      ∨ (buffersAlias slicesAddr (slices.length * ivecSize) out.addr out.size = true ∧ Unsent s s')
      ∨ ∃ s₁, U.flushPendingHsData s = (true, s₁) ∧ s₁.hsData = [] ∧ Unsent s₁ s'
          ∧ FailedAfter A s₁ out slices maxIn 0 [] [] s₁)
  /-- The next call that succeeds sends the flight, and leaves none of it. -/
  resent : r.status = .error → ∀ out₂ addr₂ slices₂ maxIn₂ r₂ s₂,
    tlsSealAppData A U s' out₂ addr₂ slices₂ maxIn₂ = (r₂, s₂) → r₂.status = .success →
      Sealed U s' s₂ out₂ slices₂ (slices₂.map Slice.bytes).flatten maxIn₂ r₂
  /-- A success is exactly the records sealed, one after another.  It ends with the input or the room, and
  leaves the errors alone; or, with a record handed over, at the next one, which cannot be sealed, and then
  no error is left, and the next sequence number is the one that the failure did not use. -/
  success : r.status = .success → ∃ s₁ s₂ records frags,
    U.flushPendingHsData s = (true, s₁) ∧ SealedAs A s₁ s₂ records frags
      ∧ sealFrags A s₁ (out.addr + s₁.pendingFlight.rest.length) frags = some (records, s₂)
      ∧ r.out = s₁.pendingFlight.rest ++ records
      ∧ frags.flatten = (slices.map Slice.bytes).flatten.take r.consumed
      ∧ frags.flatten.length = r.consumed
      ∧ s'.writeSequence = s₂.writeSequence
      ∧ ((s'.errors = s.errors
            ∧ (r.consumed = min maxIn (slices.map Slice.bytes).flatten.length
              ∨ out.size - r.out.length < min (tlsAppDataFragment A s)
                  (min maxIn (slices.map Slice.bytes).flatten.length - r.consumed)
                + s.maxSealOverhead A))
          ∨ frags ≠ [] ∧ s'.errors = []
            ∧ FailedAfter A s₁ out slices maxIn r.consumed records frags s₂)

/-- **Atomicity.** -/
theorem seal_atomic (h : tlsSealAppData A U s out slicesAddr slices maxIn = (r, s')) :
    Atomic U s s' out slicesAddr slices maxIn r := by
  have hchecks := status_ne_checkFailed h
  have hresent : ∀ out₂ addr₂ slices₂ maxIn₂ r₂ s₂,
      tlsSealAppData A U s' out₂ addr₂ slices₂ maxIn₂ = (r₂, s₂) → r₂.status = .success →
        Sealed U s' s₂ out₂ slices₂ (slices₂.map Slice.bytes).flatten maxIn₂ r₂ :=
    fun _ _ _ _ _ _ => sealed_of_success
  rcases tlsSealAppData_cases h with ⟨halias, rfl, rfl⟩ | ⟨halias, hno, rfl, rfl⟩ |
    ⟨halias, pending, hpend, hfits, hrun⟩
  · refine ⟨hchecks, nofun, fun hok => ?_, fun _ => ⟨rfl, rfl, .inr (.inl ⟨halias, rfl, rfl, rfl⟩)⟩,
      fun _ => hresent, nofun⟩
    rw [halias] at hok
    cases hok
  · exact ⟨hchecks, fun _ => ⟨rfl, rfl, rfl⟩, fun _ => ⟨fun _ => declines_iff.mpr hno, fun _ => rfl⟩,
      nofun, nofun, nofun⟩
  have hdeclines : ¬ Declines A s out ((slices.map Slice.bytes).flatten.take maxIn) :=
    fun hd => declines_iff.mp hd pending hpend hfits
  rcases hrun with ⟨hflush, rfl⟩ | ⟨s₁, sealed, s₂, frags, res, hflush, hf, -, hloop, -, hfin⟩
  · exact ⟨hchecks, nofun, fun _ => ⟨nofun, fun hd => absurd hd hdeclines⟩,
      fun _ => ⟨rfl, rfl, .inl hflush⟩, fun _ => hresent, nofun⟩
  have hstop := hloop.stop
  have hsealed := hloop.sealed
  obtain ⟨-, herr, hseq, -⟩ := hloop.sealed
  rcases finishSeal_cases hloop.checks hfin with ⟨hfailed, hzero, rfl, rfl⟩ | ⟨hok, rfl, k, rfl⟩
  · -- The first record failed, so nothing was sealed after the flush.
    obtain ⟨rfl, hrecords⟩ := hloop.records_eq_nil hzero
    have hfirst := hloop.failedAfter hfailed
    rw [hzero, hrecords] at hfirst
    obtain rfl : s₁ = s₂ := (Prod.mk.inj (Option.some.inj hfirst.run)).2
    have hunsent : Unsent s₁ res.ssl :=
      ⟨hloop.kept.1.trans hseq, hloop.kept.2.1, hloop.kept.2.2⟩
    exact ⟨hchecks, nofun, fun _ => ⟨nofun, fun hd => absurd hd hdeclines⟩,
      fun _ => ⟨rfl, rfl, .inr (.inr ⟨s₁, hflush, hf.hsData, hunsent, hfirst⟩)⟩,
      fun _ => hresent, nofun⟩
  · refine ⟨hchecks, nofun, fun _ => ⟨nofun, fun hd => absurd hd hdeclines⟩, nofun, nofun, fun _ =>
      ⟨s₁, s₂, res.records, frags, hflush, hsealed, hloop.run, rfl, hloop.bytes_input, ?_, ?_, ?_⟩⟩
    · rw [hloop.bytes, List.length_take]
      exact Nat.min_eq_left hloop.le
    · exact hloop.kept.1
    · rcases hst : res.status <;> rw [hst] at hstop
      · refine .inl ⟨?_, ?_⟩
        · show (if LoopStatus.ended = .failed then [] else res.ssl.errors) = s.errors
          rw [if_neg (by decide), hstop.1, herr, hf.errors]
        · have hdata : ((slices.map Slice.bytes).flatten.take maxIn).length
              = min maxIn (slices.map Slice.bytes).flatten.length := List.length_take
          rw [← hdata, List.length_append, ← hf.fragment, ← hf.maxSealOverhead]
          exact (Nat.eq_or_lt_of_le hloop.le).imp_right hstop.2
      · refine .inr ⟨?_, rfl, hloop.failedAfter hst⟩
        rintro rfl
        have hbytes := congrArg List.length hloop.bytes
        rw [List.flatten_nil, List.length_nil, List.length_take] at hbytes
        have hle := hloop.le
        exact hok ⟨hst, by omega⟩
      · exact absurd hst hloop.checks

end Atomic

/-- A full record, and then a slice that cannot be read. -/
def shortSlices : List Slice := [⟨some 2000, List.replicate 63 9⟩, ⟨none, [1]⟩]

def shortCall : SealReturn × SslImpl Unit :=
  tlsSealAppData Aead.tagOnly (.behindFlight _) sampleSsl ⟨1000, 200⟩ 0 shortSlices 64

/-- The first record is handed over, and no error is left. -/
theorem seal_atomic_short :
    shortCall.1.consumed = 63 ∧ shortCall.2.errors = []
      ∧ Atomic (.behindFlight Aead.tagOnly) sampleSsl shortCall.2 ⟨1000, 200⟩ 0 shortSlices 64
          shortCall.1 :=
  ⟨by decide +kernel, by decide +kernel, seal_atomic (Prod.eta shortCall)⟩

end Btls.Seal
