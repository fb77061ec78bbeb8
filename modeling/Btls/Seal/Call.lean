import Btls.Seal.Run

/-!
# Seal — Call

Everything one call of `tls_seal_app_data` can do (`tlsSealAppData_cases`): reject an aliased slice
array, decline, fail to flush the queued handshake data, or run the loop behind the flight.

The call decides on the state before the flush and seals in the one after it, so the two must agree
on the fragment, the overhead and what is hidden in a record (`FlushedAs`): the flush seals records
of its own, but changes no key and no limit.  `FirstFits` is the condition to go on, and the room
that it asks for is what the loop then has.

`FailedAfter` is the failure of a record of this very call: the records before it, sealed from the
state after the flush, and the next one, which cannot be sealed in the state that they left.
-/

namespace Btls.Seal

open Btls.Support Btls.Support.Slices Btls.Tls

section Call

variable {κ ρ : Type} {A : Aead κ ρ} {s s₁ s₂ s' : SslImpl κ}

/-! ### What the call decides on -/

/-- What fits, without the subtractions. -/
theorem sealFits_iff {room pending n overhead : Nat} :
    sealFits room pending n overhead = true
      ↔ pending ≤ room ∧ (if n = 0 then 0 else n + overhead) ≤ room - pending := by
  simp [sealFits]

/-- A shorter record fits too. -/
theorem sealFits_mono {room pending m n overhead : Nat} (h : m ≤ n)
    (hfits : sealFits room pending n overhead = true) :
    sealFits room pending m overhead = true := by
  rw [sealFits_iff] at hfits ⊢
  split <;> split at hfits <;> omega

/-- A new input has all that may be read before it. -/
theorem rest_new (slices : List Slice) (maxIn : Nat) (out : OutSpan) :
    (SealInput.new slices maxIn out).rest = (slices.map Slice.bytes).flatten.take maxIn := by
  rw [SealInput.rest, SealInput.unread, SealInput.new, unread_zero]

/-- Nothing is read yet. -/
theorem unread_new (slices : List Slice) (maxIn : Nat) (out : OutSpan) :
    (SealInput.new slices maxIn out).unread = (slices.map Slice.bytes).flatten.drop 0 := by
  rw [SealInput.unread, SealInput.new, unread_zero, List.drop_zero]

/-- And its cursor at the start. -/
theorem valid_new (slices : List Slice) (maxIn : Nat) (out : OutSpan) :
    (SealInput.new slices maxIn out).Valid := within_zero

/-- The test for the first record is the same however much `maxIn` overstates the input. -/
theorem firstRecordFits_eq {input : SealInput} (hv : input.Valid) {maxIn frag pending overhead : Nat}
    (hle : input.rest.length ≤ maxIn) :
    firstRecordFits input maxIn frag pending overhead
      = sealFits input.out.size pending (min frag input.rest.length) overhead := by
  unfold firstRecordFits
  simp only [available_eq hv]
  rw [show min (min frag maxIn) input.rest.length = min frag input.rest.length by omega]
  split
  · rename_i h
    exact (sealFits_mono (by omega) h).symm
  · rfl

/-- Nothing is sealed in place in QUIC, or without keys. -/
theorem tlsCanSealAppData_spec (h : tlsCanSealAppData A s = true) :
    s.isQuic = false ∧ s.isNullCipher A = false := by
  simp only [tlsCanSealAppData, Bool.and_eq_true, Bool.not_eq_true'] at h
  exact ⟨h.1.1.1.1.1.1.1.1.1.2, h.1.1.1.1.2⟩

/-! ### The queued handshake data -/

/-- The queued handshake data, as the record it becomes. -/
def hsPlain (s : SslImpl κ) : List (UInt8 × Bytes) :=
  if s.hsData = [] then [] else [(rtHandshake, s.hsData)]

/-- From `s` to `s₁` the queued handshake data was sealed at the end of the pending flight, as
`sealed`. -/
structure FlushedAs (A : Aead κ ρ) (s s₁ : SslImpl κ) (sealed : Bytes) : Prop where
  frame : ∃ s₂ pendingHsData pendingFlight, SealFrame A s s₂
    ∧ s₁ = { s₂ with pendingHsData, pendingFlight }
  hsData : s₁.hsData = []
  flight : s₁.pendingFlight.rest = s.pendingFlight.rest ++ sealed
  length_le : sealed.length ≤ if s.hsData = [] then 0 else s.hsData.length + s.maxSealOverhead A
  writeSequence : s₁.writeSequence = s.writeSequence + (hsPlain s).length
  errors : s₁.errors = s.errors
  opens : ∀ ctx₁, s₁.aeadWriteCtx = some ctx₁ → ∃ ctx, s.aeadWriteCtx = some ctx
    ∧ ∀ bytes plain ctx', Opens A (s.extraLen A) ctx₁ s₁.writeSequence bytes plain ctx' →
        Opens A (s.extraLen A) ctx s.writeSequence (sealed ++ bytes) (hsPlain s ++ plain) ctx'

/-- The queued handshake data is sealed behind the flight. -/
theorem flush_spec {U : Upstream A} (hquic : s.isQuic = false) (hnull : s.isNullCipher A = false)
    (h : U.flushPendingHsData s = (true, s₁)) : ∃ sealed, FlushedAs A s s₁ sealed := by
  by_cases hnil : s.hsData = []
  · rw [U.flush_nothing s hquic hnil] at h
    obtain ⟨-, rfl⟩ := Prod.mk.inj h
    have hplain : hsPlain s = [] := if_pos hnil
    refine ⟨[], ⟨s, _, _, .refl s, rfl⟩, hnil, by simp, by simp, by simp [hplain], rfl, ?_⟩
    exact fun ctx hctx => ⟨ctx, hctx, fun _ _ _ hopen => by simpa [hplain] using hopen⟩
  obtain ⟨pre, o, suf, inp, record, s₂, hseal, rfl⟩ := U.flush_ok s s₁ hquic hnil h
  have hframe := doSealRecordIov_frame hseal
  obtain ⟨hseq, herr, -, hlen, ctx, ctx₁, hctx, hctx₁, hopen⟩ :=
    doSealRecordIov_some hnull (by rw [join_singleton]) hseal
  have hplain : hsPlain s = [(rtHandshake, s.hsData)] := if_neg hnil
  refine ⟨record, ⟨s₂, _, _, hframe, rfl⟩, rfl, by simp, by rwa [if_neg hnil], ?_, herr, ?_⟩
  · rw [hplain]
    exact hseq
  · intro ctx₁' hctx₁'
    obtain rfl : ctx₁ = ctx₁' := Option.some.inj (hctx₁.symm.trans hctx₁')
    simp only [join_singleton] at hopen
    refine ⟨ctx, hctx, fun bytes plain ctx' hrest => ?_⟩
    rw [hplain]
    simp only [hseq] at hrest
    exact .cons hopen hrest

namespace FlushedAs

variable {sealed : Bytes} (h : FlushedAs A s s₁ sealed)
include h

/-- The flush changes no key, -/
theorem cipher : s₁.cipher A = s.cipher A := by
  obtain ⟨s₂, _, _, hframe, rfl⟩ := h.frame
  exact hframe.cipher

/-- so it does not lose one; -/
theorem isNullCipher : s₁.isNullCipher A = s.isNullCipher A := by
  simp only [SslImpl.isNullCipher, h.cipher]

/-- nor the fragment, -/
theorem fragment : tlsAppDataFragment A s₁ = tlsAppDataFragment A s := by
  obtain ⟨s₂, _, _, hframe, rfl⟩ := h.frame
  exact hframe.fragment

/-- nor the overhead, -/
theorem maxSealOverhead : s₁.maxSealOverhead A = s.maxSealOverhead A := by
  obtain ⟨s₂, _, _, hframe, rfl⟩ := h.frame
  exact hframe.maxSealOverhead

/-- nor what is hidden in a record besides its plaintext. -/
theorem extraLen : s₁.extraLen A = s.extraLen A := by
  obtain ⟨s₂, _, _, hframe, rfl⟩ := h.frame
  exact hframe.extraLen

end FlushedAs

/-- The pending length bounds the flight with the queued data sealed. -/
theorem FlushedAs.flight_le {sealed : Bytes} (h : FlushedAs A s s₁ sealed) {pending : Nat}
    (hp : tlsSealAppDataPendingLen A s = some pending) :
    s₁.pendingFlight.rest.length ≤ pending := by
  have hlen := h.length_le
  have hoff := s.pendingFlight.offset_le
  rw [h.flight, List.length_append, PendingFlight.rest, List.length_drop]
  unfold tlsSealAppDataPendingLen at hp
  by_cases hnil : s.hsData = []
  · rw [if_pos hnil] at hlen
    simp only [hnil, List.length_nil, ne_eq, not_true_eq_false, ↓reduceIte, Option.some.injEq] at hp
    omega
  · rw [if_neg hnil] at hlen
    have hpos : s.hsData.length ≠ 0 := fun hz => hnil (List.length_eq_zero_iff.mp hz)
    simp only [if_pos hpos, Option.bind_eq_some_iff, checkedAdd_eq_some] at hp
    obtain ⟨n, ⟨-, rfl⟩, -, rfl⟩ := hp
    omega

/-! ### The call -/

/-- The output holds the pending records and the first record of `data`. -/
def FirstFits (A : Aead κ ρ) (s : SslImpl κ) (out : OutSpan) (data : Bytes) (pending : Nat) : Prop :=
  sealFits out.size pending (min (tlsAppDataFragment A s) data.length) (s.maxSealOverhead A) = true

/-- The loop's parameters after the flush. -/
def callParams (A : Aead κ ρ) (s₁ : SslImpl κ) (out : OutSpan) (maxIn : Nat) : LoopParams :=
  ⟨out, maxIn, tlsAppDataFragment A s₁, s₁.maxSealOverhead A, headerLength + explicitNonceLen A s₁,
    tlsSealBodyIovecBudget A s₁⟩

/-- They are those of the state that they are read from. -/
theorem callParams_for (A : Aead κ ρ) (s₁ : SslImpl κ) (out : OutSpan) (maxIn : Nat) :
    (callParams A s₁ out maxIn).For A s₁ := ⟨rfl, rfl, rfl, rfl⟩

/-- The pending records can be counted only where sealing may begin. -/
theorem sealPending_spec {pending : Nat} (h : sealPending A s = some pending) :
    tlsCanSealAppData A s = true ∧ tlsSealAppDataPendingLen A s = some pending := by
  unfold sealPending at h
  split at h
  · exact ⟨by assumption, h⟩
  · cases h

/-- The flight fits where the first record does. -/
theorem pending_le_of_fits {input : SealInput} {maxIn frag pending overhead : Nat}
    (h : firstRecordFits input maxIn frag pending overhead = true) : pending ≤ input.out.size := by
  unfold firstRecordFits at h
  simp only at h
  split at h
  · exact (sealFits_iff.mp (by assumption)).1
  · exact (sealFits_iff.mp h).1

/-- The flush does not change the loop's parameters. -/
theorem FlushedAs.callParams_eq {sealed : Bytes} (h : FlushedAs A s s₁ sealed) (out : OutSpan)
    (maxIn : Nat) : (⟨out, maxIn, tlsAppDataFragment A s, s.maxSealOverhead A,
      headerLength + explicitNonceLen A s₁, tlsSealBodyIovecBudget A s₁⟩ : LoopParams)
        = callParams A s₁ out maxIn := by
  rw [callParams, h.fragment, h.maxSealOverhead]

/-- A call that found `s₁` after the flush sealed the first `consumed` bytes of its input as `frags`, behind
the flight, and then, in `s₂`, came to a record that cannot be sealed. -/
structure FailedAfter (A : Aead κ ρ) (s₁ : SslImpl κ) (out : OutSpan) (slices : List Slice)
    (maxIn consumed : Nat) (records : Bytes) (frags : List Bytes) (s₂ : SslImpl κ) : Prop where
  run : sealFrags A s₁ (out.addr + s₁.pendingFlight.rest.length) frags = some (records, s₂)
  bytes : frags.flatten = (slices.map Slice.bytes).flatten.take consumed
  full : Full (tlsAppDataFragment A s₁) frags
  cannot : CannotSeal A s₂ out slices consumed
    (out.addr + (s₁.pendingFlight.rest.length + records.length))
    ((((slices.map Slice.bytes).flatten.take maxIn).drop consumed).take (tlsAppDataFragment A s₁))

/-- The records were not one too few: no more of the input could be sealed behind them. -/
theorem FailedAfter.all {out : OutSpan} {slices : List Slice} {maxIn consumed : Nat} {records : Bytes}
    {frags : List Bytes} (h : FailedAfter A s₁ out slices maxIn consumed records frags s₂)
    (hseq : s₂.writeSequence ≠ usizeMax) (hread : ∀ slice ∈ slices, slice.Readable out) :
    sealFrags A s₁ (out.addr + s₁.pendingFlight.rest.length) (frags
      ++ [(((slices.map Slice.bytes).flatten.take maxIn).drop consumed).take (tlsAppDataFragment A s₁)])
        = none := by
  have hnone := (h.cannot.cipher hseq hread).2
  rw [← Nat.add_assoc] at hnone
  rw [sealFrags_append, h.run, Option.bind_some]
  dsimp only
  rw [sealFrags]
  rcases hone : sealInPlace A s₂ (out.addr + s₁.pendingFlight.rest.length + records.length) _ with
    ⟨_ | record, s₃⟩
  · rfl
  · rw [hone] at hnone
    cases hnone

namespace LoopSpec

variable {out : OutSpan} {slices : List Slice} {maxIn : Nat} {res : LoopResult κ} {frags : List Bytes}
  (h : LoopSpec A (callParams A s₁ out maxIn) slices 0 s₁.pendingFlight.rest.length
    ((slices.map Slice.bytes).flatten.take maxIn) s₁ res s₂ frags)
include h

/-- What is sealed is the start of the input. -/
theorem bytes_input : frags.flatten = (slices.map Slice.bytes).flatten.take res.consumed := by
  have hle := h.le
  rw [List.length_take] at hle
  rw [h.bytes, List.take_take, List.take_eq_take_iff]
  omega

/-- **A loop that failed came to a record that cannot be sealed.** -/
theorem failedAfter (hst : res.status = .failed) :
    FailedAfter A s₁ out slices maxIn res.consumed res.records frags s₂ := by
  have hstop := h.stop
  rw [hst] at hstop
  obtain ⟨-, -, hcannot⟩ := hstop
  rw [Nat.zero_add] at hcannot
  exact ⟨h.run, h.bytes_input, h.full, hcannot⟩

end LoopSpec

/-- **Everything a call can do.** -/
theorem tlsSealAppData_cases {U : Upstream A} {out : OutSpan} {slicesAddr maxIn : Nat}
    {slices : List Slice} {r : SealReturn}
    (h : tlsSealAppData A U s out slicesAddr slices maxIn = (r, s')) :
    let data := (slices.map Slice.bytes).flatten.take maxIn
    let aliased := buffersAlias slicesAddr (slices.length * ivecSize) out.addr out.size
    (aliased = true ∧ r = ⟨.error, [], 0⟩ ∧ s' = s.putError .outputAliasesInput)
      ∨ (aliased = false ∧ (∀ pending, sealPending A s = some pending →
            ¬ FirstFits A s out data pending) ∧ r = ⟨.declined, [], 0⟩ ∧ s' = s)
      ∨ (aliased = false ∧ ∃ pending, sealPending A s = some pending
          ∧ FirstFits A s out data pending
          ∧ ((U.flushPendingHsData s = (false, s') ∧ r = ⟨.error, [], 0⟩)
            ∨ ∃ s₁ sealed s₂ frags res, U.flushPendingHsData s = (true, s₁)
                ∧ FlushedAs A s s₁ sealed
                ∧ s₁.pendingFlight.rest.length ≤ pending
                ∧ LoopSpec A (callParams A s₁ out maxIn) slices 0 s₁.pendingFlight.rest.length data
                    s₁ res s₂ frags
                ∧ res = sealLoop A (callParams A s₁ out maxIn) maxIn
                    (SealInput.new slices maxIn out) s₁.pendingFlight.rest.length 0 s₁
                ∧ (r, s') = finishSeal s₁.pendingFlight.rest res)) := by
  intro data aliased
  have hdata : (SealInput.new slices maxIn out).rest = data := rest_new slices maxIn out
  have hout : (SealInput.new slices maxIn out).out = out := rfl
  have hle : data.length ≤ maxIn := List.length_take_le _ _
  unfold tlsSealAppData at h
  -- The cases are the returns of the source, in its order.
  rcases halias : aliased with _ | _
  case true =>
    rw [if_pos halias] at h
    obtain ⟨rfl, rfl⟩ := Prod.mk.inj h
    exact .inl ⟨rfl, rfl, rfl⟩
  rw [if_neg (by rw [Bool.not_eq_true]; exact halias)] at h
  refine .inr ?_
  rcases hpend : sealPending A s with _ | pending <;> simp only [hpend] at h
  · obtain ⟨rfl, rfl⟩ := Prod.mk.inj h
    exact .inl ⟨rfl, nofun, rfl, rfl⟩
  rw [firstRecordFits_eq (valid_new slices maxIn out) (by rw [hdata]; exact hle), hdata, hout] at h
  by_cases hfits : FirstFits A s out data pending
  case neg =>
    have hno : (!sealFits out.size pending (min (tlsAppDataFragment A s) data.length)
        (s.maxSealOverhead A)) = true := by
      rwa [Bool.not_eq_true', ← Bool.not_eq_true]
    rw [if_pos hno] at h
    obtain ⟨rfl, rfl⟩ := Prod.mk.inj h
    refine .inl ⟨rfl, fun pending' hp => ?_, rfl, rfl⟩
    obtain rfl := Option.some.inj hp
    exact hfits
  have hyes : ¬ (!sealFits out.size pending (min (tlsAppDataFragment A s) data.length)
      (s.maxSealOverhead A)) = true := by
    rw [Bool.not_eq_true', Bool.not_eq_false]
    exact hfits
  rw [if_neg hyes] at h
  refine .inr ⟨rfl, pending, rfl, hfits, ?_⟩
  -- From here on it seals, so a flush comes first; it keeps the parameters of the loop.
  have hcan := sealPending_spec hpend
  obtain ⟨hquic, hnull⟩ := tlsCanSealAppData_spec hcan.1
  rcases hflush : U.flushPendingHsData s with ⟨_ | _, s₁⟩ <;> simp only [hflush] at h
  · obtain ⟨rfl, rfl⟩ := Prod.mk.inj h
    exact .inl ⟨rfl, rfl⟩
  obtain ⟨sealed, hf⟩ := flush_spec hquic hnull hflush
  have hflight := hf.flight_le hcan.2
  rw [if_neg (by omega)] at h
  rw [hf.callParams_eq out maxIn] at h
  have hpos : s₁.pendingFlight.rest.length ≤ out.size :=
    Nat.le_trans hflight (sealFits_iff.mp hfits).1
  obtain ⟨s₂, frags, hloop⟩ := sealLoop_spec
    (callParams_for A s₁ out maxIn) (hf.isNullCipher.trans hnull) (valid_new slices maxIn out) rfl
    (unread_new slices maxIn out) hpos (show _ ≤ maxIn - 0 by rw [hdata]; exact hle)
    (show maxIn - 0 ≤ maxIn from Nat.sub_le _ _)
  rw [hdata] at hloop
  exact .inr ⟨s₁, sealed, s₂, frags, _, rfl, hf, hflight, hloop, rfl, h.symm⟩

end Call

end Btls.Seal
