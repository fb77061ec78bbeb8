import Btls.Seal.AppData

/-!
# Seal — Run

What one record and the whole loop do, in terms of the input's bytes.

A record sealed from a plan is the record sealed from the same bytes in one piece
(`doSealRecordIov_placed`): the sealer's checks pass whatever the plan gathers.  So the slices show
in the result only through their concatenation, and where they cannot be read.

* `sealRecord_spec`: one record seals the next bytes of the input and moves the cursor past them, or
  the input has ended, or the record of just these bytes cannot be sealed (`CannotSeal`): it has no
  sequence number, some of it cannot be read, or the cipher fails.
* `LoopSpec` is what the loop seals: records of full fragments but the last, one behind the other,
  of exactly the bytes that it reports, and why it stopped where it did.
* `sealLoop_fuel`: the loop ends by itself, so the model's fuel is no bound.
* `sealLoop_congr`: two readable inputs with the same bytes to read are sealed alike.
-/

namespace Btls.Seal

open Btls.Support Btls.Support.Slices Btls.Tls

section Record

variable {κ ρ : Type} {A : Aead κ ρ} {s s' : SslImpl κ}

/-! ### A plan passes the sealer's checks -/

/-- Ranges outside the output, or in the tiled body, overlap nothing else of the record. -/
theorem aliasesRecord_placed {out : OutSpan} {pre nonceLen sufLen budget : Nat} {taken : Bytes}
    {vs : List Iovec} (h : Placed out (pre + nonceLen) budget taken vs) (hpre : out.addr ≤ pre)
    (hsuf : pre + nonceLen + taken.length + sufLen ≤ out.addr + out.size) :
    aliasesRecord pre nonceLen vs (pre + nonceLen + taken.length) sufLen = false := by
  rw [aliasesRecord, List.any_eq_false]
  intro v hv
  have hhead : (vs.head?.map Iovec.out).getD 0 = pre + nonceLen := by
    cases vs with
    | nil => cases hv
    | cons w ws => exact h.tiles.1
  obtain ⟨hlo, hhi⟩ := h.tiles.within hv
  simp only [hhead, h.joined] at hhi ⊢
  rcases h.apart v hv with hin | hout
  · simp only [hin, buffersAlias, bne_self_eq_false, Bool.false_and, Bool.false_or,
      Bool.not_eq_true, Bool.or_eq_false_iff, Bool.and_eq_false_iff, decide_eq_false_iff_not]
    omega
  · simp only [buffersAlias, Bool.and_eq_false_iff, decide_eq_false_iff_not] at hout
    simp only [buffersAlias, Bool.not_eq_true, Bool.or_eq_false_iff, Bool.and_eq_false_iff,
      decide_eq_false_iff_not]
    omega

/-- The planner's budget leaves a slot for the inner content type. -/
theorem tlsSealBodyIovecBudget_bounds (s : SslImpl κ) (p : AeadParams) (type : UInt8) :
    0 < tlsSealBodyIovecBudget A s
      ∧ tlsSealBodyIovecBudget A s
          + (if (p.extraIn s.protocolVersion type).length ≠ 0 then 1 else 0) ≤ kSealMaxIovecs := by
  have hextra : (if (p.extraIn s.protocolVersion type).length ≠ 0 then 1 else 0)
      ≤ if tls13Version ≤ s.protocolVersion then 1 else 0 := by
    rw [AeadParams.length_extraIn, AeadParams.extraLen]
    by_cases h : tls13Version ≤ s.protocolVersion <;> cases p.isNullCipher <;> simp [h]
  unfold tlsSealBodyIovecBudget kSealMaxIovecs
  by_cases h : tls13Version ≤ s.protocolVersion <;> simp only [h, if_true, if_false] at hextra ⊢ <;>
    split <;> omega

variable {out : OutSpan} {o : Nat} {taken : Bytes} {vs : List Iovec}

/-- A planned body passes the sealer's checks, which then sees only what the body joins to. -/
theorem sealScatterv_placed (ty : UInt8) {ctx : κ} (hctx : s.aeadWriteCtx = some ctx) (hpre : out.addr ≤ o)
    (hroom : o + (taken.length + s.maxSealOverhead A) ≤ out.addr + out.size)
    (h : Placed out (o + (headerLength + explicitNonceLen A s)) (tlsSealBodyIovecBudget A s)
      taken vs) (ad : RecordAd) :
    sealScatterv A ctx (o + headerLength) vs
        (o + (headerLength + explicitNonceLen A s) + taken.length) ad
        ((A.params ctx).extraIn s.protocolVersion ty)
      = match A.suffixLen (A.params ctx) taken.length
          ((A.params ctx).extraIn s.protocolVersion ty).length with
        | none => (.error [.recordTooLarge], ctx)
        | some _ =>
            if (A.params ctx).isNullCipher then
              (.ok ⟨[], taken, (A.params ctx).extraIn s.protocolVersion ty⟩, ctx)
            else A.sealv ctx ad taken ((A.params ctx).extraIn s.protocolVersion ty) := by
  have hcipher : s.cipher A = some (A.params ctx) := by simp [SslImpl.cipher, hctx]
  have hnonce : explicitNonceLen A s = (A.params ctx).explicitNonceLen := by
    simp [explicitNonceLen, hcipher]
  have hover : s.maxSealOverhead A = A.maxSealOverhead (A.params ctx) s.protocolVersion := by
    simp [SslImpl.maxSealOverhead, hcipher]
  have hmany : tooManyIovecs vs ((A.params ctx).extraIn s.protocolVersion ty) = false := by
    have hslots := h.slots
    have hbudget := (tlsSealBodyIovecBudget_bounds (A := A) s (A.params ctx) ty).2
    rw [tooManyIovecs, decide_eq_false_iff_not]
    omega
  unfold sealScatterv
  rw [hmany, h.joined]
  simp only [Bool.false_eq_true, ↓reduceIte]
  rcases hk : A.suffixLen (A.params ctx) taken.length
    ((A.params ctx).extraIn s.protocolVersion ty).length with _ | k
  · rfl
  have hk' := A.overhead_spec _ s.protocolVersion _ _ (AeadParams.length_extraIn _ _ ty ▸ hk)
  have halias : aliasesRecord (o + headerLength) (A.params ctx).explicitNonceLen vs
      (o + (headerLength + explicitNonceLen A s) + taken.length) k = false := by
    rw [hnonce, ← Nat.add_assoc] at h ⊢
    exact aliasesRecord_placed h (by omega) (by omega)
  simp only [halias, Bool.false_eq_true, ↓reduceIte]

/-- **A plan seals what its bytes would in one piece.** -/
theorem doSealRecordIov_placed (ty : UInt8) (hpre : out.addr ≤ o)
    (hroom : o + (taken.length + s.maxSealOverhead A) ≤ out.addr + out.size)
    (h : Placed out (o + (headerLength + explicitNonceLen A s)) (tlsSealBodyIovecBudget A s)
      taken vs) :
    let body := o + (headerLength + explicitNonceLen A s)
    doSealRecordIov A s o vs taken.length (body + taken.length) ty
      = doSealRecord A s o body (body + taken.length) ty body taken := by
  intro body
  unfold doSealRecord doSealRecordIov
  rcases hctx : s.aeadWriteCtx with _ | ctx
  · rfl
  have hone : Placed out body (tlsSealBodyIovecBudget A s) taken [⟨body, body, taken⟩] :=
    { joined := by simp
      tiles := ⟨rfl, trivial⟩
      apart := fun v hv => .inl (by rw [List.mem_singleton.mp hv])
      slots := (tlsSealBodyIovecBudget_bounds s (A.params ctx) ty).1 }
  simp only [body, sealScatterv_placed ty hctx hpre hroom h,
    sealScatterv_placed ty hctx hpre hroom hone]

/-! ### One record -/

/-- The room for a record of `want` bytes, at `o`. -/
def Room (A : Aead κ ρ) (s : SslImpl κ) (out : OutSpan) (o want : Nat) : Prop :=
  out.addr ≤ o ∧ o + (want + s.maxSealOverhead A) ≤ out.addr + out.size

/-- `tls_seal_app_data_record` with the parameters `tls_seal_app_data` gives it. -/
def sealRecord (A : Aead κ ρ) (s : SslImpl κ) (o : Nat) (input : SealInput) (want : Nat) :
    RecordResult × SealInput × SslImpl κ :=
  tlsSealAppDataRecord A s o input want (headerLength + explicitNonceLen A s)
    (tlsSealBodyIovecBudget A s)

/-- Sealing `data` in place, as one application data record at `o`. -/
def sealInPlace (A : Aead κ ρ) (s : SslImpl κ) (o : Nat) (data : Bytes) :
    Option Bytes × SslImpl κ :=
  let body := o + (headerLength + explicitNonceLen A s)
  doSealRecord A s o body (body + data.length) rtApplicationData body data

theorem doSealRecordIov_none {pre inLen suf : Nat} {body : List Iovec} {type : UInt8}
    (h : doSealRecordIov A s pre body inLen suf type = (none, s')) :
    s'.writeSequence = s.writeSequence := by
  unfold doSealRecordIov at h
  rcases hctx : s.aeadWriteCtx with _ | ctx <;> simp only [hctx] at h
  · obtain ⟨-, rfl⟩ := Prod.mk.inj h
    rfl
  split at h
  · obtain ⟨-, rfl⟩ := Prod.mk.inj h
    rfl
  split at h
  · split at h
    · obtain ⟨-, rfl⟩ := Prod.mk.inj h
      rfl
    · split at h
      · cases h
      · obtain ⟨-, rfl⟩ := Prod.mk.inj h
        rfl
  · obtain ⟨-, rfl⟩ := Prod.mk.inj h
    rfl

/-- What one record can do: fail before the sealer sees it, find the input ended, or hand over a plan. -/
theorem sealRecord_cases {input input' : SealInput} {want : Nat} {r : RecordResult} (hv : input.Valid)
    (h : sealRecord A s o input want = (r, input', s')) :
    (∃ e, r = .failed ∧ s' = s.putError e
      ∧ (s.writeSequence = usizeMax ∧ e = .overflow
        ∨ s.writeSequence ≠ usizeMax ∧ input.Unreadable want))
    ∨ s.writeSequence ≠ usizeMax ∧ input'.Valid ∧ input'.slices = input.slices
      ∧ input'.out = input.out ∧ input'.unread = input.unread.drop (input.rest.take want).length
      ∧ input'.rest = input.rest.drop (input.rest.take want).length
      ∧ (input.rest.take want = [] ∧ r = .sealed [] 0 ∧ s' = s
        ∨ input.rest.take want ≠ [] ∧ ∃ iovecs record,
          let body := o + (headerLength + explicitNonceLen A s)
          let len := (input.rest.take want).length
          Placed input.out body (tlsSealBodyIovecBudget A s) (input.rest.take want) iovecs
            ∧ doSealRecordIov A s o iovecs len (body + len) rtApplicationData = (record, s')
            ∧ r = record.elim .failed (.sealed · len)) := by
  unfold sealRecord tlsSealAppDataRecord at h
  by_cases hmax : s.writeSequence = usizeMax
  · rw [if_pos hmax] at h
    obtain ⟨rfl, -, rfl⟩ : _ ∧ _ ∧ _ := by simpa using h
    exact .inl ⟨_, rfl, rfl, .inl ⟨hmax, rfl⟩⟩
  rw [if_neg hmax] at h
  -- A plan fails only where it cannot read.
  have hplan := planSealBody_spec hv want (o + (headerLength + explicitNonceLen A s))
    (tlsSealBodyIovecBudget_bounds (A := A) s ⟨true, 0, true⟩ 0).1
  rcases hp : planSealBody input want (o + (headerLength + explicitNonceLen A s))
    (tlsSealBodyIovecBudget A s) with (e | _) | ⟨input₁, iovecs, bodyLen⟩ <;>
    simp only [hp] at h hplan
  · obtain ⟨rfl, -, rfl⟩ : _ ∧ _ ∧ _ := by simpa using h
    exact .inl ⟨_, rfl, rfl, .inr ⟨hmax, hplan.2⟩⟩
  · exact absurd rfl hplan.1
  obtain ⟨hplaced, rfl, hv', hslices, hout, hunread, hrest⟩ := hplan
  right
  by_cases hnil : input.rest.take want = []
  · rw [if_pos (List.length_eq_zero_iff.mpr hnil)] at h
    obtain ⟨rfl, rfl, rfl⟩ : _ ∧ _ ∧ _ := by simpa using h
    exact ⟨hmax, hv', hslices, hout, hunread, hrest, .inl ⟨hnil, rfl, rfl⟩⟩
  rw [if_neg fun hz => hnil (List.length_eq_zero_iff.mp hz)] at h
  rcases hs : doSealRecordIov A s o iovecs (input.rest.take want).length
    (o + (headerLength + explicitNonceLen A s) + (input.rest.take want).length)
    rtApplicationData with ⟨_ | record, s₁⟩ <;>
    rw [hs] at h <;> obtain ⟨rfl, rfl, rfl⟩ : _ ∧ _ ∧ _ := by simpa only [Prod.mk.injEq] using h
  · exact ⟨hmax, hv', hslices, hout, hunread, hrest, .inr ⟨hnil, iovecs, none, hplaced, hs, rfl⟩⟩
  · exact ⟨hmax, hv', hslices, hout, hunread, hrest, .inr ⟨hnil, iovecs, some record, hplaced, hs, rfl⟩⟩

/-- With room for the record, a plan seals what its bytes would in place. -/
theorem Room.inPlace {want : Nat} {data : Bytes} (hroom : Room A s out o want) (hfit : data.length ≤ want)
    (h : Placed out (o + (headerLength + explicitNonceLen A s)) (tlsSealBodyIovecBudget A s)
      data vs) :
    doSealRecordIov A s o vs data.length (o + (headerLength + explicitNonceLen A s) + data.length)
      rtApplicationData = sealInPlace A s o data :=
  doSealRecordIov_placed rtApplicationData hroom.1 (Nat.le_trans (by omega) hroom.2) h

/-- The record of `data` at `o`, the bytes behind the first `k` of the slices, cannot be sealed: there is
no sequence number for it, some of it cannot be read, or the cipher does not seal it. -/
def CannotSeal (A : Aead κ ρ) (s : SslImpl κ) (out : OutSpan) (slices : List Slice) (k o : Nat)
    (data : Bytes) : Prop :=
  s.writeSequence = usizeMax ∨ Unreadable out slices k data.length
    ∨ data ≠ [] ∧ (sealInPlace A s o data).1 = none

/-- With a sequence number left and slices that can be read, it is the cipher that does not seal. -/
theorem CannotSeal.cipher {slices : List Slice} {k : Nat} {data : Bytes}
    (h : CannotSeal A s out slices k o data) (hseq : s.writeSequence ≠ usizeMax)
    (hread : ∀ slice ∈ slices, slice.Readable out) :
    data ≠ [] ∧ (sealInPlace A s o data).1 = none := by
  rcases h with hmax | hunread | hnone
  · exact absurd hmax hseq
  · obtain ⟨slice, hmem, hnot⟩ := hunread.exists
    exact absurd (hread slice hmem) hnot
  · exact hnone

/-- **One record.**  It seals the next bytes of the input, in place as far as the result shows, and
moves the cursor past them; an ended input is sealed as nothing, and a failure uses no sequence
number and is of bytes that cannot be sealed. -/
theorem sealRecord_spec {input input' : SealInput} {want : Nat} {r : RecordResult}
    (hv : input.Valid) (hroom : Room A s input.out o want)
    (h : sealRecord A s o input want = (r, input', s')) :
    match r with
    | .checkFailed => False
    | .failed => SealFrame A s s' ∧ s'.writeSequence = s.writeSequence
        ∧ ∀ k, input.unread = (input.slices.map Slice.bytes).flatten.drop k →
            CannotSeal A s input.out input.slices k o (input.rest.take want)
    | .sealed record n => n = (input.rest.take want).length
        ∧ input'.Valid ∧ input'.slices = input.slices ∧ input'.out = input.out
        ∧ input'.unread = input.unread.drop n ∧ input'.rest = input.rest.drop n
        ∧ (n = 0 → s' = s)
        ∧ (n ≠ 0 → sealInPlace A s o (input.rest.take want) = (some record, s')) := by
  obtain ⟨e, rfl, rfl, hwhy⟩ | ⟨-, hv', hslices, hout, hunread, hrest, hsealed⟩ := sealRecord_cases hv h
  · refine ⟨⟨_, _, _, _, rfl, rfl⟩, rfl, fun k hk => ?_⟩
    rcases hwhy with ⟨hmax, -⟩ | ⟨-, hnot⟩
    · exact .inl hmax
    · exact .inr (.inl ((SealInput.unreadable_iff hk want).mp hnot))
  rcases hsealed with ⟨hnil, rfl, rfl⟩ | ⟨hne, iovecs, record, hplaced, hs, rfl⟩
  · rw [hnil] at hunread hrest ⊢
    exact ⟨rfl, hv', hslices, hout, hunread, hrest, fun _ => rfl, fun hne => absurd rfl hne⟩
  cases record with
  | none =>
      refine ⟨doSealRecordIov_frame hs, doSealRecordIov_none hs, fun k _ => .inr (.inr ⟨hne, ?_⟩)⟩
      rw [← hroom.inPlace (List.length_take_le _ _) hplaced, hs]
  | some record =>
      refine ⟨rfl, hv', hslices, hout, hunread, hrest, fun hz => ?_, fun _ => ?_⟩
      · exact absurd (List.length_eq_zero_iff.mp hz) hne
      · rw [← hroom.inPlace (List.length_take_le _ _) hplaced]
        exact hs

/-- The record of an input whose slices can be read, by its bytes alone. -/
def recordOf (A : Aead κ ρ) (s : SslImpl κ) (o : Nat) (data : Bytes) :
    RecordResult × SslImpl κ :=
  if s.writeSequence = usizeMax then (.failed, s.putError .overflow)
  else if data = [] then (.sealed [] 0, s)
  else
    match sealInPlace A s o data with
    | (some record, s) => (.sealed record data.length, s)
    | (none, s) => (.failed, s)

theorem sealRecord_readable {input input' : SealInput} {want : Nat} {r : RecordResult}
    (hv : input.Valid) (hread : ∀ s ∈ input.slices, s.Readable input.out)
    (hroom : Room A s input.out o want) (h : sealRecord A s o input want = (r, input', s')) :
    (r, s') = recordOf A s o (input.rest.take want) := by
  unfold recordOf
  obtain ⟨e, rfl, rfl, hwhy⟩ | ⟨hmax, -, -, -, -, -, hsealed⟩ := sealRecord_cases hv h
  · rcases hwhy with ⟨hmax, rfl⟩ | ⟨-, hnot⟩
    · rw [if_pos hmax]
    · obtain ⟨slice, hmem, hslice⟩ := hnot.exists
      exact absurd (hread slice (List.mem_of_mem_drop hmem)) hslice
  rw [if_neg hmax]
  rcases hsealed with ⟨hnil, rfl, rfl⟩ | ⟨hne, iovecs, record, hplaced, hs, rfl⟩
  · rw [if_pos hnil]
  rw [hroom.inPlace (List.length_take_le _ _) hplaced] at hs
  rw [if_neg hne, hs]
  cases record <;> rfl

/-- Two readable inputs with the same bytes to read. -/
structure SameInput (input₁ input₂ : SealInput) : Prop where
  valid₁ : input₁.Valid
  valid₂ : input₂.Valid
  read₁ : ∀ s ∈ input₁.slices, s.Readable input₁.out
  read₂ : ∀ s ∈ input₂.slices, s.Readable input₂.out
  out : input₁.out = input₂.out
  rest : input₁.rest = input₂.rest

end Record

/-! ### The loop -/

section Loop

variable {κ ρ : Type} {A : Aead κ ρ} {s s₁ s₂ s' : SslImpl κ} {p : LoopParams}

/-- From `s` to `s'`, application data records carrying `frags` were sealed. -/
def SealedAs (A : Aead κ ρ) (s s' : SslImpl κ) (records : Bytes) (frags : List Bytes) : Prop :=
  SealFrame A s s' ∧ s'.errors = s.errors
    ∧ s'.writeSequence = s.writeSequence + frags.length
    ∧ records.length ≤ frags.flatten.length + frags.length * s.maxSealOverhead A
    ∧ ∃ ctx ctx', s.aeadWriteCtx = some ctx ∧ s'.aeadWriteCtx = some ctx'
        ∧ Opens A (s.extraLen A) ctx s.writeSequence records
            (frags.map (rtApplicationData, ·)) ctx'

theorem aeadWriteCtx_of_not_null (h : s.isNullCipher A = false) :
    ∃ ctx, s.aeadWriteCtx = some ctx := by
  rcases hctx : s.aeadWriteCtx with _ | ctx
  · simp [SslImpl.isNullCipher, SslImpl.cipher, hctx] at h
  · exact ⟨ctx, rfl⟩

theorem SealedAs.nil (h : s.isNullCipher A = false) : SealedAs A s s [] [] := by
  obtain ⟨ctx, hctx⟩ := aeadWriteCtx_of_not_null h
  exact ⟨.refl s, rfl, rfl, Nat.zero_le _, ctx, ctx, hctx, hctx, .nil _ _ _⟩

/-- One record in front. -/
theorem SealedAs.cons {o : Nat} {data record records : Bytes} {frags : List Bytes}
    (hnull : s.isNullCipher A = false) (h₁ : sealInPlace A s o data = (some record, s₁))
    (h : SealedAs A s₁ s' records frags) : SealedAs A s s' (record ++ records) (data :: frags) := by
  have hframe := doSealRecordIov_frame h₁
  obtain ⟨hseq, herr, -, hlen, ctx, ctx₁, hctx, hctx₁, hopen⟩ :=
    doSealRecordIov_some hnull (by rw [join_singleton]) h₁
  obtain ⟨hframe', herr', hseq', hlen', ctx₁', ctx', hctx₁', hctx', hopens⟩ := h
  obtain rfl : ctx₁ = ctx₁' := Option.some.inj (hctx₁.symm.trans hctx₁')
  refine ⟨hframe.trans hframe', herr'.trans herr, ?_, ?_, ctx, ctx', hctx, hctx', ?_⟩
  · rw [hseq', hseq, List.length_cons]
    omega
  · rw [hframe.maxSealOverhead] at hlen'
    rw [List.flatten_cons, List.length_append, List.length_append, List.length_cons,
      Nat.add_mul, Nat.one_mul]
    omega
  · rw [hframe.extraLen, hseq] at hopens
    simp only [join_singleton] at hopen
    exact .cons hopen hopens

/-- `frags` are all of `frag` bytes but the last, which has at least one. -/
def Full (frag : Nat) (frags : List Bytes) : Prop :=
  (∀ f ∈ frags, 0 < f.length ∧ f.length ≤ frag) ∧ ∀ f ∈ frags.dropLast, f.length = frag

/-- The parameters of the loop are those of the connection. -/
structure LoopParams.For (A : Aead κ ρ) (p : LoopParams) (s : SslImpl κ) : Prop where
  frag : p.frag = tlsAppDataFragment A s
  overhead : p.overhead = s.maxSealOverhead A
  prefixLen : p.prefixLen = headerLength + explicitNonceLen A s
  budget : p.budget = tlsSealBodyIovecBudget A s

/-- Sealing changes none of them. -/
theorem LoopParams.For.frame (hp : p.For A s) (h : SealFrame A s s') : p.For A s' := by
  have hc := h.cipher
  have hfrag := h.fragment
  have hover := h.maxSealOverhead
  obtain ⟨c, n, e, t, -, rfl⟩ := h
  exact ⟨hp.frag.trans hfrag.symm, hp.overhead.trans hover.symm,
    by rw [hp.prefixLen, explicitNonceLen, explicitNonceLen, hc],
    by rw [hp.budget, tlsSealBodyIovecBudget, tlsSealBodyIovecBudget, hc]⟩

/-- The next record fits. -/
theorem not_tight_of_nextWant {input : SealInput} {pos consumed want : Nat}
    (h : p.nextWant input pos consumed = some want) : ¬ p.Tight pos want := by
  unfold LoopParams.nextWant at h
  by_cases htight : p.Tight pos (min p.frag (p.maxIn - consumed))
  · simp only [if_pos htight] at h
    split at h
    · cases h
    · rename_i hno
      obtain rfl := Option.some.inj h
      exact fun h => hno (.inr h)
  · simp only [if_neg htight] at h
    obtain rfl := Option.some.inj h
    exact htight

/-- The loop goes on only where the next record has room. -/
theorem LoopParams.For.room {input : SealInput} {pos consumed want : Nat} (hp : p.For A s)
    (hout : input.out = p.out) (hpos : pos ≤ p.out.size)
    (hw : p.nextWant input pos consumed = some want) :
    Room A s input.out (p.out.addr + pos) want := by
  have hloose := not_tight_of_nextWant hw
  rw [LoopParams.Tight, hp.overhead] at hloose
  rw [Room, hout]
  omega

/-- A record sealed where there is room for it ends inside the output. -/
theorem Room.record_le {out : OutSpan} {o pos want : Nat} {data record : Bytes}
    (hroom : Room A s out (out.addr + pos) want) (hnull : s.isNullCipher A = false)
    (hfit : data.length ≤ want) (h : sealInPlace A s o data = (some record, s₁)) :
    pos + record.length ≤ out.size := by
  obtain ⟨-, -, -, hlen, -⟩ := doSealRecordIov_some hnull (by rw [join_singleton]) h
  have hroom' := hroom.2
  omega

/-- How much the next record takes, in terms of the bytes left. -/
theorem nextWant_spec {input : SealInput} (pos : Nat) {consumed : Nat} (hv : input.Valid)
    (hrest : input.rest.length ≤ p.maxIn - consumed) (hfrag : 0 < p.frag) :
    match p.nextWant input pos consumed with
    | none => input.rest = [] ∨ p.Tight pos (min p.frag input.rest.length)
    | some want => input.rest.take want = input.rest.take p.frag
        ∧ (input.rest.take want = [] → input.rest = []) := by
  unfold LoopParams.nextWant
  simp only [available_eq hv]
  have hnil : input.rest = [] ↔ input.rest.length = 0 := List.length_eq_zero_iff.symm
  have htake {want : Nat} (h : min want input.rest.length = min p.frag input.rest.length) :
      input.rest.take want = input.rest.take p.frag
        ∧ (input.rest.take want = [] → input.rest = []) := by
    refine ⟨List.take_eq_take_iff.mpr h, fun htake => ?_⟩
    have hzero := congrArg List.length htake
    rw [List.length_take, List.length_nil] at hzero
    exact hnil.mpr (by omega)
  have hmin : min (min p.frag (p.maxIn - consumed)) input.rest.length
      = min p.frag input.rest.length := by omega
  by_cases htight : p.Tight pos (min p.frag (p.maxIn - consumed))
  · rw [if_pos htight, hmin]
    by_cases hstop : min p.frag input.rest.length = 0 ∨ p.Tight pos (min p.frag input.rest.length)
    · rw [if_pos hstop]
      exact hstop.imp_left fun hzero => hnil.mpr (by omega)
    · rw [if_neg hstop]
      exact htake (by omega)
  · rw [if_neg htight]
    exact htake hmin

theorem Full.eq_nil {frag : Nat} {frags : List Bytes} (h : Full frag frags)
    (hnil : frags.flatten = []) : frags = [] := by
  cases frags with
  | nil => rfl
  | cons f fs =>
      have hpos := (h.1 f List.mem_cons_self).1
      rw [(List.append_eq_nil_iff.mp hnil).1] at hpos
      cases hpos

theorem Full.cons {frag : Nat} {f : Bytes} {frags : List Bytes} (h : Full frag frags)
    (hpos : 0 < f.length) (hle : f.length ≤ frag) (hmore : frags ≠ [] → f.length = frag) :
    Full frag (f :: frags) := by
  refine ⟨List.forall_mem_cons.mpr ⟨⟨hpos, hle⟩, h.1⟩, ?_⟩
  cases frags with
  | nil => exact fun _ hf => absurd hf List.not_mem_nil
  | cons g gs =>
      rw [List.dropLast_cons_cons]
      exact List.forall_mem_cons.mpr ⟨hmore (List.cons_ne_nil _ _), h.2⟩

/-- Seals `frags` in place, one record behind the other from `o` on. -/
def sealFrags (A : Aead κ ρ) : SslImpl κ → (o : Nat) → List Bytes → Option (Bytes × SslImpl κ)
  | s, _, [] => some ([], s)
  | s, o, f :: fs =>
      match sealInPlace A s o f with
      | (some record, s) =>
          (sealFrags A s (o + record.length) fs).map fun (records, s) => (record ++ records, s)
      | (none, _) => none

theorem sealFrags_append {o : Nat} (fs gs : List Bytes) :
    sealFrags A s o (fs ++ gs) = (sealFrags A s o fs).bind fun (records, s₁) =>
      (sealFrags A s₁ (o + records.length) gs).map fun (more, s₂) => (records ++ more, s₂) := by
  induction fs generalizing s o with
  | nil =>
      rw [List.nil_append, sealFrags, Option.bind_some]
      exact Option.map_id'.symm
  | cons f fs ih =>
      rw [List.cons_append, sealFrags, sealFrags]
      rcases sealInPlace A s o f with ⟨_ | record, s₁⟩
      · rfl
      dsimp only
      rw [ih]
      rcases sealFrags A s₁ (o + record.length) fs with _ | ⟨records, s₂⟩
      · rfl
      simp only [Option.bind_some, Option.map_some, List.length_append, Nat.add_assoc, Option.map_map,
        Function.comp_def, List.append_assoc]

/-- **What the loop seals.**  From `s`, behind the first `k` bytes of the slices, it sealed `records`, of
exactly the first `consumed` bytes of `rest`, within the room; then it stopped in `s'`, at the end of the
input, before a record that does not fit or at one that cannot be sealed. -/
structure LoopSpec (A : Aead κ ρ) (p : LoopParams) (slices : List Slice) (k pos : Nat) (rest : Bytes)
    (s : SslImpl κ) (r : LoopResult κ) (s' : SslImpl κ) (frags : List Bytes) : Prop where
  run : sealFrags A s (p.out.addr + pos) frags = some (r.records, s')
  sealed : SealedAs A s s' r.records frags
  bytes : frags.flatten = rest.take r.consumed
  full : Full p.frag frags
  /-- The last record is short only where the input ends. -/
  more : r.consumed < rest.length → ∀ f ∈ frags, f.length = p.frag
  le : r.consumed ≤ rest.length
  fits : pos + r.records.length ≤ p.out.size
  stop : match r.status with
    | .ended => r.ssl = s' ∧ (r.consumed < rest.length →
        p.Tight (pos + r.records.length) (min p.frag (rest.length - r.consumed)))
    | .failed => SealFrame A s' r.ssl ∧ r.ssl.writeSequence = s'.writeSequence
        ∧ CannotSeal A s' p.out slices (k + r.consumed) (p.out.addr + (pos + r.records.length))
            ((rest.drop r.consumed).take p.frag)
    | .checkFailed => False

section LoopSpec

variable {slices : List Slice} {k pos : Nat} {rest : Bytes} {r : LoopResult κ} {frags : List Bytes}

theorem LoopSpec.checks (h : LoopSpec A p slices k pos rest s r s' frags) :
    r.status ≠ .checkFailed := by
  intro hst
  have hstop := h.stop
  rw [hst] at hstop
  exact hstop

/-- The record that failed, if one did, used no sequence number and touched nothing queued. -/
theorem LoopSpec.kept (h : LoopSpec A p slices k pos rest s r s' frags) :
    r.ssl.writeSequence = s'.writeSequence ∧ r.ssl.pendingFlight = s.pendingFlight
      ∧ r.ssl.hsData = s.hsData := by
  have hframe := h.sealed.1
  have hstop := h.stop
  rcases hst : r.status <;> rw [hst] at hstop
  · rw [hstop.1]
    exact ⟨rfl, hframe.pendingFlight, hframe.hsData⟩
  · obtain ⟨hframe', hseq, -⟩ := hstop
    exact ⟨hseq, hframe'.pendingFlight.trans hframe.pendingFlight,
      hframe'.hsData.trans hframe.hsData⟩
  · exact hstop.elim

/-- Nothing consumed is nothing sealed. -/
theorem LoopSpec.records_eq_nil (h : LoopSpec A p slices k pos rest s r s' frags)
    (hzero : r.consumed = 0) : frags = [] ∧ r.records = [] := by
  have hnil : frags = [] := by
    refine h.full.eq_nil ?_
    rw [h.bytes, hzero, List.take_zero]
  obtain ⟨-, -, -, hlen, -⟩ := h.sealed
  rw [hnil] at hlen
  exact ⟨hnil, List.length_eq_zero_iff.mp (by simpa using hlen)⟩

theorem LoopSpec.stopped (hnull : s.isNullCipher A = false) (hpos : pos ≤ p.out.size)
    (h : rest = [] ∨ p.Tight pos (min p.frag rest.length)) :
    LoopSpec A p slices k pos rest s ⟨.ended, [], 0, s⟩ s [] where
  run := rfl
  sealed := .nil hnull
  bytes := rfl
  full := ⟨nofun, nofun⟩
  more := nofun
  le := Nat.zero_le _
  fits := hpos
  stop := by
    refine ⟨rfl, fun hlt => ?_⟩
    rcases h with rfl | h
    · cases hlt
    · exact h

/-- One record in front. -/
theorem LoopSpec.cons {n : Nat} {record : Bytes} (hnull : s.isNullCipher A = false)
    (hn : n = (rest.take p.frag).length) (hpos : n ≠ 0)
    (h₁ : sealInPlace A s (p.out.addr + pos) (rest.take p.frag) = (some record, s₁))
    (h : LoopSpec A p slices (k + n) (pos + record.length) (rest.drop n) s₁ r s' frags) :
    LoopSpec A p slices k pos rest s
      { r with records := record ++ r.records, consumed := n + r.consumed } s'
      (rest.take p.frag :: frags) := by
  have hle := h.le
  have hfits := h.fits
  have hstop := h.stop
  have hbytes := h.bytes
  have htake : rest.take p.frag = rest.take n := by
    rw [List.take_eq_take_iff, hn, List.length_take]
    omega
  rw [List.length_take] at hn
  rw [List.length_drop] at hle
  refine ⟨?_, .cons hnull h₁ h.sealed, ?_, h.full.cons ?_ (List.length_take_le _ _) ?_, ?_, ?_, ?_,
    ?_⟩
  · rw [sealFrags, h₁]
    dsimp only
    rw [Nat.add_assoc, h.run, Option.map_some]
  · rw [List.flatten_cons, hbytes, htake, ← List.take_add]
  · rw [List.length_take]
    omega
  · intro hne
    obtain ⟨f, gs, rfl⟩ := List.exists_cons_of_ne_nil hne
    have hf := (h.full.1 f List.mem_cons_self).1
    have hlen := congrArg List.length hbytes
    rw [List.flatten_cons, List.length_append, List.length_take, List.length_drop] at hlen
    rw [List.length_take]
    omega
  · intro hlt
    simp only at hlt
    refine List.forall_mem_cons.mpr ⟨?_, h.more (by rw [List.length_drop]; omega)⟩
    rw [List.length_take]
    omega
  · simp only
    omega
  · simp only [List.length_append]
    omega
  · simp only [List.length_append, ← Nat.add_assoc, ← List.drop_drop]
    rcases hr : r.status <;> rw [hr] at hstop
    · refine ⟨hstop.1, fun hlt => ?_⟩
      have htight := hstop.2 (by rw [List.length_drop]; omega)
      rwa [List.length_drop, Nat.sub_sub] at htight
    · simpa only [← Nat.add_assoc] using hstop
    · exact hstop

end LoopSpec

theorem sealLoop_spec {fuel k : Nat} {input : SealInput} {pos consumed : Nat} (hp : p.For A s)
    (hnull : s.isNullCipher A = false) (hv : input.Valid) (hout : input.out = p.out)
    (hk : input.unread = (input.slices.map Slice.bytes).flatten.drop k)
    (hpos : pos ≤ p.out.size) (hrest : input.rest.length ≤ p.maxIn - consumed)
    (hfuel : p.maxIn - consumed ≤ fuel) :
    ∃ s' frags, LoopSpec A p input.slices k pos input.rest s
      (sealLoop A p fuel input pos consumed s) s' frags := by
  have hfrag : 0 < p.frag := hp.frag ▸ (tlsMaxSendFragment_bounds A s).1
  -- On the fuel; a record takes at least a byte, so `maxIn` rounds see the input's end.
  induction fuel generalizing input k pos consumed s with
  | zero => exact ⟨s, [], .stopped hnull hpos (.inl (List.length_eq_zero_iff.mp (by omega)))⟩
  | succ fuel ih =>
      unfold sealLoop
      by_cases hmore : consumed < p.maxIn
      case neg =>
        rw [if_neg hmore]
        exact ⟨s, [], .stopped hnull hpos (.inl (List.length_eq_zero_iff.mp (by omega)))⟩
      rw [if_pos hmore]
      have hwant := nextWant_spec pos hv hrest hfrag
      rcases hw : p.nextWant input pos consumed with _ | want <;> rw [hw] at hwant
      · exact ⟨s, [], .stopped hnull hpos hwant⟩
      obtain ⟨htake, hnil⟩ := hwant
      have hroom := hp.room hout hpos hw
      rw [hp.prefixLen, hp.budget]
      rcases hr : sealRecord A s (p.out.addr + pos) input want with
        ⟨⟨record, n⟩ | _ | _, input', s₁⟩ <;> have hspec := sealRecord_spec hv hroom hr <;>
        unfold sealRecord at hr <;> simp only [hr]
      · obtain ⟨hn, hv', hslices', hout', hunread', hrest', hzero, hsome⟩ := hspec
        by_cases hn0 : n = 0
        · rw [if_pos hn0, hzero hn0]
          rw [hn0] at hn
          exact ⟨s, [], .stopped hnull hpos
            (.inl (hnil (List.length_eq_zero_iff.mp hn.symm)))⟩
        rw [if_neg hn0]
        have hone := hsome hn0
        rw [hout] at hroom
        have hpos' := hroom.record_le hnull (List.length_take_le _ _) hone
        rw [htake] at hn hone
        have hframe := doSealRecordIov_frame hone
        have hnlen := hn
        rw [List.length_take] at hnlen
        have hleft : input'.rest.length ≤ p.maxIn - (consumed + n) := by
          rw [hrest', List.length_drop]
          omega
        have hk' : input'.unread = (input'.slices.map Slice.bytes).flatten.drop (k + n) := by
          rw [hunread', hk, List.drop_drop, hslices']
        obtain ⟨s', frags, hih⟩ := ih (hp.frame hframe) (hframe.isNullCipher.trans hnull) hv'
          (hout'.trans hout) hk' hpos' hleft (show p.maxIn - (consumed + n) ≤ fuel by omega)
        rw [hslices', hrest'] at hih
        exact ⟨s', _, hih.cons hnull hn hn0 hone⟩
      · obtain ⟨hframe, hseq, hcannot⟩ := hspec
        refine ⟨s, [], rfl, .nil hnull, rfl, ⟨nofun, nofun⟩, nofun, Nat.zero_le _, hpos, hframe, hseq, ?_⟩
        have h := hcannot k hk
        rw [hout, htake] at h
        exact h
      · exact hspec.elim

/-- The loop ends by itself within `maxIn - consumed` rounds. -/
theorem sealLoop_fuel {fuel k : Nat} {input : SealInput} {pos consumed : Nat}
    (h : p.maxIn - consumed ≤ fuel) :
    sealLoop A p (fuel + k) input pos consumed s = sealLoop A p fuel input pos consumed s := by
  induction fuel generalizing input pos consumed s with
  | zero =>
      have hend : ¬ consumed < p.maxIn := by omega
      cases k with
      | zero => rfl
      | succ k => simp only [sealLoop, if_neg hend]
  | succ fuel ih =>
      rw [Nat.succ_add]
      unfold sealLoop
      by_cases hmore : consumed < p.maxIn
      case neg => rw [if_neg hmore, if_neg hmore]
      rw [if_pos hmore, if_pos hmore]
      rcases p.nextWant input pos consumed with _ | want
      · rfl
      rcases hr : tlsSealAppDataRecord A s (p.out.addr + pos) input want p.prefixLen p.budget with
        ⟨⟨record, n⟩ | _ | _, input', s₁⟩ <;> simp only [hr]
      by_cases hn : n = 0
      · rw [if_pos hn, if_pos hn]
      · rw [if_neg hn, if_neg hn, ih (by omega)]

/-- **The slices show only through their concatenation.**  Two readable inputs with the same bytes
to read are sealed alike. -/
theorem sealLoop_congr {fuel : Nat} {input₁ input₂ : SealInput} {pos consumed : Nat}
    (hp : p.For A s) (hin : SameInput input₁ input₂) (hout : input₁.out = p.out)
    (hpos : pos ≤ p.out.size) (hnull : s.isNullCipher A = false) :
    sealLoop A p fuel input₁ pos consumed s = sealLoop A p fuel input₂ pos consumed s := by
  induction fuel generalizing input₁ input₂ pos consumed s with
  | zero => rfl
  | succ fuel ih =>
      unfold sealLoop
      by_cases hmore : consumed < p.maxIn
      case neg => rw [if_neg hmore, if_neg hmore]
      rw [if_pos hmore, if_pos hmore]
      have hsame : p.nextWant input₂ pos consumed = p.nextWant input₁ pos consumed := by
        simp only [LoopParams.nextWant, available_eq hin.valid₁, available_eq hin.valid₂, hin.rest]
      rw [hsame]
      rcases hw : p.nextWant input₁ pos consumed with _ | want
      · rfl
      have hroom₁ := hp.room hout hpos hw
      have hroom₂ : Room A s input₂.out (p.out.addr + pos) want := hin.out ▸ hroom₁
      rw [hp.prefixLen, hp.budget]
      rcases hr₁ : sealRecord A s (p.out.addr + pos) input₁ want with ⟨r₁, input₁', s₁⟩
      rcases hr₂ : sealRecord A s (p.out.addr + pos) input₂ want with ⟨r₂, input₂', s₂⟩
      -- A record depends on the bytes to read, and these are the same.
      have heq : (r₁, s₁) = (r₂, s₂) := by
        rw [sealRecord_readable hin.valid₁ hin.read₁ hroom₁ hr₁,
          sealRecord_readable hin.valid₂ hin.read₂ hroom₂ hr₂, hin.rest]
      obtain ⟨rfl, rfl⟩ := Prod.mk.inj heq
      have hspec₁ := sealRecord_spec hin.valid₁ hroom₁ hr₁
      have hspec₂ := sealRecord_spec hin.valid₂ hroom₂ hr₂
      unfold sealRecord at hr₁ hr₂
      rcases r₁ with ⟨record, n⟩ | _ | _ <;> simp only [hr₁, hr₂]
      obtain ⟨hn, hv₁, hs₁, ho₁, -, hrest₁, hzero, hsome⟩ := hspec₁
      obtain ⟨-, hv₂, hs₂, ho₂, -, hrest₂, -⟩ := hspec₂
      by_cases hn0 : n = 0
      · rw [if_pos hn0, if_pos hn0]
      have hone := hsome hn0
      have hframe := doSealRecordIov_frame hone
      have hin' : SameInput input₁' input₂' :=
        { valid₁ := hv₁
          valid₂ := hv₂
          read₁ := by rw [hs₁, ho₁]; exact hin.read₁
          read₂ := by rw [hs₂, ho₂]; exact hin.read₂
          out := by rw [ho₁, ho₂, hin.out]
          rest := by rw [hrest₁, hrest₂, hin.rest] }
      rw [hout] at hroom₁
      have hpos' := hroom₁.record_le hnull (List.length_take_le _ _) hone
      rw [if_neg hn0, if_neg hn0, ih (hp.frame hframe) hin' (ho₁.trans hout) hpos'
        (hframe.isNullCipher.trans hnull)]

end Loop

end Btls.Seal
