import Btls.Tls.State
import Mathlib.Tactic.Set

/-!
# Tls — Record

Sealing one record from the pieces of its body, and how the peer opens it.  The pieces are where
they are in memory (`Iovec`), so that the sealer's checks for overlap can be stated as the code
makes them.

`doSealRecordIov` is the sealer, and `doSealRecord` the same for a body in one piece.  A seal
changes the cipher's state, the sequence number, the error queue and the ghost, and nothing else
(`SealFrame`).  The peer is a second definition, not a translation: `openRecord` takes a framed
record apart under a sequence number, `Opens` says that it opens bytes to exactly some plaintext and
is then in step, and `Opens.cons` puts one record in front of others.

`doSealRecordIov_some`: a sealed record is opened by a peer in step to its type and plaintext, is at
most `SSL_max_seal_overhead` longer, and uses one sequence number.
-/

namespace Btls.Tls

open Btls.Support

/-- `buffers_alias`: whether two ranges of addresses overlap. -/
def buffersAlias (a aLen b bLen : Nat) : Bool := b < a + aLen && a < b + bLen

/-- `CRYPTO_IOVEC`: `bytes` is read at `inp` and written, sealed, at `out`. -/
structure Iovec where
  out : Nat
  inp : Nat
  bytes : Bytes

/-- The body the pieces make up. -/
def Iovec.join (body : List Iovec) : Bytes := body.flatMap Iovec.bytes

/-- `kSealMaxIovecs`. -/
def kSealMaxIovecs : Nat := 16

section Seal

variable {κ ρ : Type} (A : Aead κ ρ)

/-- The first check of `SealScatterv`: the entries fit its stack array. -/
def tooManyIovecs (body : List Iovec) (extraIn : Bytes) : Bool :=
  kSealMaxIovecs < body.length + (if extraIn.length ≠ 0 then 1 else 0)

/-- Its second: an entry that is not in place reads from inside the record. -/
def aliasesRecord (outPrefix prefixLen : Nat) (body : List Iovec) (outSuffix suffixLen : Nat) :
    Bool :=
  let bodyOut := (body.head?.map Iovec.out).getD 0
  body.any fun v =>
    (v.inp != v.out && buffersAlias v.inp v.bytes.length bodyOut (Iovec.join body).length)
      || buffersAlias v.inp v.bytes.length outPrefix prefixLen
      || buffersAlias v.inp v.bytes.length outSuffix suffixLen

/-- `SSLAEADContext::SealScatterv`. -/
def sealScatterv (ctx : κ) (outPrefix : Nat) (body : List Iovec) (outSuffix : Nat) (ad : RecordAd)
    (extraIn : Bytes) : Except (List SslReason) Sealing × κ :=
  if tooManyIovecs body extraIn then (.error [.internalError], ctx)
  else
    match A.suffixLen (A.params ctx) (Iovec.join body).length extraIn.length with
    | none => (.error [.recordTooLarge], ctx)
    | some suffixLen =>
        if aliasesRecord outPrefix (A.params ctx).explicitNonceLen body outSuffix suffixLen then
          (.error [.outputAliasesInput], ctx)
        else if (A.params ctx).isNullCipher then (.ok ⟨[], Iovec.join body, extraIn⟩, ctx)
        else A.sealv ctx ad (Iovec.join body) extraIn

/-- Ghost: notes a call of `do_seal_record`. -/
def SslImpl.attempt (s : SslImpl κ) (p : AeadParams) (inLen : Nat) (passed : Bool) : SslImpl κ :=
  { s with
    attempts := s.attempts ++
      [⟨p.isNullCipher, s.writeRecordSizeLimit.val, inLen, p.extraLen s.protocolVersion,
        passed⟩] }

/-- `do_seal_record_iov`, returning the whole record. -/
def doSealRecordIov (s : SslImpl κ) (outPrefix : Nat) (body : List Iovec) (inLen outSuffix : Nat)
    (type : UInt8) : Option Bytes × SslImpl κ :=
  match s.aeadWriteCtx with
  | none => (none, s)
  | some ctx =>
      let p := A.params ctx
      -- TLS 1.3 hides the actual record type.
      let extraIn := p.extraIn s.protocolVersion type
      let passed := sslRecordSizeLimitCheckSeal A s inLen extraIn.length
      let s := s.attempt p inLen passed
      if !passed then
        (none, s.putError .recordTooLarge)
      else
        match A.suffixLen p inLen extraIn.length, A.ciphertextLen p inLen extraIn.length with
        | some _, some ciphertextLen =>
            let outType := if extraIn.length ≠ 0 then rtApplicationData else type
            let header := outType :: be16 s.recordVersion ++ be16 ciphertextLen
            if s.writeSequence = usizeMax then (none, s.putError .overflow)
            else
              match sealScatterv A ctx (outPrefix + headerLength) body outSuffix
                  ⟨s.writeSequence, header⟩ extraIn with
              | (.ok z, ctx) =>
                  (some (header ++ (z.nonce ++ z.body ++ z.suffix)),
                    { s with
                      aeadWriteCtx := some ctx
                      writeSequence := s.writeSequence + 1 })
              | (.error es, ctx) =>
                  (none, { s with aeadWriteCtx := some ctx, errors := s.errors ++ es })
        | _, _ => (none, s.putError .recordTooLarge)

/-- `do_seal_record`: the whole body is one entry. -/
def doSealRecord (s : SslImpl κ) (outPrefix out outSuffix : Nat) (type : UInt8) (inp : Nat)
    (bytes : Bytes) : Option Bytes × SslImpl κ :=
  doSealRecordIov A s outPrefix [⟨out, inp, bytes⟩] bytes.length outSuffix type

end Seal

/-! ### The peer -/

section Open

variable {κ ρ : Type} (A : Aead κ ρ)

/-- Opens the record at the start of `bytes` under sequence number `seq`, `extraLen` bytes of inner
content type in it.  Returns its type, its plaintext and the bytes after it. -/
def openRecord (extraLen : Nat) (r : ρ) (seq : Nat) :
    Bytes → Option (UInt8 × Bytes × Bytes × ρ)
  | t :: v₁ :: v₂ :: l₁ :: l₂ :: more =>
      let len := readBe16 l₁ l₂
      if more.length < len then none
      else
        match A.openv r ⟨seq, [t, v₁, v₂, l₁, l₂]⟩ (more.take len) with
        | none => none
        | some (plain, r) =>
            if extraLen = 0 then some (t, plain, more.drop len, r)
            else
              match plain.getLast? with
              | some type =>
                  if t = rtApplicationData then some (type, plain.dropLast, more.drop len, r)
                  else none
              | none => none
  | _ => none

/-- Opens `records` records, under consecutive sequence numbers, which `bytes` is made of. -/
def openRecords (extraLen : Nat) : Nat → ρ → Nat → Bytes → Option (List (UInt8 × Bytes) × ρ)
  | 0, r, _, bytes => if bytes = [] then some ([], r) else none
  | records + 1, r, seq, bytes =>
      match openRecord A extraLen r seq bytes with
      | some (type, data, rest, r) =>
          (openRecords extraLen records r (seq + 1) rest).map fun q => ((type, data) :: q.1, q.2)
      | none => none

/-- A peer in step with `ctx` opens `bytes` to exactly `plain`, under sequence numbers from `seq`
on, and is then in step with `ctx'`. -/
def Opens (extraLen : Nat) (ctx : κ) (seq : Nat) (bytes : Bytes) (plain : List (UInt8 × Bytes))
    (ctx' : κ) : Prop :=
  ∀ r, A.InStep ctx r → ∃ r', A.InStep ctx' r'
    ∧ openRecords A extraLen plain.length r seq bytes = some (plain, r')

variable {A}

theorem Opens.nil (extraLen seq : Nat) (ctx : κ) : Opens A extraLen ctx seq [] [] ctx :=
  fun r hr => ⟨r, hr, rfl⟩

/-- One record in front. -/
theorem Opens.cons {extraLen seq : Nat} {ctx ctx₁ ctx' : κ} {type : UInt8}
    {record body bytes : Bytes} {plain : List (UInt8 × Bytes)}
    (hrecord : ∀ r, A.InStep ctx r → ∃ r', A.InStep ctx₁ r' ∧ ∀ rest,
      openRecord A extraLen r seq (record ++ rest) = some (type, body, rest, r'))
    (h : Opens A extraLen ctx₁ (seq + 1) bytes plain ctx') :
    Opens A extraLen ctx seq (record ++ bytes) ((type, body) :: plain) ctx' := by
  intro r hr
  obtain ⟨r₁, hr₁, hopen⟩ := hrecord r hr
  obtain ⟨r', hr', hrest⟩ := h r₁ hr₁
  refine ⟨r', hr', ?_⟩
  simp only [List.length_cons, openRecords, hopen, hrest, Option.map_some]

end Open

/-! ### What a seal does -/

section Spec

variable {κ ρ : Type} {A : Aead κ ρ} {s s₁ s' : SslImpl κ}

/-- From `s` to `s'` nothing changed but the cipher's own state, the sequence number, the error
queue and the ghost. -/
def SealFrame (A : Aead κ ρ) (s s' : SslImpl κ) : Prop :=
  ∃ aeadWriteCtx writeSequence errors attempts,
    aeadWriteCtx.map A.params = s.cipher A
      ∧ s' = { s with aeadWriteCtx, writeSequence, errors, attempts }

namespace SealFrame

theorem refl (s : SslImpl κ) : SealFrame A s s := ⟨_, _, _, _, rfl, rfl⟩

theorem trans (h₁ : SealFrame A s s₁) (h₂ : SealFrame A s₁ s') : SealFrame A s s' := by
  obtain ⟨c₁, n₁, e₁, t₁, hc₁, rfl⟩ := h₁
  obtain ⟨c₂, n₂, e₂, t₂, hc₂, rfl⟩ := h₂
  exact ⟨c₂, n₂, e₂, t₂, hc₂.trans hc₁, rfl⟩

theorem cipher (h : SealFrame A s s') : s'.cipher A = s.cipher A := by
  obtain ⟨c, n, e, t, hc, rfl⟩ := h
  exact hc

theorem pendingFlight (h : SealFrame A s s') : s'.pendingFlight = s.pendingFlight := by
  obtain ⟨c, n, e, t, -, rfl⟩ := h
  rfl

theorem hsData (h : SealFrame A s s') : s'.hsData = s.hsData := by
  obtain ⟨c, n, e, t, -, rfl⟩ := h
  rfl

theorem isNullCipher (h : SealFrame A s s') : s'.isNullCipher A = s.isNullCipher A := by
  simp only [SslImpl.isNullCipher, h.cipher]

theorem fragment (h : SealFrame A s s') : tlsAppDataFragment A s' = tlsAppDataFragment A s := by
  have hn := h.isNullCipher
  obtain ⟨c, n, e, t, -, rfl⟩ := h
  simp only [tlsAppDataFragment, tlsMaxSendFragment, sslRecordSizeLimitMaxSendFragment, hn]

theorem maxSealOverhead (h : SealFrame A s s') : s'.maxSealOverhead A = s.maxSealOverhead A := by
  have hc := h.cipher
  obtain ⟨c, n, e, t, -, rfl⟩ := h
  simp only [SslImpl.maxSealOverhead, hc]

theorem extraLen (h : SealFrame A s s') : s'.extraLen A = s.extraLen A := by
  have hc := h.cipher
  obtain ⟨c, n, e, t, -, rfl⟩ := h
  simp only [SslImpl.extraLen, hc]

end SealFrame

theorem sealScatterv_params {ctx ctx' : κ} {pre suf : Nat} {body : List Iovec} {ad : RecordAd}
    {extra : Bytes} {r : Except (List SslReason) Sealing}
    (h : sealScatterv A ctx pre body suf ad extra = (r, ctx')) : A.params ctx' = A.params ctx := by
  unfold sealScatterv at h
  split at h
  · obtain ⟨-, rfl⟩ := Prod.mk.inj h
    rfl
  split at h
  · obtain ⟨-, rfl⟩ := Prod.mk.inj h
    rfl
  split at h
  · obtain ⟨-, rfl⟩ := Prod.mk.inj h
    rfl
  split at h
  · obtain ⟨-, rfl⟩ := Prod.mk.inj h
    rfl
  · rw [← A.params_sealv ctx ad (Iovec.join body) extra, h]

/-- What sealing a body under a cipher that protects it gives: the parts of a record the peer
opens. -/
theorem sealScatterv_ok {ctx ctx' : κ} {pre suf : Nat} {body : List Iovec} {ad : RecordAd}
    {extra : Bytes} {z : Sealing} (hnull : (A.params ctx).isNullCipher = false)
    (h : sealScatterv A ctx pre body suf ad extra = (.ok z, ctx')) :
    A.sealv ctx ad (Iovec.join body) extra = (.ok z, ctx') := by
  unfold sealScatterv at h
  split at h
  · cases h
  split at h
  · cases h
  split at h
  · cases h
  · simpa [hnull] using h

theorem doSealRecordIov_frame {pre inLen suf : Nat} {body : List Iovec} {type : UInt8}
    {r : Option Bytes} (h : doSealRecordIov A s pre body inLen suf type = (r, s')) :
    SealFrame A s s' := by
  unfold doSealRecordIov at h
  rcases hctx : s.aeadWriteCtx with _ | ctx <;> simp only [hctx] at h
  · obtain ⟨-, rfl⟩ := Prod.mk.inj h
    exact .refl s
  have hcipher : s.cipher A = some (A.params ctx) := by simp [SslImpl.cipher, hctx]
  have hfail (passed : Bool) (e : SslReason) :
      SealFrame A s ((s.attempt (A.params ctx) inLen passed).putError e) := ⟨_, _, _, _, rfl, rfl⟩
  split at h
  · obtain ⟨-, rfl⟩ := Prod.mk.inj h
    exact hfail _ _
  split at h
  · split at h
    · obtain ⟨-, rfl⟩ := Prod.mk.inj h
      exact hfail _ _
    · split at h <;> rename_i hs <;> have hp := sealScatterv_params hs <;>
        obtain ⟨-, rfl⟩ := Prod.mk.inj h <;>
        exact ⟨_, _, _, _, by simp [hcipher, hp], rfl⟩
  · obtain ⟨-, rfl⟩ := Prod.mk.inj h
    exact hfail _ _

/-- The only attempt a seal notes is its own. -/
theorem doSealRecordIov_attempts {pre inLen suf : Nat} {body : List Iovec} {type : UInt8}
    {r : Option Bytes} (h : doSealRecordIov A s pre body inLen suf type = (r, s')) :
    s'.attempts = s.attempts
      ∨ s'.attempts = s.attempts ++ [⟨s.isNullCipher A, s.writeRecordSizeLimit.val, inLen,
          s.extraLen A, sslRecordSizeLimitCheckSeal A s inLen (s.extraLen A)⟩] := by
  unfold doSealRecordIov at h
  rcases hctx : s.aeadWriteCtx with _ | ctx <;> simp only [hctx] at h
  · obtain ⟨-, rfl⟩ := Prod.mk.inj h
    exact .inl rfl
  have hcipher : s.cipher A = some (A.params ctx) := by simp [SslImpl.cipher, hctx]
  have hnull : (A.params ctx).isNullCipher = s.isNullCipher A := by
    simp [SslImpl.isNullCipher, hcipher]
  have hextra : (A.params ctx).extraLen s.protocolVersion = s.extraLen A := by
    simp [SslImpl.extraLen, hcipher]
  rw [AeadParams.length_extraIn, hextra] at h
  have hattempt : (s.attempt (A.params ctx) inLen
        (sslRecordSizeLimitCheckSeal A s inLen (s.extraLen A))).attempts
      = s.attempts ++ [⟨s.isNullCipher A, s.writeRecordSizeLimit.val, inLen, s.extraLen A,
          sslRecordSizeLimitCheckSeal A s inLen (s.extraLen A)⟩] := by
    rw [← hnull, ← hextra]
    rfl
  rw [← hattempt]
  refine .inr ?_
  split at h
  · obtain ⟨-, rfl⟩ := Prod.mk.inj h
    rfl
  split at h
  · split at h
    · obtain ⟨-, rfl⟩ := Prod.mk.inj h
      rfl
    · split at h <;> obtain ⟨-, rfl⟩ := Prod.mk.inj h <;> rfl
  · obtain ⟨-, rfl⟩ := Prod.mk.inj h
    rfl

/-- A framed fragment is opened by itself, whatever follows it. -/
theorem openRecord_frame {extraLen version seq : Nat} {t : UInt8} {r : ρ} {frag rest : Bytes}
    (h : frag.length < 65536) :
    openRecord A extraLen r seq (t :: be16 version ++ be16 frag.length ++ frag ++ rest) =
      match A.openv r ⟨seq, t :: be16 version ++ be16 frag.length⟩ frag with
      | none => none
      | some (plain, r) =>
          if extraLen = 0 then some (t, plain, rest, r)
          else
            match plain.getLast? with
            | some type =>
                if t = rtApplicationData then some (type, plain.dropLast, rest, r) else none
            | none => none := by
  have hlen := readBe16_be16 h
  have hmore : ¬ (frag ++ rest).length < frag.length := by simp
  show openRecord A extraLen r seq (t :: _ :: _ :: _ :: _ :: (frag ++ rest)) = _
  unfold openRecord
  simp only [hlen, if_neg hmore, List.take_left, List.drop_left]
  rfl

/-- The peer takes the inner content type off again. -/
theorem openRecord_inner {version : Nat} {p : AeadParams} {type : UInt8} (body rest : Bytes)
    (r : ρ) :
    (if (p.extraIn version type).length = 0 then
      some (if (p.extraIn version type).length ≠ 0 then rtApplicationData else type,
        body ++ p.extraIn version type, rest, r)
    else
      match (body ++ p.extraIn version type).getLast? with
      | some ty =>
          if (if (p.extraIn version type).length ≠ 0 then rtApplicationData else type)
              = rtApplicationData then
            some (ty, (body ++ p.extraIn version type).dropLast, rest, r)
          else none
      | none => none) = some (type, body, rest, r) := by
  unfold AeadParams.extraIn
  split <;> simp

/-- **What a sealed record is.**  Under a cipher that protects it, the record is at most
`SSL_max_seal_overhead` longer than its plaintext, the sequence number goes up by one, and a peer in
step opens the record to its type and plaintext and is in step again. -/
theorem doSealRecordIov_some {pre inLen suf : Nat} {body : List Iovec} {type : UInt8}
    {record : Bytes} (hnull : s.isNullCipher A = false) (hlen : (Iovec.join body).length = inLen)
    (h : doSealRecordIov A s pre body inLen suf type = (some record, s')) :
    s'.writeSequence = s.writeSequence + 1 ∧ s'.errors = s.errors
      ∧ 0 < record.length ∧ record.length ≤ inLen + s.maxSealOverhead A
      ∧ ∃ ctx ctx', s.aeadWriteCtx = some ctx ∧ s'.aeadWriteCtx = some ctx'
          ∧ ∀ r, A.InStep ctx r → ∃ r', A.InStep ctx' r' ∧ ∀ rest,
              openRecord A (s.extraLen A) r s.writeSequence (record ++ rest)
                = some (type, Iovec.join body, rest, r') := by
  unfold doSealRecordIov at h
  rcases hctx : s.aeadWriteCtx with _ | ctx <;> simp only [hctx] at h
  · cases h
  have hcipher : s.cipher A = some (A.params ctx) := by simp [SslImpl.cipher, hctx]
  have hnull' : (A.params ctx).isNullCipher = false := by
    simpa [SslImpl.isNullCipher, hcipher] using hnull
  have hextra : s.extraLen A = (A.params ctx).extraLen s.protocolVersion := by
    simp [SslImpl.extraLen, hcipher]
  have hover : s.maxSealOverhead A = A.maxSealOverhead (A.params ctx) s.protocolVersion := by
    simp [SslImpl.maxSealOverhead, hcipher]
  split at h
  · cases h
  split at h
  case h_2 => cases h
  rename_i suffixLen ciphertextLen hsuf hclen
  split at h
  · cases h
  split at h
  case h_2 => cases h
  rename_i z ctx' hs
  obtain ⟨hrec, rfl⟩ := Prod.mk.inj h
  have hrec := Option.some.inj hrec
  have hsealv := sealScatterv_ok hnull' hs
  set extra := (A.params ctx).extraIn s.protocolVersion type with hextraIn
  have hextraLen : extra.length = (A.params ctx).extraLen s.protocolVersion :=
    AeadParams.length_extraIn _ _ _
  obtain ⟨hn, hb, hk⟩ := A.sealv_spec _ _ _ _ z (by rw [hsealv])
  obtain ⟨hc, k, hk', hceq⟩ := A.ciphertextLen_spec _ _ _ _ hclen
  rw [hlen] at hb hk
  obtain rfl : k = z.suffix.length := by
    rw [hk'] at hk
    exact Option.some.inj hk
  have hov := A.overhead_spec _ _ _ _ (hextraLen ▸ hk)
  have hfrag : (z.nonce ++ z.body ++ z.suffix).length = ciphertextLen := by
    simp only [List.length_append, hn, hb, hceq]
  -- The length, then what a peer in step makes of the record.
  refine ⟨rfl, rfl, ?_, ?_, ctx, ctx', rfl, rfl, fun r hstep => ?_⟩
  · simp [← hrec]
  · rw [← hrec, hover]
    simp only [List.length_append, List.length_cons, length_be16, hn, hb, headerLength] at hov ⊢
    omega
  · obtain ⟨r', hopen, hstep'⟩ := A.openv_sealv _ _ _ _ _ z hstep (by rw [hsealv])
    rw [hsealv] at hstep'
    refine ⟨r', hstep', fun rest => ?_⟩
    rw [← hrec, ← hfrag, openRecord_frame (by omega)]
    rw [← hfrag] at hopen
    simp only [SslImpl.attempt] at hopen ⊢
    rw [hopen, hextra, ← hextraLen]
    exact openRecord_inner _ _ _

end Spec

end Btls.Tls
