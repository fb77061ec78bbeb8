import Btls.Support.Bytes
import Btls.Support.Usize

/-!
# Tls — State

What sealing reads and changes of a connection, and the record size limit's two functions on the
write side.

`Aead κ ρ` stands for `SSLAEADContext` and the cipher under it: `κ` is a write context, which
sealing may change (an implicit IV, a random one), `ρ` the peer's read context.  Its laws are the
documented lengths, and that a peer in step opens what was sealed; `Aead.tagOnly` has them.

`SslImpl` is the connection as far as sealing goes, with its queues of handshake data.  Its one
ghost is a list of the seals that were attempted, with the limit then in force.
`checkSeal_of_le_fragment` ties the two functions of the limit together: what
`tls_max_send_fragment` allows passes the check, since room was left for the content type.
-/

namespace Btls.Tls

open Btls.Support

/-! ### Constants -/

/-- `TLS1_3_VERSION`. -/
def tls13Version : Nat := 0x0304

/-- `SSL3_RT_HEADER_LENGTH`. -/
def headerLength : Nat := 5

/-- `SSL3_RT_MAX_PLAIN_LENGTH`. -/
def maxPlainLength : Nat := 16384

/-- `kMinRecordSizeLimit`. -/
def kMinRecordSizeLimit : Nat := 64

/-- `SSL3_RT_HANDSHAKE`. -/
def rtHandshake : UInt8 := 22

/-- `SSL3_RT_APPLICATION_DATA`. -/
def rtApplicationData : UInt8 := 23

/-- The reasons the code pushes on the error queue; the rest are the cipher's or upstream's. -/
inductive SslReason where
  | outputAliasesInput
  | passedNullParameter
  | overflow
  | recordTooLarge
  | internalError
  | upstream (n : Nat)
  deriving DecidableEq

/-! ### The write cipher -/

/-- The fixed part of an `SSLAEADContext`. -/
structure AeadParams where
  isNullCipher : Bool
  explicitNonceLen : Nat
  /-- `cipher()->algorithm_enc` is AES-128-GCM or AES-256-GCM. -/
  aesGcm : Bool

/-- What the cipher authenticates beside a record's contents; the type and version are in the
header. -/
structure RecordAd where
  seqnum : Nat
  header : Bytes

/-- The parts of a sealed record after its header. -/
structure Sealing where
  nonce : Bytes
  body : Bytes
  suffix : Bytes

/-- The inner content type, which TLS 1.3 encrypts with the plaintext. -/
def AeadParams.extraIn (p : AeadParams) (version : Nat) (type : UInt8) : Bytes :=
  if !p.isNullCipher && tls13Version ≤ version then [type] else []

def AeadParams.extraLen (p : AeadParams) (version : Nat) : Nat :=
  if !p.isNullCipher && tls13Version ≤ version then 1 else 0

theorem AeadParams.length_extraIn (p : AeadParams) (version : Nat) (type : UInt8) :
    (p.extraIn version type).length = p.extraLen version := by
  unfold extraIn extraLen
  split <;> rfl

structure Aead (κ ρ : Type) where
  params : κ → AeadParams
  suffixLen : AeadParams → (inLen extraLen : Nat) → Option Nat
  ciphertextLen : AeadParams → (inLen extraLen : Nat) → Option Nat
  /-- `SSL_max_seal_overhead`, without record splitting. -/
  maxSealOverhead : AeadParams → (version : Nat) → Nat
  /-- `EVP_AEAD_CTX_sealv` and the nonce it is given, over the concatenation of its entries and
  `extra`. -/
  sealv : κ → RecordAd → (body extra : Bytes) → Except (List SslReason) Sealing × κ
  /-- How the peer opens the rest of a record. -/
  openv : ρ → RecordAd → Bytes → Option (Bytes × ρ)
  /-- The peer's read context is in step with the write context. -/
  InStep : κ → ρ → Prop
  /-- A record's length fits its field, and is that of its parts. -/
  ciphertextLen_spec : ∀ p n e c, ciphertextLen p n e = some c →
    c < 65536 ∧ ∃ k, suffixLen p n e = some k ∧ c = p.explicitNonceLen + n + k
  /-- What a record adds to its plaintext never exceeds `SSL_max_seal_overhead`. -/
  overhead_spec : ∀ p version n k, suffixLen p n (p.extraLen version) = some k →
    headerLength + p.explicitNonceLen + k ≤ maxSealOverhead p version
  params_sealv : ∀ c ad body extra, params (sealv c ad body extra).2 = params c
  sealv_spec : ∀ c ad body extra s, (sealv c ad body extra).1 = .ok s →
    s.nonce.length = (params c).explicitNonceLen ∧ s.body.length = body.length
      ∧ suffixLen (params c) body.length extra.length = some s.suffix.length
  openv_sealv : ∀ c r ad body extra s, InStep c r → (sealv c ad body extra).1 = .ok s →
    ∃ r', openv r ad (s.nonce ++ s.body ++ s.suffix) = some (body ++ extra, r')
      ∧ InStep (sealv c ad body extra).2 r'

/-- A cipher that appends a 16-byte tag and encrypts nothing; a read context only has to be
there. -/
def Aead.tagOnly : Aead Unit Unit where
  params _ := ⟨false, 0, true⟩
  suffixLen _ _ extraLen := some (extraLen + 16)
  ciphertextLen p inLen extraLen :=
    if p.explicitNonceLen + inLen + (extraLen + 16) < 65536 then
      some (p.explicitNonceLen + inLen + (extraLen + 16))
    else none
  maxSealOverhead p version := headerLength + p.explicitNonceLen + (p.extraLen version + 16)
  sealv _ _ body extra := (.ok ⟨[], body, extra ++ List.replicate 16 0⟩, ())
  openv _ _ bytes :=
    if bytes.drop (bytes.length - 16) = List.replicate 16 0 then
      some (bytes.take (bytes.length - 16), ())
    else none
  InStep _ _ := True
  ciphertextLen_spec := by
    intro p n e c h
    split at h
    · obtain rfl := Option.some.inj h
      exact ⟨by assumption, _, rfl, rfl⟩
    · cases h
  overhead_spec := by
    intro p version n k h
    obtain rfl := Option.some.inj h
    exact Nat.le_refl _
  params_sealv := fun _ _ _ _ => rfl
  sealv_spec := by
    intro c ad body extra s h
    obtain rfl := Except.ok.inj h
    exact ⟨rfl, rfl, by simp⟩
  openv_sealv := by
    intro c r ad body extra s _ h
    obtain rfl := Except.ok.inj h
    refine ⟨(), ?_, trivial⟩
    have happ : [] ++ body ++ (extra ++ List.replicate 16 0)
        = body ++ extra ++ List.replicate 16 (0 : UInt8) := by simp
    have hlen : (body ++ extra ++ List.replicate 16 (0 : UInt8)).length - 16
        = (body ++ extra).length := by
      rw [List.length_append, List.length_replicate, Nat.add_sub_cancel]
    simp only [happ, hlen, List.drop_left, List.take_left, if_true]

/-! ### The connection -/

inductive ShutdownState where
  | none
  | closeNotify
  | error
  deriving DecidableEq

/-- `max_send_fragment`, which its setter clamps. -/
structure SendFragment where
  val : Nat
  ge : 512 ≤ val
  le : val ≤ maxPlainLength

/-- What `SSL_set_max_send_fragment` makes of `n`. -/
def SendFragment.clamp (n : Nat) : SendFragment :=
  ⟨max 512 (min n maxPlainLength), Nat.le_max_left _ _,
    Nat.max_le.mpr ⟨by decide, Nat.min_le_right _ _⟩⟩

/-- A record size limit in force; 0 is none. -/
structure RecordSizeLimit where
  val : Nat
  valid : val = 0 ∨ kMinRecordSizeLimit ≤ val

/-- `pending_flight` and `pending_flight_offset`: handshake records, and how many bytes of them have
been written. -/
structure PendingFlight where
  data : Option Bytes
  offset : Nat
  offset_le : offset ≤ (data.getD []).length

namespace PendingFlight

/-- The records still to write. -/
def rest (f : PendingFlight) : Bytes := (f.data.getD []).drop f.offset

def reset : PendingFlight := ⟨none, 0, Nat.zero_le _⟩

/-- Adds a record at the end. -/
def append (f : PendingFlight) (record : Bytes) : PendingFlight :=
  ⟨some (f.data.getD [] ++ record), f.offset, by
    rw [Option.getD_some, List.length_append]
    exact Nat.le_add_right_of_le f.offset_le⟩

@[simp] theorem rest_append (f : PendingFlight) (record : Bytes) :
    (f.append record).rest = f.rest ++ record := by
  simp only [rest, append, Option.getD_some, List.drop_append_of_le_length f.offset_le]

end PendingFlight

/-- Ghost: a call of `do_seal_record`, with the limit in force and whether its check passed. -/
structure SealAttempt where
  nullCipher : Bool
  limit : Nat
  inLen : Nat
  extraLen : Nat
  passed : Bool

/-- `SSLImpl` and its `SSL3_STATE`, as far as sealing goes. -/
structure SslImpl (κ : Type) where
  isDtls : Bool
  isQuic : Bool
  /-- `do_handshake != nullptr`. -/
  hasDoHandshake : Bool
  /-- `SSL_in_init`. -/
  inInit : Bool
  /-- `ssl_protocol_version`. -/
  protocolVersion : Nat
  /-- `tls_record_version`. -/
  recordVersion : Nat
  /-- `ssl_needs_record_splitting`. -/
  needsRecordSplitting : Bool
  maxSendFragment : SendFragment
  writeShutdown : ShutdownState
  aeadWriteCtx : Option κ
  writeSequence : Nat
  writeBuffer : Bytes
  pendingWrite : Bytes
  unreportedBytesWritten : Nat
  pendingFlight : PendingFlight
  pendingHsData : Option Bytes
  keyUpdatePending : Bool
  writeRecordSizeLimit : RecordSizeLimit
  /-- The error queue. -/
  errors : List SslReason
  /-- Ghost: the calls of `do_seal_record`, in order. -/
  attempts : List SealAttempt

namespace SslImpl

variable {κ ρ : Type} (A : Aead κ ρ)

/-- `OPENSSL_PUT_ERROR`. -/
def putError (s : SslImpl κ) (e : SslReason) : SslImpl κ := { s with errors := s.errors ++ [e] }

/-- The queued handshake data. -/
def hsData (s : SslImpl κ) : Bytes := s.pendingHsData.getD []

/-- The write cipher. -/
def cipher (s : SslImpl κ) : Option AeadParams := s.aeadWriteCtx.map A.params

/-- Whether the write cipher is the null cipher. -/
def isNullCipher (s : SslImpl κ) : Bool :=
  match s.cipher A with
  | some p => p.isNullCipher
  | none => true

/-- The length of the inner content type of a record sealed now. -/
def extraLen (s : SslImpl κ) : Nat :=
  match s.cipher A with
  | some p => p.extraLen s.protocolVersion
  | none => 0

/-- `SSL_max_seal_overhead`. -/
def maxSealOverhead (s : SslImpl κ) : Nat :=
  match s.cipher A with
  | some p => A.maxSealOverhead p s.protocolVersion
  | none => headerLength

end SslImpl

/-! ### The record size limit on the write side -/

section RecordSizeLimit

variable {κ ρ : Type} (A : Aead κ ρ)

def sslRecordSizeLimitMaxSendFragment (s : SslImpl κ) (configuredLimit : Nat) : Nat :=
  if s.writeRecordSizeLimit.val = 0 ∨ s.isNullCipher A then configuredLimit
  else
    -- TLS 1.3 includes the inner content type in the advertised limit.
    let recordSizeLimit :=
      if tls13Version ≤ s.protocolVersion then s.writeRecordSizeLimit.val - 1
      else s.writeRecordSizeLimit.val
    min configuredLimit recordSizeLimit

def sslRecordSizeLimitCheckSeal (s : SslImpl κ) (inLen extraInLen : Nat) : Bool :=
  !(s.writeRecordSizeLimit.val != 0 && !s.isNullCipher A
    && s.writeRecordSizeLimit.val < inLen + extraInLen)

def tlsMaxSendFragment (s : SslImpl κ) : Nat :=
  sslRecordSizeLimitMaxSendFragment A s s.maxSendFragment.val

def tlsAppDataFragment (s : SslImpl κ) : Nat := tlsMaxSendFragment A s

theorem tlsMaxSendFragment_bounds (s : SslImpl κ) :
    0 < tlsMaxSendFragment A s ∧ tlsMaxSendFragment A s ≤ maxPlainLength := by
  have hge := s.maxSendFragment.ge
  have hle := s.maxSendFragment.le
  have hlimit := s.writeRecordSizeLimit.valid
  unfold tlsMaxSendFragment sslRecordSizeLimitMaxSendFragment kMinRecordSizeLimit at *
  split
  · omega
  · simp only
    split <;> omega

/-- **A fragment passes the sealer's guard.**  `tls_max_send_fragment` leaves room for the inner
content type. -/
theorem checkSeal_of_le_fragment {A : Aead κ ρ} {s : SslImpl κ} {n : Nat}
    (h : n ≤ tlsMaxSendFragment A s) :
    sslRecordSizeLimitCheckSeal A s n (s.extraLen A) = true := by
  by_cases hnone : s.writeRecordSizeLimit.val = 0 ∨ s.isNullCipher A = true
  · rcases hnone with h0 | hnull <;> simp [sslRecordSizeLimitCheckSeal, *]
  have hextra : s.extraLen A ≤ if tls13Version ≤ s.protocolVersion then 1 else 0 := by
    unfold SslImpl.extraLen AeadParams.extraLen
    split
    · split <;> split <;> simp_all
    · exact Nat.zero_le _
  simp only [tlsMaxSendFragment, sslRecordSizeLimitMaxSendFragment, if_neg hnone] at h
  have hle : n + s.extraLen A ≤ s.writeRecordSizeLimit.val := by
    split at h <;> split at hextra <;> omega
  simp only [sslRecordSizeLimitCheckSeal, Bool.not_eq_true', Bool.and_eq_false_iff,
    decide_eq_false_iff_not]
  exact .inr (by omega)

end RecordSizeLimit

end Btls.Tls
