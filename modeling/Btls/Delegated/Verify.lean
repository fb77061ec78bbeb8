import Btls.Delegated.Certificate
import Btls.Delegated.Credential
import Mathlib.Algebra.Group.Int.Defs

/-!
# Delegated — Verify

`ssl_delegated_credential_verify`: the credential's lifetime, in the code's own integer types, what
is signed, and the checks that CertificateVerify makes before its signature.

`checkCredentialTime` is the check on `int64_t`, `uint64_t` and `uint32_t` as the code has it,
wrapping where they do; that nothing wraps is for `Lifetime` to show.  The bytes that are signed
(`signatureInput`) are the context string, the leaf certificate, the credential and its algorithm,
as the parser kept them.  `Crypto` verifies the signature, and the clock is an argument.
-/

namespace Btls.Delegated

open Btls.Support

/-! ### The lifetime -/

def kMaxDelegatedCredentialLifetime : UInt64 := 7 * 24 * 60 * 60

/-- `check_credential_time`.  `validTime` is a `uint32_t`; the result is `*out_auth_timeout`. -/
def checkCredentialTime (now sessionTime : UInt64) (notBefore : Int64) (validTime : Nat) :
    Except String UInt32 :=
  if Int64.maxValue - Int64.ofNat validTime < notBefore then .error "invalid validity"
  else
    let expiry := notBefore + Int64.ofNat validTime
    if Int64.maxValue.toUInt64 < now ∨ expiry < now.toInt64 then .error "expired"
    else if kMaxDelegatedCredentialLifetime < expiry.toUInt64 - now then .error "validity period"
    else
      let sessionRemaining := if sessionTime < expiry.toUInt64 then expiry.toUInt64 - sessionTime else 0
      .ok (min sessionRemaining 0xffffffff).toUInt32

/-- The credential's lifetime contains `now`, and has at most seven days left. -/
def WithinLifetime (now : UInt64) (notBefore : Int64) (validTime : Nat) : Prop :=
  notBefore.toInt + validTime < 2 ^ 63 ∧ (now.toNat : Int) ≤ notBefore.toInt + validTime
    ∧ notBefore.toInt + validTime ≤ now.toNat + 604800

section Lifetime

variable {now sessionTime : UInt64} {notBefore expiry : Int64} {validTime : Nat}

/-- The first check is the one for overflow. -/
theorem not_before_le (h : validTime < 2 ^ 32) :
    ¬ Int64.maxValue - Int64.ofNat validTime < notBefore ↔ notBefore.toInt + validTime < 2 ^ 63 := by
  have hvalid : (Int64.ofNat validTime).toInt = validTime :=
    Int64.toInt_ofNat_of_lt (Nat.lt_trans h (by decide))
  have hroom : (Int64.maxValue - Int64.ofNat validTime).toInt = 2 ^ 63 - 1 - validTime := by
    rw [Int64.toInt_sub, hvalid, Int64.toInt_maxValue, Int.bmod_eq_of_le] <;> omega
  rw [Int64.lt_iff_toInt_lt, hroom]
  omega

theorem toInt_expiry (h : validTime < 2 ^ 32) (hfits : notBefore.toInt + validTime < 2 ^ 63) :
    (notBefore + Int64.ofNat validTime).toInt = notBefore.toInt + validTime := by
  have hvalid : (Int64.ofNat validTime).toInt = validTime :=
    Int64.toInt_ofNat_of_lt (Nat.lt_trans h (by decide))
  have hlow := notBefore.le_toInt
  rw [Int64.toInt_add, hvalid, Int.bmod_eq_of_le] <;> omega

theorem toInt_now (h : ¬ Int64.maxValue.toUInt64 < now) : now.toInt64.toInt = now.toNat := by
  have hlt : now.toNat < 2 ^ 63 := by
    rw [UInt64.lt_iff_toNat_lt] at h
    have hmax : Int64.maxValue.toUInt64.toNat = 2 ^ 63 - 1 := by decide
    omega
  have hofNat : now.toInt64 = Int64.ofNat now.toNat :=
    (Int64.ofNat_bitVecToNat now.toBitVec).symm
  rw [hofNat, Int64.toInt_ofNat_of_lt hlt]

/-- The second check: the credential has not expired. -/
theorem not_expired : ¬ (Int64.maxValue.toUInt64 < now ∨ expiry < now.toInt64)
    ↔ (now.toNat : Int) ≤ expiry.toInt := by
  by_cases hnow : Int64.maxValue.toUInt64 < now
  · have hbig : 2 ^ 63 ≤ now.toNat := by
      rw [UInt64.lt_iff_toNat_lt] at hnow
      have hmax : Int64.maxValue.toUInt64.toNat = 2 ^ 63 - 1 := by decide
      omega
    have hlt := expiry.toInt_lt
    exact ⟨fun h => absurd (.inl hnow) h, fun h => by omega⟩
  · rw [not_or, Int64.lt_iff_toInt_lt, toInt_now hnow]
    exact ⟨fun h => by omega, fun h => ⟨hnow, by omega⟩⟩

theorem toNat_toUInt64 (h : 0 ≤ expiry.toInt) : (expiry.toUInt64.toNat : Int) = expiry.toInt := by
  have hle : 0 ≤ expiry := Int64.le_iff_toInt_le.mpr h
  rw [Int64.toNat_toUInt64_of_le hle, Int64.cast_toNatClampNeg expiry hle]

/-- The third check: at most seven days are left. -/
theorem lifetime_le (h : (now.toNat : Int) ≤ expiry.toInt) :
    ¬ kMaxDelegatedCredentialLifetime < expiry.toUInt64 - now
      ↔ expiry.toInt ≤ now.toNat + 604800 := by
  have hexpiry : (expiry.toUInt64.toNat : Int) = expiry.toInt := toNat_toUInt64 (by omega)
  have hle : now ≤ expiry.toUInt64 := UInt64.le_iff_toNat_le.mpr (by omega)
  rw [UInt64.lt_iff_toNat_lt, UInt64.toNat_sub_of_le _ _ hle]
  have hmax : kMaxDelegatedCredentialLifetime.toNat = 604800 := by decide
  omega

/-- No step of the check overflows: what it accepts are the credentials whose lifetime, in unbounded
integers, contains `now` and has at most seven days left. -/
theorem checkCredentialTime_ok (h : validTime < 2 ^ 32) :
    (∃ authTimeout, checkCredentialTime now sessionTime notBefore validTime = .ok authTimeout)
      ↔ WithinLifetime now notBefore validTime := by
  unfold checkCredentialTime WithinLifetime
  by_cases hfits : Int64.maxValue - Int64.ofNat validTime < notBefore
  · rw [if_pos hfits]
    refine ⟨?_, fun hin => absurd hfits ((not_before_le h).mpr hin.1)⟩
    rintro ⟨_, ⟨⟩⟩
  have hsum := (not_before_le h).mp hfits
  rw [if_neg hfits]
  dsimp only
  by_cases hexpired : Int64.maxValue.toUInt64 < now
    ∨ notBefore + Int64.ofNat validTime < now.toInt64
  · rw [if_pos hexpired]
    refine ⟨?_, fun hin => absurd hexpired (not_expired.mpr ?_)⟩
    · rintro ⟨_, ⟨⟩⟩
    · rw [toInt_expiry h hsum]
      exact hin.2.1
  have hle := not_expired.mp hexpired
  rw [if_neg hexpired]
  by_cases hlifetime : kMaxDelegatedCredentialLifetime
    < (notBefore + Int64.ofNat validTime).toUInt64 - now
  · rw [if_pos hlifetime]
    refine ⟨?_, fun hin => absurd hlifetime ((lifetime_le hle).mpr ?_)⟩
    · rintro ⟨_, ⟨⟩⟩
    · rw [toInt_expiry h hsum]
      exact hin.2.2
  · rw [if_neg hlifetime]
    have hlast := (lifetime_le hle).mp hlifetime
    rw [toInt_expiry h hsum] at hle hlast
    exact ⟨fun _ => ⟨hsum, hle, hlast⟩, fun _ => ⟨_, rfl⟩⟩

end Lifetime

/-! ### What is signed -/

/-- `sizeof` includes the NUL separator. -/
def kServerDelegatedCredentialContext : Bytes :=
  ("TLS, server delegated credentials".toList.map fun c => UInt8.ofNat c.toNat) ++ [0]

variable {Key : Type}

/-- `build_signature_input`. -/
def signatureInput (leaf : Bytes) (credential : Credential Key) : Bytes :=
  List.replicate 64 0x20 ++ kServerDelegatedCredentialContext ++ leaf ++ credential.credential
    ++ putUint 2 credential.algorithm

/-! ### Verifying -/

/-- `ssl_delegated_credential_verify`, with the leaf certificate and the session in hand. -/
def verifyCredential (C : Crypto Key) (A : Asn1) (now : UInt64) (credential : Credential Key)
    (peerPubkey : Key) (session : Session) (leaf : Bytes) (certVerifyAlgorithm : Nat) :
    Except Failure Session :=
  if certVerifyAlgorithm ≠ credential.certVerifyAlgorithm then
    delegatedCredentialError illegalParameter "algorithm mismatch"
  else if !C.checkPeerSigalg credential.algorithm peerPubkey then
    delegatedCredentialError illegalParameter "credential signature algorithm"
  else
    match parseDelegationCertificate A leaf with
    | none => delegatedCredentialError illegalParameter "certificate requirements"
    | some notBefore =>
        match checkCredentialTime now session.time notBefore credential.validTime with
        | .error reason => delegatedCredentialError illegalParameter reason
        | .ok authTimeout =>
            if !C.publicKeyVerify credential.signature credential.algorithm peerPubkey
                (signatureInput leaf credential) then
              delegatedCredentialError illegalParameter "signature"
            else .ok { session with
              authTimeout := min session.authTimeout authTimeout
              timeout := min session.timeout authTimeout }

/-- `ssl_delegated_credential_verify`. -/
def Handshake.verify (hs : Handshake Key) (C : Crypto Key) (A : Asn1) (now : UInt64)
    (certVerifyAlgorithm : Nat) : Except Failure (Handshake Key) :=
  match hs.peerDelegatedCredential, hs.peerPubkey, hs.newSession with
  | some credential, some peerPubkey, some session =>
      match session.certs with
      | some (leaf :: _) => do
          let session ← verifyCredential C A now credential peerPubkey session leaf certVerifyAlgorithm
          return { hs with newSession := some session }
      | _ => delegatedCredentialError illegalParameter "missing state"
  | _, _, _ => delegatedCredentialError illegalParameter "missing state"

/-- What a credential was checked for when CertificateVerify came. -/
structure Verified (C : Crypto Key) (A : Asn1) (now : UInt64) (credential : Credential Key)
    (peerPubkey : Key) (leaf : Bytes) (certVerifyAlgorithm : Nat) : Prop where
  algorithm : certVerifyAlgorithm = credential.certVerifyAlgorithm
  sigalg : C.checkPeerSigalg credential.algorithm peerPubkey = true
  certificate : ∃ notBefore es, Delegates A leaf notBefore es
    ∧ WithinLifetime now notBefore credential.validTime
  signature : C.publicKeyVerify credential.signature credential.algorithm peerPubkey
    (signatureInput leaf credential) = true

variable {C : Crypto Key} {A : Asn1} {now : UInt64} {hs hs' : Handshake Key}
  {credential : Credential Key} {peerPubkey : Key} {session session' : Session} {leaf : Bytes}
  {certVerifyAlgorithm : Nat}

theorem verifyCredential_ok (hvalid : credential.validTime < 2 ^ 32)
    (h : verifyCredential C A now credential peerPubkey session leaf certVerifyAlgorithm
      = .ok session') : Verified C A now credential peerPubkey leaf certVerifyAlgorithm := by
  unfold verifyCredential delegatedCredentialError at h
  split at h
  · cases h
  rename_i halgorithm
  split at h
  · cases h
  rename_i hsigalg
  split at h
  · cases h
  rename_i notBefore hcertificate
  split at h
  · cases h
  rename_i authTimeout htime
  split at h
  · cases h
  rename_i hsignature
  obtain ⟨es, hes⟩ := parseDelegationCertificate_eq_some.mp hcertificate
  have hlifetime := (checkCredentialTime_ok hvalid).mp ⟨authTimeout, htime⟩
  rw [Bool.not_eq_true', Bool.not_eq_false] at hsigalg hsignature
  exact ⟨not_not.mp halgorithm, hsigalg, ⟨notBefore, es, hes, hlifetime⟩, hsignature⟩

/-- What the function leaves, where it succeeds. -/
theorem Handshake.verify_ok (h : hs.verify C A now certVerifyAlgorithm = .ok hs') :
    ∃ credential peerPubkey session leaf rest session',
      hs.peerDelegatedCredential = some credential ∧ hs.peerPubkey = some peerPubkey
        ∧ hs.newSession = some session ∧ session.certs = some (leaf :: rest)
        ∧ verifyCredential C A now credential peerPubkey session leaf certVerifyAlgorithm
          = .ok session'
        ∧ hs' = { hs with newSession := some session' } := by
  unfold Handshake.verify delegatedCredentialError at h
  split at h
  · rename_i credential peerPubkey session hcredential hpubkey hsession
    split at h
    · rename_i leaf rest hcerts
      cases hverify : verifyCredential C A now credential peerPubkey session leaf certVerifyAlgorithm with
      | error e =>
          rw [hverify] at h
          cases h
      | ok session' =>
          rw [hverify] at h
          cases h
          exact ⟨credential, peerPubkey, session, leaf, rest, session', hcredential, hpubkey,
            hsession, hcerts, hverify, rfl⟩
    · cases h
  · cases h

end Btls.Delegated
