import Btls.Support.Wire

/-!
# Delegated — Credential

`ssl_delegated_credential_add_clienthello` and `ssl_delegated_credential_parse`: which ClientHello
offers delegated credentials, and what of a server's credential is kept.  `Crypto` is what the code
calls on keys and signatures.

The parser reads the wire format (`readCredential`), checks what it says (`parseCredential`) and
stores it (`Handshake.parse`).  `Parsed.Reads` is the format the other way round: the bytes that say
so much and nothing else.

* `readCredential_eq_some`: what is read is of the format, byte for byte, with nothing left over.
* `parseCredential_asked`: only a client that offered credentials, for a version and algorithms that
  it has, accepts one; `parseCredential_unsolicited` is the error for the others.
* `parse_error_iff`: a credential that is rejected leaves the handshake as it was.
-/

namespace Btls.Delegated

open Btls.Support

/-! ### Errors -/

abbrev Alert := Nat

def unexpectedMessage : Alert := 10

def illegalParameter : Alert := 47

def decodeError : Alert := 50

def decryptError : Alert := 51

def internalError : Alert := 80

/-- An alert, and the error data behind `SSL_R_INVALID_DELEGATED_CREDENTIAL`, if that is the error. -/
structure Failure where
  alert : Alert
  reason : Option String
  deriving DecidableEq

/-- `delegated_credential_error`. -/
def delegatedCredentialError {α : Type} (alert : Alert) (reason : String) : Except Failure α :=
  .error ⟨alert, some reason⟩

/-! ### The handshake -/

/-- What is called on keys: `ssl_parse_peer_subject_public_key_info`, `ssl_pkey_supports_algorithm`,
whether `SSL_get_signature_algorithm_key_type` is `EVP_PKEY_RSA`, `tls12_check_peer_sigalg` and
`ssl_public_key_verify`. -/
structure Crypto (Key : Type) where
  parseSubjectPublicKeyInfo : Bytes → Option Key
  pkeySupportsAlgorithm : Key → Nat → Bool
  isRsaAlgorithm : Nat → Bool
  checkPeerSigalg : Nat → Key → Bool
  publicKeyVerify : (signature : Bytes) → (algorithm : Nat) → Key → (input : Bytes) → Bool

/-- `SSLDelegatedCredential`. -/
structure Credential (Key : Type) where
  credential : Bytes
  signature : Bytes
  pubkey : Key
  validTime : Nat
  certVerifyAlgorithm : Nat
  algorithm : Nat

/-- `SSL_SESSION`. -/
structure Session where
  certs : Option (List Bytes)
  time : UInt64
  timeout : UInt32
  authTimeout : UInt32

/-- `SSL_HANDSHAKE`, and what it reads of its connection's configuration.  `extensionIndex` is
`tls_extension_find`. -/
structure Handshake (Key : Type) where
  extensionIndex : Nat → Option Nat
  sent : Nat
  delegatedCredentials : List Nat
  maxVersion : Nat
  acceptsServerCertificateAuth : Bool
  peerPubkey : Option Key
  newSession : Option Session
  peerDelegatedCredential : Option (Credential Key)

variable {Key : Type}

/-- `TLSEXT_TYPE_delegated_credential`. -/
def extensionType : Nat := 34

def tls13Version : Nat := 0x0304

def Handshake.clientHelloExtensionWasSent (hs : Handshake Key) (value : Nat) : Bool :=
  match hs.extensionIndex value with
  | some index => hs.sent.testBit index
  | none => false

/-- Whether the effective ClientHello offered delegated credentials. -/
def Handshake.Offered (hs : Handshake Key) : Prop :=
  hs.clientHelloExtensionWasSent extensionType = true

instance (hs : Handshake Key) : Decidable hs.Offered :=
  inferInstanceAs (Decidable (_ = true))

/-- What `ssl_delegated_credential_add_clienthello` appends. -/
def Handshake.addClienthello (hs : Handshake Key) : Bytes :=
  if !hs.acceptsServerCertificateAuth || hs.delegatedCredentials.isEmpty
      || hs.maxVersion < tls13Version then []
  else putUint 2 extensionType
    ++ putPrefixed 2 (putPrefixed 2 (hs.delegatedCredentials.flatMap (putUint 2)))

/-- The extension is offered by a client that wants a certificate, has algorithms for it, and can
negotiate TLS 1.3. -/
theorem Handshake.addClienthello_ne_nil (hs : Handshake Key) : hs.addClienthello ≠ []
    ↔ hs.acceptsServerCertificateAuth = true ∧ hs.delegatedCredentials ≠ []
      ∧ tls13Version ≤ hs.maxVersion := by
  unfold Handshake.addClienthello
  split
  · rename_i h
    simp only [Bool.or_eq_true, Bool.not_eq_true', List.isEmpty_iff, decide_eq_true_eq] at h
    refine ⟨fun hne => absurd rfl hne, fun ⟨haccepts, hne, hle⟩ => ?_⟩
    rcases h with (h | h) | h
    · rw [haccepts] at h
      cases h
    · exact absurd h hne
    · exact absurd hle (Nat.not_le.mpr h)
  · rename_i h
    simp only [Bool.or_eq_true, Bool.not_eq_true', List.isEmpty_iff, decide_eq_true_eq, not_or,
      Bool.not_eq_false] at h
    refine ⟨fun _ => ⟨h.1.1, h.1.2, Nat.not_lt.mp h.2⟩, fun _ hnil => ?_⟩
    have hlen := congrArg List.length hnil
    rw [List.length_append, length_putUint, List.length_nil] at hlen
    omega

/-! ### The wire format -/

/-- What the credential says, and where the signed part ends. -/
structure Parsed where
  validTime : Nat
  certVerifyAlgorithm : Nat
  spki : Bytes
  credential : Bytes
  algorithm : Nat
  signature : Bytes
  deriving DecidableEq

/-- The part that is signed. -/
def readSigned (contents : Bytes) : Option ((Nat × Nat × Bytes) × Bytes) := do
  let (validTime, copy) ← getUint 4 contents
  let (certVerifyAlgorithm, copy) ← getUint 2 copy
  let (spki, copy) ← getPrefixed 3 copy
  if spki.isEmpty then none else some ((validTime, certVerifyAlgorithm, spki), copy)

def readCredential (contents : Bytes) : Option Parsed := do
  let ((validTime, certVerifyAlgorithm, spki), copy) ← readSigned contents
  let credentialLen := contents.length - copy.length
  let (algorithm, copy) ← getUint 2 copy
  let (signature, copy) ← getPrefixed 2 copy
  if signature.isEmpty || !copy.isEmpty then none
  else some ⟨validTime, certVerifyAlgorithm, spki, contents.take credentialLen, algorithm, signature⟩

/-- `ssl_delegated_credential_parse`, up to storing what it returns. -/
def parseCredential (C : Crypto Key) (hs : Handshake Key) (contents : Bytes) :
    Except Failure (Credential Key) :=
  if !hs.clientHelloExtensionWasSent extensionType then
    delegatedCredentialError unexpectedMessage "unsolicited"
  else
    match readCredential contents with
    | none => delegatedCredentialError illegalParameter "malformed"
    | some parsed =>
        match C.parseSubjectPublicKeyInfo parsed.spki with
        | none => delegatedCredentialError illegalParameter "bad public key"
        | some pubkey =>
            if !hs.delegatedCredentials.contains parsed.certVerifyAlgorithm then
              delegatedCredentialError illegalParameter "unadvertised algorithm"
            else if !C.pkeySupportsAlgorithm pubkey parsed.certVerifyAlgorithm then
              delegatedCredentialError illegalParameter "unusable algorithm"
            else if C.isRsaAlgorithm parsed.certVerifyAlgorithm then
              delegatedCredentialError illegalParameter "rsa delegated key"
            else .ok ⟨parsed.credential, parsed.signature, pubkey, parsed.validTime,
              parsed.certVerifyAlgorithm, parsed.algorithm⟩

/-- `ssl_delegated_credential_parse`, with the handshake as it is when it returns. -/
def Handshake.parse (hs : Handshake Key) (C : Crypto Key) (contents : Bytes) :
    Except Failure Unit × Handshake Key :=
  match parseCredential C hs contents with
  | .error e => (.error e, hs)
  | .ok credential => (.ok (), { hs with peerDelegatedCredential := some credential })

/-! ### What is accepted -/

/-- The signed part of a credential. -/
def putSigned (validTime certVerifyAlgorithm : Nat) (spki : Bytes) : Bytes :=
  putUint 4 validTime ++ (putUint 2 certVerifyAlgorithm ++ putPrefixed 3 spki)

/-- `contents` is a credential that says what `parsed` does, with nothing left over. -/
structure Parsed.Reads (parsed : Parsed) (contents : Bytes) : Prop where
  validTime : parsed.validTime < 256 ^ 4
  certVerifyAlgorithm : parsed.certVerifyAlgorithm < 256 ^ 2
  spki : parsed.spki ≠ [] ∧ parsed.spki.length < 256 ^ 3
  algorithm : parsed.algorithm < 256 ^ 2
  signature : parsed.signature ≠ [] ∧ parsed.signature.length < 256 ^ 2
  credential : parsed.credential = putSigned parsed.validTime parsed.certVerifyAlgorithm parsed.spki
  contents : contents = parsed.credential
    ++ (putUint 2 parsed.algorithm ++ putPrefixed 2 parsed.signature)

theorem readSigned_eq_some {contents copy spki : Bytes} {validTime certVerifyAlgorithm : Nat} :
    readSigned contents = some ((validTime, certVerifyAlgorithm, spki), copy)
      ↔ validTime < 256 ^ 4 ∧ certVerifyAlgorithm < 256 ^ 2 ∧ (spki ≠ [] ∧ spki.length < 256 ^ 3)
        ∧ contents = putSigned validTime certVerifyAlgorithm spki ++ copy := by
  unfold readSigned
  constructor
  · intro h
    obtain ⟨⟨v, rest₁⟩, h₁, hafter₁⟩ := Option.bind_eq_some_iff.mp h
    obtain ⟨⟨a, rest₂⟩, h₂, hafter₂⟩ := Option.bind_eq_some_iff.mp hafter₁
    obtain ⟨⟨s, rest₃⟩, h₃, hlast⟩ := Option.bind_eq_some_iff.mp hafter₂
    obtain ⟨rfl, hv⟩ := getUint_eq_some.mp h₁
    obtain ⟨rfl, ha⟩ := getUint_eq_some.mp h₂
    obtain ⟨rfl, hs⟩ := getPrefixed_eq_some.mp h₃
    dsimp only at hlast
    split at hlast
    · cases hlast
    · rename_i hne
      cases hlast
      refine ⟨hv, ha, ⟨fun hempty => hne (by rw [hempty]; rfl), hs⟩, ?_⟩
      simp only [putSigned, List.append_assoc]
  · rintro ⟨hv, ha, ⟨hne, hs⟩, rfl⟩
    have hempty : spki.isEmpty = false := List.isEmpty_eq_false_iff.mpr hne
    simp only [putSigned, List.append_assoc, getUint_append hv, getUint_append ha,
      getPrefixed_append hs, hempty, Option.bind_eq_bind, Option.bind_some, Bool.false_eq_true, if_false]

/-- What is kept of a credential is what it is made of, byte for byte. -/
theorem readCredential_eq_some {contents : Bytes} {parsed : Parsed} :
    readCredential contents = some parsed ↔ parsed.Reads contents := by
  unfold readCredential
  constructor
  · intro h
    obtain ⟨⟨⟨v, a, s⟩, rest₁⟩, h₁, hafter₁⟩ := Option.bind_eq_some_iff.mp h
    obtain ⟨⟨alg, rest₂⟩, h₂, hafter₂⟩ := Option.bind_eq_some_iff.mp hafter₁
    obtain ⟨⟨sig, rest₃⟩, h₃, hlast⟩ := Option.bind_eq_some_iff.mp hafter₂
    obtain ⟨hv, ha, hs, hcontents⟩ := readSigned_eq_some.mp h₁
    obtain ⟨rfl, halg⟩ := getUint_eq_some.mp h₂
    obtain ⟨rfl, hsig⟩ := getPrefixed_eq_some.mp h₃
    have htake : contents.take (contents.length
        - (putUint 2 alg ++ (putPrefixed 2 sig ++ rest₃)).length) = putSigned v a s := by
      rw [hcontents, List.length_append, Nat.add_sub_cancel, List.take_left]
    dsimp only at hlast
    rw [htake] at hlast
    split at hlast
    · cases hlast
    · rename_i hdone
      cases hlast
      simp only [Bool.or_eq_true, Bool.not_eq_true', not_or, List.isEmpty_iff,
        Bool.not_eq_false] at hdone
      obtain ⟨hne, rfl⟩ := hdone
      refine ⟨hv, ha, hs, halg, ⟨hne, hsig⟩, rfl, ?_⟩
      rw [hcontents, List.append_nil]
  · rintro ⟨hv, ha, hs, halg, ⟨hne, hsig⟩, hcredential, hcontents⟩
    have hempty : parsed.signature.isEmpty = false := List.isEmpty_eq_false_iff.mpr hne
    have hsigned : readSigned contents = some ((parsed.validTime, parsed.certVerifyAlgorithm,
        parsed.spki), putUint 2 parsed.algorithm ++ putPrefixed 2 parsed.signature) :=
      readSigned_eq_some.mpr ⟨hv, ha, hs, hcredential ▸ hcontents⟩
    have htake : contents.take (contents.length
        - (putUint 2 parsed.algorithm ++ putPrefixed 2 parsed.signature).length)
        = parsed.credential := by
      rw [hcontents, List.length_append, Nat.add_sub_cancel, List.take_left]
    have hlast := getPrefixed_append hsig []
    rw [List.append_nil] at hlast
    simp only [hsigned, getUint_append halg, hlast, htake, hempty, List.isEmpty_nil, Bool.not_true,
      Bool.or_self, Option.bind_eq_bind, Option.bind_some, Bool.false_eq_true, if_false]

/-- What a credential was checked for when it was kept. -/
structure Accepted (C : Crypto Key) (hs : Handshake Key) (contents : Bytes) (parsed : Parsed)
    (credential : Credential Key) : Prop where
  offered : hs.Offered
  reads : parsed.Reads contents
  pubkey : C.parseSubjectPublicKeyInfo parsed.spki = some credential.pubkey
  advertised : parsed.certVerifyAlgorithm ∈ hs.delegatedCredentials
  supports : C.pkeySupportsAlgorithm credential.pubkey parsed.certVerifyAlgorithm = true
  notRsa : C.isRsaAlgorithm parsed.certVerifyAlgorithm = false
  credential : credential = ⟨parsed.credential, parsed.signature, credential.pubkey,
    parsed.validTime, parsed.certVerifyAlgorithm, parsed.algorithm⟩

theorem parseCredential_ok {C : Crypto Key} {hs : Handshake Key} {contents : Bytes}
    {credential : Credential Key} (h : parseCredential C hs contents = .ok credential) :
    ∃ parsed, Accepted C hs contents parsed credential := by
  unfold parseCredential delegatedCredentialError at h
  split at h
  · cases h
  rename_i hsent
  split at h
  · cases h
  rename_i parsed hread
  split at h
  · cases h
  rename_i pubkey hkey
  split at h
  · cases h
  rename_i hadvertised
  split at h
  · cases h
  rename_i hsupports
  split at h
  · cases h
  rename_i hrsa
  cases h
  simp only [Bool.not_eq_true', Bool.not_eq_false, Bool.not_eq_true, List.contains_iff_mem] at *
  exact ⟨parsed, hsent, readCredential_eq_some.mp hread, hkey, hadvertised, hsupports, hrsa, rfl⟩

/-- **Only a client that asks for credentials gets one.**  Where the extension counts as sent no more than
what was appended for it, a credential is accepted only by a client that wants a certificate and can negotiate
TLS 1.3, and for an algorithm of those it listed. -/
theorem parseCredential_asked {C : Crypto Key} {hs : Handshake Key} {contents : Bytes}
    {credential : Credential Key} (hsent : hs.Offered → hs.addClienthello ≠ [])
    (h : parseCredential C hs contents = .ok credential) :
    hs.acceptsServerCertificateAuth = true ∧ tls13Version ≤ hs.maxVersion
      ∧ credential.certVerifyAlgorithm ∈ hs.delegatedCredentials := by
  obtain ⟨parsed, haccepted⟩ := parseCredential_ok h
  obtain ⟨haccepts, -, hversion⟩ := hs.addClienthello_ne_nil.mp (hsent haccepted.offered)
  refine ⟨haccepts, hversion, ?_⟩
  rw [haccepted.credential]
  exact haccepted.advertised

/-- A credential that was not asked for is an error. -/
theorem parseCredential_unsolicited {C : Crypto Key} {hs : Handshake Key} (contents : Bytes)
    (h : ¬ hs.Offered) :
    parseCredential C hs contents = .error ⟨unexpectedMessage, some "unsolicited"⟩ := by
  rw [parseCredential, if_pos (by simpa [Handshake.Offered] using h)]
  rfl

/-! ### What a handshake keeps -/

section Parse

variable {C : Crypto Key} {hs hs' : Handshake Key} {contents : Bytes}

theorem parse_ok_iff : hs.parse C contents = (.ok (), hs') ↔ ∃ credential,
    parseCredential C hs contents = .ok credential
      ∧ hs' = { hs with peerDelegatedCredential := some credential } := by
  unfold Handshake.parse
  cases parseCredential C hs contents with
  | error e => simp
  | ok credential => simp [eq_comm]

/-- A credential that is rejected leaves the handshake as it was. -/
theorem parse_error_iff {e : Failure} : hs.parse C contents = (.error e, hs') ↔
    parseCredential C hs contents = .error e ∧ hs' = hs := by
  unfold Handshake.parse
  cases parseCredential C hs contents with
  | error e' => simp [eq_comm]
  | ok credential => simp

end Parse

end Btls.Delegated
