import Btls.Tls.State

/-!
# Limit — RecordSizeLimit

The negotiation of the record size limit: what a handshake offers, checks and leaves pending, which
limits a change of keys puts in force, and the two checks an opened record passes.

`Ssl` is one end of a connection as far as these go.  A limit of 0 is none.  Until
EncryptedExtensions a TLS 1.3 client cannot know whether its offer binds the server; what it then
holds is an unconfirmed limit, and a note of whether a record exceeded it.
-/

namespace Btls.Limit

open Btls.Support Btls.Tls

/-! ### The connection -/

inductive Alert where
  | decodeError
  | illegalParameter
  | recordOverflow
  | internalError
  deriving DecidableEq

/-- The reasons on the error queue. -/
inductive LimitReason where
  | decodeError
  | badLength
  | dataLengthTooLong
  | encryptedLengthTooLong
  | unexpectedExtension
  | missingExtension
  | internalError
  deriving DecidableEq

structure LimitError where
  reason : LimitReason
  alert : Alert
  deriving DecidableEq

/-- `SSL_HANDSHAKE`. -/
structure Handshake where
  recordSizeLimit : Nat
  peerRecordSizeLimit : Nat
  maxVersion : Nat
  inEarlyData : Bool

/-- `SSLImpl` and its `SSL3_STATE`. -/
structure Ssl where
  server : Bool
  isDtls : Bool
  isQuic : Bool
  /-- `ssl_protocol_version`. -/
  protocolVersion : Nat
  /-- `config->record_size_limit`. -/
  configRecordSizeLimit : Nat
  hs : Handshake
  /-- `s3->hs != nullptr`. -/
  hasHs : Bool
  /-- `aead_read_ctx->is_null_cipher()`. -/
  readNullCipher : Bool
  /-- `aead_write_ctx->is_null_cipher()`. -/
  writeNullCipher : Bool
  skipEarlyData : Bool
  readRecordSizeLimit : Nat
  writeRecordSizeLimit : Nat
  pendingReadRecordSizeLimit : Nat
  pendingWriteRecordSizeLimit : Nat
  unconfirmedReadRecordSizeLimit : Nat
  unconfirmedReadRecordSizeLimitExceeded : Bool

/-- A new connection, its handshake not begun. -/
def Ssl.new (server isDtls isQuic : Bool) (configRecordSizeLimit : Nat) : Ssl where
  server
  isDtls
  isQuic
  protocolVersion := 0
  configRecordSizeLimit
  hs := ⟨0, 0, 0, false⟩
  hasHs := true
  readNullCipher := true
  writeNullCipher := true
  skipEarlyData := false
  readRecordSizeLimit := 0
  writeRecordSizeLimit := 0
  pendingReadRecordSizeLimit := 0
  pendingWriteRecordSizeLimit := 0
  unconfirmedReadRecordSizeLimit := 0
  unconfirmedReadRecordSizeLimitExceeded := false

/-! ### Limits -/

def recordSizeLimitMaxForVersion (version : Nat) : Nat :=
  if tls13Version ≤ version then maxPlainLength + 1 else maxPlainLength

def recordSizeLimitForVersion (limit version : Nat) : Nat :=
  max kMinRecordSizeLimit (min limit (recordSizeLimitMaxForVersion version))

theorem recordSizeLimitForVersion_bounds (limit version : Nat) :
    kMinRecordSizeLimit ≤ recordSizeLimitForVersion limit version
      ∧ recordSizeLimitForVersion limit version ≤ recordSizeLimitMaxForVersion version := by
  have hmin : kMinRecordSizeLimit ≤ recordSizeLimitMaxForVersion version := by
    unfold recordSizeLimitMaxForVersion
    split <;> decide
  exact ⟨Nat.le_max_left _ _, Nat.max_le.mpr ⟨hmin, Nat.min_le_right _ _⟩⟩

theorem recordSizeLimitMaxForVersion_lt (version : Nat) :
    recordSizeLimitMaxForVersion version < 65536 := by
  unfold recordSizeLimitMaxForVersion
  split <;> decide

theorem recordSizeLimitForVersion_pos (limit version : Nat) :
    0 < recordSizeLimitForVersion limit version :=
  Nat.lt_of_lt_of_le (by decide) (recordSizeLimitForVersion_bounds limit version).1

/-- Versions with the same maximum clamp alike. -/
theorem recordSizeLimitForVersion_tls13 {limit v v' : Nat} (hv : tls13Version ≤ v)
    (hv' : tls13Version ≤ v') :
    recordSizeLimitForVersion limit v = recordSizeLimitForVersion limit v' := by
  unfold recordSizeLimitForVersion recordSizeLimitMaxForVersion
  rw [if_pos hv, if_pos hv']

/-! ### The extension -/

/-- The value of an extension's contents: two bytes, at least the minimum. -/
def recordSizeLimitParse : Bytes → Except LimitError Nat
  | [hi, lo] =>
      if readBe16 hi lo < kMinRecordSizeLimit then .error ⟨.badLength, .illegalParameter⟩
      else .ok (readBe16 hi lo)
  | _ => .error ⟨.decodeError, .decodeError⟩

theorem recordSizeLimitParse_be16 {n : Nat} (hmin : kMinRecordSizeLimit ≤ n) (h : n < 65536) :
    recordSizeLimitParse (be16 n) = .ok n := by
  show (if _ then _ else _) = _
  rw [readBe16_be16 h, if_neg (Nat.not_lt.mpr hmin)]

namespace Ssl

variable (s : Ssl)

def clearPending : Ssl :=
  { s with pendingReadRecordSizeLimit := 0, pendingWriteRecordSizeLimit := 0 }

def negotiate (peerLimit : Nat) : Ssl :=
  -- QUIC has no record layer to limit.
  if s.isQuic then s
  else
    { s with
      pendingWriteRecordSizeLimit :=
        min peerLimit (recordSizeLimitMaxForVersion s.protocolVersion)
      pendingReadRecordSizeLimit :=
        recordSizeLimitForVersion s.hs.recordSizeLimit s.protocolVersion }

def clearUnconfirmed : Ssl :=
  { s with
    unconfirmedReadRecordSizeLimit := 0
    unconfirmedReadRecordSizeLimitExceeded := false }

def snapshotConfig : Ssl :=
  { s with hs := { s.hs with
      recordSizeLimit := if s.isDtls then 0 else s.configRecordSizeLimit } }

/-- The contents of the extension in a ClientHello, if it is there. -/
def addClienthello : Option Bytes :=
  if s.hs.recordSizeLimit = 0 then none
  else some (be16 (recordSizeLimitForVersion s.hs.recordSizeLimit s.hs.maxVersion))

def parseServerhello (contents : Option Bytes) : Except LimitError Unit × Ssl :=
  let unconfirmedLimitExceeded := s.unconfirmedReadRecordSizeLimitExceeded
  let s := s.clearPending.clearUnconfirmed
  match contents with
  | none => (.ok (), s)
  | some contents =>
      match recordSizeLimitParse contents with
      | .error e => (.error e, s)
      | .ok peerLimit =>
          if recordSizeLimitMaxForVersion s.protocolVersion < peerLimit then
            (.error ⟨.badLength, .illegalParameter⟩, s)
          else if unconfirmedLimitExceeded then
            (.error ⟨.dataLengthTooLong, .recordOverflow⟩, s)
          else
            let s := s.negotiate peerLimit
            if tls13Version ≤ s.protocolVersion then
              -- The handshake keys are installed already; their limits start now.  With 0-RTT in
              -- progress the write keys are not those yet.
              let s := { s with readRecordSizeLimit := s.pendingReadRecordSizeLimit }
              if s.hs.inEarlyData then (.ok (), s)
              else (.ok (), { s with writeRecordSizeLimit := s.pendingWriteRecordSizeLimit })
            else (.ok (), s)

def parseClienthello (contents : Option Bytes) : Except LimitError Unit × Ssl :=
  let s := s.snapshotConfig.clearPending
  let s := { s with hs := { s.hs with peerRecordSizeLimit := 0 } }
  match contents with
  | none => (.ok (), s)
  | some contents =>
      if s.hs.recordSizeLimit = 0 then (.ok (), s)
      else
        match recordSizeLimitParse contents with
        | .error e => (.error e, s)
        | .ok peerLimit =>
            let s := { s with hs := { s.hs with peerRecordSizeLimit := peerLimit } }
            (.ok (), s.negotiate peerLimit)

/-- `contents` is the extension of the second ClientHello. -/
def checkSecondClienthello (contents : Option Bytes) : Except LimitError Unit :=
  if s.hs.recordSizeLimit = 0 then .ok ()
  else
    match contents with
    | none =>
        if s.hs.peerRecordSizeLimit ≠ 0 then .error ⟨.missingExtension, .illegalParameter⟩
        else .ok ()
    | some contents =>
        if s.hs.peerRecordSizeLimit = 0 then .error ⟨.unexpectedExtension, .illegalParameter⟩
        else
          match contents with
          | [hi, lo] =>
              if readBe16 hi lo ≠ s.hs.peerRecordSizeLimit then
                .error ⟨.badLength, .illegalParameter⟩
              else .ok ()
          | _ => .error ⟨.decodeError, .decodeError⟩

/-- The contents of the extension in a ServerHello or EncryptedExtensions, if it is there. -/
def addServerhello : Option Bytes :=
  if s.hs.peerRecordSizeLimit = 0 then none
  else some (be16 (recordSizeLimitForVersion s.hs.recordSizeLimit s.protocolVersion))

def allowsEarlyData : Bool :=
  s.pendingReadRecordSizeLimit = 0
    || recordSizeLimitMaxForVersion s.protocolVersion ≤ s.pendingReadRecordSizeLimit

variable {s}

/-- What a client makes of a valid answer: both limits are pending, and from TLS 1.3 on in force
where their keys are installed. -/
theorem parseServerhello_valid {contents : Bytes} {limit : Nat}
    (hparse : recordSizeLimitParse contents = .ok limit)
    (hle : limit ≤ recordSizeLimitMaxForVersion s.protocolVersion)
    (hexceeded : s.unconfirmedReadRecordSizeLimitExceeded = false) (hquic : s.isQuic = false) :
    s.parseServerhello (some contents) = (.ok (), { s with
      pendingWriteRecordSizeLimit := limit
      pendingReadRecordSizeLimit :=
        recordSizeLimitForVersion s.hs.recordSizeLimit s.protocolVersion
      unconfirmedReadRecordSizeLimit := 0
      unconfirmedReadRecordSizeLimitExceeded := false
      readRecordSizeLimit :=
        if tls13Version ≤ s.protocolVersion then
          recordSizeLimitForVersion s.hs.recordSizeLimit s.protocolVersion
        else s.readRecordSizeLimit
      writeRecordSizeLimit :=
        if tls13Version ≤ s.protocolVersion ∧ s.hs.inEarlyData = false then limit
        else s.writeRecordSizeLimit }) := by
  unfold parseServerhello
  simp only [hparse, hexceeded, clearPending, clearUnconfirmed, Nat.not_lt.mpr hle, if_false,
    negotiate, hquic, Bool.false_eq_true, Nat.min_eq_left hle]
  by_cases hversion : tls13Version ≤ s.protocolVersion
  · rcases s.hs.inEarlyData with _ | _ <;> simp [hversion]
  · simp [hversion]

/-- A client that saw its offer exceeded fails instead. -/
theorem parseServerhello_exceeded {contents : Bytes} {limit : Nat}
    (hparse : recordSizeLimitParse contents = .ok limit)
    (hle : limit ≤ recordSizeLimitMaxForVersion s.protocolVersion)
    (hexceeded : s.unconfirmedReadRecordSizeLimitExceeded = true) :
    s.parseServerhello (some contents)
      = (.error ⟨.dataLengthTooLong, .recordOverflow⟩, s.clearPending.clearUnconfirmed) := by
  unfold parseServerhello
  simp [hparse, hexceeded, clearPending, clearUnconfirmed, Nat.not_lt.mpr hle]

/-- No other failure is a record overflow. -/
theorem parseServerhello_invalid {contents : Bytes}
    (hinvalid : ∀ limit, recordSizeLimitParse contents = .ok limit →
      recordSizeLimitMaxForVersion s.protocolVersion < limit) :
    ∃ e, s.parseServerhello (some contents) = (.error e, s.clearPending.clearUnconfirmed)
      ∧ e.alert ≠ .recordOverflow := by
  unfold parseServerhello
  rcases hparse : recordSizeLimitParse contents with e | limit
  · refine ⟨e, by simp only [hparse], ?_⟩
    unfold recordSizeLimitParse at hparse
    split at hparse
    · split at hparse
      · rw [← Except.error.inj hparse]
        decide
      · cases hparse
    · rw [← Except.error.inj hparse]
      decide
  · have hlt := hinvalid limit hparse
    refine ⟨⟨.badLength, .illegalParameter⟩, ?_, by decide⟩
    simp only [hparse]
    exact if_pos hlt

variable (s)

/-! ### Keys and records -/

/-- `ssl_encryption_level_t`. -/
inductive Level where
  | initial
  | earlyData
  | handshake
  | application
  deriving DecidableEq

def setReadState (level : Level) : Ssl :=
  let limit := if level = .earlyData then 0 else s.pendingReadRecordSizeLimit
  let s := { s with readRecordSizeLimit := limit }.clearUnconfirmed
  { s with unconfirmedReadRecordSizeLimit :=
      if level = .handshake ∧ !s.server ∧ !s.isQuic ∧ tls13Version ≤ s.protocolVersion ∧ limit = 0
          ∧ s.hasHs ∧ s.hs.recordSizeLimit ≠ 0 then
        recordSizeLimitForVersion s.hs.recordSizeLimit s.protocolVersion
      else s.unconfirmedReadRecordSizeLimit }

def setWriteState (level : Level) : Ssl :=
  { s with writeRecordSizeLimit :=
      if level = .earlyData then 0 else s.pendingWriteRecordSizeLimit }

def maxSendFragment (configuredLimit : Nat) : Nat :=
  if s.writeRecordSizeLimit = 0 ∨ s.writeNullCipher then configuredLimit
  else
    let recordSizeLimit :=
      -- TLS 1.3 includes the inner content type in the advertised limit.
      if tls13Version ≤ s.protocolVersion then s.writeRecordSizeLimit - 1
      else s.writeRecordSizeLimit
    min configuredLimit recordSizeLimit

/-- `lengthOf` is the read cipher's `CiphertextLen`. -/
def checkCiphertext (lengthOf : (inLen extraLen : Nat) → Option Nat) (ciphertextLen : Nat) :
    Except LimitError Unit :=
  let limit := s.readRecordSizeLimit
  if limit = 0 ∨ s.readNullCipher then .ok ()
  -- Rejected 0-RTT was sent under the protocol maximum; trial decryption discards it.
  else if s.skipEarlyData then .ok ()
  else if s.protocolVersion < tls13Version
      ∧ limit = recordSizeLimitMaxForVersion s.protocolVersion then .ok ()
  else
    let innerTypeLen := if tls13Version ≤ s.protocolVersion then 1 else 0
    match lengthOf (limit - innerTypeLen) innerTypeLen with
    | none => .error ⟨.internalError, .internalError⟩
    | some maxCiphertextLen =>
        if maxCiphertextLen < ciphertextLen then .error ⟨.encryptedLengthTooLong, .recordOverflow⟩
        else .ok ()

def checkPlaintext (plaintextLen protocolLimit : Nat) : Except LimitError Unit × Ssl :=
  if protocolLimit < plaintextLen then (.error ⟨.dataLengthTooLong, .recordOverflow⟩, s)
  else if s.readNullCipher then (.ok (), s)
  else if s.readRecordSizeLimit ≠ 0 ∧ s.readRecordSizeLimit < plaintextLen then
    (.error ⟨.dataLengthTooLong, .recordOverflow⟩, s)
  else if s.readRecordSizeLimit = 0 ∧ s.unconfirmedReadRecordSizeLimit ≠ 0
      ∧ s.unconfirmedReadRecordSizeLimit < plaintextLen then
    (.ok (), { s with unconfirmedReadRecordSizeLimitExceeded := true })
  else (.ok (), s)

end Ssl

end Btls.Limit
