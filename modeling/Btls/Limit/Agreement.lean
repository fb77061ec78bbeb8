import Btls.Limit.Peers

/-!
# Limit — Agreement

What the two peers agree on is fixed by what they start from: the limit of each direction
(`Config.toClientLimit`, `Config.toServerLimit`), the client's offer and the server's answer.  Each
function of the negotiation, given what the other side sends, comes to these.

* `parseClienthello_offer`, `checkSecondClienthello_offer`: the server reads an offer of this
  client, and a second one that repeats it.
* `parseServerhello_answer`: the client reads the answer, from a ServerHello or EncryptedExtensions.

A side that has no limit, or whose peer has none, has limit `0` for that direction, which is none.
Nothing here depends on when a side learns of the agreement; that is for `Conversation`.
-/

namespace Btls.Limit.Peers

open Btls.Support Btls.Tls Btls.Limit

/-! ### What is agreed -/

/-- Both have a limit, so that the extension is offered and answered. -/
def Config.Negotiates (C : Config) : Prop := C.clientLimit ≠ 0 ∧ C.serverLimit ≠ 0

instance (C : Config) : Decidable C.Negotiates := inferInstanceAs (Decidable (_ ∧ _))

namespace Config

variable (C : Config)

/-- The limit of the records to the client, `0` for none. -/
def toClientLimit : Nat :=
  if C.Negotiates then recordSizeLimitForVersion C.clientLimit C.version else 0

/-- The limit of the records to the server, `0` for none. -/
def toServerLimit : Nat :=
  if C.Negotiates then recordSizeLimitForVersion C.serverLimit C.version else 0

def offer : Option Bytes :=
  if C.clientLimit = 0 then none
  else some (be16 (recordSizeLimitForVersion C.clientLimit C.clientMaxVersion))

def answer : Option Bytes :=
  if C.Negotiates then some (be16 (recordSizeLimitForVersion C.serverLimit C.version)) else none

/-- What a ServerHello answers: from TLS 1.3 on that is left to EncryptedExtensions. -/
def helloAnswer : Option Bytes := if tls13Version ≤ C.version then none else C.answer

/-- What the server records of the offer. -/
def peerLimit : Nat :=
  if C.Negotiates then recordSizeLimitForVersion C.clientLimit C.clientMaxVersion else 0

/-- The content type that is encrypted with the plaintext. -/
def innerTypeLen : Nat := if tls13Version ≤ C.version then 1 else 0

theorem helloAnswer_tls13 {C : Config} (h : tls13Version ≤ C.version) : C.helloAnswer = none := if_pos h

theorem helloAnswer_tls12 {C : Config} (h : ¬ tls13Version ≤ C.version) : C.helloAnswer = C.answer := if_neg h

theorem ite_negotiates_ne_zero {C : Config} {limit version : Nat} :
    (if C.Negotiates then recordSizeLimitForVersion limit version else 0) ≠ 0 ↔ C.Negotiates := by
  by_cases hneg : C.Negotiates
  · rw [if_pos hneg]
    exact ⟨fun _ => hneg, fun _ => Nat.ne_of_gt (recordSizeLimitForVersion_pos _ _)⟩
  · rw [if_neg hneg]
    exact ⟨fun hne => absurd rfl hne, fun h => absurd h hneg⟩

/-- The client supports the version, and the length of a ciphertext is defined up to the protocol's limit
and grows with that of the plaintext. -/
structure Valid : Prop where
  version : C.version ≤ C.clientMaxVersion
  defined : ∀ n e, n ≤ maxPlainLength → e ≤ 1 → ∃ len, C.ciphertextLen n e = some len
  mono : ∀ m n e lenM lenN, m ≤ n → C.ciphertextLen m e = some lenM → C.ciphertextLen n e = some lenN →
    lenM ≤ lenN

end Config

section Negotiation

variable {C : Config}

theorem recordSizeLimitMaxForVersion_mono {v v' : Nat} (h : v ≤ v') :
    recordSizeLimitMaxForVersion v ≤ recordSizeLimitMaxForVersion v' := by
  unfold recordSizeLimitMaxForVersion
  by_cases hv : tls13Version ≤ v
  · exact Nat.le_of_eq ((if_pos hv).trans (if_pos (Nat.le_trans hv h)).symm)
  · rw [if_neg hv]
    split
    · exact Nat.le_succ _
    · exact Nat.le_refl _

/-- Clamping to what the client supports and then to what is negotiated is clamping to the latter. -/
theorem min_recordSizeLimitForVersion {limit v v' : Nat} (h : v ≤ v') :
    min (recordSizeLimitForVersion limit v') (recordSizeLimitMaxForVersion v)
      = recordSizeLimitForVersion limit v := by
  have hmax := recordSizeLimitMaxForVersion_mono h
  obtain ⟨hmin, hle⟩ := recordSizeLimitForVersion_bounds limit v
  have hmin := Nat.le_trans hmin hle
  clear hle
  unfold recordSizeLimitForVersion
  omega

theorem parse_limit (limit version : Nat) :
    recordSizeLimitParse (be16 (recordSizeLimitForVersion limit version))
      = .ok (recordSizeLimitForVersion limit version) := by
  obtain ⟨hmin, hmax⟩ := recordSizeLimitForVersion_bounds limit version
  exact recordSizeLimitParse_be16 hmin (Nat.lt_of_le_of_lt hmax (recordSizeLimitMaxForVersion_lt version))

/-- **The server reads the offer.** -/
theorem parseClienthello_offer {s : Ssl} (hvalid : C.Valid) (hdtls : s.isDtls = false)
    (hquic : s.isQuic = false) (hconfig : s.configRecordSizeLimit = C.serverLimit)
    (hversion : s.protocolVersion = C.version) :
    s.parseClienthello C.offer = (.ok (), { s with
      hs := { s.hs with recordSizeLimit := C.serverLimit, peerRecordSizeLimit := C.peerLimit }
      pendingReadRecordSizeLimit := C.toServerLimit
      pendingWriteRecordSizeLimit := C.toClientLimit }) := by
  unfold Ssl.parseClienthello Config.offer Config.peerLimit Config.toServerLimit Config.toClientLimit
  by_cases hclient : C.clientLimit = 0
  · have hneg : ¬ C.Negotiates := fun h => h.1 hclient
    simp [hclient, hneg, Ssl.snapshotConfig, Ssl.clearPending, hdtls, hconfig]
  · by_cases hserver : C.serverLimit = 0
    · have hneg : ¬ C.Negotiates := fun h => h.2 hserver
      simp [hclient, hneg, Ssl.snapshotConfig, Ssl.clearPending, hdtls, hconfig, hserver]
    · have hneg : C.Negotiates := ⟨hclient, hserver⟩
      simp [hclient, hneg, Ssl.snapshotConfig, Ssl.clearPending, hdtls, hconfig, hserver, parse_limit,
        Ssl.negotiate, hquic, hversion, min_recordSizeLimitForVersion hvalid.version]

theorem addServerhello_answer {s : Ssl} (hlimit : s.hs.recordSizeLimit = C.serverLimit)
    (hpeer : s.hs.peerRecordSizeLimit = C.peerLimit) (hversion : s.protocolVersion = C.version) :
    s.addServerhello = C.answer := by
  have hpos := recordSizeLimitForVersion_pos C.clientLimit C.clientMaxVersion
  unfold Ssl.addServerhello Config.answer
  rw [hlimit, hpeer, hversion, Config.peerLimit]
  by_cases hneg : C.Negotiates
  · rw [if_pos hneg, if_pos hneg, if_neg (Nat.ne_of_gt hpos)]
  · rw [if_neg hneg, if_neg hneg, if_pos rfl]

/-- **An honest second ClientHello** passes. -/
theorem checkSecondClienthello_offer {s : Ssl} (hlimit : s.hs.recordSizeLimit = C.serverLimit)
    (hpeer : s.hs.peerRecordSizeLimit = C.peerLimit) : s.checkSecondClienthello C.offer = .ok () := by
  obtain ⟨hmin, hmax⟩ := recordSizeLimitForVersion_bounds C.clientLimit C.clientMaxVersion
  have hlt := Nat.lt_of_le_of_lt hmax (recordSizeLimitMaxForVersion_lt C.clientMaxVersion)
  have hpos := recordSizeLimitForVersion_pos C.clientLimit C.clientMaxVersion
  unfold Ssl.checkSecondClienthello Config.offer
  rw [hlimit, hpeer, Config.peerLimit]
  by_cases hserver : C.serverLimit = 0
  · rw [if_pos hserver]
  · rw [if_neg hserver]
    by_cases hclient : C.clientLimit = 0
    · have hneg : ¬ C.Negotiates := fun h => h.1 hclient
      rw [if_pos hclient, if_neg hneg]
      rfl
    · have hneg : C.Negotiates := ⟨hclient, hserver⟩
      rw [if_neg hclient, if_pos hneg]
      dsimp only
      rw [if_neg (Nat.ne_of_gt hpos)]
      show (if readBe16 _ _ ≠ _ then _ else _) = _
      rw [readBe16_be16 hlt, if_neg (not_not.mpr rfl)]

/-- **The client reads the answer.** -/
theorem parseServerhello_answer {s : Ssl} (hquic : s.isQuic = false)
    (hlimit : s.hs.recordSizeLimit = C.clientLimit) (hversion : s.protocolVersion = C.version)
    (hexceeded : s.unconfirmedReadRecordSizeLimitExceeded = true → C.toClientLimit = 0)
    (hread : s.readRecordSizeLimit = 0) (hwrite : s.writeRecordSizeLimit = 0) :
    s.parseServerhello C.answer = (.ok (), { s with
      pendingReadRecordSizeLimit := C.toClientLimit
      pendingWriteRecordSizeLimit := C.toServerLimit
      unconfirmedReadRecordSizeLimit := 0
      unconfirmedReadRecordSizeLimitExceeded := false
      readRecordSizeLimit := if tls13Version ≤ C.version then C.toClientLimit else 0
      writeRecordSizeLimit :=
        if tls13Version ≤ C.version ∧ s.hs.inEarlyData = false then C.toServerLimit else 0 }) := by
  have hpos := recordSizeLimitForVersion_pos C.clientLimit C.version
  unfold Config.answer Config.toClientLimit Config.toServerLimit at *
  by_cases hneg : C.Negotiates
  · simp only [if_pos hneg] at *
    have hnone : s.unconfirmedReadRecordSizeLimitExceeded = false :=
      Bool.eq_false_iff.mpr fun h => Nat.ne_of_gt hpos (hexceeded h)
    rw [Ssl.parseServerhello_valid (parse_limit _ _)
      (hversion ▸ (recordSizeLimitForVersion_bounds C.serverLimit C.version).2) hnone hquic, hlimit,
      hversion, hread, hwrite]
  · simp only [if_neg hneg] at *
    simp [Ssl.parseServerhello, Ssl.clearPending, Ssl.clearUnconfirmed, hread, hwrite]

end Negotiation

end Btls.Limit.Peers
