import Btls.Limit.RecordSizeLimit

/-!
# Limit — Unconfirmed

The records a TLS 1.3 client receives under the handshake keys, until EncryptedExtensions says
whether its offer binds the server.  They are opened one by one, and their contents are put together
until there is a message.

Any number of records may come, of any lengths and with any padding; which of them exceed the offer
is seen from their lengths alone (`Exceeds`).  Until there is an answer none is rejected for that,
since the server may not know the extension.

The whole of what the records leave behind is one bit, whether any exceeded the offer
(`receive_waiting`); EncryptedExtensions makes an error of that bit or forgets it
(`unconfirmed_limit_exact`).
-/

namespace Btls.Limit

open Btls.Support Btls.Tls

/-- An opened record: its lengths, and the handshake bytes in it. -/
structure Record where
  ciphertextLen : Nat
  /-- The protected plaintext, with the content type and any padding. -/
  plaintextLen : Nat
  content : Bytes

/-- What the parser of EncryptedExtensions does: it refuses the message before it comes to the
record size limit, or hands over the contents of that extension and then accepts the rest or not. -/
inductive EncryptedExtensions where
  | refused
  | handed (contents : Option Bytes) (accepted : Bool)

/-- The rest of the client. -/
structure ClientUpstream where
  ciphertextLen : (inLen extraLen : Nat) → Option Nat
  /-- The message at the front of the handshake bytes, once it is whole. -/
  getMessage : Bytes → Option Bytes
  encryptedExtensions : Bytes → EncryptedExtensions

/-- Where the client is after some records. -/
inductive Outcome where
  | waiting (s : Ssl)
  /-- One of the checks of the limit failed. -/
  | limited (e : LimitError) (s : Ssl)
  | refused (s : Ssl)
  | accepted (s : Ssl)

variable (U : ClientUpstream)

/-- The checks in `tls_open_record`. -/
def openRecord (s : Ssl) (r : Record) : Except LimitError Unit × Ssl :=
  match s.checkCiphertext U.ciphertextLen r.ciphertextLen with
  | .error e => (.error e, s)
  | .ok () =>
      let hasPadding := !s.readNullCipher && tls13Version ≤ s.protocolVersion
      s.checkPlaintext r.plaintextLen (if hasPadding then maxPlainLength + 1 else maxPlainLength)

def readEncryptedExtensions (s : Ssl) (msg : Bytes) : Outcome :=
  match U.encryptedExtensions msg with
  | .refused => .refused s
  | .handed contents accepted =>
      match s.parseServerhello contents with
      | (.error e, s) => .limited e s
      | (.ok (), s) => if accepted then .accepted s else .refused s

/-- Receives records after the handshake bytes `buf`, up to the one that completes a message. -/
def receive : Ssl → (buf : Bytes) → List Record → Outcome
  | s, _, [] => .waiting s
  | s, buf, r :: records =>
      match openRecord U s r with
      | (.error e, s) => .limited e s
      | (.ok (), s) =>
          match U.getMessage (buf ++ r.content) with
          | none => receive s (buf ++ r.content) records
          | some msg => readEncryptedExtensions U s msg

/-- A client that was configured with a limit, offered at most `maxVersion`, and has installed the
handshake read keys of `version`. -/
def clientHandshakeKeys (config maxVersion version : Nat) (inEarlyData : Bool) : Ssl :=
  let s := Ssl.new false false false config
  let s := { s with hs := { s.hs with maxVersion } }.snapshotConfig
  let s := { s with hs := { s.hs with inEarlyData } }
  { s with protocolVersion := version, readNullCipher := false }.setReadState .handshake

/-- The last of the records, and no earlier one, completes the message. -/
structure Completes (records : List Record) (msg : Bytes) : Prop where
  ne_nil : records ≠ []
  before : ∀ n < records.length, U.getMessage ((records.take n).flatMap Record.content) = none
  last : U.getMessage (records.flatMap Record.content) = some msg

/-- A limit the client accepts from a server of `version`. -/
def ValidLimit (version : Nat) (contents : Bytes) : Prop :=
  ∃ limit, recordSizeLimitParse contents = .ok limit
    ∧ limit ≤ recordSizeLimitMaxForVersion version

/-- No limit on reading, now or pending, and no trace of one that was offered. -/
structure Ssl.Unlimited (s : Ssl) : Prop where
  read : s.readRecordSizeLimit = 0
  pending : s.pendingReadRecordSizeLimit = 0
  unconfirmed : s.unconfirmedReadRecordSizeLimit = 0
  exceeded : s.unconfirmedReadRecordSizeLimitExceeded = false

/-! ### One record -/

/-- The client with the bit set or not. -/
def Ssl.setExceeded (s : Ssl) (exceeded : Bool) : Ssl :=
  { s with unconfirmedReadRecordSizeLimitExceeded := exceeded }

/-- The client waits for EncryptedExtensions with `advertised` unconfirmed. -/
structure Ssl.Awaits (s : Ssl) (advertised : Nat) : Prop where
  version : tls13Version ≤ s.protocolVersion
  notNull : s.readNullCipher = false
  stream : s.isQuic = false
  noLimit : s.readRecordSizeLimit = 0
  unconfirmed : s.unconfirmedReadRecordSizeLimit = advertised
  offered : recordSizeLimitForVersion s.hs.recordSizeLimit s.protocolVersion = advertised

variable {U} {s : Ssl} {advertised : Nat} {records : List Record} {msg : Bytes}

theorem Ssl.Awaits.pos (h : s.Awaits advertised) : advertised ≠ 0 := by
  rw [← h.offered]
  exact Nat.ne_of_gt (recordSizeLimitForVersion_pos _ _)

/-- The records that exceed the offer. -/
def Exceeds (advertised : Nat) (r : Record) : Bool := advertised < r.plaintextLen

theorem openRecord_awaits {r : Record} {exceeded : Bool} (h : s.Awaits advertised)
    (hlen : r.plaintextLen ≤ maxPlainLength + 1) :
    openRecord U (s.setExceeded exceeded) r
      = (.ok (), s.setExceeded (exceeded || Exceeds advertised r)) := by
  have hpos := h.pos
  obtain ⟨hversion, hnull, -, hlimit, hunconfirmed, -⟩ := h
  have hcipher : (s.setExceeded exceeded).checkCiphertext U.ciphertextLen r.ciphertextLen
      = .ok () := if_pos (.inl hlimit)
  have hpadding : (!(s.setExceeded exceeded).readNullCipher
      && decide (tls13Version ≤ (s.setExceeded exceeded).protocolVersion)) = true := by
    simp [Ssl.setExceeded, hnull, hversion]
  unfold openRecord
  simp only [hcipher, hpadding, if_true]
  unfold Ssl.checkPlaintext
  rw [if_neg (Nat.not_lt.mpr hlen)]
  by_cases hexceeds : advertised < r.plaintextLen <;>
    simp [Ssl.setExceeded, hnull, hlimit, hunconfirmed, hpos, Exceeds, hexceeds]

/-- **What records leave behind.**  Before a message is whole no record is rejected, and the client
has noted whether any exceeded its offer. -/
theorem receive_waiting {buf : Bytes} {exceeded : Bool} (h : s.Awaits advertised)
    (hlen : ∀ r ∈ records, r.plaintextLen ≤ maxPlainLength + 1)
    (hnone : ∀ n < records.length,
      U.getMessage (buf ++ (records.take (n + 1)).flatMap Record.content) = none) :
    receive U (s.setExceeded exceeded) buf records
      = .waiting (s.setExceeded (exceeded || records.any (Exceeds advertised))) := by
  induction records generalizing buf exceeded with
  | nil => simp [receive]
  | cons r records ih =>
      have hfirst : U.getMessage (buf ++ r.content) = none := by
        simpa using hnone 0 (Nat.zero_lt_succ _)
      unfold receive
      rw [openRecord_awaits h (hlen r List.mem_cons_self)]
      simp only [hfirst]
      rw [ih (fun r' hr' => hlen r' (List.mem_cons_of_mem _ hr')), List.any_cons, Bool.or_assoc]
      intro n hn
      have hnext := hnone (n + 1) (Nat.succ_lt_succ hn)
      rwa [List.take_succ_cons, List.flatMap_cons, ← List.append_assoc] at hnext

/-- The record that completes the message is opened like the others. -/
theorem receive_message {buf : Bytes} {exceeded : Bool} (h : s.Awaits advertised)
    (hlen : ∀ r ∈ records, r.plaintextLen ≤ maxPlainLength + 1) (hne : records ≠ [])
    (hnone : ∀ n, n + 1 < records.length →
      U.getMessage (buf ++ (records.take (n + 1)).flatMap Record.content) = none)
    (hlast : U.getMessage (buf ++ records.flatMap Record.content) = some msg) :
    receive U (s.setExceeded exceeded) buf records
      = readEncryptedExtensions U
          (s.setExceeded (exceeded || records.any (Exceeds advertised))) msg := by
  induction records generalizing buf exceeded with
  | nil => exact absurd rfl hne
  | cons r records ih =>
      unfold receive
      rw [openRecord_awaits h (hlen r List.mem_cons_self)]
      simp only
      rcases records with _ | ⟨r', records⟩
      · have hwhole : U.getMessage (buf ++ r.content) = some msg := by simpa using hlast
        simp [hwhole]
      · have hfirst : U.getMessage (buf ++ r.content) = none := by
          simpa using hnone 0 (by simp)
        simp only [hfirst]
        rw [ih (fun r' hr' => hlen r' (List.mem_cons_of_mem _ hr')) (List.cons_ne_nil _ _),
          List.any_cons, List.any_cons, List.any_cons, Bool.or_assoc]
        · intro n hn
          have hnext := hnone (n + 1) (Nat.succ_lt_succ hn)
          rwa [List.take_succ_cons, List.flatMap_cons, ← List.append_assoc] at hnext
        · rwa [List.flatMap_cons, ← List.append_assoc] at hlast

/-! ### EncryptedExtensions -/

/-- With the extension, the client fails for the limit if and only if it is valid and a record
exceeded the offer. -/
theorem parseServerhello_overflow {contents : Option Bytes} (hquic : s.isQuic = false) :
    (∃ e s', s.parseServerhello contents = (.error e, s') ∧ e.alert = .recordOverflow)
      ↔ (∃ c, contents = some c ∧ ValidLimit s.protocolVersion c)
        ∧ s.unconfirmedReadRecordSizeLimitExceeded = true := by
  rcases contents with _ | c
  · simp [Ssl.parseServerhello]
  by_cases hvalid : ValidLimit s.protocolVersion c
  · obtain ⟨limit, hparse, hle⟩ := hvalid
    have hc : ∃ c', some c = some c' ∧ ValidLimit s.protocolVersion c' := ⟨c, rfl, limit, hparse, hle⟩
    rcases hexceeded : s.unconfirmedReadRecordSizeLimitExceeded with _ | _
    · rw [Ssl.parseServerhello_valid hparse hle hexceeded hquic]
      simp
    · rw [Ssl.parseServerhello_exceeded hparse hle hexceeded]
      exact ⟨fun _ => ⟨hc, rfl⟩, fun _ => ⟨_, _, rfl, rfl⟩⟩
  · have hinvalid : ∀ limit, recordSizeLimitParse c = .ok limit →
        recordSizeLimitMaxForVersion s.protocolVersion < limit := by
      intro limit hparse
      exact Nat.lt_of_not_le fun hle => hvalid ⟨limit, hparse, hle⟩
    obtain ⟨e, he, halert⟩ := Ssl.parseServerhello_invalid hinvalid
    rw [he]
    constructor
    · rintro ⟨e', s', heq, halert'⟩
      rw [← Except.error.inj (Prod.mk.inj heq).1] at halert'
      exact absurd halert' halert
    · rintro ⟨⟨c', hc', hvalid'⟩, -⟩
      rw [← Option.some.inj hc'] at hvalid'
      exact absurd hvalid' hvalid

/-! ### The whole of the wait -/

theorem clientHandshakeKeys_awaits {config maxVersion version : Nat} {inEarlyData : Bool}
    (hconfig : config ≠ 0) (hversion : tls13Version ≤ version) (hmax : version ≤ maxVersion) :
    (clientHandshakeKeys config maxVersion version inEarlyData).Awaits
      (recordSizeLimitForVersion config maxVersion) := by
  have hclamp : recordSizeLimitForVersion config version
      = recordSizeLimitForVersion config maxVersion :=
    recordSizeLimitForVersion_tls13 hversion (Nat.le_trans hversion hmax)
  constructor <;>
    simp [clientHandshakeKeys, Ssl.new, Ssl.snapshotConfig, Ssl.setReadState, Ssl.clearUnconfirmed,
      hconfig, hversion, hclamp]

theorem any_exceeds : records.any (Exceeds advertised) = true
    ↔ ∃ r ∈ records, advertised < r.plaintextLen := by
  simp [Exceeds]

/-- The limit fails EncryptedExtensions where its parser does. -/
theorem readEncryptedExtensions_overflow :
    (∃ e s', readEncryptedExtensions U s msg = .limited e s' ∧ e.alert = .recordOverflow)
      ↔ ∃ contents accepted, U.encryptedExtensions msg = .handed contents accepted
        ∧ ∃ e s', s.parseServerhello contents = (.error e, s') ∧ e.alert = .recordOverflow := by
  unfold readEncryptedExtensions
  rcases hee : U.encryptedExtensions msg with _ | ⟨contents, accepted⟩
  · simp
  rcases hp : s.parseServerhello contents with ⟨e | _, s₁⟩
  · simp [hp]
  · rcases accepted with _ | _ <;> simp [hp]

/-- **An unconfirmed limit is confirmed or withdrawn.**  A client offered `advertised` and receives
records up to the one that completes EncryptedExtensions.  None before that one is rejected.  The
client fails for the limit if and only if the server's extension is there and valid and a record
exceeded what was advertised.  Without the extension no limit is left, nor comes with later keys; with
it and no record exceeding, the limit is in force. -/
theorem unconfirmed_limit_exact {config maxVersion version : Nat} {inEarlyData : Bool}
    (hconfig : config ≠ 0) (hversion : tls13Version ≤ version) (hmax : version ≤ maxVersion)
    (hlen : ∀ r ∈ records, r.plaintextLen ≤ maxPlainLength + 1) (hmsg : Completes U records msg) :
    let advertised := recordSizeLimitForVersion config maxVersion
    let s := clientHandshakeKeys config maxVersion version inEarlyData
    s.addClienthello = some (be16 advertised)
      ∧ (∀ n < records.length, ∃ s', receive U s [] (records.take n) = .waiting s')
      ∧ ((∃ e s', receive U s [] records = .limited e s' ∧ e.alert = .recordOverflow)
        ↔ (∃ c accepted, U.encryptedExtensions msg = .handed (some c) accepted
            ∧ ValidLimit version c) ∧ ∃ r ∈ records, advertised < r.plaintextLen)
      ∧ (∀ accepted, U.encryptedExtensions msg = .handed none accepted →
        ∃ s', receive U s [] records = (if accepted then .accepted s' else .refused s')
          ∧ s'.Unlimited ∧ ∀ level, level ≠ .handshake → (s'.setReadState level).Unlimited)
      ∧ ∀ c accepted, U.encryptedExtensions msg = .handed (some c) accepted →
        ValidLimit version c → (∀ r ∈ records, r.plaintextLen ≤ advertised) →
        ∃ s', receive U s [] records = (if accepted then .accepted s' else .refused s')
          ∧ s'.readRecordSizeLimit = advertised ∧ s'.unconfirmedReadRecordSizeLimit = 0
          ∧ s'.unconfirmedReadRecordSizeLimitExceeded = false := by
  intro advertised s
  have hs : s.Awaits advertised := clientHandshakeKeys_awaits hconfig hversion hmax
  have hbefore : ∀ n, n + 1 < records.length →
      U.getMessage ([] ++ (records.take (n + 1)).flatMap Record.content) = none := by
    intro n hn
    exact hmsg.before (n + 1) hn
  -- Before the message is complete the records only gather, and set the flag.
  have hreceive : receive U (s.setExceeded false) [] records
      = readEncryptedExtensions U (s.setExceeded (false || records.any (Exceeds advertised))) msg :=
    receive_message hs hlen hmsg.ne_nil hbefore hmsg.last
  rw [Bool.false_or, show s.setExceeded false = s from rfl] at hreceive
  have hall {exceeded : Bool} : (s.setExceeded exceeded).Awaits advertised :=
    ⟨hs.version, hs.notNull, hs.stream, hs.noLimit, hs.unconfirmed, hs.offered⟩
  have hprotocol : s.protocolVersion = version := rfl
  refine ⟨?_, ?_, ?_, ?_, ?_⟩
  · exact if_neg hconfig
  · intro n hn
    have hwait : receive U (s.setExceeded false) [] (records.take n)
        = .waiting (s.setExceeded (false || (records.take n).any (Exceeds advertised))) := by
      refine receive_waiting hs (fun r hr => hlen r (List.mem_of_mem_take hr)) ?_
      intro k hk
      rw [List.length_take] at hk
      rw [List.take_take, Nat.min_eq_left (by omega)]
      exact hbefore k (by omega)
    exact ⟨_, hwait⟩
  · rw [hreceive, readEncryptedExtensions_overflow, ← any_exceeds]
    constructor
    · rintro ⟨contents, accepted, hee, hover⟩
      obtain ⟨⟨c, rfl, hc⟩, hexceeds⟩ := (parseServerhello_overflow hall.stream).mp hover
      exact ⟨⟨c, accepted, hee, hprotocol ▸ hc⟩, hexceeds⟩
    · rintro ⟨⟨c, accepted, hee, hc⟩, hexceeds⟩
      refine ⟨some c, accepted, hee, (parseServerhello_overflow hall.stream).mpr ?_⟩
      exact ⟨⟨c, rfl, hprotocol ▸ hc⟩, hexceeds⟩
  · intro accepted hee
    rw [hreceive]
    unfold readEncryptedExtensions
    rw [hee]
    have hpending : s.clearPending.clearUnconfirmed.pendingReadRecordSizeLimit = 0 := rfl
    refine ⟨_, rfl, ⟨hs.noLimit, rfl, rfl, rfl⟩, fun level hlevel => ?_⟩
    exact ⟨ite_self 0, rfl, if_neg fun h => hlevel h.1, rfl⟩
  · intro c accepted hee ⟨limit, hparse, hle⟩ hwithin
    have hnone : records.any (Exceeds advertised) = false := by
      rw [← Bool.not_eq_true, any_exceeds]
      rintro ⟨r, hr, hlt⟩
      exact absurd (hwithin r hr) (Nat.not_le.mpr hlt)
    rw [hreceive, hnone]
    unfold readEncryptedExtensions
    rw [hee]
    simp only [Ssl.parseServerhello_valid hparse (s := s.setExceeded false) (hprotocol ▸ hle) rfl
      hs.stream]
    refine ⟨_, rfl, ?_, rfl, rfl⟩
    exact (if_pos hs.version).trans hs.offered

/-- A client whose messages have a type and a three-byte length, and that knows one extension. -/
def ClientUpstream.sample : ClientUpstream where
  ciphertextLen inLen extraLen := some (inLen + extraLen + 16)
  getMessage
    | type :: hi :: mid :: lo :: body =>
        let len := hi.toNat * 65536 + readBe16 mid lo
        if len ≤ body.length then some (type :: hi :: mid :: lo :: body.take len) else none
    | _ => none
  encryptedExtensions
    | [8, 0, 0, 8, 0, 6, 0, 28, 0, 2, hi, lo] => .handed (some [hi, lo]) true
    | _ => .refused

/-- A padded record of 65 bytes, and one that completes EncryptedExtensions with a limit of 96. -/
theorem unconfirmed_limit_exact_padded :
    ∃ e s', receive .sample (clientHandshakeKeys 64 tls13Version tls13Version false) []
        [⟨81, 65, [8, 0, 0, 8, 0]⟩, ⟨24, 8, [6, 0, 28, 0, 2, 0, 96]⟩] = .limited e s'
      ∧ e.alert = .recordOverflow := by
  have hmsg : Completes .sample [⟨81, 65, [8, 0, 0, 8, 0]⟩, ⟨24, 8, [6, 0, 28, 0, 2, 0, 96]⟩]
      [8, 0, 0, 8, 0, 6, 0, 28, 0, 2, 0, 96] := ⟨List.cons_ne_nil _ _, by decide, by decide⟩
  obtain ⟨-, -, hoverflow, -⟩ := unconfirmed_limit_exact (by decide : (64 : Nat) ≠ 0)
    (Nat.le_refl tls13Version) (Nat.le_refl _) (by simp [maxPlainLength]) hmsg
  have hvalid : ValidLimit tls13Version (be16 96) :=
    ⟨96, recordSizeLimitParse_be16 (by decide) (by decide), by decide⟩
  exact hoverflow.mpr ⟨⟨be16 96, true, rfl, hvalid⟩, ⟨81, 65, _⟩, .head _, by decide⟩

end Btls.Limit
