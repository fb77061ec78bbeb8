import Btls.Limit.Agreement

/-!
# Limit — Sealed

Which limits are in force on a side follows from what it has pending and from its keys
(`Side.Holds`).  What such a side seals is within the limit of the direction (`Sized`), and what is
within the limit no check of the other side rejects.

* `Side.Holds.installRead`, `Side.Holds.installWrite`: new keys put in force what is pending, if
  limits apply to them.
* `sealRecord_sized`: a record that a side seals is within the limit of its direction.
* `openRecord_accepts`: a record within the limit passes the receiver's checks, under its own keys
  and where it cannot be opened.
-/

namespace Btls.Limit.Peers

open Btls.Support Btls.Tls Btls.Limit

/-- The keys that limits apply to. -/
def Epoch.limited : Epoch → Bool
  | .handshake | .application _ => true
  | .hello | .earlyData | .retry => false

theorem Epoch.kinds (e : Epoch) : e.level = .initial ∨ e = .earlyData ∨ e.limited = true := by
  cases e <;> simp [Epoch.limited, Epoch.level]

theorem Epoch.level_initial_of_limited {e : Epoch} (h : e.limited = true) : e.level ≠ .initial := by
  cases e <;> simp_all [Epoch.limited, Epoch.level]

/-! ### The limits of one side -/

/-- What a side has pending for its reads and writes, and that what is in force follows from it. -/
structure Side.Holds {Phase : Type} (side : Side Phase) (reads writes : Nat) : Prop where
  stream : side.ssl.isQuic = false
  pendingRead : side.ssl.pendingReadRecordSizeLimit = reads
  pendingWrite : side.ssl.pendingWriteRecordSizeLimit = writes
  read : side.ssl.readRecordSizeLimit = if side.readEpoch.limited then reads else 0
  write : side.ssl.writeRecordSizeLimit = if side.writeEpoch.limited then writes else 0
  readNull : side.ssl.readNullCipher = decide (side.readEpoch.level = .initial)
  writeNull : side.ssl.writeNullCipher = decide (side.writeEpoch.level = .initial)

section Sides

variable {Phase : Type} {side : Side Phase} {reads writes : Nat}

/-- New read keys; none are only installed while nothing is pending. -/
theorem Side.Holds.installRead (h : side.Holds reads writes) {epoch : Epoch}
    (hepoch : epoch.level = .initial → reads = 0) : (side.installRead epoch).Holds reads writes where
  stream := h.stream
  pendingRead := h.pendingRead
  pendingWrite := h.pendingWrite
  read := by
    have hpending := h.pendingRead
    cases epoch <;>
      simp_all [Side.installRead, Ssl.setReadState, Ssl.clearUnconfirmed, Epoch.level, Epoch.limited]
  write := h.write
  readNull := rfl
  writeNull := h.writeNull

theorem Side.Holds.installWrite (h : side.Holds reads writes) {epoch : Epoch}
    (hepoch : epoch.level = .initial → writes = 0) : (side.installWrite epoch).Holds reads writes where
  stream := h.stream
  pendingRead := h.pendingRead
  pendingWrite := h.pendingWrite
  read := h.read
  write := by
    have hpending := h.pendingWrite
    cases epoch <;> simp_all [Side.installWrite, Ssl.setWriteState, Epoch.level, Epoch.limited]
  readNull := h.readNull
  writeNull := rfl

end Sides

/-! ### Records -/

/-- A record within the limit of its keys. -/
structure Sized (C : Config) (limit : Nat) (r : SealedRecord) : Prop where
  plain : r.epoch.level = .initial → r.plaintextLen ≤ maxPlainLength ∧ r.ciphertextLen = r.plaintextLen
  early : r.epoch = .earlyData → ∃ n ≤ maxPlainLength, r.plaintextLen = n + 1
    ∧ C.ciphertextLen n 1 = some r.ciphertextLen
  limited : r.epoch.limited = true → ∃ n ≤ maxPlainLength, r.plaintextLen = n + C.innerTypeLen
    ∧ C.ciphertextLen n C.innerTypeLen = some r.ciphertextLen
    ∧ (limit = 0 ∨ r.plaintextLen ≤ limit)

theorem Config.innerTypeLen_le (C : Config) : C.innerTypeLen ≤ 1 := by
  unfold Config.innerTypeLen
  split <;> decide

theorem recordSizeLimitMaxForVersion_eq (C : Config) :
    recordSizeLimitMaxForVersion C.version = maxPlainLength + C.innerTypeLen := by
  unfold recordSizeLimitMaxForVersion Config.innerTypeLen
  split <;> rfl

theorem maxSendFragment_le (s : Ssl) (configured : Nat) : s.maxSendFragment configured ≤ configured := by
  unfold Ssl.maxSendFragment
  split
  · exact Nat.le_refl _
  · exact Nat.min_le_left _ _

/-- The write limit leaves room for the inner content type. -/
theorem maxSendFragment_add_le {s : Ssl} {C : Config} (configured : Nat) (hnull : s.writeNullCipher = false)
    (hversion : s.protocolVersion = C.version) (hlimit : s.writeRecordSizeLimit ≠ 0) :
    s.maxSendFragment configured + C.innerTypeLen ≤ s.writeRecordSizeLimit := by
  have hpos := Nat.pos_of_ne_zero hlimit
  unfold Ssl.maxSendFragment Config.innerTypeLen
  rw [hnull, if_neg (by simpa using hlimit), hversion]
  by_cases htls13 : tls13Version ≤ C.version
  · simp only [if_pos htls13]
    have := Nat.min_le_right configured (s.writeRecordSizeLimit - 1)
    omega
  · simp only [if_neg htls13]
    exact Nat.min_le_right _ _

section Records

variable {C : Config} {Phase : Type} {side side' : Side Phase} {reads writes inLen : Nat} {message : Message}
  {r : SealedRecord}

/-- A record that a side seals is within the limit of its direction: that is what it has pending, or
what it sends is shorter than any limit. -/
theorem sealRecord_sized (h : side.Holds reads writes) (hseal : side.sealRecord C inLen message = some r)
    {limit : Nat} (hversion : side.writeEpoch.limited = true → side.ssl.protocolVersion = C.version)
    (hearly : side.writeEpoch = .earlyData → tls13Version ≤ side.ssl.protocolVersion)
    (hlimit : side.writeEpoch.limited = true →
      limit = 0 ∨ writes = limit ∨ (inLen ≤ 2 ∧ kMinRecordSizeLimit ≤ limit)) :
    r.epoch = side.writeEpoch ∧ r.message = message ∧ Sized C limit r := by
  obtain ⟨hlen, hseal⟩ := Option.ite_none_right_eq_some.mp hseal
  have hplain : inLen ≤ maxPlainLength := Nat.le_trans hlen (maxSendFragment_le _ _)
  rw [h.writeNull] at hseal
  by_cases hinitial : side.writeEpoch.level = .initial
  · rw [if_pos (decide_eq_true hinitial)] at hseal
    cases hseal
    refine ⟨rfl, rfl, fun _ => ⟨hplain, rfl⟩, fun heq => ?_, fun hlimited => ?_⟩
    · dsimp only at heq
      rw [heq] at hinitial
      cases hinitial
    · exact absurd hinitial (Epoch.level_initial_of_limited hlimited)
  · rw [if_neg (by simpa using hinitial)] at hseal
    obtain ⟨len, hlength, heq⟩ := Option.map_eq_some_iff.mp hseal
    cases heq
    refine ⟨rfl, rfl, fun heq => absurd heq hinitial, fun heq => ?_, fun hlimited => ?_⟩
    · rw [if_pos (hearly heq)] at hlength ⊢
      exact ⟨inLen, hplain, rfl, hlength⟩
    · have hinner : (if tls13Version ≤ side.ssl.protocolVersion then 1 else 0) = C.innerTypeLen := by
        rw [hversion hlimited]
        rfl
      rw [hinner] at hlength ⊢
      refine ⟨inLen, hplain, rfl, hlength, ?_⟩
      -- No limit, the limit that is pending for the writes, or an alert, which any limit admits.
      rcases hlimit hlimited with hnone | hwrites | ⟨halert, hmin⟩
      · exact .inl hnone
      · by_cases hzero : limit = 0
        · exact .inl hzero
        · right
          have hwrite : side.ssl.writeRecordSizeLimit = limit := by
            rw [h.write, if_pos hlimited, hwrites]
          have hnull : side.ssl.writeNullCipher = false := h.writeNull.trans (decide_eq_false hinitial)
          have hmax := maxSendFragment_add_le maxPlainLength hnull (hversion hlimited) (hwrite ▸ hzero)
          rw [hwrite] at hmax
          exact Nat.le_trans (Nat.add_le_add_right hlen _) hmax
      · right
        dsimp only
        have := C.innerTypeLen_le
        unfold kMinRecordSizeLimit at hmin
        omega

theorem checkPlaintext_ok {s s' : Ssl} {plaintextLen protocolLimit : Nat}
    (h : s.checkPlaintext plaintextLen protocolLimit = (.ok (), s')) :
    ∃ exceeded, s' = { s with unconfirmedReadRecordSizeLimitExceeded := exceeded }
      ∧ (exceeded = true → s.unconfirmedReadRecordSizeLimitExceeded = true
        ∨ (s.unconfirmedReadRecordSizeLimit ≠ 0 ∧ s.unconfirmedReadRecordSizeLimit < plaintextLen)) := by
  unfold Ssl.checkPlaintext at h
  split at h
  · cases h
  · split at h
    · cases h
      exact ⟨_, rfl, .inl⟩
    · split at h
      · cases h
      · split at h
        · rename_i hexceeds
          cases h
          exact ⟨true, rfl, fun _ => .inr hexceeds.2⟩
        · cases h
          exact ⟨_, rfl, .inl⟩

/-- What is opened leaves at most a note that an unconfirmed limit was exceeded. -/
theorem openRecord_opened (h : side.openRecord C r = .opened side') :
    r.epoch = side.readEpoch ∧ ∃ exceeded, side' = { side with ssl := { side.ssl with
        skipEarlyData := false, unconfirmedReadRecordSizeLimitExceeded := exceeded } }
      ∧ (exceeded = true → side.ssl.unconfirmedReadRecordSizeLimitExceeded = true
        ∨ (side.ssl.unconfirmedReadRecordSizeLimit ≠ 0
          ∧ side.ssl.unconfirmedReadRecordSizeLimit < r.plaintextLen)) := by
  unfold Side.openRecord at h
  split at h
  · cases h
  · split at h
    · rename_i hepoch
      refine ⟨hepoch, ?_⟩
      dsimp only at h
      split at h
      · cases h
      · rename_i ssl hplaintext
        cases h
        obtain ⟨exceeded, rfl, hexceeded⟩ := checkPlaintext_ok hplaintext
        exact ⟨exceeded, rfl, hexceeded⟩
    · split at h
      · cases h
      · cases h

theorem checkPlaintext_accepts {s : Ssl} {plaintextLen protocolLimit : Nat}
    (hprotocol : plaintextLen ≤ protocolLimit)
    (hlimit : s.readNullCipher = false → s.readRecordSizeLimit ≠ 0 → plaintextLen ≤ s.readRecordSizeLimit) :
    ∃ s', s.checkPlaintext plaintextLen protocolLimit = (.ok (), s') := by
  unfold Ssl.checkPlaintext
  rw [if_neg (Nat.not_lt.mpr hprotocol)]
  by_cases hnull : s.readNullCipher = true
  · exact ⟨_, if_pos hnull⟩
  · rw [if_neg hnull, if_neg fun h => Nat.not_lt.mpr (hlimit (Bool.eq_false_iff.mpr hnull) h.1) h.2]
    split
    · exact ⟨_, rfl⟩
    · exact ⟨_, rfl⟩

theorem checkCiphertext_accepts {s : Ssl} {lengthOf : (inLen extraLen : Nat) → Option Nat} {len : Nat}
    (h : s.readRecordSizeLimit ≠ 0 → s.readNullCipher = false → s.skipEarlyData = false →
      ∃ maxLen, lengthOf (s.readRecordSizeLimit - (if tls13Version ≤ s.protocolVersion then 1 else 0))
        (if tls13Version ≤ s.protocolVersion then 1 else 0) = some maxLen ∧ len ≤ maxLen) :
    s.checkCiphertext lengthOf len = .ok () := by
  unfold Ssl.checkCiphertext
  dsimp only
  split
  · rfl
  · rename_i hlimit
    split
    · rfl
    · rename_i hskip
      split
      · rfl
      · obtain ⟨hzero, hnull⟩ := not_or.mp hlimit
        obtain ⟨maxLen, hlength, hle⟩ := h hzero (Bool.eq_false_iff.mpr hnull) (Bool.eq_false_iff.mpr hskip)
        rw [hlength]
        exact if_neg (Nat.not_lt.mpr hle)

/-- A record that can be opened is within the protocol's limit. -/
theorem protocol_of_epoch (h : side.Holds reads writes) (hr : Sized C reads r)
    (hepoch : r.epoch = side.readEpoch)
    (hversion : side.readEpoch.limited = true → side.ssl.protocolVersion = C.version)
    (hearlyVersion : r.epoch = .earlyData → tls13Version ≤ side.ssl.protocolVersion) :
    r.plaintextLen ≤
      if !side.ssl.readNullCipher && tls13Version ≤ side.ssl.protocolVersion then maxPlainLength + 1
      else maxPlainLength := by
  rw [h.readNull]
  rcases side.readEpoch.kinds with hinitial | hearly | hlimited
  · rw [decide_eq_true hinitial]
    exact (hr.plain (hepoch ▸ hinitial)).1
  · obtain ⟨n, hn, hlen, -⟩ := hr.early (hepoch.trans hearly)
    rw [hearly, decide_eq_true (hearlyVersion (hepoch.trans hearly))]
    exact hlen ▸ Nat.succ_le_succ hn
  · obtain ⟨n, hn, hlen, -⟩ := hr.limited (hepoch ▸ hlimited)
    rw [decide_eq_false (Epoch.level_initial_of_limited hlimited), hversion hlimited, hlen]
    unfold Config.innerTypeLen
    by_cases htls13 : tls13Version ≤ C.version
    · rw [if_pos htls13, decide_eq_true htls13]
      exact Nat.succ_le_succ hn
    · rw [if_neg htls13, decide_eq_false htls13]
      exact hn

/-- **No check rejects** a record within the limit. -/
theorem openRecord_accepts (hvalid : C.Valid) (h : side.Holds reads writes) (hr : Sized C reads r)
    (hreads : reads ≤ recordSizeLimitMaxForVersion C.version)
    (hversion : side.readEpoch.limited = true → side.ssl.protocolVersion = C.version)
    (hearlyVersion : r.epoch = .earlyData → r.epoch = side.readEpoch → tls13Version ≤ side.ssl.protocolVersion)
    (hplain : side.readEpoch.limited = true → reads ≠ 0 → r.epoch.level ≠ .initial)
    (hearly : side.readEpoch.limited = true → r.epoch = .earlyData → side.ssl.skipEarlyData = true
      ∨ reads = 0 ∨ (tls13Version ≤ C.version ∧ recordSizeLimitMaxForVersion C.version ≤ reads))
    (e : LimitError) : side.openRecord C r ≠ .rejected e := by
  have hcipher : side.ssl.checkCiphertext C.ciphertextLen r.ciphertextLen = .ok () := by
    refine checkCiphertext_accepts ?_
    intro hlimit hnull hskip
    rw [h.read] at hlimit ⊢
    have hlimited : side.readEpoch.limited = true := by
      by_contra hlimited
      exact hlimit (if_neg hlimited)
    rw [if_pos hlimited] at hlimit ⊢
    rw [hversion hlimited]
    change ∃ maxLen, C.ciphertextLen (reads - C.innerTypeLen) C.innerTypeLen = some maxLen ∧ _
    rw [recordSizeLimitMaxForVersion_eq] at hreads hearly
    have hinner := C.innerTypeLen_le
    -- What was sealed is as long as some plaintext within the limit makes it.
    have hcovered : ∃ n ≤ reads - C.innerTypeLen, C.ciphertextLen n C.innerTypeLen = some r.ciphertextLen := by
      rcases r.epoch.kinds with hinitial | hepoch | hepoch
      · exact absurd hinitial (hplain hlimited hlimit)
      · obtain ⟨n, hn, -, hlength⟩ := hr.early hepoch
        rcases hearly hlimited hepoch with hskip' | hzero | ⟨htls13, hmax⟩
        · cases hskip.symm.trans hskip'
        · exact absurd hzero hlimit
        · have hone : C.innerTypeLen = 1 := if_pos htls13
          rw [hone] at hmax ⊢
          exact ⟨n, by omega, hlength⟩
      · obtain ⟨n, -, hlen, hlength, hle⟩ := hr.limited hepoch
        have hle := hle.resolve_left hlimit
        exact ⟨n, by omega, hlength⟩
    obtain ⟨n, hn, hlength⟩ := hcovered
    obtain ⟨maxLen, hmaxLen⟩ := hvalid.defined (reads - C.innerTypeLen) C.innerTypeLen (by omega) hinner
    exact ⟨maxLen, hmaxLen, hvalid.mono _ _ _ _ _ hn hlength hmaxLen⟩
  -- The ciphertext passes; the plaintext is checked only where the keys are the record's.
  intro hrejected
  unfold Side.openRecord at hrejected
  rw [hcipher] at hrejected
  dsimp only at hrejected
  by_cases hepoch : r.epoch = side.readEpoch
  · obtain ⟨ssl, hplaintext⟩ := checkPlaintext_accepts (s := side.ssl) (protocol_of_epoch h hr hepoch hversion
      fun hearly => hearlyVersion hearly hepoch) fun hnull hlimit => by
        rw [h.read] at hlimit ⊢
        have hlimited : side.readEpoch.limited = true := by
          by_contra hlimited
          exact hlimit (if_neg hlimited)
        rw [if_pos hlimited] at hlimit ⊢
        obtain ⟨n, -, -, -, hle⟩ := hr.limited (hepoch ▸ hlimited)
        exact hle.resolve_left hlimit
    rw [if_pos hepoch, hplaintext] at hrejected
    cases hrejected
  · rw [if_neg hepoch] at hrejected
    split at hrejected
    · cases hrejected
    · cases hrejected

end Records

end Btls.Limit.Peers
