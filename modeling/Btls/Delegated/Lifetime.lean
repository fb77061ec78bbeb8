import Btls.Delegated.Authentication

/-!
# Delegated — Lifetime

The lifetime check once more, in unbounded integers that must fit the code's types at every step
(`exactCredentialTime`): it is the same check, so no sum, difference or conversion of it changes a
value.  From it, how long a session may be resumed after the check.

* `exactCredentialTime_eq`: for all values of `int64_t`, `uint64_t` and `uint32_t` the two agree,
  also where one is compared with another across signedness (`exact_expired`).
* `validity_window`: the check accepts the credentials whose lifetime contains the time, with at
  most seven days left; and the session of a handshake that passed it ends no later than the
  credential, or is over (`Shortened`).
-/

namespace Btls.Delegated

open Btls.Support

/-! ### The check in unbounded integers -/

/-- `x`, when it is a value of the type from `lo` to `hi`. -/
def inRange (lo hi x : Int) : Option Int := if lo ≤ x ∧ x ≤ hi then some x else none

def asInt64 (x : Int) : Option Int := inRange (-2 ^ 63) (2 ^ 63 - 1) x

def asUInt64 (x : Int) : Option Int := inRange 0 (2 ^ 64 - 1) x

def asUInt32 (x : Int) : Option Int := inRange 0 (2 ^ 32 - 1) x

/-- `check_credential_time`, `none` where a step changes a value. -/
def exactCredentialTime (now sessionTime notBefore validTime : Int) : Option (Except String Int) := do
  let latest ← asInt64 (2 ^ 63 - 1 - validTime)
  if latest < notBefore then return .error "invalid validity"
  else
    let expiry ← asInt64 (notBefore + validTime)
    let max ← asUInt64 (2 ^ 63 - 1)
    let expired ← (if max < now then some true else (asInt64 now).map fun now => decide (expiry < now))
    if expired then return .error "expired"
    else
      let unsigned ← asUInt64 expiry
      let left ← asUInt64 (unsigned - now)
      if 604800 < left then return .error "validity period"
      else
        let sessionRemaining ← (if sessionTime < unsigned then asUInt64 (unsigned - sessionTime)
          else some 0)
        let authTimeout ← asUInt32 (min sessionRemaining (2 ^ 32 - 1))
        return .ok authTimeout

section Exact

variable {now sessionTime : UInt64} {notBefore expiry : Int64} {validTime : Nat}

theorem inRange_of {lo hi x : Int} (hlo : lo ≤ x) (hhi : x ≤ hi) : inRange lo hi x = some x :=
  if_pos ⟨hlo, hhi⟩

theorem toNat_sessionRemaining (h : 0 ≤ expiry.toInt) :
    ((if sessionTime < expiry.toUInt64 then expiry.toUInt64 - sessionTime else 0).toNat : Int)
      = if (sessionTime.toNat : Int) < expiry.toInt then expiry.toInt - sessionTime.toNat else 0 := by
  have hexpiry := toNat_toUInt64 h
  by_cases hlt : sessionTime < expiry.toUInt64
  · have hnat := UInt64.lt_iff_toNat_lt.mp hlt
    rw [if_pos hlt, if_pos (by omega), UInt64.toNat_sub_of_le _ _ (UInt64.le_iff_toNat_le.mpr (Nat.le_of_lt hnat))]
    omega
  · have hnat := mt UInt64.lt_iff_toNat_lt.mpr hlt
    rw [if_neg hlt, if_neg (by omega)]
    rfl

theorem toNat_clamp (x : UInt64) :
    ((min x 0xffffffff).toUInt32.toNat : Int) = min (x.toNat : Int) (2 ^ 32 - 1) := by
  show ((if x ≤ 0xffffffff then x else 0xffffffff).toUInt32.toNat : Int) = _
  have hmax : (0xffffffff : UInt64).toNat = 2 ^ 32 - 1 := by decide
  by_cases hle : x ≤ 0xffffffff
  · have hnat := UInt64.le_iff_toNat_le.mp hle
    rw [if_pos hle, UInt64.toNat_toUInt32]
    omega
  · have hnat := mt UInt64.le_iff_toNat_le.mpr hle
    rw [if_neg hle, UInt64.toNat_toUInt32, hmax]
    omega

/-- The comparison across signedness. -/
theorem exact_expired :
    (if (2 ^ 63 - 1 : Int) < now.toNat then some true
      else (asInt64 now.toNat).map fun now => decide (expiry.toInt < now))
      = some (decide (Int64.maxValue.toUInt64 < now ∨ expiry < now.toInt64)) := by
  have hmax : Int64.maxValue.toUInt64.toNat = 2 ^ 63 - 1 := by decide
  by_cases hbig : Int64.maxValue.toUInt64 < now
  · have hnat := UInt64.lt_iff_toNat_lt.mp hbig
    rw [if_pos (by omega), decide_eq_true (.inl hbig)]
  · have hnat := mt UInt64.lt_iff_toNat_lt.mpr hbig
    have hiff : expiry.toInt < now.toNat
        ↔ Int64.maxValue.toUInt64 < now ∨ expiry < now.toInt64 := by
      rw [Int64.lt_iff_toInt_lt, toInt_now hbig]
      exact ⟨.inr, fun h => h.resolve_left hbig⟩
    rw [if_neg (by omega), asInt64, inRange_of (by omega) (by omega), Option.map_some,
      decide_eq_decide.mpr hiff]

theorem exact_sessionRemaining (h : 0 ≤ expiry.toInt) :
    (if (sessionTime.toNat : Int) < expiry.toInt then asUInt64 (expiry.toInt - sessionTime.toNat)
      else some 0)
      = some ((if sessionTime < expiry.toUInt64 then expiry.toUInt64 - sessionTime else 0).toNat : Int) := by
  have hlt := expiry.toInt_lt
  rw [toNat_sessionRemaining h]
  split
  · rw [asUInt64, inRange_of (by omega) (by omega)]
  · rfl

/-- **No step of the check changes a value.** -/
theorem exactCredentialTime_eq (h : validTime < 2 ^ 32) :
    exactCredentialTime now.toNat sessionTime.toNat notBefore.toInt validTime
      = some ((checkCredentialTime now sessionTime notBefore validTime).map fun t => (t.toNat : Int)) := by
  have hnow := now.toNat_lt
  have hlow := notBefore.le_toInt
  unfold exactCredentialTime checkCredentialTime
  rw [asInt64, inRange_of (by omega) (by omega)]
  show (if (2 ^ 63 - 1 - (validTime : Int)) < notBefore.toInt then _ else _) = _
  -- The guards come in the source's order, and each bounds the operation behind it.
  by_cases hfits : Int64.maxValue - Int64.ofNat validTime < notBefore
  · have hbefore := mt (not_before_le h).mpr (not_not.mpr hfits)
    rw [if_pos hfits, if_pos (by omega)]
    rfl
  have hsum := (not_before_le h).mp hfits
  have hexpiry := toInt_expiry h hsum
  rw [if_neg hfits, if_neg (by omega), ← hexpiry]
  generalize notBefore + Int64.ofNat validTime = expiry at hexpiry
  rw [asInt64, inRange_of (by omega) (by omega)]
  show (((if (2 ^ 63 - 1 : Int) < now.toNat then some true
    else (asInt64 now.toNat).map fun now => decide (expiry.toInt < now)) >>= _) :
    Option (Except String Int)) = _
  rw [exact_expired]
  by_cases hpast : Int64.maxValue.toUInt64 < now ∨ expiry < now.toInt64
  · rw [if_pos hpast, decide_eq_true hpast]
    rfl
  have hle := not_expired.mp hpast
  rw [if_neg hpast, decide_eq_false hpast, asUInt64, inRange_of (by omega) (by omega)]
  show ((asUInt64 (expiry.toInt - now.toNat) >>= fun left =>
    if 604800 < left then some (.error "validity period") else _) : Option (Except String Int)) = _
  rw [asUInt64, inRange_of (by omega) (by omega)]
  show ((if 604800 < expiry.toInt - now.toNat then some (.error "validity period") else _) :
    Option (Except String Int)) = _
  by_cases hlong : kMaxDelegatedCredentialLifetime < expiry.toUInt64 - now
  · have hmore := mt (lifetime_le hle).mpr (not_not.mpr hlong)
    rw [if_pos hlong, if_pos (by omega)]
    rfl
  have hless := (lifetime_le hle).mp hlong
  rw [if_neg hlong, if_neg (by omega)]
  show (((if (sessionTime.toNat : Int) < expiry.toInt
      then asUInt64 (expiry.toInt - sessionTime.toNat) else some 0) >>= fun remaining =>
    asUInt32 (min remaining (2 ^ 32 - 1)) >>= fun authTimeout => some (.ok authTimeout)) :
    Option (Except String Int)) = _
  rw [exact_sessionRemaining (by omega), Option.bind_eq_bind, Option.bind_some, asUInt32,
    inRange_of (by omega) (by omega), ← toNat_clamp]
  rfl

end Exact

/-! ### The session -/

/-- A timeout that the check has shortened, in a session from `time`: it is over, or it ends no later
than the credential. -/
structure Shortened (time : UInt64) (expiry : Int) (old new : UInt32) : Prop where
  le : new ≤ old
  within : new = 0 ∨ (time.toNat : Int) + new.toNat ≤ expiry

theorem checkCredentialTime_within {now sessionTime : UInt64} {notBefore : Int64} {validTime : Nat}
    {authTimeout : UInt32} (h : validTime < 2 ^ 32)
    (hok : checkCredentialTime now sessionTime notBefore validTime = .ok authTimeout) :
    authTimeout = 0
      ∨ (sessionTime.toNat : Int) + authTimeout.toNat ≤ notBefore.toInt + validTime := by
  obtain ⟨hsum, hle, -⟩ := (checkCredentialTime_ok h).mp ⟨authTimeout, hok⟩
  have hexpiry := toInt_expiry h hsum
  unfold checkCredentialTime at hok
  dsimp only at hok
  split at hok
  · cases hok
  split at hok
  · cases hok
  split at hok
  · cases hok
  rw [← hexpiry] at hle ⊢
  have htimeout := toNat_clamp (if sessionTime < (notBefore + Int64.ofNat validTime).toUInt64
    then (notBefore + Int64.ofNat validTime).toUInt64 - sessionTime else 0)
  rw [Except.ok.inj hok, toNat_sessionRemaining (by omega)] at htimeout
  by_cases hlt : (sessionTime.toNat : Int) < (notBefore + Int64.ofNat validTime).toInt
  · rw [if_pos hlt] at htimeout
    right
    omega
  · rw [if_neg hlt] at htimeout
    left
    refine UInt32.toNat_inj.mp ?_
    show authTimeout.toNat = 0
    omega

/-- A timeout cut down to what the check allows. -/
theorem shortened_min {time : UInt64} {expiry : Int} {old authTimeout : UInt32}
    (h : authTimeout = 0 ∨ (time.toNat : Int) + authTimeout.toNat ≤ expiry) :
    Shortened time expiry old (min old authTimeout) := by
  show Shortened time expiry old (if old ≤ authTimeout then old else authTimeout)
  by_cases hle : old ≤ authTimeout
  · rw [if_pos hle]
    refine ⟨UInt32.le_refl old, ?_⟩
    have hnat := UInt32.le_iff_toNat_le.mp hle
    rcases h with rfl | h
    · left
      refine UInt32.toNat_inj.mp ?_
      exact Nat.le_zero.mp hnat
    · right
      omega
  · rw [if_neg hle]
    exact ⟨UInt32.le_of_lt (UInt32.not_le.mp hle), h⟩

variable {Key : Type} {C : Crypto Key} {A : Asn1} {now : UInt64} {hs hs' : Handshake Key}
  {credential : Credential Key} {peerPubkey : Key} {session session' : Session} {leaf : Bytes}
  {certVerifyAlgorithm : Nat}

theorem verifyCredential_shortens (hvalid : credential.validTime < 2 ^ 32)
    (h : verifyCredential C A now credential peerPubkey session leaf certVerifyAlgorithm
      = .ok session') :
    ∃ notBefore, parseDelegationCertificate A leaf = some notBefore
      ∧ session'.time = session.time
      ∧ Shortened session.time (notBefore.toInt + credential.validTime) session.timeout session'.timeout
      ∧ Shortened session.time (notBefore.toInt + credential.validTime) session.authTimeout
        session'.authTimeout := by
  unfold verifyCredential delegatedCredentialError at h
  split at h
  · cases h
  split at h
  · cases h
  split at h
  · cases h
  rename_i notBefore hcertificate
  split at h
  · cases h
  rename_i authTimeout htime
  split at h
  · cases h
  cases h
  have hwithin := checkCredentialTime_within hvalid htime
  exact ⟨notBefore, hcertificate, rfl, shortened_min hwithin, shortened_min hwithin⟩

/-- **The validity window.**  The check accepts the credentials whose lifetime contains `now`, with at
most seven days left, and no step of it changes a value; a session whose credential was verified does
not outlive it. -/
theorem validity_window :
    (∀ (now sessionTime : UInt64) (notBefore : Int64) (validTime : UInt32),
      ((∃ t, checkCredentialTime now sessionTime notBefore validTime.toNat = .ok t)
        ↔ WithinLifetime now notBefore validTime.toNat)
      ∧ exactCredentialTime now.toNat sessionTime.toNat notBefore.toInt validTime.toNat
        = some ((checkCredentialTime now sessionTime notBefore validTime.toNat).map
          fun t => (t.toNat : Int)))
    ∧ ∀ {Key : Type} (C : Crypto Key) (A : Asn1) (now : UInt64) (hs hs' : Handshake Key)
        (credential : Credential Key) (certVerifyAlgorithm : Nat),
      hs.peerDelegatedCredential = some credential → credential.validTime < 2 ^ 32 →
      hs.verify C A now certVerifyAlgorithm = .ok hs' →
      ∃ session session' leaf rest notBefore, hs.newSession = some session
        ∧ hs'.newSession = some session' ∧ session.certs = some (leaf :: rest)
        ∧ parseDelegationCertificate A leaf = some notBefore ∧ session'.time = session.time
        ∧ Shortened session.time (notBefore.toInt + credential.validTime) session.timeout
          session'.timeout
        ∧ Shortened session.time (notBefore.toInt + credential.validTime) session.authTimeout
          session'.authTimeout := by
  refine ⟨fun now sessionTime notBefore validTime => ?_, ?_⟩
  · exact ⟨checkCredentialTime_ok validTime.toNat_lt, exactCredentialTime_eq validTime.toNat_lt⟩
  · intro Key C A now hs hs' credential certVerifyAlgorithm hcredential hvalid h
    obtain ⟨credential', peerPubkey, session, leaf, rest, session', hcredential', -, hsession, hcerts,
      hverify, rfl⟩ := Handshake.verify_ok h
    obtain rfl := Option.some.inj (hcredential'.symm.trans hcredential)
    obtain ⟨notBefore, hcertificate, htime, htimeout, hauth⟩ := verifyCredential_shortens hvalid hverify
    exact ⟨session, session', leaf, rest, notBefore, hsession, rfl, hcerts, hcertificate, htime,
      htimeout, hauth⟩

/-- The sample's handshake when CertificateVerify comes, an hour into the credential's day. -/
def sampleVerifying : Handshake Bytes :=
  { sampleClient.hs with
    peerPubkey := some [9]
    newSession := some ⟨some [sampleLeaf], 3600, 7200, 604800⟩
    peerDelegatedCredential :=
      some ⟨putSigned 86400 0x0403 [5], [9], [5], 86400, 0x0403, 0x0403⟩ }

theorem validity_window_day :
    ∃ hs' session', sampleVerifying.verify Crypto.sample Asn1.short 3600 0x0403 = .ok hs'
      ∧ hs'.newSession = some session' ∧ session'.authTimeout = 82800
      ∧ Shortened 3600 86400 7200 session'.timeout ∧ Shortened 3600 86400 604800 session'.authTimeout := by
  obtain ⟨session, session', leaf, rest, notBefore, hsession, hsession', hcerts, hcertificate, -, htimeout,
      hauth⟩ :=
    validity_window.2 Crypto.sample Asn1.short 3600 sampleVerifying
      { sampleVerifying with newSession := some ⟨some [sampleLeaf], 3600, 7200, 82800⟩ }
      ⟨putSigned 86400 0x0403 [5], [9], [5], 86400, 0x0403, 0x0403⟩ 0x0403 rfl (by decide) rfl
  cases hsession
  cases hcerts
  have hzero : parseDelegationCertificate Asn1.short sampleLeaf = some 0 := by decide +kernel
  obtain rfl := Option.some.inj (hcertificate.symm.trans hzero)
  refine ⟨_, session', rfl, hsession', ?_, htimeout, hauth⟩
  cases hsession'
  rfl

end Btls.Delegated
