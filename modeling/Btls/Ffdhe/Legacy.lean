import Btls.Ffdhe.KeyShare

/-!
# Ffdhe — Legacy

Finite-field Diffie–Hellman of TLS 1.2, on the client: the `SSL_kDHE` branches of
`do_read_server_key_exchange` and `do_send_client_key_exchange`.  The group is the server's, any
prime of 1024 to 4096 bits and any generator.

Here the shared secret is without its leading zeros (`DH_compute_key`), and what the server said is
kept in the handshake from the one message to the other (`DheHandshake`).  A write past the
premaster secret's buffer is `none`.

* `readServerKeyExchange_ok`, `readServerKeyExchange_error`: a message is accepted exactly when it
  is three nonempty strings, and one that is refused leaves nothing behind.
* `sendClientKeyExchange_cases`: the answer is sent for a prime of that size, else nothing is
  forgotten.
* `legacy_dhe_agrees`: the two of them, and that client and server get one premaster secret.
-/

namespace Btls.Ffdhe

open Btls.Support

/-- `Libcrypto`, and `DH_compute_key`, which leaves out leading zeros. -/
structure DhLibcrypto extends Libcrypto where
  computeKey : (p priv peer : Nat) → Option Bytes

/-- A number in as few bytes as it takes. -/
def minimalUint (n : Nat) : Bytes := putUint (bytesFor n.size) n

structure DhLibcrypto.Documented (c : DhLibcrypto) (Valid : Nat → Nat → Prop) : Prop
    extends c.toLibcrypto.Documented Valid where
  computeKey : ∀ p priv peer secret, c.computeKey p priv peer = some secret →
    Valid p peer ∧ secret ≠ [] ∧ secret = minimalUint (peer ^ priv % p)

/-! ### The two messages -/

/-- What `SSL_HANDSHAKE` holds between them. -/
structure DheHandshake where
  dhP : Bytes
  dhG : Bytes
  peerKey : Bytes
  deriving DecidableEq

/-- `SSL_AD_DECODE_ERROR`, `SSL_AD_INTERNAL_ERROR`. -/
inductive SentAlert where
  | decodeError
  | internalError
  deriving DecidableEq

/-- What is put in the error queue, where the branch puts anything. -/
inductive Reason where
  | decodeError
  | badDhPLength
  | dhPTooLong
  deriving DecidableEq

/-- `ssl_hs_error`: the alert sent and the reason queued. -/
structure HsError where
  alert : Option SentAlert
  reason : Option Reason
  deriving DecidableEq

/-- Where a string is missing or empty. -/
def getNonempty (bs : Bytes) : Option (Bytes × Bytes) :=
  (getPrefixed 2 bs).bind fun (x, rest) => if x.length = 0 then none else some (x, rest)

/-- The branch of `do_read_server_key_exchange`, with what it leaves of the message. -/
def readServerKeyExchange (hs : DheHandshake) (serverKeyExchange : Bytes) :
    Except HsError Bytes × DheHandshake :=
  let parsed := do
    let (dhP, rest) ← getNonempty serverKeyExchange
    let (dhG, rest) ← getNonempty rest
    let (dhYs, rest) ← getNonempty rest
    return (dhP, dhG, dhYs, rest)
  match parsed with
  | none => (.error ⟨some .decodeError, some .decodeError⟩, hs)
  | some (dhP, dhG, dhYs, rest) => (.ok rest, ⟨dhP, dhG, dhYs⟩)

/-- The branch of `do_send_client_key_exchange`, with the private value that `DH_generate_key` draws: the
body and the premaster secret.  `none` is a write past the premaster secret. -/
def sendClientKeyExchange (c : DhLibcrypto) (hs : DheHandshake) (rand : Option Nat) :
    Option (Except HsError (Bytes × Bytes) × DheHandshake) :=
  let failed := some (.error ⟨none, none⟩, hs)
  let internalError := some (.error ⟨some .internalError, none⟩, hs)
  match c.bin2bn hs.dhP, c.bin2bn hs.dhG with
  | some p, some g =>
      let bits := c.numBits p
      if bits < 1024 then some (.error ⟨none, some .badDhPLength⟩, hs)
      else if bits > 4096 then some (.error ⟨none, some .dhPTooLong⟩, hs)
      else
        match rand.bind fun priv => (c.generateKey p g priv).map fun pub => (priv, pub) with
        | none => internalError
        | some (priv, pub) =>
            match c.bn2cbbPadded (bytesFor bits) pub with
            | none => internalError
            | some child =>
                match c.bin2bn hs.peerKey with
                | none => internalError
                | some peerPoint =>
                    match c.computeKey p priv peerPoint with
                    | none => internalError
                    | some secret =>
                        if secret.length > c.dhSize p then none
                        else if secret.length = 0 then internalError
                        else if child.length < 256 ^ 2 then
                          some (.ok (putPrefixed 2 child, secret), ⟨[], [], []⟩)
                        else failed
  | _, _ => failed

/-! ### What each does -/

section Steps

variable {c : DhLibcrypto} {Valid : Nat → Nat → Prop} {hs hs' : DheHandshake} {bs x rest : Bytes}

theorem getNonempty_eq_some :
    getNonempty bs = some (x, rest) ↔ bs = putPrefixed 2 x ++ rest ∧ x ≠ [] ∧ x.length < 256 ^ 2 := by
  unfold getNonempty
  constructor
  · intro h
    obtain ⟨⟨x', rest'⟩, hget, h⟩ := Option.bind_eq_some_iff.mp h
    dsimp only at h
    split at h
    · cases h
    · rename_i hne
      cases h
      obtain ⟨rfl, hlt⟩ := getPrefixed_eq_some.mp hget
      exact ⟨rfl, fun hnil => hne (List.length_eq_zero_iff.mpr hnil), hlt⟩
  · rintro ⟨rfl, hne, hlt⟩
    rw [getPrefixed_append hlt, Option.bind_some]
    exact if_neg fun hlen => hne (List.length_eq_zero_iff.mp hlen)

/-- **The ServerKeyExchange** is accepted exactly when it is three nonempty strings with their lengths, and
those are what is kept. -/
theorem readServerKeyExchange_ok {msg : Bytes} :
    readServerKeyExchange hs msg = (.ok rest, hs') ↔
      msg = putPrefixed 2 hs'.dhP ++ (putPrefixed 2 hs'.dhG ++ (putPrefixed 2 hs'.peerKey ++ rest))
        ∧ (hs'.dhP ≠ [] ∧ hs'.dhG ≠ [] ∧ hs'.peerKey ≠ [])
        ∧ hs'.dhP.length < 256 ^ 2 ∧ hs'.dhG.length < 256 ^ 2 ∧ hs'.peerKey.length < 256 ^ 2 := by
  unfold readServerKeyExchange
  constructor
  · intro h
    dsimp only at h
    split at h
    · cases h
    · rename_i dhP dhG dhYs tail hparsed
      obtain ⟨⟨_, rest₁⟩, h₁, hparsed⟩ := Option.bind_eq_some_iff.mp hparsed
      obtain ⟨⟨_, rest₂⟩, h₂, hparsed⟩ := Option.bind_eq_some_iff.mp hparsed
      obtain ⟨⟨_, rest₃⟩, h₃, hparsed⟩ := Option.bind_eq_some_iff.mp hparsed
      cases hparsed
      cases h
      obtain ⟨rfl, hp, hpl⟩ := getNonempty_eq_some.mp h₁
      obtain ⟨rfl, hg, hgl⟩ := getNonempty_eq_some.mp h₂
      obtain ⟨rfl, hy, hyl⟩ := getNonempty_eq_some.mp h₃
      exact ⟨rfl, ⟨hp, hg, hy⟩, hpl, hgl, hyl⟩
  · rintro ⟨rfl, ⟨hp, hg, hy⟩, hpl, hgl, hyl⟩
    have h₁ : ∀ tail, getNonempty (putPrefixed 2 hs'.dhP ++ tail) = some (hs'.dhP, tail) :=
      fun tail => getNonempty_eq_some.mpr ⟨rfl, hp, hpl⟩
    have h₂ : ∀ tail, getNonempty (putPrefixed 2 hs'.dhG ++ tail) = some (hs'.dhG, tail) :=
      fun tail => getNonempty_eq_some.mpr ⟨rfl, hg, hgl⟩
    have h₃ : ∀ tail, getNonempty (putPrefixed 2 hs'.peerKey ++ tail) = some (hs'.peerKey, tail) :=
      fun tail => getNonempty_eq_some.mpr ⟨rfl, hy, hyl⟩
    simp only [h₁, h₂, h₃, Option.bind_eq_bind, Option.bind_some, Option.pure_def]

/-- One that is refused is a decode error, and leaves nothing behind. -/
theorem readServerKeyExchange_error {msg : Bytes} {e : HsError}
    (h : readServerKeyExchange hs msg = (.error e, hs')) :
    e = ⟨some .decodeError, some .decodeError⟩ ∧ hs' = hs := by
  unfold readServerKeyExchange at h
  dsimp only at h
  split at h
  · cases h
    exact ⟨rfl, rfl⟩
  · cases h

theorem length_minimalUint_le {n p : Nat} (h : n ≤ p) : (minimalUint n).length ≤ bytesFor p.size := by
  have hsize := Nat.size_le_size h
  rw [minimalUint, length_putUint, bytesFor, bytesFor]
  omega

/-- **The ClientKeyExchange.**  It is sent for a prime of 1024 to 4096 bits, with the public value in as
many bytes as the prime, and then what the server said is forgotten; else it is kept. -/
theorem sendClientKeyExchange_cases (h : c.Documented Valid) (hs : DheHandshake) (rand : Option Nat) :
    ∃ r hs', sendClientKeyExchange c hs rand = some (r, hs')
      ∧ ((∃ e, r = .error e ∧ hs' = hs)
        ∨ ∃ priv, rand = some priv ∧ 1024 ≤ (uintOf hs.dhP).size ∧ (uintOf hs.dhP).size ≤ 4096
          ∧ Valid (uintOf hs.dhP) (uintOf hs.peerKey)
          ∧ r = .ok (putPrefixed 2 (putUint (bytesFor (uintOf hs.dhP).size)
                (uintOf hs.dhG ^ priv % uintOf hs.dhP)),
              minimalUint (uintOf hs.peerKey ^ priv % uintOf hs.dhP))
          ∧ hs' = ⟨[], [], []⟩) := by
  unfold sendClientKeyExchange
  simp only [h.bin2bn, h.numBits, h.dhSize, h.bn2cbbPadded]
  generalize uintOf hs.dhP = p
  generalize uintOf hs.dhG = g
  generalize uintOf hs.peerKey = peer
  by_cases hlow : p.size < 1024
  · exact ⟨_, _, if_pos hlow, .inl ⟨_, rfl, rfl⟩⟩
  by_cases hhigh : p.size > 4096
  · exact ⟨_, _, by rw [if_neg hlow, if_pos hhigh], .inl ⟨_, rfl, rfl⟩⟩
  rw [if_neg hlow, if_neg hhigh]
  have hp : p ≠ 0 := by
    rintro rfl
    simp at hlow
  cases rand with
  | none => exact ⟨_, _, rfl, .inl ⟨_, rfl, rfl⟩⟩
  | some priv =>
      rcases hgen : c.generateKey p g priv with _ | pub
      · exact ⟨_, _, by simp only [Option.bind_some, hgen]; rfl, .inl ⟨_, rfl, rfl⟩⟩
      have hpub := h.generateKey _ _ _ _ hgen
      have hfits : pub < 256 ^ bytesFor p.size := hpub ▸ mod_lt_bytesFor _ hp
      simp only [Option.bind_some, hgen, Option.map_some, if_pos hfits]
      rcases hkey : c.computeKey p priv peer with _ | secret
      · exact ⟨_, _, rfl, .inl ⟨_, rfl, rfl⟩⟩
      obtain ⟨hvalid, hne, hsecret⟩ := h.computeKey _ _ _ _ hkey
      have hroom : ¬ secret.length > bytesFor p.size := by
        rw [hsecret]
        exact Nat.not_lt.mpr
          (length_minimalUint_le (Nat.le_of_lt (Nat.mod_lt _ (Nat.pos_of_ne_zero hp))))
      have hlen : (putUint (bytesFor p.size) pub).length < 256 ^ 2 := by
        rw [length_putUint, bytesFor]
        omega
      refine ⟨_, _, ?_, .inr ⟨priv, rfl, by omega, by omega, hvalid, rfl, rfl⟩⟩
      dsimp only
      rw [if_neg hroom, if_neg fun hnil => hne (List.length_eq_zero_iff.mp hnil), if_pos hlen, hpub, hsecret]

end Steps

/-! ### Agreement -/

/-- **The legacy exchange.**  For every modulus, generator, encoding of the server's message and state the
client is in:

* a message is accepted exactly when it is three nonempty strings with their lengths, what is behind them
  is left to be read, and one refused is a decode error that changes nothing;
* the answer never writes out of bounds, and where it fails nothing is forgotten;
* where it is sent to a server whose public value is a power of its generator, the server computes the
  premaster secret from it, and so the two have the same. -/
theorem legacy_dhe_agrees (c : DhLibcrypto) (Valid : Nat → Nat → Prop) (h : c.Documented Valid) :
    (∀ hs msg rest hs', readServerKeyExchange hs msg = (.ok rest, hs') ↔
        msg = putPrefixed 2 hs'.dhP ++ (putPrefixed 2 hs'.dhG ++ (putPrefixed 2 hs'.peerKey ++ rest))
          ∧ (hs'.dhP ≠ [] ∧ hs'.dhG ≠ [] ∧ hs'.peerKey ≠ [])
          ∧ hs'.dhP.length < 256 ^ 2 ∧ hs'.dhG.length < 256 ^ 2 ∧ hs'.peerKey.length < 256 ^ 2)
      ∧ (∀ hs msg e hs', readServerKeyExchange hs msg = (.error e, hs') →
        e = ⟨some .decodeError, some .decodeError⟩ ∧ hs' = hs)
      ∧ (∀ hs rand, ∃ r hs', sendClientKeyExchange c hs rand = some (r, hs')
        ∧ ∀ e, r = .error e → hs' = hs)
      ∧ ∀ hs msg rest hs₁ rand body pms hs₂ y,
        readServerKeyExchange hs msg = (.ok rest, hs₁) →
        uintOf hs₁.peerKey = uintOf hs₁.dhG ^ y % uintOf hs₁.dhP →
        sendClientKeyExchange c hs₁ rand = some (.ok (body, pms), hs₂) →
        hs₂ = ⟨[], [], []⟩ ∧ ∃ yc, getPrefixed 2 body = some (yc, [])
          ∧ yc.length = bytesFor (uintOf hs₁.dhP).size
          ∧ pms = minimalUint (uintOf yc ^ y % uintOf hs₁.dhP) := by
  refine ⟨fun hs msg rest hs' => readServerKeyExchange_ok, fun hs msg e hs' => readServerKeyExchange_error,
    fun hs rand => ?_, fun hs msg rest hs₁ rand body pms hs₂ y hread hserver hsend => ?_⟩
  · obtain ⟨r, hs', hsend, ⟨e, -, hkept⟩ | ⟨priv, -, -, -, -, rfl, -⟩⟩ :=
      sendClientKeyExchange_cases h hs rand
    · exact ⟨r, hs', hsend, fun _ _ => hkept⟩
    · exact ⟨_, hs', hsend, fun e he => by cases he⟩
  · obtain ⟨r, hs', hcases, ⟨e, rfl, -⟩ | ⟨x, -, hlow, hhigh, -, rfl, rfl⟩⟩ :=
      sendClientKeyExchange_cases h hs₁ rand
    · rw [hsend] at hcases
      cases hcases
    rw [hsend] at hcases
    cases hcases
    have hp : uintOf hs₁.dhP ≠ 0 := by
      intro hzero
      rw [hzero] at hlow
      simp at hlow
    refine ⟨rfl, putUint (bytesFor (uintOf hs₁.dhP).size) (uintOf hs₁.dhG ^ x % uintOf hs₁.dhP), ?_,
      length_putUint _ _, ?_⟩
    · refine getPrefixed_eq_some.mpr ⟨(List.append_nil _).symm, ?_⟩
      rw [length_putUint, bytesFor]
      omega
    -- Both are the generator to the power of both private values.
    · rw [uintOf_putUint (mod_lt_bytesFor _ hp), hserver, pow_mod_pow_mod, pow_mod_pow_mod,
        Nat.mul_comm]

/-- `modularLibcrypto`, where a shared key of zero is an error. -/
def modularDhLibcrypto : DhLibcrypto where
  toLibcrypto := modularLibcrypto
  computeKey p priv peer :=
    let n := peer ^ priv % p
    if n = 0 ∨ ¬ (1 < peer ∧ peer + 1 < p) then none else some (putUint (bytesFor (n.log2 + 1)) n)

theorem modularDhLibcrypto_documented :
    modularDhLibcrypto.Documented fun p pub => 1 < pub ∧ pub + 1 < p where
  toDocumented := modularLibcrypto_documented
  computeKey p priv peer secret hsecret := by
    simp only [modularDhLibcrypto] at hsecret
    split at hsecret
    · cases hsecret
    · rename_i hok
      obtain ⟨hne, hvalid⟩ := not_or.mp hok
      cases hsecret
      have hsize : (peer ^ priv % p).log2 + 1 = (peer ^ priv % p).size := by
        rw [← size_eq_log2, if_neg hne]
      refine ⟨not_not.mp hvalid, fun hnil => ?_, by rw [hsize, minimalUint]⟩
      have hzero := congrArg List.length hnil
      rw [length_putUint, bytesFor, List.length_nil] at hzero
      omega

/-- A modulus of exactly 1024 bits, the private values being `600` and `10`. -/
theorem legacy_dhe_agrees_1024 :
    ∃ hs body pms yc,
      readServerKeyExchange ⟨[], [], []⟩
          (putPrefixed 2 (putUint 128 (2 ^ 1023 + 1)) ++ (putPrefixed 2 [2] ++ (putPrefixed 2 [4, 0] ++ [9])))
          = (.ok [9], hs)
        ∧ sendClientKeyExchange modularDhLibcrypto hs (some 600) = some (.ok (body, pms), ⟨[], [], []⟩)
        ∧ getPrefixed 2 body = some (yc, [])
        ∧ pms = minimalUint (uintOf yc ^ 10 % uintOf hs.dhP) := by
  have hread : readServerKeyExchange ⟨[], [], []⟩
      (putPrefixed 2 (putUint 128 (2 ^ 1023 + 1)) ++ (putPrefixed 2 [2] ++ (putPrefixed 2 [4, 0] ++ [9])))
      = (.ok [9], ⟨putUint 128 (2 ^ 1023 + 1), [2], [4, 0]⟩) := by
    decide +kernel
  have hsend : sendClientKeyExchange modularDhLibcrypto ⟨putUint 128 (2 ^ 1023 + 1), [2], [4, 0]⟩ (some 600)
      = some (.ok (putPrefixed 2 (putUint 128 (2 ^ 600)),
          putUint 128 (1024 ^ 600 % (2 ^ 1023 + 1))), ⟨[], [], []⟩) := by
    decide +kernel
  obtain ⟨-, yc, hyc, -, hpms⟩ := (legacy_dhe_agrees modularDhLibcrypto _ modularDhLibcrypto_documented).2.2.2
    _ _ _ _ _ _ _ _ 10 hread (by decide +kernel) hsend
  exact ⟨_, _, _, yc, hread, hsend, hyc, hpms⟩

end Btls.Ffdhe
