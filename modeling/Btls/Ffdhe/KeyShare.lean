import Btls.Support.Bignum

/-!
# Ffdhe — KeyShare

`FFDHEKeyShare`.  The functions of libcrypto are a parameter (`Libcrypto`), and what they are
documented to do is a hypothesis of the results (`Libcrypto.Documented`).  An assertion that fails
is `none`.

`generate`, `decap` and `encap` are the functions of the key share with the private value that
`BN_rand` draws as an argument, and each has what it leaves of the caller's secret and alert in its
result.

* `generate_ok`, `decap_cases`, `encap_ok`: what each appends when it succeeds, and what it leaves
  when not.
* `deserialize_eq`: a private key is accepted exactly if it has the group's length, in bytes and in
  bits.
* `create_usable`: a share that `Create` makes can be given its keys, without an assertion that
  fails.
* `key_shares_agree`: two sides have one secret of `DH_size` bytes, leading zeros and all, and what
  is no public value of the group is refused.
-/

namespace Btls.Ffdhe

open Btls.Support

/-! ### libcrypto -/

/-- The functions of libcrypto that the key share calls, on a group of modulus `p` and generator `g`.
`none` is a call that fails. -/
structure Libcrypto where
  /-- `BN_bin2bn`. -/
  bin2bn : Bytes → Option Nat
  /-- `BN_bn2cbb_padded`: what it appends. -/
  bn2cbbPadded : (len n : Nat) → Option Bytes
  /-- `BN_num_bits`. -/
  numBits : Nat → Nat
  /-- `DH_size`. -/
  dhSize : (p : Nat) → Nat
  /-- `DH_generate_key` with a private key: the public key. -/
  generateKey : (p g priv : Nat) → Option Nat
  /-- `DH_check_pub_key`: the flags. -/
  checkPubKey : (p pub : Nat) → Option Nat
  /-- `DH_compute_key_padded`. -/
  computeKeyPadded : (p priv peer : Nat) → Option Bytes

/-- What libcrypto is documented to do; `Valid p` are the valid public values of modulus `p`. -/
structure Libcrypto.Documented (c : Libcrypto) (Valid : Nat → Nat → Prop) : Prop where
  bin2bn : ∀ bs, c.bin2bn bs = some (uintOf bs)
  bn2cbbPadded : ∀ len n, c.bn2cbbPadded len n = if n < 256 ^ len then some (putUint len n) else none
  numBits : ∀ n, c.numBits n = n.size
  dhSize : ∀ p, c.dhSize p = bytesFor p.size
  generateKey : ∀ p g priv pub, c.generateKey p g priv = some pub → pub = g ^ priv % p
  checkPubKey : ∀ p pub, ∃ flags, c.checkPubKey p pub = some flags ∧ (flags = 0 ↔ Valid p pub)
  computeKeyPadded : ∀ p priv peer secret, c.computeKeyPadded p priv peer = some secret →
    secret = putUint (bytesFor p.size) (peer ^ priv % p)

/-! ### The key share -/

/-- `DH`. -/
structure Dh where
  p : Nat
  g : Nat
  privKey : Option Nat
  pubKey : Option Nat
  deriving DecidableEq

/-- `FFDHEKeyShare`. -/
structure KeyShare where
  dh : Dh
  groupId : Nat
  privateBits : Nat
  deriving DecidableEq

/-- `MakeFFDHEGroup`. -/
def makeFfdheGroup (p : Nat) : Dh := ⟨p, 2, none, none⟩

def kFfdhe3072Prime : Nat :=
  0xFFFFFFFFFFFFFFFFADF85458A2BB4A9AAFDC5620273D3CF1D8B9C583CE2D3695A9E13641146433FBCC939DCE249B3EF97D2FE363630C75D8F681B202AEC4617AD3DF1ED5D5FD65612433F51F5F066ED0856365553DED1AF3B557135E7F57C935984F0C70E0E68B77E2A689DAF3EFE8721DF158A136ADE73530ACCA4F483A797ABC0AB182B324FB61D108A94BB2C8E3FBB96ADAB760D7F4681D4F42A3DE394DF4AE56EDE76372BB190B07A7C8EE0A6D709E02FCE1CDF7E2ECC03404CD28342F619172FE9CE98583FF8E4F1232EEF28183C3FE3B1B4C6FAD733BB5FCBC2EC22005C58EF1837D1683B2C6F34A26C1B2EFFA886B4238611FCFDCDE355B3B6519035BBC34F4DEF99C023861B46FC9D6E6C9077AD91D2691F7F7EE598CB0FAC186D91CAEFE130985139270B4130C93BC437944F4FD4452E2D74DD364F2E21E71F54BFF5CAE82AB9C9DF69EE86D2BC522363A0DABC521979B0DEADA1DBF9A42D5C4484E0ABCD06BFA53DDEF3C1B20EE3FD59D7C25E41D2B66C62E37FFFFFFFFFFFFFFFF

/-- `SSLKeyShare::Create` for the two groups; the prime of the first is `DH_get_rfc7919_2048`'s. -/
def KeyShare.create (rfc7919Prime2048 : Nat) : (groupId : Nat) → Option KeyShare
  | 256 => some ⟨makeFfdheGroup rfc7919Prime2048, 256, 225⟩
  | 257 => some ⟨makeFfdheGroup kFfdhe3072Prime, 257, 275⟩
  | _ => none

inductive Alert where
  | internalError
  | illegalParameter
  deriving DecidableEq

/-- What `Decap` leaves: whether it succeeded, `*out_secret` and `*out_alert`. -/
structure Decapped where
  ok : Bool
  outSecret : Bytes
  outAlert : Alert
  deriving DecidableEq

namespace KeyShare

variable (c : Libcrypto) (share : KeyShare)

/-- `Generate`, with the private value that `BN_rand` draws: whether it succeeds, and what it appends. -/
def generate (rand : Option Nat) : Option (Bool × KeyShare × Bytes) :=
  if share.dh.privKey.isSome then none
  else
    match rand with
    | none => some (false, share, [])
    | some priv =>
        let share := { share with dh.privKey := some priv }
        let publicKeyLen := c.dhSize share.dh.p
        if publicKeyLen = 0 then some (false, share, [])
        else
          match c.generateKey share.dh.p share.dh.g priv with
          | none => some (false, share, [])
          | some pub =>
              let share := { share with dh.pubKey := some pub }
              match c.bn2cbbPadded publicKeyLen pub with
              | none => some (false, share, [])
              | some bytes => some (true, share, bytes)

/-- `Decap`. -/
def decap (outSecret ciphertext : Bytes) : Option Decapped :=
  match share.dh.privKey with
  | none => none
  | some priv =>
      let dhSize := c.dhSize share.dh.p
      if dhSize = 0 then some ⟨false, outSecret, .internalError⟩
      else if ciphertext.length ≠ dhSize then some ⟨false, outSecret, .illegalParameter⟩
      else
        match c.bin2bn ciphertext with
        | none => some ⟨false, outSecret, .internalError⟩
        | some peerKey =>
            match c.checkPubKey share.dh.p peerKey with
            | none => some ⟨false, outSecret, .internalError⟩
            | some checkResult =>
                if checkResult ≠ 0 then some ⟨false, outSecret, .illegalParameter⟩
                else
                  match c.computeKeyPadded share.dh.p priv peerKey with
                  | none => some ⟨false, outSecret, .internalError⟩
                  | some secret =>
                      if secret.length ≠ dhSize then some ⟨false, outSecret, .internalError⟩
                      else some ⟨true, secret, .internalError⟩

/-- `Encap`: the share, what it appends, and what its `Decap` leaves. -/
def encap (rand : Option Nat) (outSecret peerKey : Bytes) : Option (KeyShare × Bytes × Decapped) := do
  let (ok, share, outCiphertext) ← share.generate c rand
  if ok then
    let decapped ← share.decap c outSecret peerKey
    return (share, outCiphertext, decapped)
  else return (share, outCiphertext, ⟨false, outSecret, .internalError⟩)

/-- `PrivateKeyBytes`. -/
def privateKeyBytes : Nat := (share.privateBits + 7) / 8

/-- `SerializePrivateKey`: what it appends, `some none` when it fails. -/
def serializePrivateKey : Option (Option Bytes) :=
  share.dh.privKey.map fun priv => c.bn2cbbPadded share.privateKeyBytes priv

/-- `DeserializePrivateKey`, with whether it succeeds. -/
def deserializePrivateKey (input : Bytes) : Option (Bool × KeyShare) :=
  if share.dh.privKey.isSome then none
  else if input.length ≠ share.privateKeyBytes then some (false, share)
  else
    match c.bin2bn input with
    | none => some (false, share)
    | some priv =>
        if c.numBits priv ≠ share.privateBits then some (false, share)
        else some (true, { share with dh.privKey := some priv })

end KeyShare

/-! ### What each function does when it succeeds -/

section Steps

variable {c : Libcrypto} {Valid : Nat → Nat → Prop} {share share' : KeyShare}
  {rand : Option Nat} {outSecret pub ct : Bytes} {priv : Nat}

/-- **Generate.**  The public value is encoded in as many bytes as the prime. -/
theorem generate_ok (h : c.Documented Valid) (hok : share.generate c rand = some (true, share', pub)) :
    ∃ priv, rand = some priv ∧ share.dh.p ≠ 0 ∧ share'.dh.p = share.dh.p
      ∧ share'.dh.privKey = some priv
      ∧ pub = putUint (bytesFor share.dh.p.size) (share.dh.g ^ priv % share.dh.p) := by
  unfold KeyShare.generate at hok
  split at hok
  · cases hok
  · cases rand with
    | none => cases hok
    | some priv =>
        dsimp only at hok
        split at hok
        · cases hok
        · rename_i hsize
          have hp : share.dh.p ≠ 0 := by
            intro hzero
            rw [h.dhSize, hzero] at hsize
            exact hsize rfl
          cases hgenerate : c.generateKey share.dh.p share.dh.g priv with
          | none =>
              rw [hgenerate] at hok
              cases hok
          | some value =>
              cases h.generateKey _ _ _ _ hgenerate
              rw [hgenerate] at hok
              dsimp only at hok
              rw [h.dhSize, h.bn2cbbPadded, if_pos (mod_lt_bytesFor _ hp)] at hok
              cases hok
              exact ⟨priv, rfl, hp, rfl, rfl, rfl⟩

/-- `Decap` of a share that has a private key: a peer value that the group does not allow, one of its own,
and the two ways in which the call can still fail. -/
theorem decap_of_key (h : c.Documented Valid) (hpriv : share.dh.privKey = some priv)
    (outSecret ct : Bytes) :
    ∃ flags, (flags = 0 ↔ Valid share.dh.p (uintOf ct))
      ∧ share.decap c outSecret ct =
        if bytesFor share.dh.p.size = 0 then some ⟨false, outSecret, .internalError⟩
        else if ct.length ≠ bytesFor share.dh.p.size then some ⟨false, outSecret, .illegalParameter⟩
        else if flags ≠ 0 then some ⟨false, outSecret, .illegalParameter⟩
        else
          match c.computeKeyPadded share.dh.p priv (uintOf ct) with
          | none => some ⟨false, outSecret, .internalError⟩
          | some secret =>
              if secret.length ≠ bytesFor share.dh.p.size then some ⟨false, outSecret, .internalError⟩
              else some ⟨true, secret, .internalError⟩ := by
  obtain ⟨flags, hflags, hvalid⟩ := h.checkPubKey share.dh.p (uintOf ct)
  refine ⟨flags, hvalid, ?_⟩
  unfold KeyShare.decap
  rw [hpriv, h.bin2bn, h.dhSize]
  dsimp only
  rw [hflags]

/-- **Decap.**  The secret is encoded in as many bytes as the prime, and else it is left alone. -/
theorem decap_cases {decapped : Decapped} (h : c.Documented Valid)
    (hdecap : share.decap c outSecret ct = some decapped) :
    (decapped.ok = false ∧ decapped.outSecret = outSecret)
      ∨ ∃ priv, share.dh.privKey = some priv ∧ decapped.ok = true
        ∧ decapped.outSecret = putUint (bytesFor share.dh.p.size) (uintOf ct ^ priv % share.dh.p) := by
  cases hpriv : share.dh.privKey with
  | none =>
      unfold KeyShare.decap at hdecap
      rw [hpriv] at hdecap
      cases hdecap
  | some priv =>
      obtain ⟨flags, -, heq⟩ := decap_of_key h hpriv outSecret ct
      rw [heq] at hdecap
      split at hdecap
      · cases hdecap
        exact .inl ⟨rfl, rfl⟩
      · split at hdecap
        · cases hdecap
          exact .inl ⟨rfl, rfl⟩
        · split at hdecap
          · cases hdecap
            exact .inl ⟨rfl, rfl⟩
          · cases hcompute : c.computeKeyPadded share.dh.p priv (uintOf ct) with
            | none =>
                rw [hcompute] at hdecap
                cases hdecap
                exact .inl ⟨rfl, rfl⟩
            | some secret =>
                have hsecret := h.computeKeyPadded _ _ _ _ hcompute
                rw [hcompute] at hdecap
                dsimp only at hdecap
                split at hdecap
                · cases hdecap
                  exact .inl ⟨rfl, rfl⟩
                · cases hdecap
                  exact .inr ⟨priv, rfl, rfl, hsecret⟩

theorem decap_of_ok {decapped : Decapped} (h : c.Documented Valid)
    (hdecap : share.decap c outSecret ct = some decapped) (hok : decapped.ok = true) :
    ∃ priv, share.dh.privKey = some priv
      ∧ decapped.outSecret = putUint (bytesFor share.dh.p.size) (uintOf ct ^ priv % share.dh.p) := by
  rcases decap_cases h hdecap with ⟨hfailed, -⟩ | ⟨priv, hpriv, -, hsecret⟩
  · cases hok.symm.trans hfailed
  · exact ⟨priv, hpriv, hsecret⟩

theorem decap_rejects (h : c.Documented Valid) (hp : share.dh.p ≠ 0) (hpriv : share.dh.privKey = some priv)
    (hbad : ct.length ≠ c.dhSize share.dh.p ∨ ¬ Valid share.dh.p (uintOf ct)) :
    share.decap c outSecret ct = some ⟨false, outSecret, .illegalParameter⟩ := by
  obtain ⟨flags, hvalid, heq⟩ := decap_of_key h hpriv outSecret ct
  rw [h.dhSize] at hbad
  rw [heq, if_neg (bytesFor_size_pos hp)]
  by_cases hlen : ct.length ≠ bytesFor share.dh.p.size
  · rw [if_pos hlen]
  · rw [if_neg hlen, if_pos (mt hvalid.mp (hbad.resolve_left hlen))]

/-- **Encap** is Generate, then Decap. -/
theorem encap_ok {decapped : Decapped} (hencap : share.encap c rand outSecret ct = some (share', pub, decapped))
    (hok : decapped.ok = true) :
    share.generate c rand = some (true, share', pub) ∧ share'.decap c outSecret ct = some decapped := by
  obtain ⟨⟨ok, share₁, pub₁⟩, hgenerate, hencap⟩ := Option.bind_eq_some_iff.mp hencap
  dsimp only at hencap
  cases ok with
  | false =>
      cases hencap
      cases hok
  | true =>
      obtain ⟨decapped₁, hdecap, hencap⟩ := Option.bind_eq_some_iff.mp hencap
      cases hencap
      exact ⟨hgenerate, hdecap⟩

/-- A private key is encoded in the bytes of its bit length. -/
theorem serialize_eq (h : c.Documented Valid) (hpriv : share.dh.privKey = some priv)
    (hbits : priv.size = share.privateBits) :
    share.serializePrivateKey c = some (some (putUint share.privateKeyBytes priv)) := by
  have hlt : priv < 256 ^ share.privateKeyBytes := lt_of_size_le (Nat.le_of_eq hbits)
  unfold KeyShare.serializePrivateKey
  rw [hpriv, Option.map_some, h.bn2cbbPadded, if_pos hlt]

/-- **Deserialize.** -/
theorem deserialize_eq (h : c.Documented Valid) (hfresh : share.dh.privKey = none) (input : Bytes) :
    share.deserializePrivateKey c input =
      if input.length = share.privateKeyBytes ∧ (uintOf input).size = share.privateBits then
        some (true, { share with dh.privKey := some (uintOf input) })
      else some (false, share) := by
  unfold KeyShare.deserializePrivateKey
  rw [hfresh, if_neg (by simp), h.bin2bn]
  dsimp only
  rw [h.numBits]
  by_cases hlen : input.length = share.privateKeyBytes
  · by_cases hbits : (uintOf input).size = share.privateBits
    · rw [if_neg (not_not.mpr hlen), if_neg (not_not.mpr hbits), if_pos ⟨hlen, hbits⟩]
    · rw [if_neg (not_not.mpr hlen), if_pos hbits, if_neg (fun hboth => hbits hboth.2)]
  · rw [if_pos hlen, if_neg (fun hboth => hlen hboth.1)]

/-- `Decap` goes by the prime and the private key. -/
theorem decap_congr (hp : share'.dh.p = share.dh.p) (hpriv : share'.dh.privKey = share.dh.privKey)
    (outSecret ct : Bytes) : share'.decap c outSecret ct = share.decap c outSecret ct := by
  unfold KeyShare.decap
  rw [hp, hpriv]

end Steps

/-! ### Key agreement -/

/-- A key share of the same group that has no keys yet. -/
def KeyShare.fresh (share : KeyShare) : KeyShare :=
  { share with dh := { share.dh with privKey := none, pubKey := none } }

/-- A share that `Create` makes has no keys, and the generator is `2`. -/
theorem create_fresh {q groupId : Nat} {share : KeyShare} (h : KeyShare.create q groupId = some share) :
    share.fresh = share ∧ share.dh.g = 2 ∧ share.groupId = groupId := by
  unfold KeyShare.create at h
  split at h
  · cases h
    exact ⟨rfl, rfl, rfl⟩
  · cases h
    exact ⟨rfl, rfl, rfl⟩
  · cases h

/-- **A created share can be given its keys**, by `Generate` or by `Deserialize`: neither assertion fails. -/
theorem create_usable (h : c.Documented Valid) {q groupId : Nat} {share : KeyShare}
    (hcreate : KeyShare.create q groupId = some share) :
    (∀ rand, share.generate c rand ≠ none) ∧ ∀ input, share.deserializePrivateKey c input ≠ none := by
  obtain ⟨hfresh, -, -⟩ := create_fresh hcreate
  have hpriv : share.dh.privKey = none := by
    rw [← hfresh]
    rfl
  refine ⟨fun rand => ?_, fun input => ?_⟩
  · unfold KeyShare.generate
    rw [hpriv, if_neg (by simp)]
    cases rand with
    | none => exact Option.some_ne_none _
    | some priv =>
        dsimp only
        split
        · exact Option.some_ne_none _
        split
        · exact Option.some_ne_none _
        split <;> exact Option.some_ne_none _
  · rw [deserialize_eq h hpriv]
    split <;> exact Option.some_ne_none _

/-- **FFDHE key shares agree.**  For every modulus and all private values:

* a public value is encoded in exactly `DH_size` bytes;
* when one side's `Encap` and the other's `Generate` and then `Decap` succeed, both have the same secret
  of `DH_size` bytes;
* `Decap` rejects what has another length or is not a valid public value, and a `Decap` that fails leaves
  the secret alone;
* a private value of the group's bit length survives `Serialize` and `Deserialize`, and `Deserialize`
  accepts exactly the strings of the right length whose value has that bit length. -/
theorem key_shares_agree (c : Libcrypto) (Valid : Nat → Nat → Prop) (h : c.Documented Valid) :
    (∀ share rand share' pub, KeyShare.generate c share rand = some (true, share', pub) →
        pub.length = c.dhSize share.dh.p)
      ∧ (∀ client server x y client' server' pubX pubY out out' decapped decapped',
          client.dh.p = server.dh.p → client.dh.g = server.dh.g →
          KeyShare.generate c client (some x) = some (true, client', pubX) →
          KeyShare.encap c server (some y) out pubX = some (server', pubY, decapped) →
          KeyShare.decap c client' out' pubY = some decapped' →
          decapped.ok = true → decapped'.ok = true →
          decapped.outSecret = decapped'.outSecret ∧ pubY.length = c.dhSize server.dh.p
            ∧ decapped.outSecret.length = c.dhSize server.dh.p
            ∧ uintOf decapped.outSecret = server.dh.g ^ (x * y) % server.dh.p)
      ∧ (∀ share priv outSecret ct, share.dh.p ≠ 0 → share.dh.privKey = some priv →
          ct.length ≠ c.dhSize share.dh.p ∨ ¬ Valid share.dh.p (uintOf ct) →
          KeyShare.decap c share outSecret ct = some ⟨false, outSecret, .illegalParameter⟩)
      ∧ (∀ share outSecret ct decapped, KeyShare.decap c share outSecret ct = some decapped →
          decapped.ok = false → decapped.outSecret = outSecret)
      ∧ (∀ share priv, share.dh.privKey = some priv → priv.size = share.privateBits →
          ∃ bytes share', KeyShare.serializePrivateKey c share = some (some bytes)
            ∧ bytes.length = bytesFor share.privateBits
            ∧ share.fresh.deserializePrivateKey c bytes = some (true, share')
            ∧ ∀ outSecret ct, share'.decap c outSecret ct = share.decap c outSecret ct)
      ∧ ∀ share input, share.dh.privKey = none →
          ((∃ share', KeyShare.deserializePrivateKey c share input = some (true, share'))
            ↔ input.length = bytesFor share.privateBits ∧ (uintOf input).size = share.privateBits) := by
  refine ⟨?_, ?_, ?_, ?_, ?_, ?_⟩
  · intro share rand share' pub hok
    obtain ⟨priv, -, -, -, -, rfl⟩ := generate_ok h hok
    rw [length_putUint, h.dhSize]
  · intro client server x y client' server' pubX pubY out out' decapped decapped' hp hg hclient hserver
      hdecap hok hok'
    obtain ⟨hgenerate, hdecapped⟩ := encap_ok hserver hok
    obtain ⟨x', hx, hp₀, hpx, hprivx, rfl⟩ := generate_ok h hclient
    obtain ⟨y', hy, hp₁, hpy, hprivy, rfl⟩ := generate_ok h hgenerate
    cases hx
    cases hy
    obtain ⟨y₁, hy₁, hsecret⟩ := decap_of_ok h hdecapped hok
    obtain ⟨x₁, hx₁, hsecret'⟩ := decap_of_ok h hdecap hok'
    -- Each side raises the other's public value to the private value it drew itself.
    cases hprivx.symm.trans hx₁
    cases hprivy.symm.trans hy₁
    rw [hpy, uintOf_putUint (mod_lt_bytesFor _ hp₀), hp, hg, pow_mod_pow_mod] at hsecret
    rw [hpx, uintOf_putUint (mod_lt_bytesFor _ hp₁), hp, pow_mod_pow_mod, Nat.mul_comm y x] at hsecret'
    refine ⟨hsecret.trans hsecret'.symm, ?_, ?_, ?_⟩
    · rw [length_putUint, h.dhSize]
    · rw [hsecret, length_putUint, h.dhSize]
    · rw [hsecret, uintOf_putUint (mod_lt_bytesFor _ hp₁)]
  · intro share priv outSecret ct hp hpriv hbad
    exact decap_rejects h hp hpriv hbad
  · intro share outSecret ct decapped hdecap hfailed
    rcases decap_cases h hdecap with ⟨-, hsame⟩ | ⟨priv, -, hok, -⟩
    · exact hsame
    · cases hok.symm.trans hfailed
  · intro share priv hpriv hbits
    have hlt : priv < 256 ^ share.privateKeyBytes := lt_of_size_le (Nat.le_of_eq hbits)
    refine ⟨putUint share.privateKeyBytes priv,
      { share.fresh with dh := { share.fresh.dh with privKey := some priv } },
      serialize_eq h hpriv hbits, length_putUint _ _, ?_, ?_⟩
    · rw [deserialize_eq h rfl, uintOf_putUint hlt, if_pos ⟨length_putUint _ _, hbits⟩]
    · exact decap_congr rfl hpriv.symm
  · intro share input hfresh
    rw [deserialize_eq h hfresh]
    constructor
    · rintro ⟨share', hok⟩
      split at hok
      · rename_i haccepted
        exact haccepted
      · cases hok
    · intro haccepted
      exact ⟨_, if_pos haccepted⟩

/-- libcrypto by exponentiation; the valid public values are those between `1` and `p - 1`. -/
def modularLibcrypto : Libcrypto where
  bin2bn bs := some (uintOf bs)
  bn2cbbPadded len n := if n < 256 ^ len then some (putUint len n) else none
  numBits n := if n = 0 then 0 else n.log2 + 1
  dhSize p := bytesFor (if p = 0 then 0 else p.log2 + 1)
  generateKey p g priv := some (g ^ priv % p)
  checkPubKey p pub := some (if 1 < pub ∧ pub + 1 < p then 0 else 1)
  computeKeyPadded p priv peer := some (putUint (bytesFor (if p = 0 then 0 else p.log2 + 1)) (peer ^ priv % p))

theorem modularLibcrypto_documented :
    modularLibcrypto.Documented fun p pub => 1 < pub ∧ pub + 1 < p where
  bin2bn bs := rfl
  bn2cbbPadded len n := rfl
  numBits n := size_eq_log2 n
  dhSize p := congrArg bytesFor (size_eq_log2 p)
  generateKey p g priv pub h := (Option.some.inj h).symm
  checkPubKey p pub := ⟨_, rfl, by split <;> simp_all⟩
  computeKeyPadded p priv peer secret h := by
    cases h
    rw [← size_eq_log2]

/-- Modulo `257` every value leads with a zero: the private values `9` and `11` agree on `0, 8`. -/
theorem key_shares_agree_257 :
    ∃ client' server' decapped decapped',
      KeyShare.generate modularLibcrypto ⟨⟨257, 2, none, none⟩, 256, 4⟩ (some 9)
          = some (true, client', [0, 255])
        ∧ KeyShare.encap modularLibcrypto ⟨⟨257, 2, none, none⟩, 256, 4⟩ (some 11) [] [0, 255]
          = some (server', [0, 249], decapped)
        ∧ KeyShare.decap modularLibcrypto client' [] [0, 249] = some decapped'
        ∧ decapped'.outSecret = [0, 8] ∧ decapped.outSecret = decapped'.outSecret := by
  have hclient : KeyShare.generate modularLibcrypto ⟨⟨257, 2, none, none⟩, 256, 4⟩ (some 9)
      = some (true, ⟨⟨257, 2, some 9, some 255⟩, 256, 4⟩, [0, 255]) := by
    decide +kernel
  have hserver : KeyShare.encap modularLibcrypto ⟨⟨257, 2, none, none⟩, 256, 4⟩ (some 11) [] [0, 255]
      = some (⟨⟨257, 2, some 11, some 249⟩, 256, 4⟩, [0, 249], ⟨true, [0, 8], .internalError⟩) := by
    decide +kernel
  have hdecap : KeyShare.decap modularLibcrypto ⟨⟨257, 2, some 9, some 255⟩, 256, 4⟩ [] [0, 249]
      = some ⟨true, [0, 8], .internalError⟩ := by
    decide +kernel
  refine ⟨_, _, _, _, hclient, hserver, hdecap, rfl, ?_⟩
  exact ((key_shares_agree modularLibcrypto _ modularLibcrypto_documented).2.1 _ _ 9 11 _ _ _ _ [] [] _ _
    rfl rfl hclient hserver hdecap rfl rfl).1

end Btls.Ffdhe
