import Btls.Ffdhe.KeyShare
import Btls.Support.Kem
import Btls.Support.Panic

/-!
# Hybrid — KeyShare

`P256Kyber768Draft00KeyShare` and `X25519Kyber768KeyShare`, with `Kyber768KEM` under them.  ML-KEM,
Keccak, X25519 and `ECKeyShare` are a parameter (`Libcrypto`), each `Lawful` as a KEM in what they
are documented to do.  What a call draws is an argument, and one that has to write past an array or
use a key that was never made is `none`.

A key share that does not fail does what the two KEMs side by side do (`P256Kyber.encap_left`,
`X25519Kyber.encap_left` and those of `Decap`), so its two ends agree.  What differs between the two
shares is kept: the one with P-256 appends its half before it looks at Kyber's, the other makes its
key pair before it looks at the length.

* `kyber768_lawful`: ML-KEM with Kyber's key derivation is a KEM if ML-KEM is.
* `hybrid_key_shares_agree`: both ends of each share come to one secret of 64 bytes, a call that
  fails leaves the secret alone, and a share of another length is refused as illegal.
-/

namespace Btls.Hybrid

open Btls.Support
open Btls.Ffdhe (Alert Decapped)

/-! ### libcrypto -/

inductive Keccak where
  | sha3_256
  | shake256
  deriving DecidableEq

/-- `R` is what a call draws, `M` and `Q` the ML-KEM-768 private keys and parsed public keys, `E` the
`ECKeyShare` of P-256.  `none` is a call that fails. -/
structure Libcrypto (R M Q E : Type) where
  mlkemGenerateKey : R → Bytes × M
  mlkemParsePublicKey : Bytes → Option Q
  /-- `MLKEM768_encap`: the ciphertext and the secret. -/
  mlkemEncap : R → Q → Bytes × Bytes
  mlkemDecap : Bytes → M → Option Bytes
  /-- `BORINGSSL_keccak` with its output length. -/
  keccak : Nat → Bytes → Keccak → Bytes
  /-- `X25519_keypair`: the public value and the private key. -/
  x25519Keypair : R → Bytes × Bytes
  x25519 : (privateKey peer : Bytes) → Option Bytes
  /-- `ECKeyShare::Generate`, with what it appends. -/
  ecGenerate : R → E → Bool × Bytes × E
  /-- `ECKeyShare::Encap` into an empty secret, with what it appends. -/
  ecEncap : R → Bytes → E → E × Bytes × Decapped
  ecDecap : Bytes → E → Decapped
  /-- What `Array::InitForOverwrite` leaves in an array of a length. -/
  fresh : Nat → Bytes

def mlkem768PublicKeyBytes : Nat := 1184
def mlkem768CiphertextBytes : Nat := 1088
def mlkemSharedSecretBytes : Nat := 32

namespace Libcrypto

variable {R M Q E : Type} (c : Libcrypto R M Q E)

def mlkem768 : Kem R M where
  publicLen := mlkem768PublicKeyBytes
  cipherLen := mlkem768CiphertextBytes
  secretLen := mlkemSharedSecretBytes
  generate r := some ((c.mlkemGenerateKey r).2, (c.mlkemGenerateKey r).1)
  encap r pub := (c.mlkemParsePublicKey pub).map (c.mlkemEncap r)
  decap k ct := c.mlkemDecap ct k

/-- A key of the one end is a private value, a ciphertext of the other a public value. -/
def x25519Kem : Kem R Bytes where
  publicLen := 32
  cipherLen := 32
  secretLen := 32
  generate r := some ((c.x25519Keypair r).2, (c.x25519Keypair r).1)
  encap r pub := (c.x25519 (c.x25519Keypair r).2 pub).map fun secret => ((c.x25519Keypair r).1, secret)
  decap k ct := c.x25519 k ct

/-- `ECKeyShare`, from whatever share a call starts. -/
def p256 : Kem (R × E) E where
  publicLen := 65
  cipherLen := 65
  secretLen := 32
  generate r := let (ok, pub, share) := c.ecGenerate r.1 r.2; if ok then some (share, pub) else none
  encap r pub :=
    let (_, ct, decapped) := c.ecEncap r.1 pub r.2
    if decapped.ok then some (ct, decapped.outSecret) else none
  decap k ct := let decapped := c.ecDecap ct k; if decapped.ok then some decapped.outSecret else none

/-- What libcrypto is documented to do. -/
structure Documented : Prop where
  mlkem : c.mlkem768.Lawful
  p256 : c.p256.Lawful
  x25519Keypair_length : ∀ r, (c.x25519Keypair r).1.length = 32
  x25519_length : ∀ {k peer secret}, c.x25519 k peer = some secret → secret.length = 32
  x25519_comm : ∀ r r', c.x25519 (c.x25519Keypair r).2 (c.x25519Keypair r').1
    = c.x25519 (c.x25519Keypair r').2 (c.x25519Keypair r).1
  keccak_length : ∀ n input mode, (c.keccak n input mode).length = n
  fresh_length : ∀ n, (c.fresh n).length = n

variable {c}

/-- X25519 is a KEM whose encapsulation is a fresh key share. -/
theorem Documented.x25519Kem (h : c.Documented) : c.x25519Kem.Lawful where
  public_length hgenerate := by
    obtain ⟨rfl, rfl⟩ := Prod.mk.inj (Option.some.inj hgenerate)
    exact h.x25519Keypair_length _
  encap_length hencap := by
    obtain ⟨secret, hsecret, heq⟩ := Option.map_eq_some_iff.mp hencap
    obtain ⟨rfl, rfl⟩ := Prod.mk.inj heq
    exact ⟨h.x25519Keypair_length _, h.x25519_length hsecret⟩
  decap_length hdecap := h.x25519_length hdecap
  agrees hgenerate hencap := by
    obtain ⟨rfl, rfl⟩ := Prod.mk.inj (Option.some.inj hgenerate)
    obtain ⟨secret, hsecret, heq⟩ := Option.map_eq_some_iff.mp hencap
    obtain ⟨rfl, rfl⟩ := Prod.mk.inj heq
    exact (h.x25519_comm _ _).trans hsecret

end Libcrypto

/-! ### Kyber768 -/

def kKyber768SharedSecretBytes : Nat := 32

section Kyber

variable {R M Q E : Type} (c : Libcrypto R M Q E)

def kyber768Kdf (mlkemSecret ciphertext : Bytes) : Bytes :=
  c.keccak kKyber768SharedSecretBytes (mlkemSecret ++ c.keccak 32 ciphertext .sha3_256) .shake256

/-- `Kyber768KEM`, its key being uninitialised until `Generate`. -/
structure Kyber768Kem (M : Type) where
  privateKey : Option M

namespace Kyber768Kem

def generate (r : R) : Bytes × Kyber768Kem M :=
  let (pub, key) := c.mlkemGenerateKey r
  (pub, ⟨some key⟩)

/-- `Encap`: the ciphertext and the secret. -/
def encap (r : R) (peerKey : Bytes) : Option (Bytes × Bytes) :=
  match c.mlkemParsePublicKey peerKey with
  | none => none
  | some key =>
      let (ct, mlkemSecret) := c.mlkemEncap r key
      some (ct, kyber768Kdf c mlkemSecret ct)

/-- `Decap`, which fails with `some none`. -/
def decap (k : Kyber768Kem M) (ct : Bytes) : Option (Option Bytes) :=
  k.privateKey.map fun key => (c.mlkemDecap ct key).map fun mlkemSecret => kyber768Kdf c mlkemSecret ct

end Kyber768Kem

/-- ML-KEM-768 with Kyber's key derivation. -/
def kyber768 : Kem R M := c.mlkem768.withKdf kKyber768SharedSecretBytes (kyber768Kdf c)

/-- ML-KEM is lawful as it is documented. -/
theorem kyber768_lawful (h : c.Documented) : (kyber768 c).Lawful :=
  h.mlkem.withKdf fun _ _ => h.keccak_length _ _ _

/-- The wrapper parses the key, and encapsulates to it. -/
theorem kyber768_encap (r : R) (peerKey : Bytes) :
    Kyber768Kem.encap c r peerKey = (kyber768 c).encap r peerKey := by
  simp only [Kyber768Kem.encap, kyber768, Kem.withKdf, Libcrypto.mlkem768]
  cases c.mlkemParsePublicKey peerKey <;> rfl

/-- And decapsulates with the key that it holds. -/
theorem kyber768_decap (key : M) (ct : Bytes) :
    Kyber768Kem.decap c ⟨some key⟩ ct = some ((kyber768 c).decap key ct) := rfl

/-! ### The key shares -/

/-- `P256Kyber768Draft00KeyShare`. -/
structure P256Kyber (M E : Type) where
  ecks : E
  kyber : Kyber768Kem M

/-- `X25519Kyber768KeyShare`, its keys being uninitialised until `Generate`. -/
structure X25519Kyber (M : Type) where
  x25519PrivateKey : Option Bytes
  kyber : Kyber768Kem M

namespace P256Kyber

def kP256ShareSize : Nat := 65
def kP256SecretSize : Nat := 32

variable (s : P256Kyber M E)

/-- `Generate`: whether it succeeds, and what it appends. -/
def generate (r : R × R) : Bool × Bytes × P256Kyber M E :=
  let (kyberPublicKey, kyber) := Kyber768Kem.generate c r.2
  let (ok, out, ecks) := c.ecGenerate r.1 s.ecks
  if ok then (true, out ++ kyberPublicKey, ⟨ecks, kyber⟩) else (false, out, ⟨ecks, kyber⟩)

/-- `Encap`, with what it appends.  Where Kyber fails, the share of `ecks_` is already there. -/
def encap (r : R × R) (outSecret peerKey : Bytes) : Option (P256Kyber M E × Bytes × Decapped) :=
  if peerKey.length ≠ kP256ShareSize + mlkem768PublicKeyBytes then
    some (s, [], ⟨false, outSecret, .illegalParameter⟩)
  else
    let (ecks, appended, ec) := c.ecEncap r.1 (peerKey.take kP256ShareSize) s.ecks
    if ec.ok then do
      let secret ← copyInto (c.fresh (kP256SecretSize + kKyber768SharedSecretBytes)) 0 ec.outSecret
      match Kyber768Kem.encap c r.2 (peerKey.drop kP256ShareSize) with
      | none => return (⟨ecks, s.kyber⟩, appended, ⟨false, outSecret, .illegalParameter⟩)
      | some (kyberCiphertext, kyberSecret) =>
          let secret ← copyInto secret kP256SecretSize kyberSecret
          return (⟨ecks, s.kyber⟩, appended ++ kyberCiphertext, ⟨true, secret, ec.outAlert⟩)
    else some (⟨ecks, s.kyber⟩, appended, ⟨false, outSecret, ec.outAlert⟩)

def decap (outSecret ciphertext : Bytes) : Option Decapped :=
  if ciphertext.length ≠ kP256ShareSize + mlkem768CiphertextBytes then
    some ⟨false, outSecret, .illegalParameter⟩
  else
    let ec := c.ecDecap (ciphertext.take kP256ShareSize) s.ecks
    if ec.ok then do
      let secret ← copyInto (c.fresh (kP256SecretSize + kKyber768SharedSecretBytes)) 0 ec.outSecret
      match ← s.kyber.decap c (ciphertext.drop kP256ShareSize) with
      | none => return ⟨false, outSecret, .illegalParameter⟩
      | some kyberSecret =>
          let secret ← copyInto secret kP256SecretSize kyberSecret
          return ⟨true, secret, ec.outAlert⟩
    else some ⟨false, outSecret, ec.outAlert⟩

end P256Kyber

namespace X25519Kyber

def x25519PublicValueLen : Nat := 32
def x25519SharedKeyLen : Nat := 32

/-- `Generate`, which makes both keys anew: what it appends. -/
def generate (r : R × R) : Bytes × X25519Kyber M :=
  let (x25519PublicKey, x25519PrivateKey) := c.x25519Keypair r.1
  let (kyberPublicKey, kyber) := Kyber768Kem.generate c r.2
  (x25519PublicKey ++ kyberPublicKey, ⟨some x25519PrivateKey, kyber⟩)

variable (s : X25519Kyber M)

/-- `Encap`, with what it appends.  It has made its key pair before it looks at the length. -/
def encap (r : R × R) (outSecret peerKey : Bytes) : Option (X25519Kyber M × Bytes × Decapped) :=
  let secret := c.fresh (x25519SharedKeyLen + kKyber768SharedSecretBytes)
  let (x25519PublicKey, x25519PrivateKey) := c.x25519Keypair r.1
  let s := { s with x25519PrivateKey := some x25519PrivateKey }
  let failed := some (s, [], ⟨false, outSecret, .illegalParameter⟩)
  if peerKey.length ≠ x25519PublicValueLen + mlkem768PublicKeyBytes then failed
  else
    match c.x25519 x25519PrivateKey (peerKey.take x25519PublicValueLen) with
    | none => failed
    | some shared => do
        let secret ← copyInto secret 0 shared
        match Kyber768Kem.encap c r.2 (peerKey.drop x25519PublicValueLen) with
        | none => failed
        | some (kyberCiphertext, kyberSecret) =>
            let secret ← copyInto secret x25519SharedKeyLen kyberSecret
            return (s, x25519PublicKey ++ kyberCiphertext, ⟨true, secret, .internalError⟩)

def decap (outSecret ciphertext : Bytes) : Option Decapped :=
  let secret := c.fresh (x25519SharedKeyLen + kKyber768SharedSecretBytes)
  let failed := some ⟨false, outSecret, .illegalParameter⟩
  if ciphertext.length ≠ x25519PublicValueLen + mlkem768CiphertextBytes then failed
  else do
    let x25519PrivateKey ← s.x25519PrivateKey
    match c.x25519 x25519PrivateKey (ciphertext.take x25519PublicValueLen) with
    | none => failed
    | some shared =>
        let secret ← copyInto secret 0 shared
        match ← s.kyber.decap c (ciphertext.drop x25519PublicValueLen) with
        | none => failed
        | some kyberSecret =>
            let secret ← copyInto secret x25519SharedKeyLen kyberSecret
            return ⟨true, secret, .internalError⟩

end X25519Kyber

/-! ### They are the two KEMs side by side -/

/-- What a call left, the KEM giving `secret`. -/
structure Left (d : Decapped) (outSecret : Bytes) (secret : Option Bytes) : Prop where
  ok : d.ok = secret.isSome
  outSecret : d.outSecret = secret.getD outSecret

/-- A call that fails leaves the secret as it was. -/
theorem Left.failed (outSecret : Bytes) (alert : Alert) : Left ⟨false, outSecret, alert⟩ outSecret none :=
  ⟨rfl, rfl⟩

/-- One that succeeds leaves the secret of the KEM. -/
theorem Left.done (outSecret secret : Bytes) (alert : Alert) :
    Left ⟨true, secret, alert⟩ outSecret (some secret) :=
  ⟨rfl, rfl⟩

namespace P256Kyber

variable {c} {s s' : P256Kyber M E} {r : R × R} {outSecret : Bytes}

/-- The KEM of a share whose `ECKeyShare` is drawn with it. -/
def kem (c : Libcrypto R M Q E) : Kem ((R × E) × R) (E × M) := c.p256.hybrid (kyber768 c)

theorem generate_ok {pub : Bytes} (h : s.generate c r = (true, pub, s')) :
    ∃ key, s'.kyber = ⟨some key⟩ ∧ (kem c).generate ((r.1, s.ecks), r.2) = some ((s'.ecks, key), pub) := by
  unfold generate at h
  rcases hec : c.ecGenerate r.1 s.ecks with ⟨ok, out, ecks⟩
  simp only [hec] at h
  cases ok with
  | false => simp at h
  | true =>
      simp only [if_true] at h
      obtain ⟨-, rfl, rfl⟩ := Prod.mk.inj h |>.imp id Prod.mk.inj
      refine ⟨_, rfl, Kem.hybrid_generate_eq_some.mpr ⟨out, _, ?_, rfl, rfl⟩⟩
      simp [Libcrypto.p256, hec]

/-- **`Encap`.**  It never writes past an array, and comes to what the KEM does. -/
theorem encap_left (h : c.Documented) (s : P256Kyber M E) (r : R × R) (outSecret peerKey : Bytes) :
    ∃ s' appended d, s.encap c r outSecret peerKey = some (s', appended, d)
      ∧ Left d outSecret (((kem c).encap ((r.1, s.ecks), r.2) peerKey).map Prod.snd)
      ∧ ∀ ct secret, (kem c).encap ((r.1, s.ecks), r.2) peerKey = some (ct, secret) → appended = ct := by
  unfold encap
  by_cases hlen : peerKey.length = kP256ShareSize + mlkem768PublicKeyBytes
  swap
  · have hnone : (kem c).encap ((r.1, s.ecks), r.2) peerKey = none := if_neg hlen
    rw [if_pos hlen, hnone]
    exact ⟨_, _, _, rfl, .failed _ _, fun _ _ h => by cases h⟩
  rw [if_neg (not_not.mpr hlen)]
  rcases hec : c.ecEncap r.1 (peerKey.take kP256ShareSize) s.ecks with ⟨ecks, appended, ok, ecSecret, alert⟩
  have hA : c.p256.encap (r.1, s.ecks) (peerKey.take c.p256.publicLen)
      = if ok then some (appended, ecSecret) else none := by
    simp [Libcrypto.p256, show (65 : Nat) = kP256ShareSize from rfl, hec]
  have hkem : (kem c).encap ((r.1, s.ecks), r.2) peerKey
      = (c.p256.encap (r.1, s.ecks) (peerKey.take c.p256.publicLen)).bind fun (ct, secret) =>
        (Kyber768Kem.encap c r.2 (peerKey.drop kP256ShareSize)).bind fun (ct', secret') =>
          some (ct ++ ct', secret ++ secret') := by
    rw [kyber768_encap]
    exact if_pos hlen
  rw [hkem, hA]
  cases ok with
  | false => exact ⟨_, _, _, rfl, .failed _ _, fun _ _ h => by cases h⟩
  | true =>
      have hecLen : ecSecret.length = kP256SecretSize := (h.p256.encap_length hA).2
      have hfresh := h.fresh_length (kP256SecretSize + kKyber768SharedSecretBytes)
      rcases hk : Kyber768Kem.encap c r.2 (peerKey.drop kP256ShareSize) with _ | ⟨ct', secret'⟩
      · have h₁ := copyInto_first hfresh hecLen
        simp only [if_true, h₁, Option.bind_eq_bind, Option.bind_some]
        exact ⟨_, _, _, rfl, .failed _ _, fun _ _ h => by cases h⟩
      · have hkLen : secret'.length = kKyber768SharedSecretBytes :=
          ((kyber768_lawful c h).encap_length (kyber768_encap c _ _ ▸ hk)).2
        obtain ⟨h₁, h₂⟩ := copyInto_two hfresh hecLen hkLen
        simp only [if_true, h₁, h₂, Option.bind_eq_bind, Option.bind_some]
        exact ⟨_, _, _, rfl, .done _ _ _, fun ct secret hct => by cases hct; rfl⟩

/-- **`Decap`**, once there is a key. -/
theorem decap_left (h : c.Documented) {key : M} (hkey : s.kyber = ⟨some key⟩) (outSecret ct : Bytes) :
    ∃ d, s.decap c outSecret ct = some d ∧ Left d outSecret ((kem c).decap (s.ecks, key) ct) := by
  unfold decap
  by_cases hlen : ct.length = kP256ShareSize + mlkem768CiphertextBytes
  swap
  · have hnone : (kem c).decap (s.ecks, key) ct = none := if_neg hlen
    rw [if_pos hlen, hnone]
    exact ⟨_, rfl, .failed _ _⟩
  rw [if_neg (not_not.mpr hlen), hkey]
  rcases hec : c.ecDecap (ct.take kP256ShareSize) s.ecks with ⟨ok, ecSecret, alert⟩
  have hA : c.p256.decap s.ecks (ct.take c.p256.cipherLen) = if ok then some ecSecret else none := by
    simp [Libcrypto.p256, show (65 : Nat) = kP256ShareSize from rfl, hec]
  have hkem : (kem c).decap (s.ecks, key) ct
      = (c.p256.decap s.ecks (ct.take c.p256.cipherLen)).bind fun secret =>
        ((kyber768 c).decap key (ct.drop kP256ShareSize)).bind fun secret' => some (secret ++ secret') :=
    if_pos hlen
  rw [hkem, hA]
  cases ok with
  | false => exact ⟨_, rfl, .failed _ _⟩
  | true =>
      have hecLen : ecSecret.length = kP256SecretSize := h.p256.decap_length hA
      have hfresh := h.fresh_length (kP256SecretSize + kKyber768SharedSecretBytes)
      simp only [if_true, kyber768_decap]
      rcases hk : (kyber768 c).decap key (ct.drop kP256ShareSize) with _ | secret'
      · have h₁ := copyInto_first hfresh hecLen
        simp only [h₁, Option.bind_eq_bind, Option.bind_some]
        exact ⟨_, rfl, .failed _ _⟩
      · have hkLen : secret'.length = kKyber768SharedSecretBytes :=
          (kyber768_lawful c h).decap_length hk
        obtain ⟨h₁, h₂⟩ := copyInto_two hfresh hecLen hkLen
        simp only [h₁, h₂, Option.bind_eq_bind, Option.bind_some]
        exact ⟨_, rfl, .done _ _ _⟩

end P256Kyber

namespace X25519Kyber

variable {c} {s : X25519Kyber M}

def kem (c : Libcrypto R M Q E) : Kem (R × R) (Bytes × M) := c.x25519Kem.hybrid (kyber768 c)

theorem generate_ok (r : R × R) :
    ∃ x key, (generate c r).2 = ⟨some x, ⟨some key⟩⟩
      ∧ (kem c).generate r = some ((x, key), (generate c r).1) :=
  ⟨_, _, rfl, Kem.hybrid_generate_eq_some.mpr ⟨_, _, rfl, rfl, rfl⟩⟩

theorem encap_left (h : c.Documented) (s : X25519Kyber M) (r : R × R) (outSecret peerKey : Bytes) :
    ∃ s' appended d, s.encap c r outSecret peerKey = some (s', appended, d)
      ∧ Left d outSecret (((kem c).encap r peerKey).map Prod.snd)
      ∧ (d.ok = false → appended = [] ∧ d.outAlert = .illegalParameter)
      ∧ ∀ ct secret, (kem c).encap r peerKey = some (ct, secret) → appended = ct := by
  unfold encap
  by_cases hlen : peerKey.length = x25519PublicValueLen + mlkem768PublicKeyBytes
  swap
  · have hnone : (kem c).encap r peerKey = none := if_neg hlen
    simp only [if_pos hlen, hnone]
    exact ⟨_, _, _, rfl, .failed _ _, fun _ => ⟨rfl, rfl⟩, fun _ _ h => by cases h⟩
  have hkem : (kem c).encap r peerKey
      = ((c.x25519 (c.x25519Keypair r.1).2 (peerKey.take x25519PublicValueLen)).map fun secret =>
          ((c.x25519Keypair r.1).1, secret)).bind fun (ct, secret) =>
        (Kyber768Kem.encap c r.2 (peerKey.drop x25519PublicValueLen)).bind fun (ct', secret') =>
          some (ct ++ ct', secret ++ secret') := by
    rw [kyber768_encap]
    exact if_pos hlen
  simp only [if_neg (not_not.mpr hlen), hkem]
  have hfresh := h.fresh_length (x25519SharedKeyLen + kKyber768SharedSecretBytes)
  rcases hx : c.x25519 (c.x25519Keypair r.1).2 (peerKey.take x25519PublicValueLen) with _ | shared
  · exact ⟨_, _, _, rfl, .failed _ _, fun _ => ⟨rfl, rfl⟩, fun _ _ h => by cases h⟩
  have hxLen : shared.length = x25519SharedKeyLen := h.x25519_length hx
  rcases hk : Kyber768Kem.encap c r.2 (peerKey.drop x25519PublicValueLen) with _ | ⟨ct', secret'⟩
  · have h₁ := copyInto_first hfresh hxLen
    simp only [h₁, Option.bind_eq_bind, Option.bind_some]
    exact ⟨_, _, _, rfl, .failed _ _, fun _ => ⟨rfl, rfl⟩, fun _ _ h => by cases h⟩
  · have hkLen : secret'.length = kKyber768SharedSecretBytes :=
      ((kyber768_lawful c h).encap_length (kyber768_encap c _ _ ▸ hk)).2
    obtain ⟨h₁, h₂⟩ := copyInto_two hfresh hxLen hkLen
    simp only [h₁, h₂, Option.bind_eq_bind, Option.bind_some]
    exact ⟨_, _, _, rfl, .done _ _ _, (fun h => by cases h), fun ct secret hct => by cases hct; rfl⟩

theorem decap_left (h : c.Documented) {x : Bytes} {key : M} (hs : s = ⟨some x, ⟨some key⟩⟩)
    (outSecret ct : Bytes) :
    ∃ d, s.decap c outSecret ct = some d ∧ Left d outSecret ((kem c).decap (x, key) ct)
      ∧ (d.ok = false → d.outAlert = .illegalParameter) := by
  subst hs
  unfold decap
  by_cases hlen : ct.length = x25519PublicValueLen + mlkem768CiphertextBytes
  swap
  · have hnone : (kem c).decap (x, key) ct = none := if_neg hlen
    simp only [if_pos hlen, hnone]
    exact ⟨_, rfl, .failed _ _, fun _ => rfl⟩
  have hkem : (kem c).decap (x, key) ct
      = (c.x25519 x (ct.take x25519PublicValueLen)).bind fun secret =>
        ((kyber768 c).decap key (ct.drop x25519PublicValueLen)).bind fun secret' =>
          some (secret ++ secret') := if_pos hlen
  simp only [if_neg (not_not.mpr hlen), hkem, kyber768_decap, Option.bind_eq_bind, Option.bind_some]
  have hfresh := h.fresh_length (x25519SharedKeyLen + kKyber768SharedSecretBytes)
  rcases hx : c.x25519 x (ct.take x25519PublicValueLen) with _ | shared
  · exact ⟨_, rfl, .failed _ _, fun _ => rfl⟩
  have hxLen : shared.length = x25519SharedKeyLen := h.x25519_length hx
  rcases hk : (kyber768 c).decap key (ct.drop x25519PublicValueLen) with _ | secret'
  · have h₁ := copyInto_first hfresh hxLen
    simp only [h₁, Option.bind_some]
    exact ⟨_, rfl, .failed _ _, fun _ => rfl⟩
  · have hkLen : secret'.length = kKyber768SharedSecretBytes :=
      (kyber768_lawful c h).decap_length hk
    obtain ⟨h₁, h₂⟩ := copyInto_two hfresh hxLen hkLen
    simp only [h₁, h₂, Option.bind_some]
    exact ⟨_, rfl, .done _ _ _, fun h => by cases h⟩

end X25519Kyber

/-! ### The two ends -/

variable {c} {K : Type} {d d' : Decapped} {outSecret secret ct pub : Bytes}

/-- One end made `pub`, of `publicLen` bytes; the other encapsulates to it, and where that succeeds, what it
appended has `cipherLen` bytes and gives the first end the same secret. -/
def EndsAgree {S : Type} (publicLen cipherLen : Nat) (pub outSecret : Bytes)
    (encap : Option (S × Bytes × Decapped)) (decap : Bytes → Option Decapped) : Prop :=
  pub.length = publicLen ∧ ∃ s ct d, encap = some (s, ct, d)
    ∧ (d.ok = false → d.outSecret = outSecret)
    ∧ (d.ok = true → ct.length = cipherLen ∧ d.outSecret.length = 64
        ∧ ∃ d', decap ct = some d' ∧ d'.ok = true ∧ d'.outSecret = d.outSecret)

/-- Whatever the KEM does, a call that fails leaves the secret alone. -/
theorem Left.of_failed {secret : Option Bytes} (h : Left d outSecret secret) (hok : d.ok = false) :
    d.outSecret = outSecret := by
  cases secret with
  | none => exact h.outSecret
  | some secret => cases hok.symm.trans h.ok

/-- So a refusal is an alert and nothing else. -/
theorem Left.refused {secret : Option Bytes} (h : Left d outSecret secret) (hok : d.ok = false)
    (halert : d.outAlert = .illegalParameter) : d = ⟨false, outSecret, .illegalParameter⟩ := by
  have hsame := h.of_failed hok
  cases d
  cases hok
  cases hsame
  cases halert
  rfl

/-- What `Encap` succeeds with is a ciphertext of its KEM, so the other end opens it. -/
theorem Left.opens {R' : Type} {A : Kem R' K} (hA : A.Lawful) {r r' : R'} {k : K}
    (hgenerate : A.generate r = some (k, pub)) (h : Left d outSecret ((A.encap r' pub).map Prod.snd))
    (hct : ∀ ct' secret, A.encap r' pub = some (ct', secret) → ct = ct') (hok : d.ok = true) :
    ct.length = A.cipherLen ∧ d.outSecret.length = A.secretLen ∧ A.decap k ct = some d.outSecret := by
  rcases hencap : A.encap r' pub with _ | ⟨ct', secret⟩ <;> rw [hencap] at h
  · cases hok.symm.trans h.ok
  · rw [hct ct' secret hencap, show d.outSecret = secret from h.outSecret]
    exact ⟨(hA.encap_length hencap).1, (hA.encap_length hencap).2, hA.agrees hgenerate hencap⟩

/-- Both ends of the group with P-256. -/
theorem P256Kyber.ends_agree (h : c.Documented) {client client' : P256Kyber M E} {r : R × R}
    (hgenerate : client.generate c r = (true, pub, client')) (server : P256Kyber M E) (r' : R × R)
    (outSecret outSecret' : Bytes) :
    EndsAgree 1249 1153 pub outSecret (server.encap c r' outSecret pub) (client'.decap c outSecret') := by
  have hkem : (P256Kyber.kem c).Lawful := h.p256.hybrid (kyber768_lawful c h)
  obtain ⟨key, hkey, hgen⟩ := P256Kyber.generate_ok hgenerate
  obtain ⟨s, ct, d, hencap, hleft, hct⟩ := P256Kyber.encap_left h server r' outSecret pub
  refine ⟨hkem.public_length hgen, s, ct, d, hencap, hleft.of_failed, fun hok => ?_⟩
  obtain ⟨hctLen, hsecretLen, hopen⟩ := hleft.opens hkem hgen (fun ct' v hv => hct ct' v hv) hok
  obtain ⟨d', hdecap, hleft'⟩ := P256Kyber.decap_left h hkey outSecret' ct
  rw [hopen] at hleft'
  exact ⟨hctLen, hsecretLen, d', hdecap, hleft'.ok, hleft'.outSecret⟩

/-- And of the one with X25519. -/
theorem X25519Kyber.ends_agree (h : c.Documented) (r : R × R) (server : X25519Kyber M) (r' : R × R)
    (outSecret outSecret' : Bytes) :
    EndsAgree 1216 1120 (X25519Kyber.generate c r).1 outSecret
      (server.encap c r' outSecret (X25519Kyber.generate c r).1)
      ((X25519Kyber.generate c r).2.decap c outSecret') := by
  have hkem : (X25519Kyber.kem c).Lawful := h.x25519Kem.hybrid (kyber768_lawful c h)
  obtain ⟨x, key, hkeys, hgen⟩ := X25519Kyber.generate_ok (c := c) r
  obtain ⟨s, ct, d, hencap, hleft, -, hct⟩ :=
    X25519Kyber.encap_left h server r' outSecret (X25519Kyber.generate c r).1
  refine ⟨hkem.public_length hgen, s, ct, d, hencap, hleft.of_failed, fun hok => ?_⟩
  obtain ⟨hctLen, hsecretLen, hopen⟩ := hleft.opens hkem hgen (fun ct' v hv => hct ct' v hv) hok
  obtain ⟨d', hdecap, hleft', -⟩ := X25519Kyber.decap_left h hkeys outSecret' ct
  rw [hopen] at hleft'
  exact ⟨hctLen, hsecretLen, d', hdecap, hleft'.ok, hleft'.outSecret⟩

/-- **Both hybrid key shares agree, and refuse what has another length.**  The two ends of each come to one
secret of 64 bytes; whatever a peer sends, no call writes past an array, a call that fails leaves the
secret alone, and one of another length is an illegal parameter, with nothing appended. -/
theorem hybrid_key_shares_agree (h : c.Documented) :
    (∀ (client server client' : P256Kyber M E) (r r' : R × R) (pub outSecret outSecret' : Bytes),
        client.generate c r = (true, pub, client') →
          EndsAgree 1249 1153 pub outSecret (server.encap c r' outSecret pub) (client'.decap c outSecret'))
      ∧ (∀ (server : X25519Kyber M) (r r' : R × R) (outSecret outSecret' : Bytes),
        EndsAgree 1216 1120 (X25519Kyber.generate c r).1 outSecret
          (server.encap c r' outSecret (X25519Kyber.generate c r).1)
          ((X25519Kyber.generate c r).2.decap c outSecret'))
      ∧ (∀ (s : P256Kyber M E) (r : R × R) (outSecret peer : Bytes),
        (∃ s' appended d, s.encap c r outSecret peer = some (s', appended, d)
          ∧ (d.ok = false → d.outSecret = outSecret)
          ∧ (peer.length ≠ 1249 → appended = [] ∧ d = ⟨false, outSecret, .illegalParameter⟩))
        ∧ ∀ key, s.kyber = ⟨some key⟩ → ∃ d, s.decap c outSecret peer = some d
          ∧ (d.ok = false → d.outSecret = outSecret)
          ∧ (peer.length ≠ 1153 → d = ⟨false, outSecret, .illegalParameter⟩))
      ∧ ∀ (s : X25519Kyber M) (r : R × R) (outSecret peer : Bytes),
        (∃ s' appended d, s.encap c r outSecret peer = some (s', appended, d)
          ∧ (d.ok = false → appended = [] ∧ d = ⟨false, outSecret, .illegalParameter⟩)
          ∧ (peer.length ≠ 1216 → d.ok = false))
        ∧ ∀ x key, s = ⟨some x, ⟨some key⟩⟩ → ∃ d, s.decap c outSecret peer = some d
          ∧ (d.ok = false → d = ⟨false, outSecret, .illegalParameter⟩)
          ∧ (peer.length ≠ 1120 → d.ok = false) := by
  refine ⟨fun client server client' r r' pub out out' hgenerate =>
      P256Kyber.ends_agree h hgenerate server r' out out',
    fun server r r' out out' => X25519Kyber.ends_agree h r server r' out out',
    fun s r out peer => ⟨?_, fun key hkey => ?_⟩, fun s r out peer => ⟨?_, fun x key hkeys => ?_⟩⟩
  · obtain ⟨s', appended, d, hencap, hleft, -⟩ := P256Kyber.encap_left h s r out peer
    refine ⟨s', appended, d, hencap, hleft.of_failed, fun hlen => ?_⟩
    have hlen : peer.length ≠ P256Kyber.kP256ShareSize + mlkem768PublicKeyBytes := hlen
    rw [P256Kyber.encap, if_pos hlen] at hencap
    cases hencap
    exact ⟨rfl, rfl⟩
  · obtain ⟨d, hdecap, hleft⟩ := P256Kyber.decap_left h hkey out peer
    refine ⟨d, hdecap, hleft.of_failed, fun hlen => ?_⟩
    have hlen : peer.length ≠ P256Kyber.kP256ShareSize + mlkem768CiphertextBytes := hlen
    rw [P256Kyber.decap, if_pos hlen] at hdecap
    cases hdecap
    rfl
  · obtain ⟨s', appended, d, hencap, hleft, halert, -⟩ := X25519Kyber.encap_left h s r out peer
    refine ⟨s', appended, d, hencap, fun hok => ?_, fun hlen => ?_⟩
    · exact ⟨(halert hok).1, hleft.refused hok (halert hok).2⟩
    · have hnone : (X25519Kyber.kem c).encap r peer = none := if_neg hlen
      rw [hnone] at hleft
      exact hleft.ok
  · obtain ⟨d, hdecap, hleft, halert⟩ := X25519Kyber.decap_left h hkeys out peer
    refine ⟨d, hdecap, fun hok => hleft.refused hok (halert hok), fun hlen => ?_⟩
    · have hnone : (X25519Kyber.kem c).decap (x, key) peer = none := if_neg hlen
      rw [hnone] at hleft
      exact hleft.ok

end Kyber

/-- Keys, ciphertexts and secrets of one byte each, repeated; a secret is a product. -/
def productLibcrypto : Libcrypto UInt8 UInt8 UInt8 UInt8 where
  mlkemGenerateKey r := (.replicate 1184 r, r)
  mlkemParsePublicKey pub := pub.head?
  mlkemEncap r q := (.replicate 1088 r, .replicate 32 (r * q))
  mlkemDecap ct key := some (.replicate 32 (key * ct.headD 0))
  keccak n input _ := .replicate n (input.foldl (· + ·) 0)
  x25519Keypair r := (.replicate 32 r, [r])
  x25519 key peer := some (.replicate 32 (key.headD 0 * peer.headD 0))
  ecGenerate r _ := (true, .replicate 65 r, r)
  ecEncap r pub _ := (r, .replicate 65 r, ⟨true, .replicate 32 (r * pub.headD 0), .internalError⟩)
  ecDecap ct key := ⟨true, .replicate 32 (key * ct.headD 0), .internalError⟩
  fresh n := .replicate n 0xAA

/-- A library whose secrets are products. -/
theorem productLibcrypto_documented : productLibcrypto.Documented := by
  have hcomm : ∀ r r' : UInt8, some (List.replicate 32 (r * r')) = some (List.replicate 32 (r' * r)) :=
    fun r r' => by rw [UInt8.mul_comm]
  refine ⟨⟨?_, ?_, ?_, ?_⟩, ⟨?_, ?_, ?_, ?_⟩, fun r => List.length_replicate, ?_, hcomm,
    fun n input mode => List.length_replicate, fun n => List.length_replicate⟩
  · rintro r k pub ⟨⟩
    exact List.length_replicate
  · rintro r pub ct secret h
    obtain ⟨q, -, heq⟩ := Option.map_eq_some_iff.mp h
    cases heq
    exact ⟨List.length_replicate, List.length_replicate⟩
  · rintro k ct secret ⟨⟩
    exact List.length_replicate
  · rintro r r' k pub ct secret ⟨⟩ ⟨⟩
    exact hcomm r r'
  · rintro ⟨r, e⟩ k pub ⟨⟩
    exact List.length_replicate
  · rintro ⟨r, e⟩ pub ct secret ⟨⟩
    exact ⟨List.length_replicate, List.length_replicate⟩
  · rintro k ct secret ⟨⟩
    exact List.length_replicate
  · rintro ⟨r, e⟩ ⟨r', e'⟩ k pub ct secret ⟨⟩ ⟨⟩
    exact hcomm r r'
  · rintro k peer secret ⟨⟩
    exact List.length_replicate

/-- Both ends agree under it. -/
theorem hybrid_key_shares_agree_product :
    EndsAgree 1249 1153 (List.replicate 65 2 ++ List.replicate 1184 3) []
      (P256Kyber.encap productLibcrypto ⟨0, ⟨none⟩⟩ (5, 7) []
        (List.replicate 65 2 ++ List.replicate 1184 3))
      (P256Kyber.decap productLibcrypto ⟨2, ⟨some 3⟩⟩ []) :=
  (hybrid_key_shares_agree productLibcrypto_documented).1 ⟨0, ⟨none⟩⟩ ⟨0, ⟨none⟩⟩ ⟨2, ⟨some 3⟩⟩
    (2, 3) (5, 7) _ [] [] rfl

end Btls.Hybrid
