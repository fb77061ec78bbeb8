import Btls.Support.Bytes

/-!
# Support — Kem

Key encapsulation over byte strings, with what it draws as an argument.  A `Lawful` one has the
lengths it says, and decapsulation gives back the secret of the encapsulation.  Two of them side by
side are one (`Lawful.hybrid`), and so is one whose secret goes through a function of the ciphertext
(`Lawful.withKdf`).
-/

namespace Btls.Support

/-- `R` is what a call draws, `K` the private keys. -/
structure Kem (R K : Type) where
  publicLen : Nat
  cipherLen : Nat
  secretLen : Nat
  generate : R → Option (K × Bytes)
  encap : R → Bytes → Option (Bytes × Bytes)
  decap : K → Bytes → Option Bytes

namespace Kem

variable {R R' K K' : Type} {A : Kem R K} {B : Kem R' K'}

structure Lawful (A : Kem R K) : Prop where
  public_length : ∀ {r k pub}, A.generate r = some (k, pub) → pub.length = A.publicLen
  encap_length : ∀ {r pub ct secret}, A.encap r pub = some (ct, secret) →
    ct.length = A.cipherLen ∧ secret.length = A.secretLen
  decap_length : ∀ {k ct secret}, A.decap k ct = some secret → secret.length = A.secretLen
  agrees : ∀ {r r' k pub ct secret}, A.generate r = some (k, pub) →
    A.encap r' pub = some (ct, secret) → A.decap k ct = some secret

/-! ### One behind the other -/

/-- Keys, ciphertexts and secrets are concatenated, and other lengths refused. -/
def hybrid (A : Kem R K) (B : Kem R' K') : Kem (R × R') (K × K') where
  publicLen := A.publicLen + B.publicLen
  cipherLen := A.cipherLen + B.cipherLen
  secretLen := A.secretLen + B.secretLen
  generate r := do
    let (k, pub) ← A.generate r.1
    let (k', pub') ← B.generate r.2
    return ((k, k'), pub ++ pub')
  encap r pub :=
    if pub.length = A.publicLen + B.publicLen then do
      let (ct, secret) ← A.encap r.1 (pub.take A.publicLen)
      let (ct', secret') ← B.encap r.2 (pub.drop A.publicLen)
      return (ct ++ ct', secret ++ secret')
    else none
  decap k ct :=
    if ct.length = A.cipherLen + B.cipherLen then do
      let secret ← A.decap k.1 (ct.take A.cipherLen)
      let secret' ← B.decap k.2 (ct.drop A.cipherLen)
      return secret ++ secret'
    else none

theorem hybrid_generate_eq_some {r : R × R'} {k : K × K'} {out : Bytes} :
    (A.hybrid B).generate r = some (k, out) ↔
      ∃ pub pub', A.generate r.1 = some (k.1, pub) ∧ B.generate r.2 = some (k.2, pub')
        ∧ out = pub ++ pub' := by
  simp only [hybrid, Option.bind_eq_bind, Option.bind_eq_some_iff, Option.pure_def, Option.some.injEq,
    Prod.exists, Prod.mk.injEq]
  constructor
  · rintro ⟨k₁, pub, hA, k₂, pub', hB, rfl, rfl⟩
    exact ⟨pub, pub', hA, hB, rfl⟩
  · rintro ⟨pub, pub', hA, hB, rfl⟩
    exact ⟨_, pub, hA, _, pub', hB, rfl, rfl⟩

theorem hybrid_encap_eq_some {r : R × R'} {pub ct secret : Bytes} :
    (A.hybrid B).encap r pub = some (ct, secret) ↔
      pub.length = A.publicLen + B.publicLen
        ∧ ∃ ct₁ secret₁ ct₂ secret₂, A.encap r.1 (pub.take A.publicLen) = some (ct₁, secret₁)
          ∧ B.encap r.2 (pub.drop A.publicLen) = some (ct₂, secret₂)
          ∧ ct = ct₁ ++ ct₂ ∧ secret = secret₁ ++ secret₂ := by
  simp only [hybrid, Option.ite_none_right_eq_some, Option.bind_eq_bind, Option.bind_eq_some_iff,
    Option.pure_def, Option.some.injEq, Prod.exists, Prod.mk.injEq]
  constructor
  · rintro ⟨hlen, ct₁, secret₁, hA, ct₂, secret₂, hB, rfl, rfl⟩
    exact ⟨hlen, ct₁, secret₁, ct₂, secret₂, hA, hB, rfl, rfl⟩
  · rintro ⟨hlen, ct₁, secret₁, ct₂, secret₂, hA, hB, rfl, rfl⟩
    exact ⟨hlen, ct₁, secret₁, hA, ct₂, secret₂, hB, rfl, rfl⟩

theorem hybrid_decap_eq_some {k : K × K'} {ct secret : Bytes} :
    (A.hybrid B).decap k ct = some secret ↔
      ct.length = A.cipherLen + B.cipherLen
        ∧ ∃ secret₁ secret₂, A.decap k.1 (ct.take A.cipherLen) = some secret₁
          ∧ B.decap k.2 (ct.drop A.cipherLen) = some secret₂ ∧ secret = secret₁ ++ secret₂ := by
  simp only [hybrid, Option.ite_none_right_eq_some, Option.bind_eq_bind, Option.bind_eq_some_iff,
    Option.pure_def, Option.some.injEq]
  constructor
  · rintro ⟨hlen, secret₁, hA, secret₂, hB, rfl⟩
    exact ⟨hlen, secret₁, secret₂, hA, hB, rfl⟩
  · rintro ⟨hlen, secret₁, secret₂, hA, hB, rfl⟩
    exact ⟨hlen, secret₁, hA, secret₂, hB, rfl⟩

theorem Lawful.hybrid (hA : A.Lawful) (hB : B.Lawful) : (A.hybrid B).Lawful where
  public_length h := by
    obtain ⟨pub, pub', h₁, h₂, rfl⟩ := hybrid_generate_eq_some.mp h
    rw [List.length_append, hA.public_length h₁, hB.public_length h₂]
    rfl
  encap_length h := by
    obtain ⟨-, ct₁, secret₁, ct₂, secret₂, h₁, h₂, rfl, rfl⟩ := hybrid_encap_eq_some.mp h
    rw [List.length_append, List.length_append, (hA.encap_length h₁).1, (hA.encap_length h₁).2,
      (hB.encap_length h₂).1, (hB.encap_length h₂).2]
    exact ⟨rfl, rfl⟩
  decap_length h := by
    obtain ⟨-, secret₁, secret₂, h₁, h₂, rfl⟩ := hybrid_decap_eq_some.mp h
    rw [List.length_append, hA.decap_length h₁, hB.decap_length h₂]
    rfl
  agrees hgenerate hencap := by
    obtain ⟨pub, pub', hg₁, hg₂, rfl⟩ := hybrid_generate_eq_some.mp hgenerate
    obtain ⟨-, ct₁, secret₁, ct₂, secret₂, h₁, h₂, rfl, rfl⟩ := hybrid_encap_eq_some.mp hencap
    rw [List.take_left' (hA.public_length hg₁)] at h₁
    rw [List.drop_left' (hA.public_length hg₁)] at h₂
    have hct₁ := (hA.encap_length h₁).1
    refine hybrid_decap_eq_some.mpr ⟨?_, secret₁, secret₂, ?_, ?_, rfl⟩
    · rw [List.length_append, hct₁, (hB.encap_length h₂).1]
    · rw [List.take_left' hct₁]
      exact hA.agrees hg₁ h₁
    · rw [List.drop_left' hct₁]
      exact hB.agrees hg₂ h₂

/-! ### A key derivation on top -/

/-- The secret is `kdf` of the secret and the ciphertext. -/
def withKdf (A : Kem R K) (len : Nat) (kdf : Bytes → Bytes → Bytes) : Kem R K where
  publicLen := A.publicLen
  cipherLen := A.cipherLen
  secretLen := len
  generate := A.generate
  encap r pub := (A.encap r pub).map fun (ct, secret) => (ct, kdf secret ct)
  decap k ct := (A.decap k ct).map fun secret => kdf secret ct

theorem Lawful.withKdf (hA : A.Lawful) {len : Nat} {kdf : Bytes → Bytes → Bytes}
    (hkdf : ∀ secret ct, (kdf secret ct).length = len) : (A.withKdf len kdf).Lawful where
  public_length h := hA.public_length h
  encap_length h := by
    obtain ⟨⟨ct, secret⟩, hA', heq⟩ := Option.map_eq_some_iff.mp h
    cases heq
    exact ⟨(hA.encap_length hA').1, hkdf _ _⟩
  decap_length h := by
    obtain ⟨secret, -, rfl⟩ := Option.map_eq_some_iff.mp h
    exact hkdf _ _
  agrees hgenerate hencap := by
    obtain ⟨⟨ct, secret⟩, hA', heq⟩ := Option.map_eq_some_iff.mp hencap
    cases heq
    exact Option.map_eq_some_iff.mpr ⟨secret, hA.agrees hgenerate hA', rfl⟩

end Kem

end Btls.Support
