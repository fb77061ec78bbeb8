import Btls.Delegated.Authentication

/-!
# Delegated — the two parsers, exactly

What `ssl_delegated_credential_parse` accepts and what it keeps of it (`parse_exact`): the bytes are
of the wire format and nothing follows them, and read again they give the same credential, under the
same bytes to be signed.  An error leaves the handshake as it was.

What `parse_delegation_certificate` requires of a list of extensions, in whatever order and with
whatever others they come (`delegation_exact`): the delegation extension once, key usage with the
signature bit, and nothing after a list that is not well formed.
-/

namespace Btls.Delegated

open Btls.Support

/-! ### The credential -/

variable {Key : Type} {C : Crypto Key} {A : Asn1} {hs hs' : Handshake Key} {contents : Bytes}

/-- What is kept is what was sent: its signed part, read again, says what is enforced. -/
structure Kept (C : Crypto Key) (contents : Bytes) (credential : Credential Key) : Prop where
  contents : credential.credential ++ (putUint 2 credential.algorithm
    ++ putPrefixed 2 credential.signature) = contents
  reread : ∃ spki, readSigned credential.credential
      = some ((credential.validTime, credential.certVerifyAlgorithm, spki), [])
    ∧ C.parseSubjectPublicKeyInfo spki = some credential.pubkey
  signed : ∀ leaf, signatureInput leaf credential = List.replicate 64 0x20
    ++ kServerDelegatedCredentialContext ++ leaf ++ credential.credential
    ++ putUint 2 credential.algorithm

theorem parse_kept (h : hs.parse C contents = (.ok (), hs')) :
    ∃ credential, hs' = { hs with peerDelegatedCredential := some credential }
      ∧ Kept C contents credential := by
  obtain ⟨credential, hparse, rfl⟩ := parse_ok_iff.mp h
  obtain ⟨parsed, haccepted⟩ := parseCredential_ok hparse
  have hreads := haccepted.reads
  refine ⟨credential, rfl, ?_, ?_, fun leaf => rfl⟩
  · rw [haccepted.credential]
    exact hreads.contents.symm
  · refine ⟨parsed.spki, ?_, haccepted.pubkey⟩
    rw [haccepted.credential]
    exact readSigned_eq_some.mpr ⟨hreads.validTime, hreads.certVerifyAlgorithm, hreads.spki,
      hreads.credential.trans (List.append_nil _).symm⟩

theorem ne_malformed {alert : Alert} {reason : String} (h : reason ≠ "malformed") :
    (.error ⟨alert, some reason⟩ : Except Failure (Credential Key))
      ≠ .error ⟨illegalParameter, some "malformed"⟩ := by
  intro heq
  exact h (Option.some.inj (congrArg Failure.reason (Except.error.inj heq)))

theorem parseCredential_not_malformed {parsed : Parsed} (h : readCredential contents = some parsed)
    (hoffered : hs.Offered) :
    parseCredential C hs contents ≠ .error ⟨illegalParameter, some "malformed"⟩ := by
  have hsent : (!hs.clientHelloExtensionWasSent extensionType) = false := by
    rw [Bool.not_eq_false']
    exact hoffered
  unfold parseCredential delegatedCredentialError
  rw [if_neg (by rw [hsent]; exact Bool.false_ne_true), h]
  dsimp only
  intro hmalformed
  split at hmalformed
  · exact absurd hmalformed (ne_malformed (by decide))
  split at hmalformed
  · exact absurd hmalformed (ne_malformed (by decide))
  split at hmalformed
  · exact absurd hmalformed (ne_malformed (by decide))
  split at hmalformed
  · exact absurd hmalformed (ne_malformed (by decide))
  · cases hmalformed

/-- The structural part fails where the format does. -/
theorem parse_malformed (hoffered : hs.Offered) :
    (hs.parse C contents).1 = .error ⟨illegalParameter, some "malformed"⟩
      ↔ ¬ ∃ parsed : Parsed, parsed.Reads contents := by
  have hsent : (!hs.clientHelloExtensionWasSent extensionType) = false := by
    rw [Bool.not_eq_false']
    exact hoffered
  cases hread : readCredential contents with
  | none =>
      have hnone : ¬ ∃ parsed : Parsed, parsed.Reads contents := by
        rintro ⟨parsed, hreads⟩
        rw [readCredential_eq_some.mpr hreads] at hread
        cases hread
      refine iff_of_true ?_ hnone
      unfold Handshake.parse parseCredential
      rw [if_neg (by rw [hsent]; exact Bool.false_ne_true), hread]
      rfl
  | some parsed =>
      refine iff_of_false (fun h => ?_) (not_not.mpr ⟨parsed, readCredential_eq_some.mp hread⟩)
      have hnot := parseCredential_not_malformed (C := C) hread hoffered
      unfold Handshake.parse at h
      cases hparse : parseCredential C hs contents with
      | error e =>
          rw [hparse] at h
          cases h
          exact hnot hparse
      | ok credential =>
          rw [hparse] at h
          cases h

/-- **The parser is exact.**  Its structural part accepts the format and nothing else; what it keeps of
a credential is what was sent; and a credential that it rejects leaves the handshake as it was. -/
theorem parse_exact (C : Crypto Key) (hs : Handshake Key) (contents : Bytes) :
    (∀ parsed, readCredential contents = some parsed ↔ parsed.Reads contents)
      ∧ (hs.Offered → ((hs.parse C contents).1 = .error ⟨illegalParameter, some "malformed"⟩
          ↔ ¬ ∃ parsed : Parsed, parsed.Reads contents))
      ∧ (∀ hs', hs.parse C contents = (.ok (), hs') → ∃ credential,
          hs' = { hs with peerDelegatedCredential := some credential } ∧ Kept C contents credential)
      ∧ ∀ e hs', hs.parse C contents = (.error e, hs') → hs' = hs := by
  refine ⟨fun parsed => readCredential_eq_some, parse_malformed, fun hs' => parse_kept, ?_⟩
  intro e hs' h
  exact (parse_error_iff.mp h).2

/-- The credential of the sample. -/
def sampleCredential : Credential Bytes :=
  ⟨putSigned 86400 0x0403 [5], [9], [5], 86400, 0x0403, 0x0403⟩

theorem parse_exact_day :
    Kept Crypto.sample (putSigned 86400 0x0403 [5] ++ (putUint 2 0x0403 ++ putPrefixed 2 [9]))
      sampleCredential := by
  obtain ⟨credential, heq, hkept⟩ :=
    (parse_exact Crypto.sample sampleClient.hs
      (putSigned 86400 0x0403 [5] ++ (putUint 2 0x0403 ++ putPrefixed 2 [9]))).2.2.1
      { sampleClient.hs with peerDelegatedCredential := some sampleCredential } rfl
  obtain rfl := Option.some.inj (congrArg Handshake.peerDelegatedCredential heq)
  exact hkept

/-! ### The certificate -/

/-- `bs` starts with the extensions `es`, and `rest` is left. -/
inductive Read (A : Asn1) : Bytes → List Extension → Bytes → Prop where
  | done (bs : Bytes) : Read A bs [] bs
  | more {bs bs' rest : Bytes} {e : Extension} {es : List Extension} (hne : bs ≠ [])
      (h : readExtension A bs = some (e, bs')) (t : Read A bs' es rest) : Read A bs (e :: es) rest

/-- The extensions end in one that cannot be read, or in bytes that are none. -/
def IllFormed (A : Asn1) (bs : Bytes) : Prop :=
  ∃ es rest, Read A bs es rest ∧ rest ≠ [] ∧ readExtension A rest = none

variable {bs : Bytes} {es es' : List Extension}

theorem Extensions.unique (h : Extensions A bs es) (h' : Extensions A bs es') : es = es' := by
  induction h generalizing es' with
  | nil =>
      cases h' with
      | nil => rfl
      | cons hne => exact absurd rfl hne
  | cons hne hread _ ih =>
      cases h' with
      | nil => exact absurd rfl hne
      | cons _ hread' t' =>
          obtain ⟨rfl, rfl⟩ := Prod.mk.inj (Option.some.inj (hread.symm.trans hread'))
          rw [ih t']

theorem IllFormed.not_extensions (h : IllFormed A bs) (es' : List Extension) :
    ¬ Extensions A bs es' := by
  obtain ⟨es, rest, hread, hne, hnone⟩ := h
  intro hes
  induction hread generalizing es' with
  | done bs =>
      cases hes with
      | nil => exact hne rfl
      | cons _ hsome =>
          rw [hnone] at hsome
          cases hsome
  | more hne' hsome _ ih =>
      cases hes with
      | nil => exact hne' rfl
      | cons _ hsome' t' =>
          obtain ⟨rfl, rfl⟩ := Prod.mk.inj (Option.some.inj (hsome.symm.trans hsome'))
          exact ih _ hne hnone t'

/-- There is no third case. -/
theorem extensions_or_illFormed (A : Asn1) (bs : Bytes) :
    (∃ es, Extensions A bs es) ∨ IllFormed A bs := by
  induction hlen : bs.length using Nat.strongRecOn generalizing bs with
  | _ n ih =>
    by_cases hempty : bs = []
    · subst hempty
      exact .inl ⟨[], .nil⟩
    · cases hread : readExtension A bs with
      | none => exact .inr ⟨[], bs, .done bs, hempty, hread⟩
      | some p =>
          obtain ⟨e, rest⟩ := p
          have hlt := readExtension_length hread
          rcases ih rest.length (hlen ▸ hlt) rest rfl with ⟨es, hes⟩ | ⟨es, last, hread', hne, hnone⟩
          · exact .inl ⟨e :: es, .cons hempty hread hes⟩
          · exact .inr ⟨e :: es, last, .more hempty hread hread', hne, hnone⟩

/-- What the certificate's extensions must say. -/
def Required (A : Asn1) (es : List Extension) : Prop :=
  (∃ e, es.filter isDelegationUsage = [e] ∧ e.critical = false ∧ e.contents = kNull)
    ∧ ∃ e, es.filter isKeyUsage = [e] ∧ ∃ bitString, A.getAsn1 .bitString e.contents = some (bitString, [])
      ∧ A.isValidBitString bitString = true
      ∧ A.bitStringHasBit bitString keyUsageDigitalSignature = true

theorem delegates_iff {e : Extension} :
    delegates e = true ↔ e.critical = false ∧ e.contents = kNull := by
  rw [delegates, Bool.and_eq_true, Bool.not_eq_true', beq_iff_eq]

theorem signs_iff {e : Extension} :
    signs A e = true ↔ ∃ bitString, A.getAsn1 .bitString e.contents = some (bitString, [])
      ∧ A.isValidBitString bitString = true
      ∧ A.bitStringHasBit bitString keyUsageDigitalSignature = true := by
  unfold signs
  cases A.getAsn1 .bitString e.contents with
  | none => simp
  | some p =>
      obtain ⟨bitString, rest⟩ := p
      rw [Bool.and_eq_true, Bool.and_eq_true, List.isEmpty_iff, and_assoc]
      constructor
      · rintro ⟨rfl, h⟩
        exact ⟨bitString, rfl, h⟩
      · rintro ⟨_, heq, h⟩
        cases heq
        exact ⟨rfl, h⟩

theorem parse_iff_required {certificate extensions : Bytes} {notBefore : Int64}
    (hfields : delegationFields A certificate = some (notBefore, extensions))
    (hes : Extensions A extensions es) :
    parseDelegationCertificate A certificate = some notBefore ↔ Required A es := by
  rw [parseDelegationCertificate_eq_some]
  unfold Required
  constructor
  · rintro ⟨es', ⟨extensions', hfields', hes'⟩, ⟨e, he, hdelegates⟩, e', he', hsigns⟩
    obtain ⟨-, rfl⟩ := Prod.mk.inj (Option.some.inj (hfields'.symm.trans hfields))
    obtain rfl := hes'.unique hes
    exact ⟨⟨e, he, delegates_iff.mp hdelegates⟩, e', he', signs_iff.mp hsigns⟩
  · rintro ⟨⟨e, he, hdelegates⟩, e', he', hsigns⟩
    exact ⟨es, ⟨extensions, hfields, hes⟩, ⟨e, he, delegates_iff.mpr hdelegates⟩, e', he',
      signs_iff.mpr hsigns⟩

/-- The result, where there is one, is notBefore. -/
theorem parse_notBefore {certificate extensions : Bytes} {notBefore t : Int64}
    (hfields : delegationFields A certificate = some (notBefore, extensions))
    (h : parseDelegationCertificate A certificate = some t) : t = notBefore := by
  obtain ⟨es, hes⟩ := parseDelegationCertificate_eq_some.mp h
  obtain ⟨extensions', hfields', -⟩ := hes.fields
  exact (Prod.mk.inj (Option.some.inj (hfields'.symm.trans hfields))).1

theorem isSome_iff_required {certificate extensions : Bytes} {notBefore : Int64}
    (hfields : delegationFields A certificate = some (notBefore, extensions))
    (hes : Extensions A extensions es) :
    (parseDelegationCertificate A certificate).isSome = true ↔ Required A es := by
  rw [← parse_iff_required hfields hes, Option.isSome_iff_exists]
  constructor
  · rintro ⟨t, ht⟩
    rw [ht, parse_notBefore hfields ht]
  · intro h
    exact ⟨notBefore, h⟩

/-- Only the extensions of the two kinds matter, and not their order. -/
theorem required_congr (hd : (es.filter isDelegationUsage).Perm (es'.filter isDelegationUsage))
    (hk : (es.filter isKeyUsage).Perm (es'.filter isKeyUsage)) (h : Required A es) :
    Required A es' := by
  obtain ⟨⟨e, he, hdelegates⟩, e', he', hsigns⟩ := h
  rw [he] at hd
  rw [he'] at hk
  exact ⟨⟨e, List.perm_singleton.mp hd.symm, hdelegates⟩, e', List.perm_singleton.mp hk.symm, hsigns⟩

theorem required_perm (h : es.Perm es') : Required A es ↔ Required A es' :=
  ⟨required_congr (h.filter _) (h.filter _), required_congr (h.symm.filter _) (h.symm.filter _)⟩

theorem required_insert {e : Extension} (hd : isDelegationUsage e = false) (hk : isKeyUsage e = false)
    (es es' : List Extension) : Required A (es ++ es') ↔ Required A (es ++ e :: es') := by
  have hskip : ∀ p : Extension → Bool, p e = false →
      (es ++ e :: es').filter p = (es ++ es').filter p := by
    intro p hp
    rw [List.filter_append, List.filter_cons_of_neg (by rw [hp]; exact Bool.false_ne_true),
      ← List.filter_append]
  exact ⟨required_congr (.of_eq (hskip _ hd).symm) (.of_eq (hskip _ hk).symm),
    required_congr (.of_eq (hskip _ hd)) (.of_eq (hskip _ hk))⟩

/-- **The requirements are exact, in any order and among any others.** -/
theorem delegation_exact (A : Asn1) (certificate extensions : Bytes) (notBefore : Int64)
    (hfields : delegationFields A certificate = some (notBefore, extensions)) :
    (∀ es, Extensions A extensions es →
        (parseDelegationCertificate A certificate = some notBefore ↔ Required A es)
        ∧ (parseDelegationCertificate A certificate = none ↔ ¬ Required A es))
      ∧ (IllFormed A extensions → parseDelegationCertificate A certificate = none)
      ∧ ((∃ es, Extensions A extensions es) ∨ IllFormed A extensions)
      ∧ ∀ certificate' extensions' notBefore',
        delegationFields A certificate' = some (notBefore', extensions') →
        ∀ es es', Extensions A extensions es → Extensions A extensions' es' →
        (es.Perm es' ∨ (∃ e xs ys, isDelegationUsage e = false ∧ isKeyUsage e = false
          ∧ es = xs ++ ys ∧ es' = xs ++ e :: ys)) →
        (parseDelegationCertificate A certificate).isSome
          = (parseDelegationCertificate A certificate').isSome := by
  refine ⟨fun es hes => ?_, fun hill => ?_, extensions_or_illFormed A extensions, ?_⟩
  · refine ⟨parse_iff_required hfields hes, ?_⟩
    rw [← isSome_iff_required hfields hes, Option.not_isSome_iff_eq_none]
  · cases hparse : parseDelegationCertificate A certificate with
    | none => rfl
    | some t =>
        obtain ⟨es, hdelegates⟩ := parseDelegationCertificate_eq_some.mp hparse
        obtain ⟨extensions', hfields', hes⟩ := hdelegates.fields
        obtain ⟨-, rfl⟩ := Prod.mk.inj (Option.some.inj (hfields'.symm.trans hfields))
        exact absurd hes (hill.not_extensions es)
  · intro certificate' extensions' notBefore' hfields' es es' hes hes' hsame
    refine Bool.eq_iff_iff.mpr ?_
    rw [isSome_iff_required hfields hes, isSome_iff_required hfields' hes']
    rcases hsame with hperm | ⟨e, xs, ys, hd, hk, rfl, rfl⟩
    · exact required_perm hperm
    · exact required_insert hd hk xs ys

/-- The two extensions of the sample's leaf. -/
def sampleExtensions : Bytes :=
  [0x30, 15, 0x06, 9] ++ kDelegationUsageOid ++ [0x04, 2] ++ kNull
    ++ [0x30, 11, 0x06, 3] ++ kKeyUsageOid ++ [0x04, 4, 0x03, 2, 7, 0x80]

theorem delegation_exact_sample :
    ∃ es, Extensions Asn1.short sampleExtensions es ∧ Required Asn1.short es := by
  have hparse : parseDelegationCertificate Asn1.short sampleLeaf = some 0 := by decide +kernel
  obtain ⟨hexact, hill, hcases, -⟩ :=
    delegation_exact Asn1.short sampleLeaf sampleExtensions 0 (by decide +kernel)
  rcases hcases with ⟨es, hes⟩ | hbad
  · exact ⟨es, hes, (hexact es hes).1.mp hparse⟩
  · rw [hill hbad] at hparse
    cases hparse

end Btls.Delegated
