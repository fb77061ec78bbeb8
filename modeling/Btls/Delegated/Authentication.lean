import Btls.Delegated.Verify
import Btls.Support.Except

/-!
# Delegated — Authentication

A client's Certificate and CertificateVerify, and the flag that says a delegated credential
authenticated the server.  `Messages` is what upstream does on the way: it takes the messages apart,
parses the leaf's key and the other extensions, and may end the handshake for reasons of its own.  A
handshake has one Certificate and then one CertificateVerify; nothing else touches a credential.

`Client.Established` says what has been established in each phase, and `used_checked` that the flag
is set only when everything has.
-/

namespace Btls.Delegated

open Btls.Support

/-! ### The code -/

/-- A Certificate message: its entries, each a certificate and its extensions, as far as they decode,
and the error where they stop. -/
structure Decoded where
  entries : List (Bytes × Bytes)
  malformed : Option Failure

/-- What upstream does.  `parseExtensions` is `ssl_parse_extensions` with delegated credentials allowed
or not, and returns the contents of that extension, if it is present. -/
structure Messages (Key : Type) where
  decode : Bytes → Decoded
  leafKey : Bytes → Except Failure Key
  parseExtensions : (allowed : Bool) → Bytes → Except Failure (Option Bytes)
  keepEntry : (isFirstEntry : Bool) → (certificate extensions : Bytes) → Except Failure Unit
  keepChain : List Bytes → Except Failure Unit
  decodeVerify : Bytes → Except Failure (Nat × Bytes)

variable {Key : Type}

/-- `SSLImpl`.  `credentialAllowed` is `cert_extensions_allowed && !ssl->server`. -/
structure Ssl where
  credentialAllowed : Bool
  delegatedCredentialUsed : Bool

section Code

variable (M : Messages Key) (C : Crypto Key) (A : Asn1)

def readKey (isFirstEntry : Bool) (pkey : Option Key) (certificate : Bytes) :
    Except Failure (Option Key) :=
  if isFirstEntry then (M.leafKey certificate).map some else .ok pkey

/-- What is done about the credential an entry carries. -/
def processCredential (hs : Handshake Key) (isFirstEntry : Bool) :
    (present : Option Bytes) → Except Failure (Handshake Key)
  | none => .ok hs
  | some contents =>
      if isFirstEntry || !hs.clientHelloExtensionWasSent extensionType then
        let (result, hs) := hs.parse C contents
        result.map fun () => hs
      else .ok hs

/-- The loop of `tls13_process_certificate`. -/
def processEntries (allowed : Bool) : (isFirstEntry : Bool) → Handshake Key → Option Key →
    (entries : List (Bytes × Bytes)) → Except Failure (Handshake Key × Option Key)
  | _, hs, pkey, [] => .ok (hs, pkey)
  | isFirstEntry, hs, pkey, (certificate, extensions) :: entries => do
      let pkey ← readKey M isFirstEntry pkey certificate
      let present ← M.parseExtensions allowed extensions
      let hs ← processCredential C hs isFirstEntry present
      M.keepEntry isFirstEntry certificate extensions
      processEntries allowed false hs pkey entries

/-- The certificates of a chain, where there are any. -/
def chainOf (entries : List (Bytes × Bytes)) : Option (List Bytes) :=
  if entries.isEmpty then none else some (entries.map Prod.fst)

/-- What `tls13_process_certificate` stores after the loop. -/
def storeChain (hs : Handshake Key) (pkey : Option Key) (entries : List (Bytes × Bytes)) :
    Handshake Key :=
  { hs with
    peerPubkey := pkey
    newSession := hs.newSession.map fun session => { session with certs := chainOf entries } }

def failIf : Option Failure → Except Failure Unit
  | none => .ok ()
  | some failure => .error failure

/-- `tls13_process_certificate`. -/
def processCertificate (ssl : Ssl) (hs : Handshake Key) (body : Bytes) :
    Except Failure (Handshake Key) := do
  let decoded := M.decode body
  let (hs, pkey) ← processEntries M C ssl.credentialAllowed true hs none decoded.entries
  failIf decoded.malformed
  M.keepChain (decoded.entries.map Prod.fst)
  return storeChain hs pkey decoded.entries

/-- The check of the algorithm, by the credential or by the certificate's key. -/
def checkAlgorithm (now : UInt64) (hs : Handshake Key) (algorithm : Nat) :
    Except Failure (Handshake Key) :=
  match hs.peerDelegatedCredential with
  | some _ => hs.verify C A now algorithm
  | none =>
      match hs.peerPubkey with
      | none => .error ⟨internalError, none⟩
      | some key =>
          if C.checkPeerSigalg algorithm key then .ok hs else .error ⟨illegalParameter, none⟩

/-- The key that CertificateVerify is signed with. -/
def Handshake.verifyKey (hs : Handshake Key) : Option Key :=
  match hs.peerDelegatedCredential with
  | some credential => some credential.pubkey
  | none => hs.peerPubkey

def checkSignature (hs : Handshake Key) (algorithm : Nat) (signature input : Bytes) :
    Except Failure Unit :=
  match hs.verifyKey with
  | none => .error ⟨internalError, none⟩
  | some key =>
      if C.publicKeyVerify signature algorithm key input then .ok () else .error ⟨decryptError, none⟩

/-- `tls13_process_certificate_verify`.  `input` is `tls13_get_cert_verify_signature_input`, where it
succeeds. -/
def processCertificateVerify (now : UInt64) (ssl : Ssl) (hs : Handshake Key) (body : Bytes)
    (input : Option Bytes) : Except Failure (Ssl × Handshake Key) := do
  let (algorithm, signature) ← M.decodeVerify body
  let hs ← checkAlgorithm C A now hs algorithm
  match input with
  | none => .error ⟨internalError, none⟩
  | some input => do
      checkSignature C hs algorithm signature input
      return (if hs.peerDelegatedCredential.isSome then { ssl with delegatedCredentialUsed := true }
        else ssl, hs)

end Code

/-! ### The client -/

inductive Phase where
  | certificate
  | certificateVerify
  | authenticated
  | failed (failure : Failure)

/-- What a client receives.  `other` is a message that upstream handles alone, and `now` the time when
one is processed. -/
inductive Received where
  | certificate (body : Bytes)
  | certificateVerify (body : Bytes) (input : Option Bytes) (now : UInt64)
  | other (failure : Option Failure)

structure Client (Key : Type) where
  ssl : Ssl
  hs : Handshake Key
  phase : Phase

/-- A client that has sent its last ClientHello. -/
structure Client.Initial (c : Client Key) : Prop where
  phase : c.phase = .certificate
  notUsed : c.ssl.delegatedCredentialUsed = false
  noCredential : c.hs.peerDelegatedCredential = none

def Client.fail (c : Client Key) (failure : Failure) : Client Key := { c with phase := .failed failure }

/-- One message.  A message out of order is one too many. -/
def Client.step (M : Messages Key) (C : Crypto Key) (A : Asn1) (c : Client Key) :
    Received → Client Key
  | .other none => c
  | .other (some failure) =>
      match c.phase with
      | .failed _ => c
      | _ => c.fail failure
  | .certificate body =>
      match c.phase with
      | .certificate =>
          match processCertificate M C c.ssl c.hs body with
          | .ok hs => { c with hs := hs, phase := .certificateVerify }
          | .error failure => c.fail failure
      | .failed _ => c
      | _ => c.fail ⟨unexpectedMessage, none⟩
  | .certificateVerify body input now =>
      match c.phase with
      | .certificateVerify =>
          match processCertificateVerify M C A now c.ssl c.hs body input with
          | .ok (ssl, hs) => ⟨ssl, hs, .authenticated⟩
          | .error failure => c.fail failure
      | .failed _ => c
      | _ => c.fail ⟨unexpectedMessage, none⟩

def Client.run (M : Messages Key) (C : Crypto Key) (A : Asn1) (c : Client Key)
    (received : List Received) : Client Key := received.foldl (Client.step M C A) c

/-! ### What each message establishes -/

section Messages

variable {M : Messages Key} {C : Crypto Key} {A : Asn1} {allowed : Bool} {hs hs' : Handshake Key}
  {pkey pkey' : Option Key} {entries : List (Bytes × Bytes)}

/-- The chain's leaf carries a credential that was accepted, under the key `pkey`. -/
structure LeafCredential (M : Messages Key) (C : Crypto Key) (allowed : Bool) (hs : Handshake Key)
    (entries : List (Bytes × Bytes)) (leaf : Bytes) (pkey : Key) (credential : Credential Key) :
    Prop where
  entries : ∃ extensions rest contents parsed, entries = (leaf, extensions) :: rest
    ∧ M.parseExtensions allowed extensions = .ok (some contents)
    ∧ Accepted C hs contents parsed credential
  leafKey : M.leafKey leaf = .ok pkey

/-- The leaf's credential is parsed, and kept if it is accepted. -/
theorem processCredential_first {contents : Bytes}
    (h : processCredential C hs true (some contents) = .ok hs') :
    ∃ credential, parseCredential C hs contents = .ok credential
      ∧ hs' = { hs with peerDelegatedCredential := some credential } := by
  rw [processCredential, Bool.true_or, if_pos rfl] at h
  rcases hparse : hs.parse C contents with ⟨_ | _, hs₁⟩
  · rw [hparse] at h
    cases h
  · rw [hparse] at h
    cases h
    exact parse_ok_iff.mp hparse

/-- Behind the leaf nothing is kept. -/
theorem processCredential_rest {present : Option Bytes}
    (h : processCredential C hs false present = .ok hs') : hs' = hs := by
  cases present with
  | none =>
      cases h
      rfl
  | some contents =>
      rw [processCredential] at h
      split at h
      · rename_i hsent
        rw [Bool.false_or, Bool.not_eq_true'] at hsent
        rw [parse_error_iff.mpr ⟨parseCredential_unsolicited contents (by simp [Handshake.Offered, hsent]), rfl⟩]
          at h
        cases h
      · cases h
        rfl

theorem processEntries_rest (h : processEntries M C allowed false hs pkey entries = .ok (hs', pkey')) :
    hs' = hs ∧ pkey' = pkey := by
  induction entries generalizing hs pkey with
  | nil =>
      cases h
      exact ⟨rfl, rfl⟩
  | cons entry entries ih =>
      obtain ⟨pkey₁, hkey, h⟩ := bind_eq_ok.mp h
      obtain ⟨present, -, h⟩ := bind_eq_ok.mp h
      obtain ⟨hs₁, hcredential, h⟩ := bind_eq_ok.mp h
      obtain ⟨-, -, h⟩ := bind_eq_ok.mp h
      cases hkey
      rw [processCredential_rest hcredential] at h
      exact ih h

/-- The leaf's credential, or none. -/
theorem processEntries_leaf
    (h : processEntries M C allowed true hs none entries = .ok (hs', pkey)) :
    hs' = hs ∨ ∃ leaf key credential, LeafCredential M C allowed hs entries leaf key credential
      ∧ pkey = some key ∧ hs' = { hs with peerDelegatedCredential := some credential } := by
  cases entries with
  | nil =>
      cases h
      exact .inl rfl
  | cons entry rest =>
      obtain ⟨leaf, extensions⟩ := entry
      obtain ⟨pkey₁, hkey, h⟩ := bind_eq_ok.mp h
      obtain ⟨present, hpresent, h⟩ := bind_eq_ok.mp h
      obtain ⟨hs₁, hcredential, h⟩ := bind_eq_ok.mp h
      obtain ⟨-, -, h⟩ := bind_eq_ok.mp h
      obtain ⟨rfl, rfl⟩ := processEntries_rest h
      cases present with
      | none =>
          cases hcredential
          exact .inl rfl
      | some contents =>
          obtain ⟨credential, hparse, rfl⟩ := processCredential_first hcredential
          obtain ⟨parsed, haccepted⟩ := parseCredential_ok hparse
          unfold readKey at hkey
          cases hleaf : M.leafKey leaf with
          | error e =>
              rw [hleaf] at hkey
              cases hkey
          | ok key =>
              rw [hleaf] at hkey
              cases hkey
              exact .inr ⟨leaf, key, credential,
                ⟨⟨extensions, rest, contents, parsed, rfl, hpresent, haccepted⟩, hleaf⟩, rfl, rfl⟩

/-- Where no credential was asked for, no entry may carry one. -/
theorem processEntries_unsolicited {isFirstEntry : Bool} (hoffered : ¬ hs.Offered)
    (h : processEntries M C allowed isFirstEntry hs pkey entries = .ok (hs', pkey')) :
    ∀ entry ∈ entries, ∀ contents, M.parseExtensions allowed entry.2 ≠ .ok (some contents) := by
  induction entries generalizing hs pkey isFirstEntry with
  | nil => exact fun _ hmem => absurd hmem List.not_mem_nil
  | cons entry entries ih =>
      obtain ⟨pkey₁, -, h⟩ := bind_eq_ok.mp h
      obtain ⟨present, hpresent, h⟩ := bind_eq_ok.mp h
      obtain ⟨hs₁, hcredential, h⟩ := bind_eq_ok.mp h
      obtain ⟨-, -, h⟩ := bind_eq_ok.mp h
      have hsent : hs.clientHelloExtensionWasSent extensionType = false := by
        simpa [Handshake.Offered] using hoffered
      cases present with
      | some contents =>
          rw [processCredential, hsent, Bool.not_false, Bool.or_true, if_pos rfl,
            parse_error_iff.mpr ⟨parseCredential_unsolicited contents hoffered, rfl⟩] at hcredential
          cases hcredential
      | none =>
          cases hcredential
          intro entry' hmem contents hpresent'
          rcases List.mem_cons.mp hmem with rfl | hmem
          · rw [hpresent] at hpresent'
            cases hpresent'
          · exact ih hoffered h entry' hmem contents hpresent'

/-- What a Certificate message leaves: no credential, or the leaf's, with the leaf and its key. -/
def Certified (M : Messages Key) (C : Crypto Key) (allowed : Bool) (hs : Handshake Key) (body : Bytes)
    (hs' : Handshake Key) : Prop :=
  hs'.peerDelegatedCredential = none
    ∨ ∃ leaf key credential, LeafCredential M C allowed hs (M.decode body).entries leaf key credential
      ∧ hs'.peerDelegatedCredential = some credential ∧ hs'.peerPubkey = some key
      ∧ ∀ session, hs'.newSession = some session → ∃ rest, session.certs = some (leaf :: rest)

theorem chainOf_cons (leaf extensions : Bytes) (rest : List (Bytes × Bytes)) :
    chainOf ((leaf, extensions) :: rest) = some (leaf :: rest.map Prod.fst) := rfl

theorem processCertificate_ok {ssl : Ssl} {body : Bytes} (hnone : hs.peerDelegatedCredential = none)
    (h : processCertificate M C ssl hs body = .ok hs') :
    Certified M C ssl.credentialAllowed hs body hs' := by
  obtain ⟨⟨hs₁, pkey⟩, hentries, h⟩ := bind_eq_ok.mp h
  obtain ⟨-, -, h⟩ := bind_eq_ok.mp h
  obtain ⟨-, -, h⟩ := bind_eq_ok.mp h
  cases h
  rcases processEntries_leaf hentries with rfl | ⟨leaf, key, credential, hleaf, rfl, rfl⟩
  · exact .inl hnone
  · obtain ⟨extensions, rest, contents, parsed, hcons, -⟩ := hleaf.entries
    refine .inr ⟨leaf, key, credential, hleaf, rfl, rfl, fun session hsession => ?_⟩
    obtain ⟨session', -, rfl⟩ := Option.map_eq_some_iff.mp hsession
    exact ⟨rest.map Prod.fst, by rw [hcons, chainOf_cons]⟩

/-- Everything a delegated credential is checked for: the leaf of the Certificate message carries it,
it was accepted, and CertificateVerify verified it and is signed with its key. -/
def Checked (M : Messages Key) (C : Crypto Key) (A : Asn1) (allowed : Bool) (hs : Handshake Key)
    (body verifyBody input : Bytes) (now : UInt64) : Prop :=
  ∃ leaf key credential algorithm signature,
    LeafCredential M C allowed hs (M.decode body).entries leaf key credential
      ∧ M.decodeVerify verifyBody = .ok (algorithm, signature)
      ∧ Verified C A now credential key leaf algorithm
      ∧ C.publicKeyVerify signature algorithm credential.pubkey input = true

theorem LeafCredential.validTime_lt {leaf : Bytes} {key : Key} {credential : Credential Key}
    (h : LeafCredential M C allowed hs entries leaf key credential) :
    credential.validTime < 2 ^ 32 := by
  obtain ⟨_, _, _, parsed, _, _, haccepted⟩ := h.entries
  rw [haccepted.credential]
  exact haccepted.reads.validTime

theorem checkSignature_ok {algorithm : Nat} {signature input : Bytes} {u : Unit}
    (h : checkSignature C hs algorithm signature input = .ok u) :
    ∃ key, hs.verifyKey = some key ∧ C.publicKeyVerify signature algorithm key input = true := by
  unfold checkSignature at h
  split at h
  · cases h
  · rename_i key hkey
    split at h
    · rename_i hverify
      exact ⟨key, hkey, hverify⟩
    · cases h

theorem processCertificateVerify_ok {now : UInt64} {ssl ssl' : Ssl} {body verifyBody : Bytes}
    {input : Option Bytes} {hs₀ : Handshake Key} (hcertified : Certified M C allowed hs₀ body hs)
    (hused : ssl.delegatedCredentialUsed = false)
    (h : processCertificateVerify M C A now ssl hs verifyBody input = .ok (ssl', hs'))
    (hused' : ssl'.delegatedCredentialUsed = true) :
    ∃ bytes, input = some bytes ∧ Checked M C A allowed hs₀ body verifyBody bytes now := by
  obtain ⟨⟨algorithm, signature⟩, hdecode, h⟩ := bind_eq_ok.mp h
  obtain ⟨hs₁, hcheck, h⟩ := bind_eq_ok.mp h
  cases input with
  | none => cases h
  | some bytes =>
      obtain ⟨u, hsignature, h⟩ := bind_eq_ok.mp h
      cases h
      rcases hcertified with hnone | ⟨leaf, key, credential, hleaf, hcredential, hpubkey, hcerts⟩
      · -- without a credential the check leaves the handshake as it is, and the flag too
        have hsame : hs' = hs := by
          rw [checkAlgorithm, hnone] at hcheck
          dsimp only at hcheck
          split at hcheck
          · cases hcheck
          · split at hcheck
            · cases hcheck
              rfl
            · cases hcheck
        rw [hsame, hnone] at hused'
        exact absurd (hused.symm.trans hused') Bool.false_ne_true
      · rw [checkAlgorithm, hcredential] at hcheck
        obtain ⟨credential', key', session, leaf', rest', session', hcredential', hpubkey', hsession,
          hcerts', hverify, rfl⟩ := Handshake.verify_ok hcheck
        obtain rfl := Option.some.inj (hcredential.symm.trans hcredential')
        obtain rfl := Option.some.inj (hpubkey.symm.trans hpubkey')
        obtain ⟨rest, hcerts⟩ := hcerts session hsession
        obtain ⟨rfl, -⟩ := List.cons.inj (Option.some.inj (hcerts.symm.trans hcerts'))
        obtain ⟨verifyKey, hkey, hverified⟩ := checkSignature_ok hsignature
        rw [Handshake.verifyKey, hcredential] at hkey
        obtain rfl := Option.some.inj hkey
        exact ⟨bytes, rfl, leaf, key, credential, algorithm, signature, hleaf, hdecode,
          verifyCredential_ok hleaf.validTime_lt hverify, hverified⟩

end Messages

/-! ### Runs -/

section Runs

variable {M : Messages Key} {C : Crypto Key} {A : Asn1} {c₀ c : Client Key}
  {received : List Received}

/-- Among the messages are a Certificate and a CertificateVerify with which a credential passed every
check. -/
def Authenticated (M : Messages Key) (C : Crypto Key) (A : Asn1) (c₀ : Client Key)
    (received : List Received) : Prop :=
  ∃ pre body mid verifyBody input now post,
    received = pre ++ .certificate body :: (mid ++ .certificateVerify verifyBody (some input) now :: post)
      ∧ Checked M C A c₀.ssl.credentialAllowed c₀.hs body verifyBody input now

/-- What is established in each phase. -/
def Client.Established (c : Client Key) (M : Messages Key) (C : Crypto Key) (A : Asn1)
    (c₀ : Client Key) (received : List Received) : Prop :=
  match c.phase with
  | .certificate => c.ssl = c₀.ssl ∧ c.hs = c₀.hs
  | .certificateVerify => c.ssl = c₀.ssl ∧ ∃ pre body mid,
      received = pre ++ .certificate body :: mid
        ∧ Certified M C c₀.ssl.credentialAllowed c₀.hs body c.hs
  | .authenticated | .failed _ => c.ssl.delegatedCredentialUsed = true → Authenticated M C A c₀ received

theorem Authenticated.snoc (h : Authenticated M C A c₀ received) (r : Received) :
    Authenticated M C A c₀ (received ++ [r]) := by
  obtain ⟨pre, body, mid, verifyBody, input, now, post, rfl, hchecked⟩ := h
  refine ⟨pre, body, mid, verifyBody, input, now, post ++ [r], ?_, hchecked⟩
  simp only [List.append_assoc, List.cons_append]

/-- The flag is set only when a credential passed every check. -/
theorem Client.Established.used (hinit : c₀.Initial) (h : c.Established M C A c₀ received)
    (hused : c.ssl.delegatedCredentialUsed = true) : Authenticated M C A c₀ received := by
  unfold Client.Established at h
  split at h
  · rw [h.1, hinit.notUsed] at hused
    cases hused
  · rw [h.1, hinit.notUsed] at hused
    cases hused
  · exact h hused
  · exact h hused

theorem Client.Established.fail (hinit : c₀.Initial) (h : c.Established M C A c₀ received)
    (r : Received) (failure : Failure) :
    (c.fail failure).Established M C A c₀ (received ++ [r]) :=
  fun hused => (h.used hinit hused).snoc r

/-- A message that leaves the client as it was. -/
theorem Client.Established.stay (h : c.Established M C A c₀ received) (r : Received) :
    c.Established M C A c₀ (received ++ [r]) := by
  unfold Client.Established at h ⊢
  split at h
  · exact h
  · obtain ⟨hssl, pre, body, mid, rfl, hcertified⟩ := h
    refine ⟨hssl, pre, body, mid ++ [r], ?_, hcertified⟩
    simp only [List.append_assoc, List.cons_append]
  · exact fun hused => (h hused).snoc r
  · exact fun hused => (h hused).snoc r

theorem Client.Established.certificate (hinit : c₀.Initial) {body : Bytes}
    (h : c.Established M C A c₀ received) :
    (c.step M C A (.certificate body)).Established M C A c₀ (received ++ [.certificate body]) := by
  cases hphase : c.phase with
  | certificate =>
      have hsame := h
      rw [Client.Established, hphase] at hsame
      obtain ⟨hssl, hhs⟩ := hsame
      cases hprocess : processCertificate M C c.ssl c.hs body with
      | error failure =>
          simp only [Client.step, hphase, hprocess]
          exact h.fail hinit _ failure
      | ok hs =>
          simp only [Client.step, hphase, hprocess]
          rw [hssl, hhs] at hprocess
          exact ⟨hssl, received, body, [], rfl, processCertificate_ok hinit.noCredential hprocess⟩
  | certificateVerify | authenticated =>
      simp only [Client.step, hphase]
      exact h.fail hinit _ _
  | failed failure =>
      simp only [Client.step, hphase]
      exact h.stay _

theorem Client.Established.certificateVerify (hinit : c₀.Initial) {body : Bytes}
    {input : Option Bytes} {now : UInt64} (h : c.Established M C A c₀ received) :
    (c.step M C A (.certificateVerify body input now)).Established M C A c₀
      (received ++ [.certificateVerify body input now]) := by
  cases hphase : c.phase with
  | certificateVerify =>
      have hcertified := h
      rw [Client.Established, hphase] at hcertified
      obtain ⟨hssl, pre, certificateBody, mid, rfl, hcertified⟩ := hcertified
      cases hprocess : processCertificateVerify M C A now c.ssl c.hs body input with
      | error failure =>
          simp only [Client.step, hphase, hprocess]
          exact h.fail hinit _ failure
      | ok result =>
          obtain ⟨ssl, hs⟩ := result
          simp only [Client.step, hphase, hprocess]
          intro hused
          obtain ⟨bytes, rfl, hchecked⟩ := processCertificateVerify_ok hcertified
            (hssl ▸ hinit.notUsed) hprocess hused
          refine ⟨pre, certificateBody, mid, body, bytes, now, [], ?_, hchecked⟩
          simp only [List.append_assoc, List.cons_append]
  | certificate | authenticated =>
      simp only [Client.step, hphase]
      exact h.fail hinit _ _
  | failed failure =>
      simp only [Client.step, hphase]
      exact h.stay _

theorem Client.Established.step (hinit : c₀.Initial) (h : c.Established M C A c₀ received)
    (r : Received) : (c.step M C A r).Established M C A c₀ (received ++ [r]) := by
  cases r with
  | certificate body => exact h.certificate hinit
  | certificateVerify body input now => exact h.certificateVerify hinit
  | other failure =>
      cases failure with
      | none => exact h.stay _
      | some failure =>
          cases hphase : c.phase with
          | certificate | certificateVerify | authenticated =>
              simp only [Client.step, hphase]
              exact h.fail hinit _ failure
          | failed _ =>
              simp only [Client.step, hphase]
              exact h.stay _

theorem Client.run_established (hinit : c₀.Initial) (received : List Received) :
    (c₀.run M C A received).Established M C A c₀ received := by
  induction received using List.reverseRecOn with
  | nil =>
      rw [Client.run, List.foldl_nil, Client.Established, hinit.phase]
      exact ⟨rfl, rfl⟩
  | append_singleton received r ih =>
      rw [Client.run, List.foldl_append]
      exact ih.step hinit r

/-- A failed handshake receives nothing more. -/
theorem Client.run_failed {failure : Failure} (h : c.phase = .failed failure)
    (received : List Received) : c.run M C A received = c := by
  induction received with
  | nil => rfl
  | cons r received ih =>
      have hstep : c.step M C A r = c := by
        cases r with
        | certificate | certificateVerify => simp only [Client.step, h]
        | other o => cases o <;> simp only [Client.step, h]
      rw [Client.run, List.foldl_cons, hstep]
      exact ih

end Runs

/-- **A delegated credential authenticates a server only if every check passed.**  Whatever messages a
client receives: if the flag is set in the end, one was a Certificate and a later one a
CertificateVerify with which a credential passed every check.  A Certificate that carries a credential
on any entry, where none was asked for, ends the handshake with the flag unset. -/
theorem used_checked {M : Messages Key} {C : Crypto Key} {A : Asn1} {c₀ : Client Key}
    (hinit : c₀.Initial) (received : List Received) :
    ((c₀.run M C A received).ssl.delegatedCredentialUsed = true →
      Authenticated M C A c₀ received)
      ∧ ∀ pre body post, received = pre ++ .certificate body :: post →
        (c₀.run M C A pre).phase = .certificate → ¬ c₀.hs.Offered →
        (∃ entry ∈ (M.decode body).entries, ∃ contents,
          M.parseExtensions c₀.ssl.credentialAllowed entry.2 = .ok (some contents)) →
        (∃ failure, (c₀.run M C A received).phase = .failed failure)
          ∧ (c₀.run M C A received).ssl.delegatedCredentialUsed = false := by
  refine ⟨fun hused => (Client.run_established hinit received).used hinit hused, ?_⟩
  rintro pre body post rfl hphase hoffered ⟨entry, hmem, contents, hpresent⟩
  have hpre := Client.run_established (M := M) (C := C) (A := A) hinit pre
  rw [Client.Established, hphase] at hpre
  obtain ⟨hssl, hhs⟩ := hpre
  cases hprocess : processCertificate M C (c₀.run M C A pre).ssl (c₀.run M C A pre).hs body with
  | ok hs =>
      rw [hssl, hhs] at hprocess
      obtain ⟨_, hentries, -⟩ := bind_eq_ok.mp hprocess
      exact absurd hpresent (processEntries_unsolicited hoffered hentries entry hmem contents)
  | error failure =>
      have hstep : (c₀.run M C A pre).step M C A (.certificate body)
          = (c₀.run M C A pre).fail failure := by
        simp only [Client.step, hphase, hprocess]
      have hrun : c₀.run M C A (pre ++ .certificate body :: post)
          = (c₀.run M C A pre).fail failure := by
        rw [Client.run, List.foldl_append, List.foldl_cons]
        exact (congrArg (fun c => c.run M C A post) hstep).trans (Client.run_failed rfl post)
      rw [hrun]
      exact ⟨⟨failure, rfl⟩, hssl ▸ hinit.notUsed⟩

/-! ### A run -/

/-- The identifier octet of a tag. -/
def Tag.octet : Tag → UInt8
  | .boolean => 0x01
  | .integer => 0x02
  | .bitString => 0x03
  | .octetString => 0x04
  | .object => 0x06
  | .sequence => 0x30
  | .utcTime => 0x17
  | .generalizedTime => 0x18
  | .context constructed number => (if constructed then 0xa0 else 0x80) + UInt8.ofNat number

/-- An element whose length is one byte. -/
def readShort (tag : Tag) : Bytes → Option (Bytes × Bytes)
  | octet :: len :: bs => if octet = tag.octet ∧ len < 128 then getBytes len.toNat bs else none
  | _ => none

/-- A reader of elements with short lengths, that knows the first second of 1970. -/
def Asn1.short : Asn1 where
  getAsn1 := readShort
  peekTag tag bs := bs.head? == some tag.octet
  getBool bs := (readShort .boolean bs).bind fun p =>
    if p.1 = [0] then some (false, p.2) else if p.1 = [0xff] then some (true, p.2) else none
  isValidBitString
    | [] => false
    | [unused] => unused == 0
    | unused :: bits => unused < 8 && (bits.getLastD 0).toNat % 2 ^ unused.toNat == 0
  bitStringHasBit bs bit := ((bs.drop 1)[bit / 8]?.getD 0).toNat.testBit (7 - bit % 8)
  utcTime bs := if bs = [55, 48, 48, 49, 48, 49, 48, 48, 48, 48, 48, 48, 90] then some 0 else none
  generalizedTime _ := none
  getAsn1_length := by
    intro tag bs x rest h
    unfold readShort at h
    split at h
    · split at h
      · obtain ⟨rfl, -⟩ := getBytes_eq_some.mp h
        simp only [List.length_cons, List.length_append]
        omega
      · cases h
    · cases h

/-- Keys are byte strings, and a signature is its key. -/
def Crypto.sample : Crypto Bytes where
  parseSubjectPublicKeyInfo := some
  pkeySupportsAlgorithm _ algorithm := algorithm == 0x0403
  isRsaAlgorithm algorithm := algorithm == 0x0804
  checkPeerSigalg algorithm _ := algorithm == 0x0403
  publicKeyVerify signature _ key _ := signature == key

/-- One entry without a request context, and the extension alone. -/
def Messages.sample : Messages Bytes where
  decode body :=
    match (getPrefixed 1 body).bind fun p => (getPrefixed 3 p.2).bind fun p =>
        (getPrefixed 3 p.1).bind fun q => (getPrefixed 2 q.2).map fun r => (q.1, r.1) with
    | some entry => ⟨[entry], none⟩
    | none => ⟨[], some ⟨decodeError, none⟩⟩
  leafKey _ := .ok [9]
  parseExtensions allowed extensions :=
    match (getUint 2 extensions).bind fun p => (getPrefixed 2 p.2).map fun q => (p.1, q.1) with
    | some (34, contents) =>
        if allowed then .ok (some contents) else .error ⟨illegalParameter, none⟩
    | _ => .ok none
  keepEntry _ _ _ := .ok ()
  keepChain _ := .ok ()
  decodeVerify body :=
    match (getUint 2 body).bind fun p => (getPrefixed 2 p.2).map fun q => (p.1, q.1) with
    | some verify => .ok verify
    | none => .error ⟨decodeError, none⟩

/-- A certificate from 1970 with both extensions. -/
def sampleLeaf : Bytes :=
  let time : Bytes := [0x17, 13, 55, 48, 48, 49, 48, 49, 48, 48, 48, 48, 48, 48, 90]
  let extensions : Bytes := [0x30, 15, 0x06, 9] ++ kDelegationUsageOid ++ [0x04, 2] ++ kNull
    ++ [0x30, 11, 0x06, 3] ++ kKeyUsageOid ++ [0x04, 4, 0x03, 2, 7, 0x80]
  [0x30, 79, 0x30, 77, 0x02, 1, 1, 0x30, 0, 0x30, 0, 0x30, 30] ++ time ++ time
    ++ [0x30, 0, 0x30, 0, 0xa3, 32, 0x30, 30] ++ extensions

def sampleCertificate : Bytes :=
  let credential : Bytes := putSigned 86400 0x0403 [5] ++ (putUint 2 0x0403 ++ putPrefixed 2 [9])
  putPrefixed 1 [] ++ putPrefixed 3
    (putPrefixed 3 sampleLeaf ++ putPrefixed 2 (putUint 2 extensionType ++ putPrefixed 2 credential))

/-- A client that offered the extension, as the first it knows. -/
def sampleClient : Client Bytes where
  ssl := ⟨true, false⟩
  hs :=
    { extensionIndex := fun value => if value = extensionType then some 0 else none
      sent := 1
      delegatedCredentials := [0x0403]
      maxVersion := tls13Version
      acceptsServerCertificateAuth := true
      peerPubkey := none
      newSession := some ⟨none, 3600, 7200, 7200⟩
      peerDelegatedCredential := none }
  phase := .certificate

/-- A credential for a day, an hour later. -/
def sampleReceived : List Received :=
  [.other none, .certificate sampleCertificate,
    .certificateVerify (putUint 2 0x0403 ++ putPrefixed 2 [5]) (some [1]) 3600, .other none]

theorem used_checked_day : Authenticated .sample .sample .short sampleClient sampleReceived := by
  have hall := used_checked (M := .sample) (C := .sample) (A := .short)
    (⟨rfl, rfl, rfl⟩ : sampleClient.Initial) sampleReceived
  exact hall.1 (by decide +kernel)

end Btls.Delegated
