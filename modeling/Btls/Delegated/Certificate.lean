import Btls.Support.Bytes

/-!
# Delegated — Certificate

`parse_delegation_certificate`: what RFC 9345, section 4.2 requires of the certificate that
delegates.  `Asn1` is what the code calls to take DER apart, and what it returns is not looked into
here.

The loop over the extensions is followed by the list it reads (`Extensions`):
`scanExtensions_eq_some` says that it does what its body does over that list.  What it asks of the
list does not depend on the order (`foldlM_checkExtension`), since each of the two extensions is
required by itself: that one is there, that it is the only one, and that it says what it must
(`Once`).  `Delegates` puts this together with the fields that the loop is reached through.
-/

namespace Btls.Delegated

open Btls.Support

/-! ### The code -/

inductive Tag where
  | boolean
  | integer
  | bitString
  | octetString
  | object
  | sequence
  | utcTime
  | generalizedTime
  | context (constructed : Bool) (number : Nat)
  deriving DecidableEq

/-- `CBS_get_asn1`, `CBS_peek_asn1_tag`, `CBS_get_asn1_bool`, `CBS_is_valid_asn1_bitstring`,
`CBS_asn1_bitstring_has_bit`, and the two parsers of times with `OPENSSL_tm_to_posix`.  A reader
returns what it read and what is left; an element is not empty. -/
structure Asn1 where
  getAsn1 : Tag → Bytes → Option (Bytes × Bytes)
  peekTag : Tag → Bytes → Bool
  getBool : Bytes → Option (Bool × Bytes)
  isValidBitString : Bytes → Bool
  bitStringHasBit : Bytes → Nat → Bool
  utcTime : Bytes → Option Int64
  generalizedTime : Bytes → Option Int64
  getAsn1_length : ∀ tag bs x rest, getAsn1 tag bs = some (x, rest) → rest.length < bs.length

variable (A : Asn1)

/-- `CBS_get_optional_asn1`. -/
def Asn1.getOptional (tag : Tag) (bs : Bytes) : Option (Option Bytes × Bytes) :=
  if A.peekTag tag bs then (A.getAsn1 tag bs).map fun p => (some p.1, p.2) else some (none, bs)

def parseCertificateTime (validity : Bytes) : Option (Int64 × Bytes) :=
  if A.peekTag .utcTime validity then
    (A.getAsn1 .utcTime validity).bind fun p => (A.utcTime p.1).map fun t => (t, p.2)
  else if A.peekTag .generalizedTime validity then
    (A.getAsn1 .generalizedTime validity).bind fun p => (A.generalizedTime p.1).map fun t => (t, p.2)
  else none

/-- `notBefore`, and the extensions. -/
def delegationFields (certificate : Bytes) : Option (Int64 × Bytes) := do
  let (topLevel, input) ← A.getAsn1 .sequence certificate
  guard input.isEmpty
  let (tbs, _) ← A.getAsn1 .sequence topLevel
  let (_, tbs) ← A.getOptional (.context true 0) tbs
  let (_, tbs) ← A.getAsn1 .integer tbs
  let (_, tbs) ← A.getAsn1 .sequence tbs
  let (_, tbs) ← A.getAsn1 .sequence tbs
  let (validity, tbs) ← A.getAsn1 .sequence tbs
  let (notBefore, validity) ← parseCertificateTime A validity
  let (_, validity) ← parseCertificateTime A validity
  guard validity.isEmpty
  let (_, tbs) ← A.getAsn1 .sequence tbs
  let (_, tbs) ← A.getAsn1 .sequence tbs
  let (_, tbs) ← A.getOptional (.context false 1) tbs
  let (_, tbs) ← A.getOptional (.context false 2) tbs
  let (outerExtensions, tbs) ← A.getOptional (.context true 3) tbs
  guard tbs.isEmpty
  let outerExtensions ← outerExtensions
  let (extensions, outerExtensions) ← A.getAsn1 .sequence outerExtensions
  guard outerExtensions.isEmpty
  return (notBefore, extensions)

structure Extension where
  oid : Bytes
  critical : Bool
  contents : Bytes
  deriving DecidableEq

def readCritical (extension : Bytes) : Option (Bool × Bytes) :=
  if A.peekTag .boolean extension then A.getBool extension else some (false, extension)

def readExtension (extensions : Bytes) : Option (Extension × Bytes) := do
  let (extension, extensions) ← A.getAsn1 .sequence extensions
  let (oid, extension) ← A.getAsn1 .object extension
  let (critical, extension) ← readCritical A extension
  let (contents, extension) ← A.getAsn1 .octetString extension
  guard extension.isEmpty
  return (⟨oid, critical, contents⟩, extensions)

def kDelegationUsageOid : Bytes := [0x2b, 0x06, 0x01, 0x04, 0x01, 0x82, 0xda, 0x4b, 0x2c]

def kKeyUsageOid : Bytes := [0x55, 0x1d, 0x0f]

def kNull : Bytes := [0x05, 0x00]

/-- `key_usage_digital_signature`. -/
def keyUsageDigitalSignature : Nat := 0

/-- Which of the two extensions have been seen. -/
structure Usage where
  hasDelegationUsage : Bool
  hasKeyUsage : Bool

def isDelegationUsage (extension : Extension) : Bool := extension.oid == kDelegationUsageOid

def isKeyUsage (extension : Extension) : Bool := extension.oid == kKeyUsageOid

/-- A DelegationUsage extension is not critical, and its value is NULL. -/
def delegates (extension : Extension) : Bool := !extension.critical && extension.contents == kNull

/-- A KeyUsage extension is a valid bit string that asserts digitalSignature. -/
def signs (extension : Extension) : Bool :=
  match A.getAsn1 .bitString extension.contents with
  | none => false
  | some (bitString, contents) =>
      contents.isEmpty && A.isValidBitString bitString
        && A.bitStringHasBit bitString keyUsageDigitalSignature

/-- The loop's body, for an extension that was read. -/
def checkExtension (usage : Usage) (extension : Extension) : Option Usage :=
  if isDelegationUsage extension then
    if usage.hasDelegationUsage || !delegates extension then none
    else some { usage with hasDelegationUsage := true }
  else if isKeyUsage extension then
    if usage.hasKeyUsage || !signs A extension then none
    else some { usage with hasKeyUsage := true }
  else some usage

/-- The loop.  Each round reads an extension, so `fuel` need not exceed the length. -/
def scanExtensions : (fuel : Nat) → Usage → (extensions : Bytes) → Option Usage
  | 0, usage, extensions => if extensions.isEmpty then some usage else none
  | fuel + 1, usage, extensions =>
      if extensions.isEmpty then some usage
      else do
        let (extension, extensions) ← readExtension A extensions
        let usage ← checkExtension A usage extension
        scanExtensions fuel usage extensions

def parseDelegationCertificate (certificate : Bytes) : Option Int64 := do
  let (notBefore, extensions) ← delegationFields A certificate
  let usage ← scanExtensions A extensions.length ⟨false, false⟩ extensions
  guard (usage.hasDelegationUsage && usage.hasKeyUsage)
  return notBefore

/-! ### The extensions it reads -/

/-- `bs` is the extensions `es`, one after another. -/
inductive Extensions : Bytes → List Extension → Prop where
  | nil : Extensions [] []
  | cons {bs rest : Bytes} {e : Extension} {es : List Extension} (hne : bs ≠ [])
      (h : readExtension A bs = some (e, rest)) (t : Extensions rest es) : Extensions bs (e :: es)

theorem readExtension_length {A : Asn1} {bs rest : Bytes} {e : Extension}
    (h : readExtension A bs = some (e, rest)) : rest.length < bs.length := by
  obtain ⟨⟨x, rest'⟩, h₁, h⟩ := Option.bind_eq_some_iff.mp h
  obtain ⟨_, _, h⟩ := Option.bind_eq_some_iff.mp h
  obtain ⟨_, _, h⟩ := Option.bind_eq_some_iff.mp h
  obtain ⟨_, _, h⟩ := Option.bind_eq_some_iff.mp h
  obtain ⟨_, _, h⟩ := Option.bind_eq_some_iff.mp h
  cases h
  exact A.getAsn1_length _ _ _ _ h₁

/-- The loop does what its body does over the extensions. -/
theorem scanExtensions_eq_some {A : Asn1} {fuel : Nat} {bs : Bytes} {usage usage' : Usage}
    (hfuel : bs.length ≤ fuel) :
    scanExtensions A fuel usage bs = some usage'
      ↔ ∃ es, Extensions A bs es ∧ es.foldlM (checkExtension A) usage = some usage' := by
  -- On the fuel; an extension takes at least a byte, so the length of the input is enough.
  induction fuel generalizing usage bs with
  | zero =>
      obtain rfl := List.length_eq_zero_iff.mp (Nat.le_zero.mp hfuel)
      constructor
      · intro h
        exact ⟨[], .nil, h⟩
      · rintro ⟨es, hes, h⟩
        cases hes with
        | nil => exact h
        | cons hne => exact absurd rfl hne
  | succ fuel ih =>
      unfold scanExtensions
      by_cases hempty : bs = []
      · subst hempty
        constructor
        · intro h
          exact ⟨[], .nil, h⟩
        · rintro ⟨es, hes, h⟩
          cases hes with
          | nil => exact h
          | cons hne => exact absurd rfl hne
      · rw [if_neg (by rwa [List.isEmpty_iff])]
        constructor
        · intro h
          obtain ⟨⟨e, rest⟩, hread, h⟩ := Option.bind_eq_some_iff.mp h
          obtain ⟨usage₁, hcheck, h⟩ := Option.bind_eq_some_iff.mp h
          have hlt := readExtension_length hread
          obtain ⟨es, hes, hfold⟩ := (ih (by omega)).mp h
          refine ⟨e :: es, .cons hempty hread hes, ?_⟩
          rw [List.foldlM_cons, hcheck]
          exact hfold
        · rintro ⟨es, hes, h⟩
          cases hes with
          | nil => exact absurd rfl hempty
          | cons hne hread hrest =>
              rw [List.foldlM_cons] at h
              obtain ⟨usage₁, hcheck, h⟩ := Option.bind_eq_some_iff.mp h
              have hlt := readExtension_length hread
              rw [hread, Option.bind_eq_bind, Option.bind_some]
              dsimp only
              rw [hcheck, Option.bind_eq_bind, Option.bind_some]
              exact (ih (by omega)).mpr ⟨_, hrest, h⟩

/-! ### What it asks of them -/

/-- At most one of `es` is a `p`, none if one was seen before, and it is `ok`. -/
def Once (p ok : Extension → Bool) (es : List Extension) (seen seen' : Bool) : Prop :=
  es.filter p = [] ∧ seen' = seen
    ∨ ∃ e, es.filter p = [e] ∧ ok e = true ∧ seen = false ∧ seen' = true

theorem isKeyUsage_of_delegation {e : Extension} (h : isDelegationUsage e = true) :
    isKeyUsage e = false := by
  rw [isDelegationUsage, beq_iff_eq] at h
  rw [isKeyUsage, h]
  decide

/-- An element that is no `p`. -/
theorem once_cons_neg {p ok : Extension → Bool} {e : Extension} {es : List Extension}
    {seen seen' : Bool} (h : p e = false) : Once p ok (e :: es) seen seen' ↔ Once p ok es seen seen' := by
  unfold Once
  rw [List.filter_cons_of_neg (by rw [h]; exact Bool.false_ne_true)]

/-- An element that is. -/
theorem once_cons_pos {p ok : Extension → Bool} {e : Extension} {es : List Extension}
    {seen seen' : Bool} (h : p e = true) :
    Once p ok (e :: es) seen seen' ↔ (seen = false ∧ ok e = true) ∧ Once p ok es true seen' := by
  unfold Once
  rw [List.filter_cons_of_pos h]
  constructor
  · rintro (⟨hnil, -⟩ | ⟨e', he', hok, hseen, rfl⟩)
    · cases hnil
    · obtain ⟨rfl, hrest⟩ := List.cons.inj he'
      exact ⟨⟨hseen, hok⟩, .inl ⟨hrest, rfl⟩⟩
  · rintro ⟨⟨rfl, hok⟩, ⟨hrest, rfl⟩ | ⟨_, _, _, hseen, _⟩⟩
    · exact .inr ⟨e, by rw [hrest], hok, rfl, rfl⟩
    · cases hseen

theorem or_not_of_not {seen ok : Bool} (h : ¬ (seen = false ∧ ok = true)) : (seen || !ok) = true := by
  cases seen <;> cases ok <;> simp_all

/-- Over a list, each of the two is required by itself. -/
theorem foldlM_checkExtension {A : Asn1} {es : List Extension} {usage usage' : Usage} :
    es.foldlM (checkExtension A) usage = some usage'
      ↔ Once isDelegationUsage delegates es usage.hasDelegationUsage usage'.hasDelegationUsage
        ∧ Once isKeyUsage (signs A) es usage.hasKeyUsage usage'.hasKeyUsage := by
  induction es generalizing usage with
  | nil =>
      rw [List.foldlM_nil]
      constructor
      · intro h
        obtain rfl := Option.some.inj h
        exact ⟨.inl ⟨rfl, rfl⟩, .inl ⟨rfl, rfl⟩⟩
      · rintro ⟨⟨-, hd⟩ | ⟨_, hnil, -⟩, ⟨-, hk⟩ | ⟨_, hnil', -⟩⟩
        · obtain ⟨d, k⟩ := usage
          obtain ⟨rfl, rfl⟩ : _ ∧ _ := ⟨hd, hk⟩
          rfl
        · cases hnil'
        · cases hnil
        · cases hnil
  | cons e es ih =>
      rw [List.foldlM_cons]
      by_cases hd : isDelegationUsage e = true
      · have hk := isKeyUsage_of_delegation hd
        rw [once_cons_pos hd, once_cons_neg hk, checkExtension, if_pos hd]
        by_cases hok : usage.hasDelegationUsage = false ∧ delegates e = true
        · rw [if_neg (by simp [hok]), Option.bind_eq_bind, Option.bind_some, ih]
          exact ⟨fun h => ⟨⟨hok, h.1⟩, h.2⟩, fun h => ⟨h.1.2, h.2⟩⟩
        · rw [if_pos (or_not_of_not hok)]
          exact ⟨fun h => absurd h (by simp), fun h => absurd h.1.1 hok⟩
      · have hd' : isDelegationUsage e = false := Bool.eq_false_iff.mpr hd
        rw [once_cons_neg hd', checkExtension, if_neg hd]
        by_cases hk : isKeyUsage e = true
        · rw [once_cons_pos hk, if_pos hk]
          by_cases hok : usage.hasKeyUsage = false ∧ signs A e = true
          · rw [if_neg (by simp [hok]), Option.bind_eq_bind, Option.bind_some, ih]
            exact ⟨fun h => ⟨h.1, hok, h.2⟩, fun h => ⟨h.1, h.2.2⟩⟩
          · rw [if_pos (or_not_of_not hok)]
            exact ⟨fun h => absurd h (by simp), fun h => absurd h.2.1 hok⟩
        · rw [once_cons_neg (Bool.eq_false_iff.mpr hk), if_neg hk, Option.bind_eq_bind,
            Option.bind_some, ih]

/-- The certificate delegates: it has one DelegationUsage extension and one KeyUsage extension, and
they say so. -/
structure Delegates (A : Asn1) (certificate : Bytes) (notBefore : Int64) (es : List Extension) :
    Prop where
  fields : ∃ extensions, delegationFields A certificate = some (notBefore, extensions)
    ∧ Extensions A extensions es
  delegationUsage : ∃ e, es.filter isDelegationUsage = [e] ∧ delegates e = true
  keyUsage : ∃ e, es.filter isKeyUsage = [e] ∧ signs A e = true

theorem once_iff {p ok : Extension → Bool} {es : List Extension} :
    Once p ok es false true ↔ ∃ e, es.filter p = [e] ∧ ok e = true := by
  simp [Once]

theorem parseDelegationCertificate_eq_some {A : Asn1} {certificate : Bytes} {notBefore : Int64} :
    parseDelegationCertificate A certificate = some notBefore
      ↔ ∃ es, Delegates A certificate notBefore es := by
  unfold parseDelegationCertificate
  constructor
  · intro h
    obtain ⟨⟨t, extensions⟩, hfields, h⟩ := Option.bind_eq_some_iff.mp h
    obtain ⟨⟨d, k⟩, hscan, h⟩ := Option.bind_eq_some_iff.mp h
    obtain ⟨es, hes, hfold⟩ := (scanExtensions_eq_some (Nat.le_refl _)).mp hscan
    obtain ⟨hd, hk⟩ := foldlM_checkExtension.mp hfold
    obtain ⟨_, hguard, h⟩ := Option.bind_eq_some_iff.mp h
    cases h
    cases d <;> cases k <;> cases hguard
    exact ⟨es, ⟨extensions, hfields, hes⟩, once_iff.mp hd, once_iff.mp hk⟩
  · rintro ⟨es, ⟨extensions, hfields, hes⟩, hd, hk⟩
    have hscan : scanExtensions A extensions.length ⟨false, false⟩ extensions = some ⟨true, true⟩ :=
      (scanExtensions_eq_some (Nat.le_refl _)).mpr
        ⟨es, hes, foldlM_checkExtension.mpr ⟨once_iff.mpr hd, once_iff.mpr hk⟩⟩
    rw [hfields, Option.bind_eq_bind, Option.bind_some]
    dsimp only
    rw [hscan]
    rfl

end Btls.Delegated
