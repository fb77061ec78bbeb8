import Btls.Hello.Finish
import Btls.Support.Except

/-!
# Hello — Nss

`EchGreaseSizeInfo::nss_payload_length`: the payload length that NSS's GREASE has, computed from
what a policy is told.  It is the encoded inner ClientHello (`Inner.encode`) with its name padded,
rounded up (`nss_hides_name`), and it depends on nothing of the host name but that there is one.
What two ClientHellos that differ only in their host names tell the policy differs only there
(`sizeInfo_differ`).

`Inner.encode` is not a translation: it writes out what an `EncodedClientHelloInner` contains, the
extensions that are compressed to a list of their types and the others in full, so that a length can
be compared with it (`nssUnrounded_eq`).  `nssPayloadLength` is the code's, with its subtractions
checked and its cast to `u8`; `RoundedUp` says what rounding is for, and `nssPayloadLength_ok` that
the code does it.
-/

namespace Btls.Hello

open Btls.Support

/-! ### The code -/

def tlsExtensionHeaderLen : Nat := 4

inductive EchGreaseRounding where
  | nssPre3127
  | nss3127
  deriving DecidableEq

def kTypeSupportedVersions : Nat := 43

/-- `ExtensionType::is_grease`. -/
def isGrease (type : Nat) : Bool :=
  decide (type &&& 0x0f0f = 0x0a0a) && decide (type >>> 8 = type &&& 0xff)

/-- The extensions that are not compressed: two that the inner ClientHello has in full, those of TLS 1.2,
and `ticket_early_data_info`. -/
def notCompressed : List Nat := [kTypeServerName, kTypeSupportedVersions, 11, 23, 35, 46, 0xff01]

/-- The locals of the loop over the extensions. -/
structure Tally where
  compressed : Nat
  greaseVersion : Bool

def Tally.add (tally : Tally) (ext : Nat × Nat) : Tally where
  compressed := if ext.1 ∈ notCompressed then tally.compressed else tally.compressed + 1
  greaseVersion := if isGrease ext.1 then true else tally.greaseVersion

/-- `server_name_length`. -/
def SizeInfo.serverNameLength? (info : SizeInfo) : Option Nat :=
  if info.hasServerName then some info.serverNameLength else none

/-- `max_name_len.saturating_sub(host_len as u8)`. -/
def namePadding (maxNameLen : UInt8) (hostLen : Nat) : Nat :=
  maxNameLen.toNat - (UInt8.ofNat hostLen).toNat

/-- The length before it is rounded. -/
def SizeInfo.nssUnrounded (info : SizeInfo) (maxNameLen : UInt8) (hostLen : Nat) : Nat :=
  let len := 2 + 32 + 1 + 2 + info.cipherSuites.length + 1 + 1 + 2
  let len := len + (tlsExtensionHeaderLen + 1)
  let len := match info.serverNameLength? with
    | some sni => len + (tlsExtensionHeaderLen + 5 + sni)
    | none => len
  let tally := info.extensions.foldl Tally.add ⟨0, false⟩
  let len := len + (tlsExtensionHeaderLen + 3 + if tally.greaseVersion then 2 else 0)
  let len := if info.pskExtensionLength ≠ 0 then len + (tlsExtensionHeaderLen + info.pskExtensionLength)
    else len
  let len := if tally.compressed ≠ 0 then len + (tlsExtensionHeaderLen + 1 + 2 * tally.compressed)
    else len
  len + namePadding maxNameLen hostLen

/-- `EchGreaseSizeInfo::nss_payload_length`, with its subtractions checked. -/
def SizeInfo.nssPayloadLength (info : SizeInfo) (maxNameLen : UInt8) (hostLen : Nat)
    (rounding : EchGreaseRounding) : Except TlsextError Nat := do
  let len := info.nssUnrounded maxNameLen hostLen
  let remainder ← (match rounding with
    | .nssPre3127 => .ok (len % 32)
    | .nss3127 => (sub len 1).map (· % 32))
  let rounded ← sub 31 remainder
  return len + rounded + info.aeadOverhead

/-! ### The encoded inner ClientHello -/

def putExtension (type : Nat) (body : Bytes) : Bytes := putUint 2 type ++ putPrefixed 2 body

/-- What an `EncodedClientHelloInner` contains beside what the policy is told. -/
structure Inner (info : SizeInfo) where
  random : Bytes
  serverName : Bytes
  greaseVersion : Nat
  psk : Bytes
  length_random : random.length = 32
  length_serverName : serverName.length = info.serverNameLength
  length_psk : psk.length = info.pskExtensionLength

variable {info : SizeInfo}

def Inner.zeros (info : SizeInfo) : Inner info where
  random := List.replicate 32 0
  serverName := List.replicate info.serverNameLength 0
  greaseVersion := 0x0a0a
  psk := List.replicate info.pskExtensionLength 0
  length_random := List.length_replicate
  length_serverName := List.length_replicate
  length_psk := List.length_replicate

namespace Inner

variable (inner : Inner info)

def serverNameExtension : Bytes :=
  if info.hasServerName then
    putExtension kTypeServerName
      (putPrefixed 2 (putUint 1 kNametypeHostName ++ putPrefixed 2 inner.serverName))
  else []

def supportedVersions : Bytes :=
  putExtension kTypeSupportedVersions (putPrefixed 1
    ((if info.extensions.any (isGrease ·.1) then putUint 2 inner.greaseVersion else [])
      ++ putUint 2 kTls13Version))

/-- The types of the outer extensions that the inner ClientHello refers to. -/
def compressed (info : SizeInfo) : List Nat := (info.extensions.map (·.1)).filter (· ∉ notCompressed)

/-- `ech_outer_extensions`. -/
def outerExtensions (info : SizeInfo) : Bytes :=
  if (compressed info).isEmpty then []
  else putExtension 0xfd00 (putPrefixed 1 ((compressed info).flatMap (putUint 2)))

def preSharedKey : Bytes :=
  if info.pskExtensionLength = 0 then [] else putExtension kTypePreSharedKey inner.psk

def encode : Bytes :=
  putUint 2 0x0303 ++ inner.random ++ putPrefixed 1 [] ++ putPrefixed 2 info.cipherSuites
    ++ putPrefixed 1 [0]
    ++ putPrefixed 2 (putExtension kTypeEncryptedClientHello [1] ++ inner.serverNameExtension
      ++ inner.supportedVersions ++ outerExtensions info ++ inner.preSharedKey)

end Inner

/-! ### The length is that of the encoding -/

theorem foldl_tally (exts : List (Nat × Nat)) (tally : Tally) :
    exts.foldl Tally.add tally
      = ⟨tally.compressed + ((exts.map (·.1)).filter (· ∉ notCompressed)).length,
        tally.greaseVersion || exts.any (isGrease ·.1)⟩ := by
  induction exts generalizing tally with
  | nil => simp
  | cons ext exts ih =>
      rw [List.foldl_cons, ih, Tally.add, List.any_cons, List.map_cons]
      have hgrease : ((if isGrease ext.1 then true else tally.greaseVersion)
          || exts.any (isGrease ·.1))
          = (tally.greaseVersion || (isGrease ext.1 || exts.any (isGrease ·.1))) := by
        cases isGrease ext.1 with
        | false => simp
        | true => simp
      by_cases hmem : ext.1 ∈ notCompressed
      · rw [List.filter_cons_of_neg (by simpa using hmem)]
        simp only [if_pos hmem, hgrease]
      · rw [List.filter_cons_of_pos (by simpa using hmem), List.length_cons]
        simp only [if_neg hmem, hgrease, Nat.add_assoc, Nat.add_comm 1]

theorem add_if (p : Prop) [Decidable p] (len more : Nat) :
    (if p then len + more else len) = len + if p then more else 0 := by
  split
  · rfl
  · rfl

theorem length_putExtension (type : Nat) (body : Bytes) :
    (putExtension type body).length = 4 + body.length := by
  rw [putExtension, List.length_append, length_putUint, length_putPrefixed]
  omega

theorem length_flatMap_putUint (types : List Nat) :
    (types.flatMap (putUint 2)).length = 2 * types.length := by
  induction types with
  | nil => rfl
  | cons type types ih =>
      rw [List.flatMap_cons, List.length_append, length_putUint, ih, List.length_cons]
      omega

namespace Inner

variable (inner : Inner info)

theorem length_serverNameExtension : inner.serverNameExtension.length =
    match info.serverNameLength? with
    | some sni => 4 + 5 + sni
    | none => 0 := by
  unfold serverNameExtension SizeInfo.serverNameLength?
  split
  · simp only [length_putExtension, length_putPrefixed, List.length_append, length_putUint,
      inner.length_serverName]
    omega
  · rfl

theorem length_supportedVersions : inner.supportedVersions.length =
    4 + 3 + if info.extensions.any (isGrease ·.1) then 2 else 0 := by
  unfold supportedVersions
  rw [length_putExtension, length_putPrefixed, List.length_append, length_putUint]
  split
  · rw [length_putUint]
  · rfl

theorem length_outerExtensions (info : SizeInfo) : (outerExtensions info).length =
    if (compressed info).length ≠ 0 then 4 + 1 + 2 * (compressed info).length else 0 := by
  unfold outerExtensions
  cases compressed info with
  | nil => rfl
  | cons type types =>
      rw [if_neg (by simp), if_pos (by simp), length_putExtension, length_putPrefixed,
        length_flatMap_putUint]
      omega

theorem length_preSharedKey : inner.preSharedKey.length =
    if info.pskExtensionLength ≠ 0 then 4 + info.pskExtensionLength else 0 := by
  unfold preSharedKey
  by_cases h : info.pskExtensionLength = 0
  · rw [if_pos h, if_neg (not_not.mpr h)]
    rfl
  · rw [if_neg h, if_pos h, length_putExtension, inner.length_psk]

/-- **The unrounded length** is that of the encoding, with the name padded. -/
theorem nssUnrounded_eq (maxNameLen : UInt8) (hostLen : Nat) :
    info.nssUnrounded maxNameLen hostLen = inner.encode.length + namePadding maxNameLen hostLen := by
  have hname := inner.length_serverNameExtension
  have hversions := inner.length_supportedVersions
  have houter := length_outerExtensions info
  have hpsk := inner.length_preSharedKey
  unfold SizeInfo.nssUnrounded encode
  rw [foldl_tally]
  simp only [add_if, Nat.zero_add, Bool.false_or, tlsExtensionHeaderLen]
  simp only [List.length_append, length_putUint, length_putPrefixed, inner.length_random,
    length_putExtension, List.length_nil, List.length_singleton]
  rw [← hpsk, ← hversions]
  unfold compressed at houter
  rw [← houter]
  cases hsni : info.serverNameLength? with
  | none =>
      rw [hsni] at hname
      dsimp only at hname ⊢
      omega
  | some sni =>
      rw [hsni] at hname
      dsimp only at hname ⊢
      omega

end Inner

/-! ### Rounding -/

/-- What the padded length is modulo 32. -/
def EchGreaseRounding.residue : EchGreaseRounding → Nat
  | .nssPre3127 => 31
  | .nss3127 => 0

/-- `m` is the least number of the rounding's residue that is at least `n`. -/
structure RoundedUp (rounding : EchGreaseRounding) (n m : Nat) : Prop where
  residue : m % 32 = rounding.residue
  le : n ≤ m
  least : ∀ k, k % 32 = rounding.residue → n ≤ k → m ≤ k

theorem nssUnrounded_pos (info : SizeInfo) (maxNameLen : UInt8) (hostLen : Nat) :
    1 ≤ info.nssUnrounded maxNameLen hostLen := by
  rw [(Inner.zeros info).nssUnrounded_eq]
  unfold Inner.encode
  simp only [List.length_append, length_putUint]
  omega

/-- **The code rounds up**, and no subtraction underflows. -/
theorem nssPayloadLength_ok (info : SizeInfo) (maxNameLen : UInt8) (hostLen : Nat)
    (rounding : EchGreaseRounding) :
    ∃ len, info.nssPayloadLength maxNameLen hostLen rounding = .ok (len + info.aeadOverhead)
      ∧ RoundedUp rounding (info.nssUnrounded maxNameLen hostLen) len := by
  have hpos := nssUnrounded_pos info maxNameLen hostLen
  unfold SizeInfo.nssPayloadLength
  generalize info.nssUnrounded maxNameLen hostLen = n at hpos ⊢
  cases rounding with
  | nssPre3127 =>
      refine ⟨n + (31 - n % 32), ?_, ?_, Nat.le_add_right _ _, ?_⟩
      · show (sub 31 (n % 32) >>= _) = _
        rw [sub_of_le (by omega)]
        rfl
      · show _ = 31
        omega
      · intro k (hk : k % 32 = 31) hle
        omega
  | nss3127 =>
      refine ⟨n + (31 - (n - 1) % 32), ?_, ?_, Nat.le_add_right _ _, ?_⟩
      · show ((sub n 1).map (· % 32) >>= fun remainder => sub 31 remainder >>= _) = _
        rw [sub_of_le hpos]
        show (sub 31 ((n - 1) % 32) >>= _) = _
        rw [sub_of_le (by omega)]
        rfl
      · show _ = 0
        omega
      · intro k (hk : k % 32 = 0) hle
        omega

/-! ### Two host names -/

/-- Two views of ClientHellos that differ in their host names: in its length, in that of `server_name`,
and in the totals that count it. -/
structure DifferInName (v w : SizeInfo) : Prop where
  preambleLength : v.preambleLength = w.preambleLength
  cipherSuites : v.cipherSuites = w.cipherSuites
  extensions : List.Forall₂ (fun x y => x.1 = y.1 ∧ (x.1 ≠ kTypeServerName → x.2 = y.2))
    v.extensions w.extensions
  hasServerName : v.hasServerName = w.hasServerName
  pskExtensionLength : v.pskExtensionLength = w.pskExtensionLength
  isDtls : v.isDtls = w.isDtls
  isQuic : v.isQuic = w.isQuic
  defaultAeadId : v.defaultAeadId = w.defaultAeadId
  aeadOverhead : v.aeadOverhead = w.aeadOverhead

variable {v w : SizeInfo} {maxNameLen : UInt8} {m n : Nat}

theorem map_types {exts exts' : List (Nat × Nat)} {R : Nat × Nat → Nat × Nat → Prop}
    (h : exts.Forall₂ R exts') (hR : ∀ x y, R x y → x.1 = y.1) :
    exts.map (·.1) = exts'.map (·.1) := by
  induction h with
  | nil => rfl
  | cons hxy hrest ih => exact congrArg₂ List.cons (hR _ _ hxy) ih

/-- The loop reads the types only. -/
theorem foldl_tally_types {exts exts' : List (Nat × Nat)} (h : exts.map (·.1) = exts'.map (·.1)) :
    exts.foldl Tally.add ⟨0, false⟩ = exts'.foldl Tally.add ⟨0, false⟩ := by
  rw [foldl_tally, foldl_tally, h]
  have hany : ∀ xs : List (Nat × Nat), xs.any (isGrease ·.1) = (xs.map (·.1)).any isGrease := by
    intro xs
    rw [List.any_map]
    rfl
  rw [hany, hany, h]

/-- A name and its padding are together as long as the longest name that is padded. -/
theorem add_namePadding (h : n ≤ maxNameLen.toNat) : n + namePadding maxNameLen n = maxNameLen.toNat := by
  have hlt := maxNameLen.toNat_lt
  rw [namePadding, UInt8.toNat_ofNat']
  omega

theorem DifferInName.nssUnrounded_eq (h : DifferInName v w) (hm : v.serverNameLength? = some m)
    (hn : w.serverNameLength? = some n) (hmle : m ≤ maxNameLen.toNat) (hnle : n ≤ maxNameLen.toNat) :
    v.nssUnrounded maxNameLen m = w.nssUnrounded maxNameLen n := by
  have hpad := (add_namePadding hmle).trans (add_namePadding hnle).symm
  unfold SizeInfo.nssUnrounded
  rw [hm, hn, h.cipherSuites, h.pskExtensionLength,
    foldl_tally_types (map_types h.extensions fun x y hxy => hxy.1)]
  simp only [add_if]
  omega

theorem nssUnrounded_perm (info : SizeInfo) {exts : List (Nat × Nat)} (h : info.extensions.Perm exts)
    (maxNameLen : UInt8) (hostLen : Nat) :
    SizeInfo.nssUnrounded { info with extensions := exts } maxNameLen hostLen
      = info.nssUnrounded maxNameLen hostLen := by
  have hcompressed := ((h.map (·.1)).filter (· ∉ notCompressed)).length_eq
  have hany : info.extensions.any (isGrease ·.1) = exts.any (isGrease ·.1) := by
    rw [Bool.eq_iff_iff, List.any_eq_true, List.any_eq_true]
    exact exists_congr fun x => and_congr_left' h.mem_iff
  unfold SizeInfo.nssUnrounded
  rw [foldl_tally, foldl_tally, hcompressed, hany]
  rfl

theorem nssPayloadLength_congr {maxNameLen : UInt8} {rounding : EchGreaseRounding}
    (h : v.nssUnrounded maxNameLen m = w.nssUnrounded maxNameLen n)
    (hoverhead : v.aeadOverhead = w.aeadOverhead) :
    v.nssPayloadLength maxNameLen m rounding = w.nssPayloadLength maxNameLen n rounding := by
  unfold SizeInfo.nssPayloadLength
  rw [h, hoverhead]

/-- **NSS's payload length hides the host name.**  It is the same for all names that are not too long to
be padded, and for all orders of the extensions; without the tag it is the length of the encoded inner
ClientHello with its name padded, rounded up, and no subtraction underflows. -/
theorem nss_hides_name (maxNameLen : UInt8) (rounding : EchGreaseRounding) :
    (∀ v w m n, DifferInName v w → v.serverNameLength? = some m → w.serverNameLength? = some n →
        m ≤ maxNameLen.toNat → n ≤ maxNameLen.toNat →
        v.nssPayloadLength maxNameLen m rounding = w.nssPayloadLength maxNameLen n rounding)
      ∧ (∀ (info : SizeInfo) exts hostLen, info.extensions.Perm exts →
          SizeInfo.nssPayloadLength { info with extensions := exts } maxNameLen hostLen rounding
            = info.nssPayloadLength maxNameLen hostLen rounding)
      ∧ ∀ (info : SizeInfo) hostLen, ∃ len,
          info.nssPayloadLength maxNameLen hostLen rounding = .ok (len + info.aeadOverhead)
            ∧ ∀ inner : Inner info,
              RoundedUp rounding (inner.encode.length + namePadding maxNameLen hostLen) len := by
  refine ⟨?_, ?_, ?_⟩
  · intro v w m n h hm hn hmle hnle
    exact nssPayloadLength_congr (h.nssUnrounded_eq hm hn hmle hnle) h.aeadOverhead
  · intro info exts hostLen h
    exact nssPayloadLength_congr (nssUnrounded_perm info h maxNameLen hostLen) rfl
  · intro info hostLen
    obtain ⟨len, hlen, hround⟩ := nssPayloadLength_ok info maxNameLen hostLen rounding
    exact ⟨len, hlen, fun inner => inner.nssUnrounded_eq maxNameLen hostLen ▸ hround⟩

/-- Names of nine and of nineteen bytes. -/
def SizeInfo.named (serverNameLength : Nat) : SizeInfo :=
  ⟨43, [0x13, 1, 0x13, 3], [(0, serverNameLength + 5), (23, 0), (43, 3), (51, 38)], true,
    serverNameLength, 0, false, false, 1, 16, 65380, 180 + serverNameLength⟩

theorem nss_hides_name_short :
    (SizeInfo.named 9).nssPayloadLength 100 9 .nss3127
      = (SizeInfo.named 19).nssPayloadLength 100 19 .nss3127 := by
  refine (nss_hides_name 100 .nss3127).1 _ _ 9 19 ⟨rfl, rfl, ?_, rfl, rfl, rfl, rfl, rfl, rfl⟩ rfl rfl
    (by decide) (by decide)
  refine .cons ⟨rfl, fun h => absurd rfl h⟩ (.cons ⟨rfl, fun _ => rfl⟩ (.cons ⟨rfl, fun _ => rfl⟩
    (.cons ⟨rfl, fun _ => rfl⟩ .nil)))

/-! ### What the policy is told of two host names -/

/-- What the loop makes of extensions that fit their length fields. -/
theorem addExtensions_putExtensions {exts : List (Nat × Bytes)}
    (h : ∀ ext ∈ exts, ext.1 < 256 ^ 2 ∧ ext.2.length < 256 ^ 2) (info : SizeInfo) {fuel : Nat}
    (hfuel : (putExtensions exts).length ≤ fuel) :
    info.addExtensions fuel (putExtensions exts)
      = exts.foldlM (fun info ext => info.addExtension ext.1 ext.2) info := by
  induction exts generalizing info fuel with
  | nil =>
      cases fuel with
      | zero => rfl
      | succ fuel => rfl
  | cons ext exts ih =>
      obtain ⟨⟨htype, hbody⟩, hrest⟩ := List.forall_mem_cons.mp h
      have hput : putExtensions (ext :: exts)
          = putUint 2 ext.1 ++ (putPrefixed 2 ext.2 ++ putExtensions exts) := by
        rw [putExtensions, List.flatMap_cons, List.append_assoc]
        rfl
      have hlen : (putExtensions (ext :: exts)).length
          = 4 + ext.2.length + (putExtensions exts).length := by
        rw [hput, List.length_append, List.length_append, length_putUint, length_putPrefixed]
        omega
      obtain ⟨b, bs, hcons⟩ := List.exists_cons_of_length_pos
        (l := putExtensions (ext :: exts)) (by omega)
      cases fuel with
      | zero => omega
      | succ fuel =>
          have htype' := getUint_eq_some.mpr ⟨hcons.symm.trans hput, htype⟩
          have hbody' := getPrefixed_eq_some.mpr
            ⟨(rfl : putPrefixed 2 ext.2 ++ putExtensions exts = _), hbody⟩
          rw [hcons, SizeInfo.addExtensions, htype', List.foldlM_cons]
          show (getPrefixed 2 (putPrefixed 2 ext.2 ++ putExtensions exts)).bind _ = _
          rw [hbody']
          exact congrArg (info.addExtension ext.1 ext.2).bind
            (funext fun info => ih hrest info (by omega))

theorem DifferInName.addExtension {ext ext' : Nat × Bytes} {v' w' : SizeInfo} (h : DifferInName v w)
    (htype : ext.1 = ext'.1) (hbody : ext.1 ≠ kTypeServerName → ext.2 = ext'.2)
    (hv : v.addExtension ext.1 ext.2 = some v') (hw : w.addExtension ext'.1 ext'.2 = some w') :
    DifferInName v' w' := by
  have hexts : List.Forall₂ (fun x y : Nat × Nat => x.1 = y.1 ∧ (x.1 ≠ kTypeServerName → x.2 = y.2))
      (v.extensions ++ [(ext.1, ext.2.length)]) (w.extensions ++ [(ext'.1, ext'.2.length)]) :=
    List.rel_append h.extensions
      (.cons ⟨htype, fun hne => congrArg List.length (hbody hne)⟩ .nil)
  unfold SizeInfo.addExtension at hv hw
  rw [← htype] at hw hexts
  split at hv
  · rename_i hname
    dsimp only at hw
    rw [if_pos hname] at hw
    obtain ⟨m, -, rfl⟩ := Option.map_eq_some_iff.mp hv
    obtain ⟨n, -, rfl⟩ := Option.map_eq_some_iff.mp hw
    exact { h with extensions := hexts, hasServerName := rfl }
  · rename_i hname
    dsimp only at hw
    rw [if_neg hname] at hw
    cases hv
    cases hw
    exact { h with extensions := hexts }

theorem DifferInName.foldlM {exts exts' : List (Nat × Bytes)} {v' w' : SizeInfo}
    (h : DifferInName v w)
    (hexts : exts.Forall₂ (fun x y => x.1 = y.1 ∧ (x.1 ≠ kTypeServerName → x.2 = y.2)) exts')
    (hv : exts.foldlM (fun info ext => info.addExtension ext.1 ext.2) v = some v')
    (hw : exts'.foldlM (fun info ext => info.addExtension ext.1 ext.2) w = some w') :
    DifferInName v' w' := by
  induction hexts generalizing v w with
  | nil =>
      cases hv
      cases hw
      exact h
  | cons hxy hrest ih =>
      rw [List.foldlM_cons] at hv hw
      obtain ⟨v₁, hv₁, hv⟩ := Option.bind_eq_some_iff.mp hv
      obtain ⟨w₁, hw₁, hw⟩ := Option.bind_eq_some_iff.mp hw
      exact ih (h.addExtension hxy.1 hxy.2 hv₁ hw₁) hv hw

/-- **Two host names on the wire.**  What the policy is told of them differs only there. -/
theorem sizeInfo_differ {d : Draw} {isDtls isQuic : Bool} {exts exts' : List (Nat × Bytes)}
    {preamble : Bytes} {pskLen reserve reserve' : Nat}
    (hexts : exts.Forall₂ (fun x y => x.1 = y.1 ∧ (x.1 ≠ kTypeServerName → x.2 = y.2)) exts')
    (hfit : ∀ ext ∈ exts, ext.1 < 256 ^ 2 ∧ ext.2.length < 256 ^ 2)
    (hfit' : ∀ ext ∈ exts', ext.1 < 256 ^ 2 ∧ ext.2.length < 256 ^ 2)
    (hv : sizeInfo d isDtls isQuic (putExtensions exts) preamble pskLen reserve = .ok v)
    (hw : sizeInfo d isDtls isQuic (putExtensions exts') preamble pskLen reserve' = .ok w) :
    DifferInName v w := by
  obtain ⟨room, -, hv⟩ := bind_eq_ok.mp hv
  obtain ⟨room', -, hw⟩ := bind_eq_ok.mp hw
  obtain ⟨psk, hpsk, hv⟩ := bind_eq_ok.mp hv
  obtain ⟨psk', hpsk', hw⟩ := bind_eq_ok.mp hw
  cases hpsk.symm.trans hpsk'
  cases hciphers : cipherSuitesOf isDtls preamble with
  | none =>
      rw [hciphers] at hv
      cases hv
  | some ciphers =>
      rw [hciphers] at hv hw
      dsimp only at hv hw
      rw [addExtensions_putExtensions hfit _ (Nat.le_refl _)] at hv
      rw [addExtensions_putExtensions hfit' _ (Nat.le_refl _)] at hw
      split at hv
      · cases hv
      · rename_i v' hv'
        split at hw
        · cases hw
        · rename_i w' hw'
          cases hv
          cases hw
          refine DifferInName.foldlM ?_ hexts hv' hw'
          exact ⟨rfl, rfl, .nil, rfl, rfl, rfl, rfl, rfl, rfl⟩

end Btls.Hello
