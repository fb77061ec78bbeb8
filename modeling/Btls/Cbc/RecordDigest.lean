import Btls.Cbc.SecretSuffix

/-!
# Cbc — RecordDigest

`tls_cbc_digest_record_sha384`: the MAC of a record whose length is secret is HMAC-SHA384, whatever
the length of the trailer that hides it.  The contexts are followed through the updates by
`Absorbed` (`inner_absorbed`, `outer_final`), and `secret_suffix_digest` puts both functions
together.

A key longer than a block is refused, so the key block is the key and zeros (`copyInto_key`).  The
inner hash is of that block, the header and the record's data, of which only the end is of secret
length: it goes to the function of `SecretSuffix`, on a context that has absorbed all before it
(`innerPrefix`).  `tlsCbcDigestRecordSha384_eq` says what is digested (`macedData`), and that the
trailer's own length does not show.
-/

namespace Btls.Cbc

open Btls.Support

/-! ### The code -/

section Model

variable (C : Compression) (U : Upstream C)

/-- The inner result is `none` where the function returns 0, and `md_out` and `*md_out_size` where it
returns 1. -/
def tlsCbcDigestRecordSha384 (lenHeader : Vector UInt8 2) (aadvecs iovecsWithoutTrailer : List Bytes)
    (trailer : Bytes) (dataInTrailerSize : Nat) (macSecret : Bytes) :
    Option (Option (Bytes × Nat)) :=
  if kBlockSize < macSecret.length then some none
  else do
    let hmacPad ← copyInto (List.replicate kBlockSize 0) 0 macSecret
    let hmacPad := hmacPad.map (· ^^^ 0x36)
    let ctx := U.update U.init hmacPad
    let ctx := aadvecs.foldl U.update ctx
    let ctx := U.update ctx lenHeader.toList
    let ctx := iovecsWithoutTrailer.foldl U.update ctx
    let macOut ← sha384FinalWithSecretSuffix C ctx trailer dataInTrailerSize trailer.length
    match macOut with
    | none => some none
    | some macOut =>
        let hmacPad := hmacPad.map (· ^^^ 0x6a)
        let ctx := U.update U.init hmacPad
        let ctx := U.update ctx macOut
        some (some (U.final ctx, sha384DigestLength))

/-- A key in one block. -/
def Compression.hmacKey (key : Bytes) : Bytes :=
  let key := if key.length ≤ kBlockSize then key else C.sha384 key
  key ++ List.replicate (kBlockSize - key.length) 0

/-- HMAC-SHA384. -/
def Compression.hmacSha384 (key msg : Bytes) : Bytes :=
  C.sha384 ((C.hmacKey key).map (· ^^^ 0x5c)
    ++ C.sha384 ((C.hmacKey key).map (· ^^^ 0x36) ++ msg))

end Model

/-! ### The digest -/

section Digest

variable {C : Compression} (U : Upstream C)

/-- Absorbing several parts is absorbing them as one. -/
theorem foldl_update_absorbed {ctx : Sha512Ctx} {msg : Bytes} (parts : List Bytes)
    (habs : Absorbed C ctx msg) (h : (msg ++ parts.flatten).length < maxMessage) :
    Absorbed C (parts.foldl U.update ctx) (msg ++ parts.flatten) := by
  induction parts generalizing ctx msg with
  | nil =>
      rw [List.flatten_nil, List.append_nil]
      exact habs
  | cons part parts ih =>
      rw [List.flatten_cons, ← List.append_assoc] at h ⊢
      refine ih (U.update_absorbed ctx msg part habs ?_) h
      rw [List.length_append] at h
      omega

/-- The padding of a key that fits a block. -/
theorem splice_zeros (key : Bytes) :
    splice (List.replicate kBlockSize 0) 0 key
      = key ++ List.replicate (kBlockSize - key.length) 0 := by
  rw [splice, List.take_zero, List.nil_append, Nat.zero_add, List.drop_replicate]

theorem opad_of_ipad (pad : Bytes) :
    (pad.map (· ^^^ 0x36)).map (· ^^^ 0x6a) = pad.map (· ^^^ 0x5c) := by
  rw [List.map_map]
  refine List.map_congr_left fun b _ => ?_
  show b ^^^ 0x36 ^^^ 0x6a = b ^^^ 0x5c
  rw [UInt8.xor_assoc]
  rfl

/-- The key block, as the code fills it. -/
theorem copyInto_key {key : Bytes} (h : key.length ≤ kBlockSize) :
    copyInto (List.replicate kBlockSize 0) 0 key = some (C.hmacKey key) := by
  rw [copyInto_of_le (by rwa [List.length_replicate, Nat.zero_add]), splice_zeros,
    Compression.hmacKey, if_pos h]

theorem length_hmacKey {key : Bytes} (h : key.length ≤ kBlockSize) :
    (C.hmacKey key).length = kBlockSize := by
  rw [Compression.hmacKey, if_pos h, List.length_append, List.length_replicate]
  omega

/-- What the inner hash is of, in front of the trailer. -/
def innerPrefix (C : Compression) (lenHeader : Vector UInt8 2) (aadvecs iovecs : List Bytes)
    (macSecret : Bytes) : Bytes :=
  (C.hmacKey macSecret).map (· ^^^ 0x36) ++ aadvecs.flatten ++ lenHeader.toList ++ iovecs.flatten

/-- The first context, when the trailer is reached. -/
theorem inner_absorbed (lenHeader : Vector UInt8 2) (aadvecs iovecs : List Bytes) {macSecret : Bytes}
    (h : (innerPrefix C lenHeader aadvecs iovecs macSecret).length < maxMessage) :
    Absorbed C
      (iovecs.foldl U.update (U.update (aadvecs.foldl U.update
        (U.update U.init ((C.hmacKey macSecret).map (· ^^^ 0x36)))) lenHeader.toList))
      (innerPrefix C lenHeader aadvecs iovecs macSecret) := by
  have hparts := h
  simp only [innerPrefix, List.length_append] at hparts
  have hkey := U.update_absorbed U.init [] ((C.hmacKey macSecret).map (· ^^^ 0x36)) U.init_absorbed
    (by rw [List.nil_append]; omega)
  rw [List.nil_append] at hkey
  have haad := foldl_update_absorbed U aadvecs hkey
    (by rw [List.length_append]; omega)
  have hheader := U.update_absorbed _ _ lenHeader.toList haad
    (by simp only [List.length_append]; omega)
  exact foldl_update_absorbed U iovecs hheader h

/-- The second hash. -/
theorem outer_final {key mac : Bytes} (hkey : key.length ≤ kBlockSize)
    (hmac : mac.length = sha384DigestLength) :
    U.final (U.update (U.update U.init ((C.hmacKey key).map (· ^^^ 0x5c))) mac)
      = C.sha384 ((C.hmacKey key).map (· ^^^ 0x5c) ++ mac) := by
  have hlen : ((C.hmacKey key).map (· ^^^ 0x5c)).length = kBlockSize := by
    rw [List.length_map, length_hmacKey hkey]
  have hpad := U.update_absorbed U.init [] ((C.hmacKey key).map (· ^^^ 0x5c)) U.init_absorbed
    (by rw [List.nil_append, hlen]; decide)
  rw [List.nil_append] at hpad
  refine U.final_sha384 _ _ (U.update_absorbed _ _ mac hpad ?_)
  rw [List.length_append, hlen, hmac]
  decide

/-- What the digest is of. -/
def macedData (lenHeader : Vector UInt8 2) (aadvecs iovecs : List Bytes) (trailer : Bytes)
    (dataInTrailerSize : Nat) : Bytes :=
  aadvecs.flatten ++ lenHeader.toList ++ iovecs.flatten ++ trailer.take dataInTrailerSize

theorem innerPrefix_append (lenHeader : Vector UInt8 2) (aadvecs iovecs : List Bytes)
    (macSecret trailer : Bytes) (dataInTrailerSize : Nat) :
    innerPrefix C lenHeader aadvecs iovecs macSecret ++ trailer.take dataInTrailerSize
      = (C.hmacKey macSecret).map (· ^^^ 0x36)
        ++ macedData lenHeader aadvecs iovecs trailer dataInTrailerSize := by
  simp only [innerPrefix, macedData, List.append_assoc]

/-- The digest of a record is the HMAC of what is in it. -/
theorem tlsCbcDigestRecordSha384_eq (lenHeader : Vector UInt8 2) (aadvecs iovecs : List Bytes)
    (trailer : Bytes) (dataInTrailerSize : Nat) {macSecret : Bytes}
    (hkey : macSecret.length ≤ kBlockSize)
    (hshort : (innerPrefix C lenHeader aadvecs iovecs macSecret).length < maxMessage) :
    tlsCbcDigestRecordSha384 C U lenHeader aadvecs iovecs trailer dataInTrailerSize macSecret
      = some (if dataInTrailerSize ≤ trailer.length
            ∧ (innerPrefix C lenHeader aadvecs iovecs macSecret).length + trailer.length ≤ kMaxBytes
          then some (C.hmacSha384 macSecret
            (macedData lenHeader aadvecs iovecs trailer dataInTrailerSize), sha384DigestLength)
          else none) := by
  have habs := inner_absorbed U lenHeader aadvecs iovecs hshort
  rw [tlsCbcDigestRecordSha384, if_neg (Nat.not_lt.mpr hkey), copyInto_key (C := C) hkey,
    Option.bind_eq_bind, Option.bind_some]
  simp only [sha384FinalWithSecretSuffix_eq habs, Option.bind_eq_bind, Option.bind_some]
  split
  · rename_i hnone
    rw [if_neg ?_]
    intro hin
    rw [if_pos hin] at hnone
    cases hnone
  · rename_i mac hmac
    by_cases hin : dataInTrailerSize ≤ trailer.length
      ∧ (innerPrefix C lenHeader aadvecs iovecs macSecret).length + trailer.length ≤ kMaxBytes
    · rw [if_pos hin] at hmac ⊢
      obtain rfl := Option.some.inj hmac
      rw [opad_of_ipad, outer_final U hkey (C.length_sha384 _), innerPrefix_append]
      rfl
    · rw [if_neg hin] at hmac
      cases hmac

end Digest

/-- How long the inner hash's input is, in front of the trailer. -/
def innerLength (aadvecs iovecs : List Bytes) : Nat :=
  kBlockSize + aadvecs.flatten.length + 2 + iovecs.flatten.length

theorem length_innerPrefix (C : Compression) (lenHeader : Vector UInt8 2) (aadvecs iovecs : List Bytes)
    {macSecret : Bytes} (h : macSecret.length ≤ kBlockSize) :
    (innerPrefix C lenHeader aadvecs iovecs macSecret).length = innerLength aadvecs iovecs := by
  simp only [innerPrefix, innerLength, List.length_append, List.length_map, length_hmacKey h,
    Vector.length_toList]

/-- **A secret length changes no digest.**  Over every message, and every record whose data fit
SHA-384's domain: from a context that has absorbed `msg`, the hash is that of `msg` and the first
`len` bytes of the buffer, and the digest of a record is the HMAC of its parts and the first
`dataInTrailerSize` bytes of the trailer.  Both are refused only past `kMaxBytes`, or where more bytes
are asked for than there are; neither reads out of range or overflows. -/
theorem secret_suffix_digest (C : Compression) (U : Upstream C) :
    (∀ ctx msg, Absorbed C ctx msg → ∀ inp len,
      sha384FinalWithSecretSuffix C ctx inp len inp.length
        = some (if len ≤ inp.length ∧ msg.length + inp.length ≤ kMaxBytes
            then some (C.sha384 (msg ++ inp.take len)) else none))
      ∧ ∀ lenHeader aadvecs iovecs trailer dataInTrailerSize macSecret,
        macSecret.length ≤ kBlockSize → innerLength aadvecs iovecs < maxMessage →
        tlsCbcDigestRecordSha384 C U lenHeader aadvecs iovecs trailer dataInTrailerSize macSecret
          = some (if dataInTrailerSize ≤ trailer.length
                ∧ innerLength aadvecs iovecs + trailer.length ≤ kMaxBytes
              then some (C.hmacSha384 macSecret
                (aadvecs.flatten ++ lenHeader.toList ++ iovecs.flatten
                  ++ trailer.take dataInTrailerSize), sha384DigestLength)
              else none) := by
  constructor
  · intro ctx msg habs inp len
    exact sha384FinalWithSecretSuffix_eq habs inp len
  · intro lenHeader aadvecs iovecs trailer dataInTrailerSize macSecret hkey hshort
    have hlen := length_innerPrefix C lenHeader aadvecs iovecs hkey
    rw [tlsCbcDigestRecordSha384_eq U lenHeader aadvecs iovecs trailer dataInTrailerSize hkey
      (hlen ▸ hshort), hlen]
    rfl

/-- A byte absorbed and two of three, and a record of four parts, by the real functions. -/
theorem secret_suffix_digest_abc :
    sha384FinalWithSecretSuffix .sha512 ((Upstream.streaming .sha512).update
        (Upstream.streaming .sha512).init [97]) [98, 99, 100] 2 3
        = some (some (Compression.sha512.sha384 [97, 98, 99]))
      ∧ tlsCbcDigestRecordSha384 .sha512 (.streaming .sha512) #v[0, 3] [[23, 3], [3]] [[97]]
          [98, 99, 100] 2 [1, 2, 3]
        = some (some (Compression.sha512.hmacSha384 [1, 2, 3] [23, 3, 3, 0, 3, 97, 98, 99], 48)) := by
  have hall := secret_suffix_digest .sha512 (.streaming .sha512)
  have habs := (Upstream.streaming .sha512).update_absorbed _ [] [97]
    (Upstream.streaming .sha512).init_absorbed (by decide +kernel)
  exact ⟨(hall.1 _ _ habs [98, 99, 100] 2).trans (by rw [if_pos (by decide +kernel)]; rfl),
    (hall.2 _ _ _ _ _ _ (by decide +kernel) (by decide +kernel)).trans
      (by rw [if_pos (by decide +kernel)]; rfl)⟩

end Btls.Cbc
