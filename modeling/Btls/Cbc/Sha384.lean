import Btls.Support.Blocks
import Btls.Support.Bytes
import Mathlib.Algebra.Group.Nat.Defs

/-!
# Cbc — Sha384

SHA-384 over a compression function (FIPS 180-4, sections 5.1.2, 5.3.4 and 6.5), and upstream's
streaming context for it.  `Absorbed` says what a context is that has taken in a message; `Upstream`
is the three functions on contexts that are not in the repository, under that contract.
`Compression.sha512` and `Upstream.streaming` are what they stand for.

The hash is defined on whole messages: `pad` fills the last block with 0x80, zeros and the bit
length, and `after` runs the compression function over the blocks.  `Compression.sha384_append` is
the form that a function on contexts needs: the hash of a message in two parts, from the state that
the first leaves and the tail it left over, with as many blocks as the code counts (`blockCount`).
-/

namespace Btls.Cbc

open Btls.Support

/-- `SHA384_CBLOCK`, which is `SHA512_CBLOCK`. -/
def kBlockSize : Nat := 128

/-- `2 * sizeof(uint64_t)`. -/
def kLengthFieldSize : Nat := 16

/-- `SHA384_DIGEST_LENGTH`. -/
def sha384DigestLength : Nat := 48

/-- The eight words of a hash state. -/
abbrev Words := Vector UInt64 8

/-- `CRYPTO_store_u64_be`. -/
def be64 (w : UInt64) : Bytes :=
  [(w >>> 56).toUInt8, (w >>> 48).toUInt8, (w >>> 40).toUInt8, (w >>> 32).toUInt8,
    (w >>> 24).toUInt8, (w >>> 16).toUInt8, (w >>> 8).toUInt8, w.toUInt8]

@[simp] theorem length_be64 (w : UInt64) : (be64 w).length = 8 := rfl

theorem length_flatMap_be64 (ws : List UInt64) : (ws.flatMap be64).length = 8 * ws.length := by
  induction ws with
  | nil => rfl
  | cons w ws ih =>
      rw [List.flatMap_cons, List.length_append, ih, length_be64, List.length_cons]
      omega

/-- The words of a state, big-endian. -/
def Words.bytes (h : Words) : Bytes := h.toList.flatMap be64

theorem Words.length_bytes (h : Words) : h.bytes.length = 64 := by
  rw [Words.bytes, length_flatMap_be64, Vector.length_toList]

/-- The compression function and the initial state. -/
structure Compression where
  iv : Words
  transform : Words → Bytes → Words

/-! ### The hash function -/

/-- How many zeros follow the 0x80 byte: the fewest that leave the length field at the end of a
block. -/
def zeroCount (len : Nat) : Nat := (239 - len % 128) % 128

/-- The bit length of a message, in 16 bytes. -/
def lengthField (len : Nat) : Bytes :=
  be64 (UInt64.ofNat (8 * len / 2 ^ 64)) ++ be64 (UInt64.ofNat (8 * len))

/-- A message with its padding. -/
def pad (msg : Bytes) : Bytes :=
  msg ++ 0x80 :: (List.replicate (zeroCount msg.length) 0 ++ lengthField msg.length)

/-- The state after the first `n` blocks of `msg`. -/
def Compression.after (C : Compression) (msg : Bytes) (n : Nat) : Words :=
  foldBlocks C.transform kBlockSize C.iv msg n

/-- SHA-384. -/
def Compression.sha384 (C : Compression) (msg : Bytes) : Bytes :=
  (C.after (pad msg) ((pad msg).length / kBlockSize)).bytes.take sha384DigestLength

@[simp] theorem length_lengthField (len : Nat) : (lengthField len).length = kLengthFieldSize := rfl

theorem Compression.length_sha384 (C : Compression) (msg : Bytes) :
    (C.sha384 msg).length = sha384DigestLength := by
  rw [sha384, List.length_take, Words.length_bytes]
  rfl

theorem length_pad (msg : Bytes) :
    (pad msg).length = msg.length + (1 + (zeroCount msg.length + 16)) := by
  simp only [pad, List.length_append, List.length_cons, List.length_replicate, length_lengthField,
    kLengthFieldSize]
  omega

/-! ### Contexts -/

/-- `SHA512_CTX`. -/
structure Sha512Ctx where
  h : Words
  bytesSoFarLow : Nat
  bytesSoFarHigh : Nat
  p : Bytes
  num : Nat
  mdLen : Nat

/-- The longest message SHA-384 is defined on, in bytes. -/
def maxMessage : Nat := 2 ^ 125

/-- The context has absorbed `msg`: its whole blocks into the state, and the rest into `p`. -/
structure Absorbed (C : Compression) (ctx : Sha512Ctx) (msg : Bytes) : Prop where
  short : msg.length < maxMessage
  h : ctx.h = C.after msg (msg.length / kBlockSize)
  size : ctx.p.length = kBlockSize
  num : ctx.num = msg.length % kBlockSize
  p : ctx.p.take ctx.num = msg.drop (kBlockSize * (msg.length / kBlockSize))
  mdLen : ctx.mdLen = sha384DigestLength
  low : ctx.bytesSoFarLow = msg.length % 2 ^ 64
  high : ctx.bytesSoFarHigh = msg.length / 2 ^ 64

/-- `SHA384_Init`, `SHA384_Update` and `SHA384_Final`. -/
structure Upstream (C : Compression) where
  init : Sha512Ctx
  update : Sha512Ctx → Bytes → Sha512Ctx
  final : Sha512Ctx → Bytes
  init_absorbed : Absorbed C init []
  update_absorbed : ∀ ctx msg data, Absorbed C ctx msg → (msg ++ data).length < maxMessage →
    Absorbed C (update ctx data) (msg ++ data)
  final_sha384 : ∀ ctx msg, Absorbed C ctx msg → final ctx = C.sha384 msg

/-! ### A message in front of others -/

section Tail

variable (C : Compression) (msg : Bytes)

/-- What is left of a message after its whole blocks. -/
def tail (msg : Bytes) : Bytes := msg.drop (kBlockSize * (msg.length / kBlockSize))

theorem length_tail : (tail msg).length = msg.length % kBlockSize := by
  rw [tail, List.length_drop, kBlockSize]
  omega

theorem whole_le : kBlockSize * (msg.length / kBlockSize) ≤ msg.length :=
  Nat.mul_div_le _ _

/-- A message absorbed, and then its tail with what follows. -/
theorem Compression.after_append (more : Bytes) (n : Nat) :
    C.after (msg ++ more) (msg.length / kBlockSize + n)
      = foldBlocks C.transform kBlockSize (C.after msg (msg.length / kBlockSize))
          (tail msg ++ more) n := by
  rw [after, foldBlocks_add, foldBlocks_prefix (whole_le msg),
    List.drop_append_of_le_length (whole_le msg)]
  rfl

theorem length_div_append (more : Bytes) : (msg ++ more).length / kBlockSize
    = msg.length / kBlockSize + (tail msg ++ more).length / kBlockSize := by
  rw [List.length_append, List.length_append, length_tail, kBlockSize]
  omega

theorem length_mod_append (more : Bytes) :
    (msg ++ more).length % kBlockSize = (tail msg ++ more).length % kBlockSize := by
  rw [List.length_append, List.length_append, length_tail, kBlockSize]
  omega

theorem tail_append (more : Bytes) : tail (msg ++ more) = tail (tail msg ++ more) := by
  rw [tail, length_div_append, Nat.mul_add, ← List.drop_drop,
    List.drop_append_of_le_length (whole_le msg)]
  rfl

/-- How many blocks the padding of `num + len` bytes fills, as the code counts them. -/
def blockCount (n : Nat) : Nat := (n + 1 + kLengthFieldSize + kBlockSize - 1) / kBlockSize

/-- The hash of a message in two parts, from the state the first leaves. -/
theorem Compression.sha384_append (more : Bytes) :
    C.sha384 (msg ++ more)
      = (foldBlocks C.transform kBlockSize (C.after msg (msg.length / kBlockSize))
          (tail msg ++ (more ++ 0x80 :: (List.replicate (zeroCount (msg ++ more).length) 0
            ++ lengthField (msg ++ more).length)))
          (blockCount (msg.length % kBlockSize + more.length))).bytes.take sha384DigestLength := by
  have hcount : (pad (msg ++ more)).length / kBlockSize
      = msg.length / kBlockSize + blockCount (msg.length % kBlockSize + more.length) := by
    rw [length_pad, List.length_append, zeroCount, blockCount, kBlockSize, kLengthFieldSize]
    omega
  rw [sha384, hcount, pad, List.append_assoc msg, after_append]

end Tail

/-! ### The streaming functions -/

/-- A context buffers what does not fill a block. -/
def Upstream.streaming (C : Compression) : Upstream C where
  init := ⟨C.iv, 0, 0, List.replicate kBlockSize 0, 0, sha384DigestLength⟩
  update ctx data :=
    let bytes := ctx.p.take ctx.num ++ data
    let whole := bytes.length / kBlockSize
    { h := foldBlocks C.transform kBlockSize ctx.h bytes whole
      bytesSoFarLow := (ctx.bytesSoFarLow + data.length) % 2 ^ 64
      bytesSoFarHigh := ctx.bytesSoFarHigh + (ctx.bytesSoFarLow + data.length) / 2 ^ 64
      p := tail bytes ++ List.replicate (kBlockSize - bytes.length % kBlockSize) 0
      num := bytes.length % kBlockSize
      mdLen := ctx.mdLen }
  final ctx :=
    let len := ctx.bytesSoFarHigh * 2 ^ 64 + ctx.bytesSoFarLow
    (foldBlocks C.transform kBlockSize ctx.h
      (ctx.p.take ctx.num ++ 0x80 :: (List.replicate (zeroCount len) 0 ++ lengthField len))
      (blockCount ctx.num)).bytes.take sha384DigestLength
  init_absorbed :=
    { short := by decide
      h := rfl
      size := rfl
      num := rfl
      p := rfl
      mdLen := rfl
      low := rfl
      high := rfl }
  update_absorbed := by
    intro ctx msg data habs hshort
    have hfront : ctx.p.take ctx.num = tail msg := habs.p
    have hlow := habs.low
    have hhigh := habs.high
    have hall : (msg ++ data).length = msg.length + data.length := List.length_append
    have hmod := length_mod_append msg data
    have hlt := Nat.mod_lt (tail msg ++ data).length (show 0 < kBlockSize by decide)
    rw [hfront]
    constructor
    case short => exact hshort
    case h =>
      show foldBlocks C.transform kBlockSize ctx.h (tail msg ++ data) _ = _
      rw [length_div_append msg data, C.after_append, habs.h]
    case size =>
      show (tail (tail msg ++ data) ++ List.replicate _ 0).length = _
      rw [List.length_append, length_tail, List.length_replicate]
      omega
    case num => exact hmod.symm
    case p =>
      show (tail (tail msg ++ data) ++ List.replicate _ 0).take ((tail msg ++ data).length % _) = _
      rw [← length_tail, List.take_left, ← tail_append]
      rfl
    case mdLen => exact habs.mdLen
    case low =>
      show (ctx.bytesSoFarLow + data.length) % 2 ^ 64 = _
      rw [hall]
      omega
    case high =>
      show ctx.bytesSoFarHigh + (ctx.bytesSoFarLow + data.length) / 2 ^ 64 = _
      rw [hall]
      omega
  final_sha384 := by
    intro ctx msg habs
    have hfront : ctx.p.take ctx.num = tail msg := habs.p
    have hlow := habs.low
    have hhigh := habs.high
    have hlen : ctx.bytesSoFarHigh * 2 ^ 64 + ctx.bytesSoFarLow = msg.length := by omega
    have happ := C.sha384_append msg []
    rw [List.append_nil, List.nil_append, List.length_nil, Nat.add_zero] at happ
    simp only
    rw [happ, hfront, hlen, habs.h, habs.num]

/-! ### The compression function -/

/-- The round constants of SHA-512. -/
def sha512K : List UInt64 :=
  [ 0x428a2f98d728ae22, 0x7137449123ef65cd, 0xb5c0fbcfec4d3b2f, 0xe9b5dba58189dbbc,
    0x3956c25bf348b538, 0x59f111f1b605d019, 0x923f82a4af194f9b, 0xab1c5ed5da6d8118,
    0xd807aa98a3030242, 0x12835b0145706fbe, 0x243185be4ee4b28c, 0x550c7dc3d5ffb4e2,
    0x72be5d74f27b896f, 0x80deb1fe3b1696b1, 0x9bdc06a725c71235, 0xc19bf174cf692694,
    0xe49b69c19ef14ad2, 0xefbe4786384f25e3, 0x0fc19dc68b8cd5b5, 0x240ca1cc77ac9c65,
    0x2de92c6f592b0275, 0x4a7484aa6ea6e483, 0x5cb0a9dcbd41fbd4, 0x76f988da831153b5,
    0x983e5152ee66dfab, 0xa831c66d2db43210, 0xb00327c898fb213f, 0xbf597fc7beef0ee4,
    0xc6e00bf33da88fc2, 0xd5a79147930aa725, 0x06ca6351e003826f, 0x142929670a0e6e70,
    0x27b70a8546d22ffc, 0x2e1b21385c26c926, 0x4d2c6dfc5ac42aed, 0x53380d139d95b3df,
    0x650a73548baf63de, 0x766a0abb3c77b2a8, 0x81c2c92e47edaee6, 0x92722c851482353b,
    0xa2bfe8a14cf10364, 0xa81a664bbc423001, 0xc24b8b70d0f89791, 0xc76c51a30654be30,
    0xd192e819d6ef5218, 0xd69906245565a910, 0xf40e35855771202a, 0x106aa07032bbd1b8,
    0x19a4c116b8d2d0c8, 0x1e376c085141ab53, 0x2748774cdf8eeb99, 0x34b0bcb5e19b48a8,
    0x391c0cb3c5c95a63, 0x4ed8aa4ae3418acb, 0x5b9cca4f7763e373, 0x682e6ff3d6b2b8a3,
    0x748f82ee5defb2fc, 0x78a5636f43172f60, 0x84c87814a1f0ab72, 0x8cc702081a6439ec,
    0x90befffa23631e28, 0xa4506cebde82bde9, 0xbef9a3f7b2c67915, 0xc67178f2e372532b,
    0xca273eceea26619c, 0xd186b8c721c0c207, 0xeada7dd6cde0eb1e, 0xf57d4f7fee6ed178,
    0x06f067aa72176fba, 0x0a637dc5a2c898a6, 0x113f9804bef90dae, 0x1b710b35131c471b,
    0x28db77f523047d84, 0x32caab7b40c72493, 0x3c9ebe0a15c9bebc, 0x431d67c49c100d4c,
    0x4cc5d4becb3e42b6, 0x597f299cfc657e2a, 0x5fcb6fab3ad6faec, 0x6c44198c4a475817 ]

def rotr (x n : UInt64) : UInt64 := (x >>> n) ||| (x <<< (64 - n))

/-- The working variables. -/
structure Work where
  a : UInt64
  b : UInt64
  c : UInt64
  d : UInt64
  e : UInt64
  f : UInt64
  g : UInt64
  h : UInt64

def Work.round (v : Work) (k w : UInt64) : Work :=
  let t1 := v.h + (rotr v.e 14 ^^^ rotr v.e 18 ^^^ rotr v.e 41) + ((v.e &&& v.f) ^^^ (~~~v.e &&& v.g))
    + k + w
  let t2 := (rotr v.a 28 ^^^ rotr v.a 34 ^^^ rotr v.a 39)
    + ((v.a &&& v.b) ^^^ (v.a &&& v.c) ^^^ (v.b &&& v.c))
  ⟨t1 + t2, v.a, v.b, v.c, v.d + t1, v.e, v.f, v.g⟩

/-- The word sixteen after the first of `ws`. -/
def scheduleNext (ws : List UInt64) : UInt64 :=
  let w1 := ws.getD 1 0
  let w14 := ws.getD 14 0
  ws.getD 0 0 + (rotr w1 1 ^^^ rotr w1 8 ^^^ (w1 >>> 7)) + ws.getD 9 0
    + (rotr w14 19 ^^^ rotr w14 61 ^^^ (w14 >>> 6))

/-- One round for each constant; `ws` are the next sixteen words of the message schedule. -/
def rounds : List UInt64 → (ws : List UInt64) → Work → Work
  | [], _, v => v
  | k :: ks, ws, v => rounds ks (ws.drop 1 ++ [scheduleNext ws]) (v.round k (ws.getD 0 0))

def readBe64 (bs : Bytes) : UInt64 := bs.foldl (fun w b => (w <<< 8) ||| b.toUInt64) 0

/-- SHA-512's compression function, with SHA-384's initial state. -/
def Compression.sha512 : Compression where
  iv := #v[0xcbbb9d5dc1059ed8, 0x629a292a367cd507, 0x9159015a3070dd17, 0x152fecd8f70e5939,
    0x67332667ffc00b31, 0x8eb44a8768581511, 0xdb0c2e0d64f98fa7, 0x47b5481dbefa4fa4]
  transform h bytes :=
    let v := rounds sha512K ((List.range 16).map fun i => readBe64 (block 8 bytes i))
      ⟨h[0], h[1], h[2], h[3], h[4], h[5], h[6], h[7]⟩
    #v[h[0] + v.a, h[1] + v.b, h[2] + v.c, h[3] + v.d, h[4] + v.e, h[5] + v.f, h[6] + v.g, h[7] + v.h]

/-- The digest of "abc". -/
example : Compression.sha512.sha384 [97, 98, 99]
    = [0xcb, 0x00, 0x75, 0x3f, 0x45, 0xa3, 0x5e, 0x8b, 0xb5, 0xa0, 0x3d, 0x69,
        0x9a, 0xc6, 0x50, 0x07, 0x27, 0x2c, 0x32, 0xab, 0x0e, 0xde, 0xd1, 0x63,
        0x1a, 0x8b, 0x60, 0x5a, 0x43, 0xff, 0x5b, 0xed, 0x80, 0x86, 0x07, 0x2b,
        0xa1, 0xe7, 0xcc, 0x23, 0x58, 0xba, 0xec, 0xa1, 0x34, 0xc8, 0x25, 0xa7] := by decide +kernel

end Btls.Cbc
