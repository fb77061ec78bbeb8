import Btls.Cbc.Sha384
import Btls.Support.Panic
import Btls.Support.Usize

/-!
# Cbc — SecretSuffix

`sha384_final_with_secret_suffix`: the SHA-384 of what a context has absorbed and the first `len`
bytes of `in`, where only `max_len` is public.  It compresses as many blocks as `max_len` bytes
could fill and keeps the state after the right one, all by masks.

What is hashed after the context's own bytes is one string, the input, the 0x80 byte, zeros and the
length (`suffixBytes`).  Each round makes one block of it, from whatever the last one left in the
buffer (`inputBlock_spec`, `lengthBlock_spec`), and the state after it is kept under a mask that is
zero but for the last block (`Hashed`).

The model returns `none` where an access would be out of range or an addition on sizes would
overflow.  `sha384FinalWithSecretSuffix_eq` says that neither happens, and what the result is.
-/

namespace Btls.Cbc

open Btls.Support

/-! ### The code -/

/-- `UINT64_MAX >> 3`. -/
def kMaxBytes : Nat := usizeMax >>> 3

/-- `constant_time_lt_8`. -/
def constantTimeLt8 (a b : Nat) : UInt8 := if a < b then -1 else 0

/-- `constant_time_eq_8`. -/
def constantTimeEq8 (a b : Nat) : UInt8 := if a = b then -1 else 0

/-- `constant_time_eq_w`. -/
def constantTimeEqW (a b : Nat) : UInt64 := if a = b then -1 else 0

/-- The function's own check. -/
def withinBounds (ctx : Sha512Ctx) (len maxLen : Nat) : Option Bool :=
  if maxLen < len ∨ ctx.mdLen ≠ sha384DigestLength ∨ kBlockSize ≤ ctx.num
      ∨ ctx.bytesSoFarHigh ≠ 0 ∨ kMaxBytes < ctx.bytesSoFarLow then some false
  else do
    let room ← exactSub kMaxBytes ctx.bytesSoFarLow
    if room < maxLen then some false
    else do
      let a ← exactSub usizeMax ctx.num
      let b ← exactSub a 1
      let c ← exactSub b kLengthFieldSize
      let d ← exactSub c (kBlockSize - 1)
      return maxLen ≤ d

/-- `(ctx->num + n + 1 + kLengthFieldSize + kBlockSize - 1) / kBlockSize`. -/
def countBlocks (num n : Nat) : Option Nat := do
  let a ← checkedAdd num n
  let b ← checkedAdd a 1
  let c ← checkedAdd b kLengthFieldSize
  let d ← checkedAdd c kBlockSize
  let e ← exactSub d 1
  return e / kBlockSize

def lengthBytes (bytesSoFarLow len : Nat) : Option Bytes := do
  let total ← checkedAdd bytesSoFarLow len
  let totalBits ← checkedMul 8 total
  copyInto (List.replicate kLengthFieldSize 0) (kLengthFieldSize - 8) (be64 (UInt64.ofNat totalBits))

/-- `for j < n: CRYPTO_store_u64_be(block + 8 * j, h[j])`. -/
def storeWords (block : Bytes) (h : Words) : (n : Nat) → Option Bytes
  | 0 => some block
  | n + 1 => do
      let b ← storeWords block h n
      let w ← h.toList[n]?
      copyInto b (8 * n) (be64 w)

/-- The loop's variables. -/
structure SuffixState where
  h : Words
  block : Bytes
  result : Bytes
  inputIdx : Nat

/-- Copies what of the input the block has room for. -/
def loadInput (inp : Bytes) (maxLen inputIdx blockStart : Nat) (block : Bytes) : Option Bytes :=
  if inputIdx < maxLen then do
    let room ← exactSub kBlockSize blockStart
    let left ← exactSub maxLen inputIdx
    let toCopy := if left < room then left else room
    let piece ← sliceRange inp inputIdx (inputIdx + toCopy)
    copyInto block blockStart piece
  else some block

/-- Clears the bytes past the input, and places the 0x80 byte. -/
def maskInput (len inputIdx blockStart : Nat) (block : Bytes) : Option Bytes :=
  updateRange (fun k x => do
    let sum ← checkedAdd inputIdx (blockStart + k)
    let idx ← exactSub sum blockStart
    return (x &&& constantTimeLt8 idx len) ||| (0x80 &&& constantTimeEq8 idx len))
    block blockStart (kBlockSize - blockStart)

/-- The first block starts behind what the context holds. -/
def blockStart (ctx : Sha512Ctx) (i : Nat) : Nat := if i = 0 then ctx.num else 0

/-- Copies what the context holds to the front of the first block. -/
def loadContext (ctx : Sha512Ctx) (i : Nat) (block : Bytes) : Option Bytes :=
  if i = 0 then do
    let p ← sliceTo ctx.p ctx.num
    copyInto block 0 p
  else some block

/-- Block number `i` without the length. -/
def inputBlock (ctx : Sha512Ctx) (inp : Bytes) (len maxLen i inputIdx : Nat) (block : Bytes) :
    Option Bytes := do
  let block ← loadContext ctx i block
  let block ← loadInput inp maxLen inputIdx (blockStart ctx i) block
  maskInput len inputIdx (blockStart ctx i) block

/-- `for j < n: dst[i + j] |= mask & src[j]`. -/
def orMasked (mask : UInt64) (src dst : Bytes) (i n : Nat) : Option Bytes :=
  updateRange (fun k x => do
    let b ← src[k]?
    return x ||| (mask &&& b.toUInt64).toUInt8)
    dst i n

/-- The loop's body. -/
def suffixBlock (C : Compression) (ctx : Sha512Ctx) (inp : Bytes) (len maxLen lastBlock : Nat)
    (lengthBytes : Bytes) (i : Nat) (st : SuffixState) : Option SuffixState := do
  let block ← inputBlock ctx inp len maxLen i st.inputIdx st.block
  let inputIdx ← checkedAdd st.inputIdx (kBlockSize - blockStart ctx i)
  let isLastBlock := constantTimeEqW i lastBlock
  let block ← orMasked isLastBlock lengthBytes block (kBlockSize - kLengthFieldSize) kLengthFieldSize
  let h := C.transform st.h block
  let block ← storeWords block h 8
  let result ← orMasked isLastBlock block st.result 0 sha384DigestLength
  return ⟨h, block, result, inputIdx⟩

/-- The loop, up to block number `i`. -/
def suffixLoop (C : Compression) (ctx : Sha512Ctx) (inp : Bytes) (len maxLen lastBlock : Nat)
    (lengthBytes : Bytes) : (i : Nat) → Option SuffixState
  | 0 =>
      some ⟨ctx.h, List.replicate kBlockSize 0, List.replicate sha384DigestLength 0, 0⟩
  | i + 1 => do
      let st ← suffixLoop C ctx inp len maxLen lastBlock lengthBytes i
      suffixBlock C ctx inp len maxLen lastBlock lengthBytes i st

/-- The inner result is `none` where the function returns 0. -/
def sha384FinalWithSecretSuffix (C : Compression) (ctx : Sha512Ctx) (inp : Bytes)
    (len maxLen : Nat) : Option (Option Bytes) := do
  let ok ← withinBounds ctx len maxLen
  if !ok then some none
  else do
    let numBlocks ← countBlocks ctx.num len
    let lastBlock ← exactSub numBlocks 1
    let maxBlocks ← countBlocks ctx.num maxLen
    let lengthBytes ← lengthBytes ctx.bytesSoFarLow len
    let st ← suffixLoop C ctx inp len maxLen lastBlock lengthBytes maxBlocks
    return some st.result

/-! ### The masks -/

/-- The low byte of a mask applied to a byte. -/
theorem maskW_byte (a b : Nat) (l : UInt8) :
    (constantTimeEqW a b &&& l.toUInt64).toUInt8 = if a = b then l else 0 := by
  unfold constantTimeEqW
  split <;> simp

theorem mask_input (idx len : Nat) (x : UInt8) :
    (x &&& constantTimeLt8 idx len) ||| (0x80 &&& constantTimeEq8 idx len)
      = if idx < len then x else if idx = len then 0x80 else 0 := by
  unfold constantTimeLt8 constantTimeEq8
  by_cases hlt : idx < len
  · rw [if_pos hlt, if_pos hlt, if_neg (Nat.ne_of_lt hlt), UInt8.and_neg_one, UInt8.and_zero,
      UInt8.or_zero]
  · rw [if_neg hlt, if_neg hlt, UInt8.and_zero, UInt8.zero_or]
    split
    · rw [UInt8.and_neg_one]
    · rw [UInt8.and_zero]

/-! ### What is hashed -/

section Suffix

variable {C : Compression} {ctx : Sha512Ctx} {inp front : Bytes} {len maxLen : Nat}

/-- Byte `k` of `front`, the input and the padding, without the length. -/
def suffixByte (front inp : Bytes) (len k : Nat) : UInt8 :=
  if k < front.length then (front[k]?).getD 0
  else if k - front.length < len then (inp[k - front.length]?).getD 0
  else if k - front.length = len then 0x80 else 0

/-- All that is hashed after `front`'s blocks. -/
def suffixBytes (front inp : Bytes) (len zeros : Nat) (field : Bytes) : Bytes :=
  front ++ (inp.take len ++ 0x80 :: (List.replicate zeros 0 ++ field))

theorem getElem?_suffixBytes (hle : len ≤ inp.length) (zeros : Nat) (field : Bytes) (k : Nat) :
    (suffixBytes front inp len zeros field)[k]?
      = if k < front.length + len + 1 + zeros then some (suffixByte front inp len k)
        else field[k - (front.length + len + 1 + zeros)]? := by
  have htake : (inp.take len).length = len := List.length_take_of_le hle
  unfold suffixBytes suffixByte
  rw [List.getElem?_append]
  by_cases hfront : k < front.length
  · rw [if_pos hfront, if_pos (by omega), if_pos hfront, List.getElem?_eq_getElem hfront]
    rfl
  rw [if_neg hfront, if_neg hfront, List.getElem?_append, htake]
  by_cases hin : k - front.length < len
  · rw [if_pos hin, if_pos (by omega), if_pos hin, List.getElem?_take_of_lt hin,
      List.getElem?_eq_getElem (by omega)]
    rfl
  rw [if_neg hin, if_neg hin]
  by_cases hmark : k - front.length = len
  · rw [if_pos hmark, hmark, Nat.sub_self, if_pos (by omega)]
    rfl
  rw [if_neg hmark]
  obtain ⟨d, hd⟩ : ∃ d, k - front.length - len = d + 1 := ⟨k - front.length - len - 1, by omega⟩
  rw [hd, List.getElem?_cons_succ, List.getElem?_append, List.length_replicate]
  by_cases hzero : d < zeros
  · rw [if_pos hzero, if_pos (by omega), List.getElem?_replicate, if_pos hzero]
  · rw [if_neg hzero, if_neg (by omega)]
    congr 1
    omega

theorem suffixByte_past {k : Nat} (h : front.length + len < k) :
    suffixByte front inp len k = 0 := by
  rw [suffixByte, if_neg (by omega), if_neg (by omega), if_neg (by omega)]

/-! ### One block -/

theorem storeWords_eq {block : Bytes} (h : Words) (hblock : block.length = kBlockSize) {n : Nat}
    (hn : n ≤ 8) :
    storeWords block h n = some (splice block 0 ((h.toList.take n).flatMap be64)) := by
  induction n with
  | zero => simp [storeWords, splice]
  | succ n ih =>
      have hlt : n < h.toList.length := by rw [Vector.length_toList]; omega
      have hbytes : ((h.toList.take n).flatMap be64).length = 8 * n := by
        rw [length_flatMap_be64, List.length_take_of_le (by omega)]
      have hfits : 0 + ((h.toList.take n).flatMap be64).length ≤ block.length := by
        rw [hbytes, hblock, kBlockSize]
        omega
      have hcopy : 8 * n + (be64 h.toList[n]).length
          ≤ (splice block 0 ((h.toList.take n).flatMap be64)).length := by
        rw [length_splice hfits, hblock, kBlockSize, length_be64]
        omega
      have hnext : (h.toList.take (n + 1)).flatMap be64
          = (h.toList.take n).flatMap be64 ++ be64 h.toList[n] := by
        rw [List.take_succ_eq_append_getElem hlt, List.flatMap_append, List.flatMap_singleton]
      have happ := splice_append block ((h.toList.take n).flatMap be64) (be64 h.toList[n])
      rw [hbytes] at happ
      simp only [storeWords, ih (by omega), List.getElem?_eq_getElem hlt, Option.bind_eq_bind,
        Option.bind_some, copyInto_of_le hcopy, happ, hnext]

theorem orMasked_spec {src dst : Bytes} {i n : Nat} (a b : Nat) (hsrc : n ≤ src.length)
    (hdst : i + n ≤ dst.length) :
    ∃ ys, orMasked (constantTimeEqW a b) src dst i n = some ys ∧ ys.length = dst.length
      ∧ ∀ j, ys[j]? = if i ≤ j ∧ j < i + n then
          dst[j]?.map (· ||| if a = b then (src[j - i]?).getD 0 else 0) else dst[j]? := by
  refine updateRange_spec (g := fun k x => x ||| if a = b then (src[k]?).getD 0 else 0) ?_ hdst
  intro k hk x
  simp only [List.getElem?_eq_getElem (show k < src.length by omega), Option.bind_eq_bind,
    Option.bind_some, maskW_byte, Option.getD_some, Option.pure_def]

theorem loadContext_spec {i : Nat} {block : Bytes} (hblock : block.length = kBlockSize)
    (hp : ctx.p.length = kBlockSize) (hnum : ctx.num < kBlockSize) :
    ∃ ys, loadContext ctx i block = some ys ∧ ys.length = kBlockSize
      ∧ ∀ j < blockStart ctx i, ys[j]? = (ctx.p.take ctx.num)[j]? := by
  unfold loadContext blockStart
  by_cases hi : i = 0
  · have hfront : (ctx.p.take ctx.num).length = ctx.num := List.length_take_of_le (by omega)
    have hfits : 0 + (ctx.p.take ctx.num).length ≤ block.length := by omega
    rw [if_pos hi, if_pos hi, sliceTo_of_le (by omega), Option.bind_eq_bind, Option.bind_some]
    refine ⟨_, copyInto_of_le hfits, (length_splice hfits).trans hblock, fun j hj => ?_⟩
    rw [getElem?_splice hfits, if_pos (by omega), Nat.sub_zero]
  · rw [if_neg hi, if_neg hi]
    exact ⟨block, rfl, hblock, fun j hj => absurd hj (Nat.not_lt_zero _)⟩

theorem loadInput_spec {maxLen start : Nat} {block : Bytes} (inputIdx : Nat)
    (hblock : block.length = kBlockSize) (hstart : start ≤ kBlockSize)
    (hmax : maxLen ≤ inp.length) :
    ∃ ys, loadInput inp maxLen inputIdx start block = some ys ∧ ys.length = kBlockSize
      ∧ (∀ j < start, ys[j]? = block[j]?)
      ∧ ∀ j < kBlockSize, start ≤ j → inputIdx + (j - start) < maxLen →
          ys[j]? = inp[inputIdx + (j - start)]? := by
  unfold loadInput
  by_cases hmore : inputIdx < maxLen
  case neg =>
    rw [if_neg hmore]
    exact ⟨block, rfl, hblock, fun _ _ => rfl, fun _ _ _ h => absurd h (by omega)⟩
  rw [if_pos hmore, exactSub_of_le hstart, exactSub_of_le (Nat.le_of_lt hmore)]
  simp only [Option.bind_eq_bind, Option.bind_some]
  set toCopy := if maxLen - inputIdx < kBlockSize - start then maxLen - inputIdx
    else kBlockSize - start with htoCopy
  have hcopied : toCopy ≤ maxLen - inputIdx ∧ toCopy ≤ kBlockSize - start
      ∧ (toCopy = maxLen - inputIdx ∨ toCopy = kBlockSize - start) := by
    rw [htoCopy]
    split <;> omega
  rw [sliceRange_of_le (Nat.le_add_right _ _) (by omega), Option.bind_some]
  have hpiece : ((inp.take (inputIdx + toCopy)).drop inputIdx).length = toCopy := by
    rw [List.length_drop, List.length_take]
    omega
  have hfits : start + ((inp.take (inputIdx + toCopy)).drop inputIdx).length ≤ block.length := by
    rw [hpiece, hblock]
    omega
  refine ⟨_, copyInto_of_le hfits, (length_splice hfits).trans hblock, ?_, ?_⟩
  · intro j hj
    rw [getElem?_splice hfits, if_neg (by omega)]
  · intro j hj hle hin
    rw [getElem?_splice hfits, hpiece, if_pos (by omega), List.getElem?_drop,
      List.getElem?_take_of_lt (by omega)]

theorem maskInput_spec {start : Nat} {block : Bytes} (len inputIdx : Nat)
    (hblock : block.length = kBlockSize) (hstart : start ≤ kBlockSize) (hidx : inputIdx + kBlockSize ≤ usizeMax) :
    ∃ ys, maskInput len inputIdx start block = some ys ∧ ys.length = kBlockSize
      ∧ ∀ j, ys[j]? = if start ≤ j ∧ j < kBlockSize then block[j]?.map (fun x =>
          if inputIdx + (j - start) < len then x
          else if inputIdx + (j - start) = len then 0x80 else 0) else block[j]? := by
  have hstep : ∀ k < kBlockSize - start, ∀ x : UInt8, (do
      let sum ← checkedAdd inputIdx (start + k)
      let idx ← exactSub sum start
      return (x &&& constantTimeLt8 idx len) ||| (0x80 &&& constantTimeEq8 idx len))
        = some (if inputIdx + k < len then x else if inputIdx + k = len then 0x80 else 0) := by
    intro k hk x
    have hadd : checkedAdd inputIdx (start + k) = some (inputIdx + (start + k)) := if_pos (by omega)
    have hsub : inputIdx + (start + k) - start = inputIdx + k := by omega
    simp only [hadd, exactSub_of_le (show start ≤ inputIdx + (start + k) by omega),
      Option.bind_eq_bind, Option.bind_some, hsub, mask_input, Option.pure_def]
  obtain ⟨ys, hys, hlen, hget⟩ := updateRange_spec hstep
    (show start + (kBlockSize - start) ≤ block.length by omega)
  refine ⟨ys, hys, hlen.trans hblock, fun j => ?_⟩
  rw [hget, show start + (kBlockSize - start) = kBlockSize by omega]

/-- How far into the input block number `i` starts. -/
def inputIndex (ctx : Sha512Ctx) (i : Nat) : Nat := if i = 0 then 0 else kBlockSize * i - ctx.num

/-- **A block is its part of what is hashed**, whatever the last one left in the buffer. -/
theorem inputBlock_spec {i : Nat} {block : Bytes} (hblock : block.length = kBlockSize)
    (hp : ctx.p.length = kBlockSize) (hnum : ctx.num < kBlockSize) (hle : len ≤ inp.length)
    (hidx : kBlockSize * (i + 1) ≤ usizeMax) :
    ∃ ys, inputBlock ctx inp len inp.length i (inputIndex ctx i) block = some ys
      ∧ ys.length = kBlockSize
      ∧ ∀ j < kBlockSize,
          ys[j]? = some (suffixByte (ctx.p.take ctx.num) inp len (kBlockSize * i + j)) := by
  have hfront : (ctx.p.take ctx.num).length = ctx.num := List.length_take_of_le (by omega)
  have hstart : blockStart ctx i ≤ kBlockSize := by
    unfold blockStart
    split <;> omega
  have hindex (j : Nat) (hj : blockStart ctx i ≤ j) :
      inputIndex ctx i + (j - blockStart ctx i) = kBlockSize * i + j - ctx.num
        ∧ ctx.num ≤ kBlockSize * i + j := by
    unfold inputIndex blockStart at *
    split at hj <;> rename_i hi
    · subst hi
      simp only [if_true]
      omega
    · rw [if_neg hi, if_neg hi]
      have hwhole : kBlockSize ≤ kBlockSize * i := Nat.le_mul_of_pos_right _ (by omega)
      omega
  -- Three passes over the block: what the context kept, the input behind it, the mask behind that.
  obtain ⟨b₁, hb₁, hlen₁, hfirst⟩ := loadContext_spec (i := i) hblock hp hnum
  obtain ⟨b₂, hb₂, hlen₂, hkept, hloaded⟩ := loadInput_spec (inputIndex ctx i) hlen₁ hstart
    (Nat.le_refl inp.length)
  obtain ⟨b₃, hb₃, hlen₃, hmasked⟩ := maskInput_spec len (inputIndex ctx i)
    hlen₂ hstart (by
      unfold inputIndex
      rw [Nat.mul_add, Nat.mul_one] at hidx
      split <;> omega)
  refine ⟨b₃, ?_, hlen₃, fun j hj => ?_⟩
  · simp only [inputBlock, hb₁, hb₂, hb₃, Option.bind_eq_bind, Option.bind_some]
  rw [hmasked]
  unfold suffixByte
  rw [hfront]
  -- Only block 0 has bytes from the context.
  by_cases hbefore : j < blockStart ctx i
  · have hi : i = 0 := by
      by_contra hi
      rw [blockStart, if_neg hi] at hbefore
      exact Nat.not_lt_zero _ hbefore
    subst hi
    rw [if_neg (by omega), hkept j hbefore, hfirst j hbefore, Nat.mul_zero, Nat.zero_add]
    rw [blockStart, if_pos rfl] at hbefore
    rw [if_pos hbefore, List.getElem?_eq_getElem (by omega)]
    rfl
  · obtain ⟨heq, hnext⟩ := hindex j (by omega)
    have hthere : j < b₂.length := by omega
    rw [if_pos (by omega), heq, if_neg (show ¬ kBlockSize * i + j < ctx.num by omega)]
    by_cases hin : kBlockSize * i + j - ctx.num < len
    · have hbyte := hloaded j hj (by omega) (by omega)
      rw [heq, List.getElem?_eq_getElem (show _ < inp.length by omega)] at hbyte
      rw [hbyte, Option.map_some, if_pos hin, if_pos hin,
        List.getElem?_eq_getElem (show _ < inp.length by omega)]
      rfl
    · rw [List.getElem?_eq_getElem hthere, Option.map_some, if_neg hin, if_neg hin]

/-! ### The loop -/

/-- Or-ing under a mask of zeros changes nothing. -/
theorem orMasked_off {src dst : Bytes} {a b i n : Nat} (hne : a ≠ b) (hsrc : n ≤ src.length)
    (hdst : i + n ≤ dst.length) : orMasked (constantTimeEqW a b) src dst i n = some dst := by
  obtain ⟨ys, hys, -, hget⟩ := orMasked_spec a b hsrc hdst
  rw [hys]
  congr 1
  refine List.ext_getElem? fun j => ?_
  rw [hget, if_neg hne]
  split
  · cases dst[j]? <;> simp
  · rfl

/-- Or-ing into zeros under a mask of ones is a copy. -/
theorem orMasked_zeros {src : Bytes} {a n : Nat} (hsrc : n ≤ src.length) :
    orMasked (constantTimeEqW a a) src (List.replicate n 0) 0 n = some (src.take n) := by
  obtain ⟨ys, hys, -, hget⟩ := orMasked_spec a a hsrc
    (show 0 + n ≤ (List.replicate n (0 : UInt8)).length by rw [List.length_replicate]; omega)
  rw [hys]
  congr 1
  refine List.ext_getElem? fun j => ?_
  rw [hget, List.getElem?_take, List.getElem?_replicate, if_pos rfl]
  by_cases hj : j < n
  · rw [if_pos (by omega), if_pos hj, if_pos hj, List.getElem?_eq_getElem (by omega)]
    simp [List.getElem?_eq_getElem (show j < src.length by omega)]
  · rw [if_neg (by omega), if_neg hj, if_neg hj]

/-- What is hashed is `last + 1` blocks. -/
structure Laid (ctx : Sha512Ctx) (inp : Bytes) (len zeros : Nat) (field : Bytes) (last : Nat) :
    Prop where
  p : ctx.p.length = kBlockSize
  num : ctx.num < kBlockSize
  le : len ≤ inp.length
  field : field.length = kLengthFieldSize
  blocks : ctx.num + len + 1 + zeros + kLengthFieldSize = kBlockSize * (last + 1)

variable {zeros last : Nat} {field : Bytes}

/-- With the length, a block up to the last one is the block of that number. -/
theorem lengthBlock_spec (hl : Laid ctx inp len zeros field last) {i : Nat} {b : Bytes}
    (hb : b.length = kBlockSize)
    (hget : ∀ j < kBlockSize,
      b[j]? = some (suffixByte (ctx.p.take ctx.num) inp len (kBlockSize * i + j))) :
    ∃ ys, orMasked (constantTimeEqW i last) field b (kBlockSize - kLengthFieldSize)
        kLengthFieldSize = some ys ∧ ys.length = kBlockSize
      ∧ (i ≤ last →
          ys = block kBlockSize (suffixBytes (ctx.p.take ctx.num) inp len zeros field) i) := by
  have hfront : (ctx.p.take ctx.num).length = ctx.num :=
    List.length_take_of_le (by rw [hl.p]; exact Nat.le_of_lt hl.num)
  have hfield := hl.field
  have hblocks := hl.blocks
  rw [kLengthFieldSize] at hfield hblocks
  obtain ⟨ys, hys, hlen, hor⟩ := orMasked_spec i last (Nat.le_of_eq hl.field.symm)
    (show kBlockSize - kLengthFieldSize + kLengthFieldSize ≤ b.length from Nat.le_of_eq hb.symm)
  have hor : ∀ j, ys[j]? = if 112 ≤ j ∧ j < 128 then
      b[j]?.map (· ||| if i = last then (field[j - 112]?).getD 0 else 0) else b[j]? := hor
  refine ⟨ys, hys, hlen.trans hb, fun hi => List.ext_getElem? fun j => ?_⟩
  rw [hb] at hlen
  simp only [kBlockSize] at *
  rw [getElem?_block, getElem?_suffixBytes hl.le, hfront]
  by_cases hj : j < 128
  case neg =>
    rw [if_neg hj]
    exact List.getElem?_eq_none (by omega)
  rw [hor, if_pos hj, hget j hj]
  rw [Nat.mul_add] at hblocks
  by_cases hlast : i = last
  · subst hlast
    by_cases htail : 112 ≤ j
    · have hbyte : field[j - 112]? = some field[j - 112] := List.getElem?_eq_getElem (by omega)
      rw [if_pos ⟨htail, hj⟩, if_neg (show ¬ 128 * i + j < ctx.num + len + 1 + zeros by omega),
        suffixByte_past (by rw [hfront]; omega),
        show 128 * i + j - (ctx.num + len + 1 + zeros) = j - 112 by omega, hbyte]
      simp
    · rw [if_neg (by omega), if_pos (by omega)]
  · have hnext : 128 * (i + 1) ≤ 128 * last := Nat.mul_le_mul_left _ (by omega)
    rw [if_neg hlast, if_pos (show 128 * i + j < ctx.num + len + 1 + zeros by omega)]
    split
    · simp
    · rfl

/-- After `i` blocks: the state is that of the first `i` blocks, as long as there are so many, and the
result is still zero, or already the digest. -/
structure Hashed (C : Compression) (ctx : Sha512Ctx) (bytes : Bytes) (last i : Nat)
    (st : SuffixState) : Prop where
  block : st.block.length = kBlockSize
  inputIdx : st.inputIdx = inputIndex ctx i
  h : i ≤ last + 1 → st.h = foldBlocks C.transform kBlockSize ctx.h bytes i
  result : st.result = if i ≤ last then List.replicate sha384DigestLength 0
    else (foldBlocks C.transform kBlockSize ctx.h bytes (last + 1)).bytes.take sha384DigestLength

/-- **One block.** -/
theorem suffixBlock_spec (hl : Laid ctx inp len zeros field last) {i : Nat} {st : SuffixState}
    (h : Hashed C ctx (suffixBytes (ctx.p.take ctx.num) inp len zeros field) last i st)
    (hidx : kBlockSize * (i + 1) ≤ usizeMax) :
    ∃ st', suffixBlock C ctx inp len inp.length last field i st = some st'
      ∧ Hashed C ctx (suffixBytes (ctx.p.take ctx.num) inp len zeros field) last (i + 1) st' := by
  have hnum := hl.num
  obtain ⟨b₁, hb₁, hlen₁, hget₁⟩ := inputBlock_spec h.block hl.p hl.num hl.le hidx
  obtain ⟨b₂, hb₂, hlen₂, heq⟩ := lengthBlock_spec hl hlen₁ hget₁
  have hnext : st.inputIdx + (kBlockSize - blockStart ctx i) = inputIndex ctx (i + 1) := by
    rw [h.inputIdx]
    unfold inputIndex blockStart
    by_cases hi : i = 0
    · subst hi
      simp
    · have hwhole : kBlockSize ≤ kBlockSize * i := Nat.le_mul_of_pos_right _ (by omega)
      rw [if_neg hi, if_neg hi, if_neg (Nat.succ_ne_zero i), Nat.mul_add]
      omega
  have hadd : checkedAdd st.inputIdx (kBlockSize - blockStart ctx i)
      = some (inputIndex ctx (i + 1)) := by
    rw [checkedAdd, hnext, if_pos]
    unfold inputIndex
    split <;> omega
  have hstore := storeWords_eq (C.transform st.h b₂) hlen₂ (Nat.le_refl 8)
  rw [List.take_of_length_le (Nat.le_of_eq Vector.length_toList)] at hstore
  have hfits : 0 + (C.transform st.h b₂).bytes.length ≤ b₂.length := by
    rw [Words.length_bytes, hlen₂, kBlockSize]
    omega
  set b₃ := splice b₂ 0 (C.transform st.h b₂).bytes with hb₃
  have hlen₃ : b₃.length = kBlockSize := (length_splice hfits).trans hlen₂
  have hresultLen : st.result.length = sha384DigestLength := by
    rw [h.result]
    split
    · exact List.length_replicate ..
    · rw [List.length_take, Words.length_bytes]
      rfl
  have hdigest : sha384DigestLength ≤ b₃.length := by
    rw [hlen₃, sha384DigestLength, kBlockSize]
    omega
  -- The mask lets through the state after block `last` alone.
  obtain ⟨res, hres, hresult⟩ : ∃ res, orMasked (constantTimeEqW i last) b₃ st.result 0
      sha384DigestLength = some res ∧ res = if i = last then b₃.take sha384DigestLength
        else st.result := by
    by_cases hi : i = last
    · subst hi
      rw [h.result, if_pos (Nat.le_refl i), orMasked_zeros hdigest, if_pos rfl]
      exact ⟨_, rfl, rfl⟩
    · rw [orMasked_off hi hdigest (by omega), if_neg hi]
      exact ⟨_, rfl, rfl⟩
  refine ⟨⟨C.transform st.h b₂, b₃, res, inputIndex ctx (i + 1)⟩, ?_, hlen₃, rfl, ?_, ?_⟩
  · have hinput : inputBlock ctx inp len inp.length i st.inputIdx st.block = some b₁ := by
      rw [h.inputIdx]
      exact hb₁
    have hstore' : storeWords b₂ (C.transform st.h b₂) 8 = some b₃ := hstore
    simp only [suffixBlock, hinput, hadd, hb₂, hstore', hres, Option.bind_eq_bind,
      Option.bind_some, Option.pure_def]
  · intro hi
    rw [heq (by omega), h.h (by omega), foldBlocks]
  · rw [hresult]
    by_cases hi : i = last
    · subst hi
      have hwords : b₃.take sha384DigestLength
          = (C.transform st.h b₂).bytes.take sha384DigestLength := by
        rw [hb₃, splice, List.take_zero, List.nil_append,
          List.take_append_of_le_length (by rw [Words.length_bytes]; decide)]
      rw [if_pos rfl, if_neg (Nat.not_succ_le_self i), hwords, heq (Nat.le_refl i),
        h.h (Nat.le_succ i), foldBlocks]
    · rw [if_neg hi, h.result]
      by_cases hle : i ≤ last
      · rw [if_pos hle, if_pos (by omega)]
      · rw [if_neg hle, if_neg (by omega)]

/-- The loop, up to any block. -/
theorem suffixLoop_spec (C : Compression) (hl : Laid ctx inp len zeros field last) {n : Nat}
    (hn : kBlockSize * n ≤ usizeMax) :
    ∃ st, suffixLoop C ctx inp len inp.length last field n = some st
      ∧ Hashed C ctx (suffixBytes (ctx.p.take ctx.num) inp len zeros field) last n st := by
  induction n with
  | zero =>
      exact ⟨_, rfl, List.length_replicate .., rfl, fun _ => rfl, (if_pos (Nat.zero_le last)).symm⟩
  | succ n ih =>
      have hle : kBlockSize * n ≤ usizeMax :=
        Nat.le_trans (Nat.mul_le_mul_left _ (Nat.le_succ n)) hn
      obtain ⟨st, hst, hh⟩ := ih hle
      obtain ⟨st', hst', hh'⟩ := suffixBlock_spec hl hh hn
      exact ⟨st', by simp only [suffixLoop, hst, hst', Option.bind_eq_bind, Option.bind_some], hh'⟩

/-! ### The function -/

theorem kMaxBytes_eq : kMaxBytes = 0x1fffffffffffffff := rfl

theorem countBlocks_eq {num n : Nat}
    (h : num + n + 1 + kLengthFieldSize + kBlockSize ≤ usizeMax) :
    countBlocks num n = some (blockCount (num + n)) := by
  simp only [countBlocks, checkedAdd, Option.bind_eq_bind]
  rw [if_pos (by omega), Option.bind_some, if_pos (by omega), Option.bind_some,
    if_pos (by omega), Option.bind_some, if_pos (by omega), Option.bind_some,
    exactSub_of_le (by omega), Option.bind_some]
  rfl

/-- The code's length field has only its low half, which is enough for what its check admits. -/
theorem lengthBytes_eq {low len : Nat} (h : low + len ≤ kMaxBytes) :
    lengthBytes low len = some (lengthField (low + len)) := by
  rw [kMaxBytes_eq] at h
  have hadd : checkedAdd low len = some (low + len) := if_pos (by rw [usizeMax]; omega)
  have hmul : checkedMul 8 (low + len) = some (8 * (low + len)) := if_pos (by rw [usizeMax]; omega)
  have hhigh : 8 * (low + len) / 2 ^ 64 = 0 := Nat.div_eq_of_lt (by omega)
  simp only [lengthBytes, hadd, hmul, Option.bind_eq_bind, Option.bind_some, lengthField, hhigh]
  rw [copyInto_of_le (by rw [length_be64, List.length_replicate]; decide)]
  rfl

/-- The check admits a message if it and all that may follow are within `kMaxBytes`. -/
theorem withinBounds_eq {msg : Bytes} (habs : Absorbed C ctx msg) (len maxLen : Nat) :
    withinBounds ctx len maxLen
      = some (decide (len ≤ maxLen ∧ msg.length + maxLen ≤ kMaxBytes)) := by
  have hnum : ctx.num < kBlockSize := habs.num ▸ Nat.mod_lt _ (by decide)
  have hlow := habs.low
  have hhigh := habs.high
  unfold withinBounds
  rw [kMaxBytes_eq]
  by_cases hout : maxLen < len ∨ ctx.mdLen ≠ sha384DigestLength ∨ kBlockSize ≤ ctx.num
      ∨ ctx.bytesSoFarHigh ≠ 0 ∨ 0x1fffffffffffffff < ctx.bytesSoFarLow
  · rw [if_pos hout]
    congr 1
    refine (decide_eq_false ?_).symm
    rintro ⟨hle, hmax⟩
    rcases hout with h | h | h | h | h
    · omega
    · exact h habs.mdLen
    · omega
    · rw [hhigh] at h
      omega
    · omega
  rw [if_neg hout]
  have hmsg : ctx.bytesSoFarLow = msg.length := by omega
  rw [exactSub_of_le (by omega), Option.bind_eq_bind, Option.bind_some]
  by_cases hroom : 0x1fffffffffffffff - ctx.bytesSoFarLow < maxLen
  · rw [if_pos hroom]
    congr 1
    exact (decide_eq_false fun h => by omega).symm
  rw [if_neg hroom]
  simp only [kBlockSize, kLengthFieldSize, usizeMax] at *
  rw [exactSub_of_le (by omega), Option.bind_some, exactSub_of_le (by omega), Option.bind_some,
    exactSub_of_le (by omega), Option.bind_some, exactSub_of_le (by omega), Option.bind_some]
  congr 1
  rw [decide_eq_decide]
  omega

/-- **The secret suffix is hashed as any other.**  From a context that has absorbed `msg`, the function
returns the SHA-384 of `msg` and the first `len` bytes, whatever the others are; only its own check
makes it return 0, and no access is out of range and no size overflows. -/
theorem sha384FinalWithSecretSuffix_eq {msg : Bytes} (habs : Absorbed C ctx msg) (inp : Bytes)
    (len : Nat) :
    sha384FinalWithSecretSuffix C ctx inp len inp.length
      = some (if len ≤ inp.length ∧ msg.length + inp.length ≤ kMaxBytes then
          some (C.sha384 (msg ++ inp.take len)) else none) := by
  unfold sha384FinalWithSecretSuffix
  rw [withinBounds_eq habs, Option.bind_eq_bind, Option.bind_some]
  by_cases hin : len ≤ inp.length ∧ msg.length + inp.length ≤ kMaxBytes
  case neg => simp [hin]
  obtain ⟨hle, hmax⟩ := hin
  have hnum : ctx.num < kBlockSize := habs.num ▸ Nat.mod_lt _ (by decide)
  have hlow : ctx.bytesSoFarLow = msg.length := by
    rw [habs.low, Nat.mod_eq_of_lt]
    rw [kMaxBytes_eq] at hmax
    omega
  have htake : (inp.take len).length = len := List.length_take_of_le hle
  have htotal : (msg ++ inp.take len).length = msg.length + len := by
    rw [List.length_append, htake]
  have hfront : ctx.p.take ctx.num = tail msg := habs.p
  have hin : len ≤ inp.length ∧ msg.length + inp.length ≤ kMaxBytes := ⟨hle, hmax⟩
  simp only [decide_eq_true hin, if_pos hin, Bool.not_true, Bool.false_eq_true, if_false]
  -- The function's own check bounds every sum and product that follows.
  have hfitsLen : ctx.num + len + 1 + kLengthFieldSize + kBlockSize ≤ usizeMax := by
    rw [kMaxBytes_eq] at hmax
    simp only [kBlockSize, kLengthFieldSize, usizeMax] at *
    omega
  have hfitsMax : ctx.num + inp.length + 1 + kLengthFieldSize + kBlockSize ≤ usizeMax := by
    rw [kMaxBytes_eq] at hmax
    simp only [kBlockSize, kLengthFieldSize, usizeMax] at *
    omega
  have hlast : 1 ≤ blockCount (ctx.num + len) := by
    rw [blockCount, kLengthFieldSize, kBlockSize]
    omega
  have hmore : blockCount (ctx.num + len) ≤ blockCount (ctx.num + inp.length) :=
    Nat.div_le_div_right (by omega)
  have hbits : ctx.bytesSoFarLow + len ≤ kMaxBytes := by omega
  simp only [countBlocks_eq hfitsLen, countBlocks_eq hfitsMax, lengthBytes_eq hbits,
    exactSub_of_le hlast, Option.bind_eq_bind, Option.bind_some]
  have hl : Laid ctx inp len (zeroCount (msg.length + len)) (lengthField (ctx.bytesSoFarLow + len))
      (blockCount (ctx.num + len) - 1) :=
    { p := habs.size
      num := hnum
      le := hle
      field := length_lengthField _
      blocks := by
        rw [Nat.sub_add_cancel hlast, habs.num, blockCount, zeroCount, kLengthFieldSize, kBlockSize]
        omega }
  have hrounds : kBlockSize * blockCount (ctx.num + inp.length) ≤ usizeMax := by
    have := Nat.mul_div_le (ctx.num + inp.length + 1 + kLengthFieldSize + kBlockSize - 1) kBlockSize
    rw [blockCount]
    omega
  obtain ⟨st, hst, hh⟩ := suffixLoop_spec C hl hrounds
  have hresult := hh.result
  rw [if_neg (by omega), Nat.sub_add_cancel hlast] at hresult
  rw [hst, Option.bind_some, hresult, C.sha384_append, htotal, htake, habs.h, hfront, hlow,
    habs.num, suffixBytes]
  rfl

end Suffix

end Btls.Cbc
