import Btls.Support.Slices
import Btls.Support.Usize
import Btls.Stream.Buffers

/-!
# Stream — Packer

How one write is cut into the plaintext of successive records: the `Packer` that `ssl_write_records`
drives, `advance_slices`, and the budget of one seal.

A packer has the caller's slices, a cursor in them and the limit of a record; the limit falls when
BoringSSL seals less than it was given.  `pack` chooses how long a record is, at most the limit, and
how far it reaches into the slices: what one slice fills is not copied, and of a large slice no
prefix is copied to fill a record.  `gather` copies what was chosen, so that both go by the same
bytes has to be shown.

All that the stream needs of the packer is `Packer.nextRecord_none` and `Packer.nextRecord_some`,
that the next record is a non-empty prefix of the bytes not sealed yet, and `Packer.advance_spec`.
-/

namespace Btls.Stream

open Btls.Support Btls.Support.Slices

/-- Plaintext to seal in one call: stop once about `WRITE_BUF_CAPACITY` of ciphertext is buffered,
but take a final tail of at most `MAX_RECORD` bytes too. -/
def sealBudget (fragment overhead pending buffered total : Nat) : Nat :=
  let room := writeBufCapacity - buffered - pending
  let records := max (divCeil room (max (saturatingAdd fragment overhead) 1)) 1
  let cap := saturatingMul records fragment
  if total - cap ≤ maxRecord then total else cap

/-- `IoSlice::advance_slices`, short of its panic where `n` exceeds the slices. -/
def advanceSlices : List Bytes → Nat → List Bytes
  | [], _ => []
  | b :: bs, n => if b.length ≤ n then advanceSlices bs (n - b.length) else b.drop n :: bs

theorem advanceSlices_flatten (bufs : List Bytes) (n : Nat) :
    (advanceSlices bufs n).flatten = bufs.flatten.drop n := by
  induction bufs generalizing n with
  | nil => simp [advanceSlices]
  | cons b bs ih =>
      unfold advanceSlices
      split
      · rename_i hle
        rw [ih, List.flatten_cons, List.drop_append, List.drop_eq_nil_of_le hle, List.nil_append]
      · rename_i hlt
        rw [List.flatten_cons, List.flatten_cons, List.drop_append_of_le_length (by omega)]

/-- `bufs.iter().fold(0usize, |n, b| n.saturating_add(b.len()))`. -/
def totalLen (bufs : List Bytes) : Nat :=
  bufs.foldl (fun n b => saturatingAdd n b.length) 0

theorem totalLen_eq (bufs : List Bytes) : totalLen bufs = min bufs.flatten.length usizeMax := by
  suffices h : ∀ n, bufs.foldl (fun n b => saturatingAdd n b.length) (min n usizeMax)
      = min (n + bufs.flatten.length) usizeMax by
    simpa [totalLen] using h 0
  induction bufs with
  | nil => simp
  | cons b bs ih =>
      intro n
      have hsat : saturatingAdd (min n usizeMax) b.length = min (n + b.length) usizeMax := by
        unfold saturatingAdd
        omega
      rw [List.foldl_cons, hsat, ih, List.flatten_cons, List.length_append, Nat.add_assoc]

theorem totalLen_eq_zero (bufs : List Bytes) : totalLen bufs = 0 ↔ bufs.flatten = [] := by
  rw [totalLen_eq, ← List.length_eq_zero_iff, usizeMax]
  omega

/-! ### The packer -/

/-- Packs the slices of one write into the plaintext of successive records.  The next unsealed
byte is `bufs[i][off]`.  `limit` is the largest record to pack: `MAX_RECORD` until a short seal
reveals a smaller send fragment. -/
structure Packer where
  bufs : List Bytes
  i : Nat
  off : Nat
  limit : Nat

namespace Packer

def new (bufs : List Bytes) : Packer := ⟨bufs, 0, 0, maxRecord⟩

/-- The bytes not sealed yet. -/
def unsealed (p : Packer) : Bytes := unread p.bufs p.i p.off

/-- The loop of `pack` over the slices after the head: the record's length, the end of the grouped
slices, and a prefix of the next. -/
def packLoop (limit headLen : Nat) : List Bytes → Nat → Nat → Nat × Nat × Nat
  | [], len, stop => (len, stop, 0)
  | b :: bs, len, stop =>
      if len < limit then
        if len + b.length ≤ limit then packLoop limit headLen bs (len + b.length) (stop + 1)
        -- Avoid copying a prefix from slices larger than half a record to fill it; an isolated
        -- head and final slice already need two records.
        else if b.length ≤ limit / 2 ∧ (headLen < len ∨ bs.any (!·.isEmpty)) then
          (limit, stop, limit - len)
        else (len, stop, 0)
      else (len, stop, 0)

/-- Chooses a record length of at most `limit`, the end of grouped slices, and a prefix of the
next slice, for the head `bufs[i][off..]`. -/
def pack (p : Packer) (head : Bytes) : Nat × Nat × Nat :=
  let headLen := min head.length p.limit
  packLoop p.limit headLen (p.bufs.drop (p.i + 1)) headLen (p.i + 1)

/-- Copies `head`, the whole slices up to `stop` and `tail` bytes of `bufs[stop]`. -/
def gather (p : Packer) (head : Bytes) (stop tail : Nat) : Bytes :=
  head ++ ((p.bufs.take stop).drop (p.i + 1)).flatten
    ++ ((p.bufs.drop stop).headD []).take tail

/-- Skips empty slices and returns the plaintext of the next record, or `none` once every slice is
sealed. -/
def nextRecord (p : Packer) : Option (Bytes × Packer) :=
  match skip (p.bufs.drop p.i) p.i p.off with
  | none => none
  | some (i, off) =>
      let p := { p with i, off }
      let head := ((p.bufs.drop i).headD []).drop off
      let (len, stop, tail) := p.pack head
      if len = min head.length p.limit then some (head.take len, p)
      else some (p.gather head stop tail, p)

/-- Moves past `n` sealed bytes. -/
def advance (p : Packer) (n : Nat) : Packer :=
  let (i, off) := seek (p.bufs.drop p.i) p.i p.off n
  { p with i, off }

/-- The cursor is within its slice and there is room in a record. -/
structure Valid (p : Packer) : Prop where
  within : Within p.bufs p.i p.off
  limit_pos : 0 < p.limit

theorem valid_new (bufs : List Bytes) : (new bufs).Valid := ⟨within_zero, show 0 < maxRecord by decide⟩

@[simp] theorem unsealed_new (bufs : List Bytes) : (new bufs).unsealed = bufs.flatten :=
  unread_zero

/-- What `packLoop` adds to a record of `len` bytes is a prefix of the slices it is given. -/
theorem packLoop_spec {limit headLen len' stop' tail : Nat} {d : List Bytes} {len stop : Nat}
    (hlen : len ≤ limit) (h : packLoop limit headLen d len stop = (len', stop', tail)) :
    len ≤ len' ∧ len' ≤ limit ∧ (len < len' → len < limit) ∧ stop ≤ stop'
      ∧ (d.take (stop' - stop)).flatten ++ ((d.drop (stop' - stop)).headD []).take tail
          = d.flatten.take (len' - len)
      ∧ len' - len ≤ d.flatten.length := by
  induction d generalizing len stop with
  | nil =>
      obtain ⟨rfl, rfl, rfl⟩ : _ ∧ _ ∧ _ := by simpa [packLoop] using h
      simp [hlen]
  | cons b bs ih =>
      unfold packLoop at h
      -- A record that takes nothing more.
      have stay (h : (len, stop, 0) = (len', stop', tail)) : len ≤ len' ∧ len' ≤ limit
          ∧ (len < len' → len < limit) ∧ stop ≤ stop'
          ∧ ((b :: bs).take (stop' - stop)).flatten
              ++ (((b :: bs).drop (stop' - stop)).headD []).take tail
              = (b :: bs).flatten.take (len' - len)
          ∧ len' - len ≤ (b :: bs).flatten.length := by
        obtain ⟨rfl, rfl, rfl⟩ : _ ∧ _ ∧ _ := by simpa using h
        simp [hlen]
      split at h
      · rename_i hlt
        split at h
        · rename_i hfit
          obtain ⟨h₁, h₂, -, h₄, h₅, h₆⟩ := ih hfit h
          have hs : stop' - stop = (stop' - (stop + 1)) + 1 := by omega
          have hl : len' - len = b.length + (len' - (len + b.length)) := by omega
          refine ⟨by omega, h₂, fun _ => hlt, by omega, ?_, ?_⟩
          · rw [hs, hl, List.take_succ_cons, List.drop_succ_cons, List.flatten_cons,
              List.append_assoc, h₅, List.flatten_cons, List.take_length_add_append]
          · rw [List.flatten_cons, List.length_append]; omega
        · rename_i hover
          split at h
          · obtain ⟨rfl, rfl, rfl⟩ : _ ∧ _ ∧ _ := by simpa using h
            refine ⟨hlen, Nat.le_refl _, id, Nat.le_refl _, ?_, ?_⟩
            · simp [List.take_append_of_le_length (show limit - len ≤ b.length by omega)]
            · rw [List.flatten_cons, List.length_append]; omega
          · exact stay h
      · exact stay h

theorem nextRecord_none {p : Packer} (hp : p.Valid) (h : p.nextRecord = none) :
    p.unsealed = [] := by
  have hskip := skip_spec hp.within
  unfold nextRecord at h
  rcases hs : skip (p.bufs.drop p.i) p.i p.off with _ | ⟨i, off⟩
  · rw [hs] at hskip
    exact hskip
  · rw [hs] at h
    simp only at h
    split at h <;> cases h

/-- Where `nextRecord` puts the cursor, and how long the record is that it packs there. -/
theorem nextRecord_pack {p p' : Packer} {record : Bytes} (hp : p.Valid)
    (h : p.nextRecord = some (record, p')) :
    ∃ i off b bs, p' = { p with i, off } ∧ skip (p.bufs.drop p.i) p.i p.off = some (i, off)
      ∧ p.bufs.drop i = b :: bs ∧ off < b.length ∧ p.unsealed = b.drop off ++ bs.flatten
      ∧ record = p.unsealed.take record.length ∧ record.length = (p'.pack (b.drop off)).1 := by
  have hskip := skip_spec hp.within
  unfold nextRecord at h
  rcases hs : skip (p.bufs.drop p.i) p.i p.off with _ | ⟨i, off⟩
  · rw [hs] at h
    cases h
  rw [hs] at hskip h
  obtain ⟨hun, b, bs, hd, hoff⟩ := hskip
  have hrest : p.unsealed = b.drop off ++ bs.flatten := by
    rw [unsealed, ← hun, unread_of_drop hd (Nat.le_of_lt hoff)]
  simp only [hd, List.headD_cons] at h
  rcases hpack : pack { p with i, off } (b.drop off) with ⟨len, stop, tail⟩
  obtain ⟨hle, -, hgrow, hstop, hcut, hcutLen⟩ := packLoop_spec (Nat.min_le_right _ _) hpack
  simp only [drop_succ_of_drop hd] at hle hgrow hstop hcut hcutLen
  rw [hpack] at h
  have hrecord : record = p.unsealed.take len ∧ p' = { p with i, off } := by
    split at h <;> obtain ⟨rfl, rfl⟩ := Prod.mk.inj (Option.some.inj h)
    · rename_i hlen
      exact ⟨by rw [hrest, List.take_append_of_le_length (by omega)], rfl⟩
    · rename_i hlen
      -- The record spans slices, so the whole head is in it.
      have hfull : min (b.drop off).length p.limit = (b.drop off).length := by omega
      have hl : len = (b.drop off).length + (len - (b.drop off).length) := by omega
      have hslices : (p.bufs.take stop).drop (i + 1) = bs.take (stop - (i + 1)) := by
        rw [List.drop_take, drop_succ_of_drop hd]
      have hnext : p.bufs.drop stop = bs.drop (stop - (i + 1)) := by
        rw [← drop_succ_of_drop hd, List.drop_drop]
        congr 1
        omega
      rw [hfull] at hcut
      rw [gather, hslices, hnext, List.append_assoc, hcut, hrest, hl,
        List.take_length_add_append]
      simp
  obtain ⟨hrec, rfl⟩ := hrecord
  have hlen : record.length = len := by
    rw [hrec, hrest, List.length_take, List.length_append]
    omega
  refine ⟨i, off, b, bs, rfl, rfl, hd, hoff, hrest, by rw [hlen]; exact hrec, ?_⟩
  rw [hpack]
  exact hlen

/-- **The next record is a non-empty prefix of the bytes not sealed yet.** -/
theorem nextRecord_some {p p' : Packer} {record : Bytes} (hp : p.Valid)
    (h : p.nextRecord = some (record, p')) :
    p'.Valid ∧ p'.unsealed = p.unsealed ∧ p'.limit = p.limit
      ∧ 0 < record.length ∧ record.length ≤ p.limit
      ∧ record = p.unsealed.take record.length := by
  obtain ⟨i, off, b, bs, rfl, -, hd, hoff, hrest, htake, hlen⟩ := nextRecord_pack hp h
  rcases hpack : pack { p with i, off } (b.drop off) with ⟨len, stop, tail⟩
  obtain ⟨hle, hlimit, -⟩ := packLoop_spec (Nat.min_le_right _ _) hpack
  have hlim := hp.limit_pos
  have hpos : 0 < (b.drop off).length := by rw [List.length_drop]; omega
  have hwithin : Within p.bufs i off := by
    intro b' hb'
    obtain rfl : b' = b := by simpa [getElem?_of_drop hd] using hb'.symm
    omega
  rw [hpack] at hlen
  simp only at hle hlimit hlen
  refine ⟨⟨hwithin, hlim⟩, ?_, rfl, by omega, by omega, htake⟩
  rw [hrest, unsealed, unread_of_drop hd (Nat.le_of_lt hoff)]

theorem advance_spec {p : Packer} (hp : p.Valid) {n : Nat} (hn : n ≤ p.unsealed.length) :
    (p.advance n).Valid ∧ (p.advance n).unsealed = p.unsealed.drop n := by
  obtain ⟨h₁, h₂⟩ := seek_spec hp.within hn
  exact ⟨⟨h₂, hp.limit_pos⟩, h₁⟩

end Packer

end Btls.Stream
