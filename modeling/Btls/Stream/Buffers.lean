import Btls.Support.Usize
import Btls.Stream.Transport

/-!
# Stream — Buffers

The two ciphertext buffers between BoringSSL and the transport.  Each carries the invariant its
`pos` is documented with: `pos < bytes.len()` unless both are 0.

What an operation does to the records is stated once, by one equation on the bytes the transport
took and the bytes still buffered; how `makeRoom` compacts and what the allocator grows to never
shows in it.

* `ReadBuffer.read_spec`: a read hands out the transport's bytes in order.
* `WriteBuffer.drain_spec`: a drain takes off the buffer what the transport took, whether it
  succeeds, is refused half-way or fails; so with a retry.
* `WriteBuffer.writeLast_spec`: the last record of a write follows the buffered ones, in what the
  transport took or in what stays.
-/

namespace Btls.Stream

open Btls.Support

/-- `READ_BUF_CAPACITY`. -/
def readBufCapacity : Nat := 17 * 1024

/-- `WRITE_BUF_CAPACITY`. -/
def writeBufCapacity : Nat := 64 * 1024

/-- `MAX_RECORD`. -/
def maxRecord : Nat := 16 * 1024

/-- `RECORD_OVERHEAD`. -/
def recordOverhead : Nat := 64

/-! ### Vectors -/

/-- How far a vector of capacity `capacity` grows to hold `need` bytes. -/
structure Allocator where
  grow : (capacity need : Nat) → Nat
  le_grow : ∀ capacity need, need ≤ grow capacity need

/-- `Vec<u8>`. -/
structure Vec where
  bytes : Bytes
  capacity : Nat
  length_le : bytes.length ≤ capacity

namespace Vec

def new : Vec := ⟨[], 0, Nat.le_refl 0⟩

def len (v : Vec) : Nat := v.bytes.length

def reserve (a : Allocator) (v : Vec) (extra : Nat) : Vec :=
  if v.capacity - v.len < extra then
    { v with
      capacity := a.grow v.capacity (v.len + extra)
      length_le := Nat.le_trans (Nat.le_add_right _ extra) (a.le_grow _ _) }
  else v

/-- Reserving changes no byte. -/
@[simp] theorem reserve_bytes (a : Allocator) (v : Vec) (extra : Nat) :
    (v.reserve a extra).bytes = v.bytes := by
  unfold reserve
  split <;> rfl

/-- And leaves room for what was asked. -/
theorem reserve_spare (a : Allocator) (v : Vec) (extra : Nat) :
    v.len + extra ≤ (v.reserve a extra).capacity := by
  have hle : v.len ≤ v.capacity := v.length_le
  unfold reserve
  split
  · exact a.le_grow _ _
  · omega

/-- Copies `extra` into the spare capacity, and `set_len`. -/
def setLen (v : Vec) (extra : Bytes) (h : v.len + extra.length ≤ v.capacity) : Vec :=
  ⟨v.bytes ++ extra, v.capacity, by simpa [len] using h⟩

/-- The spare bytes that were written become the end. -/
@[simp] theorem setLen_bytes {v : Vec} {extra : Bytes} {h : v.len + extra.length ≤ v.capacity} :
    (v.setLen extra h).bytes = v.bytes ++ extra := rfl

def extendFromSlice (a : Allocator) (v : Vec) (extra : Bytes) : Vec :=
  (v.reserve a extra.length).setLen extra (by
    have := v.reserve_spare a extra.length
    simpa [len] using this)

/-- A slice is appended whole. -/
@[simp] theorem extendFromSlice_bytes (a : Allocator) (v : Vec) (extra : Bytes) :
    (v.extendFromSlice a extra).bytes = v.bytes ++ extra := by
  simp [extendFromSlice]

/-- `copy_within(n.., 0)`, then `truncate(len - n)`. -/
def dropFront (v : Vec) (n : Nat) : Vec :=
  ⟨v.bytes.drop n, v.capacity, by
    rw [List.length_drop]
    exact Nat.le_trans (Nat.sub_le _ _) v.length_le⟩

def clear (v : Vec) : Vec := ⟨[], v.capacity, Nat.zero_le _⟩

end Vec

/-! ### The read buffer -/

/-- Ciphertext read from the transport but not yet taken by BoringSSL. -/
structure ReadBuffer where
  bytes : Bytes
  pos : Nat
  pos_lt : pos = 0 ∨ pos < bytes.length

namespace ReadBuffer

def empty : ReadBuffer := ⟨[], 0, .inl rfl⟩

def isEmpty (b : ReadBuffer) : Bool := b.bytes.isEmpty

/-- The ciphertext waiting. -/
def buffered (b : ReadBuffer) : Bytes := b.bytes.drop b.pos

/-- A drained buffer has been released, so it has nothing waiting if and only if it is empty. -/
theorem buffered_eq_nil (b : ReadBuffer) : b.buffered = [] ↔ b.isEmpty = true := by
  have h := b.pos_lt
  rw [buffered, List.drop_eq_nil_iff, isEmpty, List.isEmpty_iff, ← List.length_eq_zero_iff]
  omega

/-- Moves past `n` bytes and releases the buffer if that drains it. -/
def advance (b : ReadBuffer) (n : Nat) : ReadBuffer :=
  if h : b.pos + n < b.bytes.length then ⟨b.bytes, b.pos + n, .inr h⟩ else empty

theorem buffered_advance (b : ReadBuffer) (n : Nat) :
    (b.advance n).buffered = b.buffered.drop n := by
  unfold advance
  split
  · simp [buffered]
  · rename_i h
    have hd : b.bytes.drop (b.pos + n) = [] := List.drop_eq_nil_of_le (by omega)
    rw [buffered, buffered, List.drop_drop, hd]
    rfl

variable {τ : Type} (io : AsyncStream τ) (a : Allocator)

/-- Fills the empty buffer with one read of the transport.  An empty buffer holds no allocation,
so the read is offered what a fresh vector reserves. -/
def fill (t : Transport τ) : Except IoError Unit × ReadBuffer × Transport τ :=
  match t.pollRead io (a.grow 0 readBufCapacity) with
  | (.ready (.ok data), t) => (.ok (), ⟨data, 0, .inl rfl⟩, t)
  | (.ready (.error e), t) => (.error e, empty, t)
  | (.pending, t) => (.error (.simple .wouldBlock), empty, t)

/-- Copies buffered ciphertext into a buffer of `len` bytes, first refilling an empty one. -/
def read (b : ReadBuffer) (t : Transport τ) (len : Nat) :
    Except IoError Bytes × ReadBuffer × Transport τ :=
  let (filled, b, t) := if b.isEmpty then fill io a t else (.ok (), b, t)
  match filled with
  | .error e => (.error e, b, t)
  | .ok () =>
      let n := min b.buffered.length len
      (.ok (b.buffered.take n), b.advance n, t)

variable {io a} {b' : ReadBuffer} {t t' : Transport τ}

/-- What a read hands out. -/
def handedOut {ε : Type} : Except ε Bytes → Bytes
  | .ok data => data
  | .error _ => []

/-- A fill takes over what the transport gave, and nothing where it fails. -/
theorem fill_spec {r : Except IoError Unit} (h : fill io a t = (r, b', t')) :
    t'.received = t.received ++ b'.buffered ∧ t'.accepted = t.accepted
      ∧ (∀ e, r = .error e → b'.buffered = []) := by
  unfold fill at h
  rcases hp : t.pollRead io (a.grow 0 readBufCapacity) with ⟨(e | data) | _, t₁⟩ <;>
    rw [hp] at h <;> obtain ⟨rfl, rfl, rfl⟩ : _ ∧ _ ∧ _ := by simpa using h
  all_goals
    obtain ⟨hr, -, ha⟩ := Transport.pollRead_spec hp
    refine ⟨by simpa [buffered, empty, Poll.given] using hr, ha, by simp [buffered, empty]⟩

/-- **A read hands out the transport's bytes in order.**  What it hands out and what stays
buffered are what was buffered and what the transport gave meanwhile. -/
theorem read_spec {b : ReadBuffer} {len : Nat} {r : Except IoError Bytes}
    (h : b.read io a t len = (r, b', t')) :
    ∃ given, t'.received = t.received ++ given
      ∧ handedOut r ++ b'.buffered = b.buffered ++ given ∧ t'.accepted = t.accepted := by
  unfold read at h
  by_cases he : b.isEmpty = true
  · rcases hf : fill io a t with ⟨filled, b₁, t₁⟩
    obtain ⟨hr, ha, hnil⟩ := fill_spec hf
    rw [if_pos he, hf] at h
    have hb := b.buffered_eq_nil.mpr he
    rcases filled with e | _
    · obtain ⟨rfl, rfl, rfl⟩ : _ ∧ _ ∧ _ := by simpa using h
      exact ⟨_, hr, by simp [handedOut, hb], ha⟩
    · obtain ⟨rfl, rfl, rfl⟩ : _ ∧ _ ∧ _ := by simpa using h
      exact ⟨_, hr, by simp [handedOut, hb, buffered_advance, List.take_append_drop], ha⟩
  · rw [if_neg he] at h
    obtain ⟨rfl, rfl, rfl⟩ : _ ∧ _ ∧ _ := by simpa using h
    exact ⟨[], by simp, by simp [handedOut, buffered_advance, List.take_append_drop], rfl⟩

end ReadBuffer

/-! ### The write buffer -/

/-- Sealed records not yet written to the transport.  `bytes[..pos]` is written. -/
structure WriteBuffer where
  bytes : Vec
  pos : Nat
  /-- Set when the transport refuses records in `retry` or `writeLast`; stale between writes. -/
  blocked : Bool
  pos_lt : pos = 0 ∨ pos < bytes.len

namespace WriteBuffer

def empty : WriteBuffer := ⟨Vec.new, 0, false, .inl rfl⟩

/-- The records still to write. -/
def buffered (b : WriteBuffer) : Bytes := b.bytes.bytes.drop b.pos

def len (b : WriteBuffer) : Nat := b.bytes.len - b.pos

def isEmpty (b : WriteBuffer) : Bool := b.bytes.bytes.isEmpty

/-- Whether buffered ciphertext has reached `WRITE_BUF_CAPACITY`. -/
def isFull (b : WriteBuffer) : Bool := writeBufCapacity ≤ b.len

/-- The length counts the bytes that are not yet written. -/
theorem length_buffered (b : WriteBuffer) : b.buffered.length = b.len := List.length_drop

theorem buffered_eq_nil (b : WriteBuffer) : b.buffered = [] ↔ b.isEmpty = true := by
  have h := b.pos_lt
  rw [Vec.len] at h
  rw [buffered, List.drop_eq_nil_iff, isEmpty, List.isEmpty_iff, ← List.length_eq_zero_iff]
  omega

def setBlocked (b : WriteBuffer) (blocked : Bool) : WriteBuffer := { b with blocked }

/-- The flag is not a byte. -/
@[simp] theorem setBlocked_len (b : WriteBuffer) (blocked : Bool) :
    (b.setBlocked blocked).len = b.len := rfl

/-- Moves past `n` written bytes and releases the buffer if that drains it. -/
def advance (b : WriteBuffer) (n : Nat) : WriteBuffer :=
  if h : b.pos + n < b.bytes.len then { b with pos := b.pos + n, pos_lt := .inr h }
  else { b with bytes := Vec.new, pos := 0, pos_lt := .inl rfl }

theorem buffered_advance (b : WriteBuffer) (n : Nat) :
    (b.advance n).buffered = b.buffered.drop n := by
  unfold advance
  split
  · simp [buffered]
  · rename_i h
    rw [Vec.len] at h
    have hd : b.bytes.bytes.drop (b.pos + n) = [] := List.drop_eq_nil_of_le (by omega)
    rw [buffered, buffered, List.drop_drop, hd]
    rfl

variable (a : Allocator)

/-- Reserves room to append `extra` bytes, first dropping the written prefix once it is at least
as long as the rest, or when the append would reallocate anyway. -/
def makeRoom (b : WriteBuffer) (extra : Nat) : WriteBuffer :=
  if 0 < b.pos ∧ (b.len ≤ b.pos ∨ b.bytes.capacity - b.bytes.len < extra) then
    { b with bytes := (b.bytes.dropFront b.pos).reserve a extra, pos := 0, pos_lt := .inl rfl }
  else
    { b with
      bytes := b.bytes.reserve a extra
      pos_lt := by simpa [Vec.len] using b.pos_lt }

/-- Moving the bytes to the front keeps them. -/
@[simp] theorem makeRoom_buffered (b : WriteBuffer) (extra : Nat) :
    (b.makeRoom a extra).buffered = b.buffered := by
  unfold makeRoom
  split <;> simp [buffered, Vec.dropFront]

/-- And the flag. -/
@[simp] theorem makeRoom_blocked (b : WriteBuffer) (extra : Nat) :
    (b.makeRoom a extra).blocked = b.blocked := by
  unfold makeRoom
  split <;> rfl

/-- And leaves room for what was asked. -/
theorem makeRoom_spare (b : WriteBuffer) (extra : Nat) :
    (b.makeRoom a extra).bytes.len + extra ≤ (b.makeRoom a extra).bytes.capacity := by
  unfold makeRoom
  split
  · have h := (b.bytes.dropFront b.pos).reserve_spare a extra
    simpa [Vec.len] using h
  · have h := b.bytes.reserve_spare a extra
    simpa [Vec.len] using h

/-- Appends to bytes with the spare room for it. -/
def fill (b : WriteBuffer) (out : Bytes) (h : b.bytes.len + out.length ≤ b.bytes.capacity) :
    WriteBuffer :=
  { b with
    bytes := b.bytes.setLen out h
    pos_lt := by
      have hpos := b.pos_lt
      simp only [Vec.len, Vec.setLen_bytes, List.length_append] at hpos ⊢
      omega }

/-- Sealed records are appended. -/
theorem fill_buffered {b : WriteBuffer} {out : Bytes}
    {h : b.bytes.len + out.length ≤ b.bytes.capacity} :
    (b.fill out h).buffered = b.buffered ++ out := by
  have hpos := b.pos_lt
  rw [Vec.len] at hpos
  show (b.bytes.bytes ++ out).drop b.pos = _
  rw [List.drop_append_of_le_length (by omega), buffered]

def push (b : WriteBuffer) (record : Bytes) : WriteBuffer :=
  (b.makeRoom a record.length).fill record (b.makeRoom_spare a record.length)

/-- So is a record that was written. -/
@[simp] theorem push_buffered (b : WriteBuffer) (record : Bytes) :
    (b.push a record).buffered = b.buffered ++ record := by
  rw [push, fill_buffered, makeRoom_buffered]

/-- Reserves room for the records sealed from `total` plaintext bytes, up to the cap, when they
span more than one record. -/
def reserve (b : WriteBuffer) (total : Nat) : WriteBuffer :=
  if maxRecord < total then
    let sealed := min total writeBufCapacity
    b.makeRoom a (sealed + divCeil sealed maxRecord * recordOverhead)
  else b

/-- Reserving changes no record. -/
@[simp] theorem reserve_buffered (b : WriteBuffer) (total : Nat) :
    (b.reserve a total).buffered = b.buffered := by
  unfold reserve
  split
  · exact makeRoom_buffered a b _
  · rfl

/-! #### Draining -/

variable {τ : Type} (io : AsyncStream τ)

/-- The loop of `drain` over the records still to write, returning those left.  Every write the
transport takes shortens them, so their length bounds the number of turns. -/
def drainLoop (issuer : Issuer) :
    Nat → Bytes → Transport τ → Except IoError Unit × Bytes × Transport τ
  | 0, rest, t => (.ok (), rest, t)
  | turns + 1, rest, t =>
      if rest.isEmpty then (.ok (), rest, t)
      else
        match t.pollWrite io issuer rest with
        | (.ready (.ok 0), t) => (.error (.simple .writeZero), rest, t)
        | (.ready (.ok n), t) => drainLoop issuer turns (rest.drop n) t
        | (.ready (.error e), t) => (.error e, rest, t)
        | (.pending, t) => (.error (.simple .wouldBlock), rest, t)

/-- Writes buffered records to the transport, keeping what it does not accept. -/
def drain (issuer : Issuer) (b : WriteBuffer) (t : Transport τ) :
    Except IoError Unit × WriteBuffer × Transport τ :=
  let (res, rest, t) := drainLoop io issuer b.len b.buffered t
  (res, b.advance (b.len - rest.length), t)

/-- Retries buffered records as a write starts, setting `blocked` if the transport refuses them.
Fails on transport errors, and on backpressure once the buffer is full. -/
def retry (b : WriteBuffer) (t : Transport τ) : Except IoError Unit × WriteBuffer × Transport τ :=
  let (res, b, t) := if b.isEmpty then (.ok (), b, t) else b.drain io .retry t
  match res with
  | .error e =>
      if e.kind ≠ .wouldBlock ∨ b.isFull then (.error e, b, t)
      else (.ok (), b.setBlocked (!b.isEmpty), t)
  | .ok () => (.ok (), b.setBlocked (!b.isEmpty), t)

/-- Ends a write by draining the records unless `blocked`; an error is dropped. -/
def drainUnlessBlocked (b : WriteBuffer) (t : Transport τ) : WriteBuffer × Transport τ :=
  if b.blocked then (b, t) else (b.drain io .finish t).2

/-- The end of `writeLast`: what the transport did not take of the buffered records and `record`
stays buffered, once it took `n` bytes. -/
def keepUnwritten (b : WriteBuffer) (n : Nat) (record : Bytes) : WriteBuffer :=
  if n < b.len then (b.advance n).push a record
  else
    { b with
      bytes := b.bytes.clear.extendFromSlice a (record.drop (n - b.len))
      pos := 0
      pos_lt := .inl rfl }

/-- Writes buffered records and `record` in one transport write and buffers the rest.  Where the
transport has no vectored writes and records are buffered, it is not called at all. -/
def writeLast (b : WriteBuffer) (t : Transport τ) (record : Bytes) : WriteBuffer × Transport τ :=
  let (res, t) :=
    if b.len = 0 then t.pollWrite io .writeLast record
    else if io.isWriteVectored t.stream then t.pollWriteVectored io .writeLast [b.buffered, record]
    else (.ready (.ok 0), t)
  match res with
  | .ready (.ok n) => (b.keepUnwritten a n record, t)
  | _ => ((b.setBlocked true).keepUnwritten a 0 record, t)

variable {a io} {b b' : WriteBuffer} {t t' : Transport τ}

/-- The loop writes a prefix of the records, all of them if it reports success. -/
theorem drainLoop_spec {issuer : Issuer} {turns : Nat} {rest rest' : Bytes} {r : Except IoError Unit}
    (hturns : rest.length ≤ turns) (h : drainLoop io issuer turns rest t = (r, rest', t')) :
    ∃ n ≤ rest.length, rest' = rest.drop n ∧ t'.accepted = t.accepted ++ rest.take n
      ∧ t'.received = t.received ∧ (r = .ok () → rest' = []) := by
  induction turns generalizing rest t with
  | zero =>
      obtain ⟨rfl, rfl, rfl⟩ : _ ∧ _ ∧ _ := by simpa [drainLoop] using h
      have hnil : rest = [] := by simpa using hturns
      exact ⟨0, by simp, rfl, by simp, rfl, fun _ => hnil⟩
  | succ turns ih =>
      unfold drainLoop at h
      by_cases he : rest.isEmpty = true
      · rw [if_pos he] at h
        obtain ⟨rfl, rfl, rfl⟩ : _ ∧ _ ∧ _ := by simpa using h
        exact ⟨0, by simp, rfl, by simp, rfl, fun _ => List.isEmpty_iff.mp he⟩
      rw [if_neg he] at h
      -- A refused write leaves the rest where it is.
      have stop {e : IoError} {t₁ : Transport τ} {p : Poll (Except IoError Nat)}
          (hp : t.pollWrite io issuer rest = (p, t₁)) (h0 : p.taken = 0)
          (h : (Except.error e, rest, t₁) = (r, rest', t')) :
          ∃ n ≤ rest.length, rest' = rest.drop n ∧ t'.accepted = t.accepted ++ rest.take n
            ∧ t'.received = t.received ∧ (r = .ok () → rest' = []) := by
        obtain ⟨rfl, rfl, rfl⟩ : _ ∧ _ ∧ _ := by simpa using h
        obtain ⟨ha, -, hr⟩ := Transport.pollWrite_spec hp
        exact ⟨0, by simp, rfl, by simpa [h0] using ha, hr, by simp⟩
      rcases hp : t.pollWrite io issuer rest with ⟨(e | _ | n) | _, t₁⟩
      · exact stop hp rfl (by simpa only [hp] using h)
      · exact stop hp rfl (by simpa only [hp] using h)
      · obtain ⟨ha, hle, hr⟩ := Transport.pollWrite_spec hp
        have hle : n + 1 ≤ rest.length := hle
        simp only [hp] at h
        obtain ⟨m, hm, hrest, hacc, hrec, hok⟩ := ih (by simp; omega) h
        refine ⟨n + 1 + m, ?_, ?_, ?_, hrec.trans hr, hok⟩
        · rw [List.length_drop] at hm; omega
        · rw [hrest, List.drop_drop]
        · rw [hacc, ha, List.append_assoc, List.take_add]; rfl
      · exact stop hp rfl (by simpa only [hp] using h)

/-- A loop that fails leaves something. -/
theorem drainLoop_error {issuer : Issuer} {turns : Nat} {rest rest' : Bytes} {e : IoError}
    (h : drainLoop io issuer turns rest t = (.error e, rest', t')) : rest' ≠ [] := by
  induction turns generalizing rest t with
  | zero => cases (Prod.mk.inj h).1
  | succ turns ih =>
      unfold drainLoop at h
      split at h
      · cases (Prod.mk.inj h).1
      rename_i hrest
      have hne : rest ≠ [] := by simpa using hrest
      split at h
      · obtain ⟨-, rfl, -⟩ : _ ∧ _ ∧ _ := by simpa using h
        exact hne
      · exact ih h
      · obtain ⟨-, rfl, -⟩ : _ ∧ _ ∧ _ := by simpa using h
        exact hne
      · obtain ⟨-, rfl, -⟩ : _ ∧ _ ∧ _ := by simpa using h
        exact hne

/-- A drain buffers what the loop leaves. -/
theorem drain_loop {issuer : Issuer} {r : Except IoError Unit}
    (h : b.drain io issuer t = (r, b', t')) :
    drainLoop io issuer b.len b.buffered t = (r, b'.buffered, t') := by
  unfold drain at h
  rcases hl : drainLoop io issuer b.len b.buffered t with ⟨res, rest, t₁⟩
  rw [hl] at h
  obtain ⟨rfl, rfl, rfl⟩ : _ ∧ _ ∧ _ := by simpa using h
  obtain ⟨n, hn, hrest, -⟩ := drainLoop_spec (Nat.le_of_eq b.length_buffered) hl
  rw [buffered_advance, hrest, List.length_drop, b.length_buffered, ← b.length_buffered,
    Nat.sub_sub_self hn]

/-- A drain takes records from the front. -/
theorem drain_buffered {issuer : Issuer} {r : Except IoError Unit}
    (h : b.drain io issuer t = (r, b', t')) :
    ∃ n ≤ b.buffered.length, b'.buffered = b.buffered.drop n
      ∧ t'.accepted = t.accepted ++ b.buffered.take n ∧ t'.received = t.received
      ∧ (r = .ok () → b'.buffered = []) :=
  drainLoop_spec (Nat.le_of_eq b.length_buffered) (drain_loop h)

/-- A drain that fails leaves something behind. -/
theorem drain_error {issuer : Issuer} {e : IoError} (h : b.drain io issuer t = (.error e, b', t')) :
    b'.isEmpty = false := by
  have hleft : ¬ b'.isEmpty = true := fun he =>
    drainLoop_error (drain_loop h) (b'.buffered_eq_nil.mpr he)
  simpa using hleft

/-- **A drain loses nothing**: what it takes off the buffer the transport accepted. -/
theorem drain_spec {issuer : Issuer} {r : Except IoError Unit}
    (h : b.drain io issuer t = (r, b', t')) :
    t'.accepted ++ b'.buffered = t.accepted ++ b.buffered ∧ t'.received = t.received
      ∧ (r = .ok () → b'.buffered = []) := by
  obtain ⟨n, -, hrest, ha, hr, hok⟩ := drain_buffered h
  exact ⟨by rw [ha, hrest, List.append_assoc, List.take_append_drop], hr, hok⟩

/-- Past a retry that succeeds the buffer has room for a record. -/
theorem retry_not_full {r : Except IoError Unit} (h : b.retry io t = (r, b', t')) (hok : r = .ok ()) :
    b'.len < writeBufCapacity := by
  have hcap : 0 < writeBufCapacity := by decide
  unfold retry at h
  by_cases he : b.isEmpty = true
  · obtain ⟨-, rfl, -⟩ : _ ∧ _ ∧ _ := by simpa [he] using h
    rw [setBlocked_len, ← b.length_buffered, b.buffered_eq_nil.mpr he]
    exact hcap
  rcases hd : b.drain io .retry t with ⟨e | _, b₁, t₁⟩ <;> rw [if_neg he, hd] at h
  · subst hok
    by_cases hk : e.kind ≠ .wouldBlock ∨ b₁.isFull = true
    · simp [if_pos hk] at h
    · obtain ⟨rfl, -⟩ : _ ∧ _ := by simpa [if_neg hk] using h
      have hroom : ¬ writeBufCapacity ≤ b₁.len := fun hle => hk (.inr (by simpa [isFull] using hle))
      rw [setBlocked_len]
      omega
  · obtain ⟨-, rfl, -⟩ : _ ∧ _ ∧ _ := by simpa using h
    obtain ⟨-, -, -, -, -, hnil⟩ := drain_buffered hd
    rw [setBlocked_len, ← b₁.length_buffered, hnil rfl]
    exact hcap

/-- Nor does a retry. -/
theorem retry_spec {r : Except IoError Unit} (h : b.retry io t = (r, b', t')) :
    t'.accepted ++ b'.buffered = t.accepted ++ b.buffered ∧ t'.received = t.received := by
  unfold retry at h
  rcases hd : (if b.isEmpty then (Except.ok (), b, t) else b.drain io .retry t) with ⟨res, b₁, t₁⟩
  have hspec : t₁.accepted ++ b₁.buffered = t.accepted ++ b.buffered
      ∧ t₁.received = t.received := by
    split at hd
    · obtain ⟨-, rfl, rfl⟩ : _ ∧ _ ∧ _ := by simpa using hd
      exact ⟨rfl, rfl⟩
    · obtain ⟨ha, hr, -⟩ := drain_spec hd
      exact ⟨ha, hr⟩
  rw [hd] at h
  rcases res with e | _
  · by_cases hk : e.kind ≠ .wouldBlock ∨ b₁.isFull = true
    · obtain ⟨-, rfl, rfl⟩ : _ ∧ _ ∧ _ := by simpa [if_pos hk] using h
      exact hspec
    · obtain ⟨-, rfl, rfl⟩ : _ ∧ _ ∧ _ := by simpa [if_neg hk] using h
      exact hspec
  · obtain ⟨-, rfl, rfl⟩ : _ ∧ _ ∧ _ := by simpa using h
    exact hspec

/-- Nor does the drain that ends a write. -/
theorem drainUnlessBlocked_spec (h : b.drainUnlessBlocked io t = (b', t')) :
    t'.accepted ++ b'.buffered = t.accepted ++ b.buffered ∧ t'.received = t.received := by
  unfold drainUnlessBlocked at h
  by_cases hb : b.blocked = true
  · rw [if_pos hb] at h
    obtain ⟨rfl, rfl⟩ := Prod.mk.inj h
    exact ⟨rfl, rfl⟩
  · rw [if_neg hb] at h
    rcases hd : b.drain io .finish t with ⟨r, b₁, t₁⟩
    obtain ⟨ha, hr, -⟩ := drain_spec hd
    rw [hd] at h
    obtain ⟨rfl, rfl⟩ := Prod.mk.inj h
    exact ⟨ha, hr⟩

/-- What the transport did not take of the last write stays, in order. -/
theorem keepUnwritten_buffered (b : WriteBuffer) (n : Nat) (record : Bytes) :
    (b.keepUnwritten a n record).buffered = (b.buffered ++ record).drop n := by
  have hlen := b.length_buffered
  unfold keepUnwritten
  split
  · rw [push_buffered, buffered_advance, List.drop_append_of_le_length (by omega)]
  · have hnil : b.buffered.drop n = [] := List.drop_eq_nil_of_le (by omega)
    rw [List.drop_append, hnil, hlen]
    simp [buffered, Vec.clear]

/-- **`writeLast` loses and repeats nothing.**  The record follows the buffered ones, in what the
transport took or in what stays buffered. -/
theorem writeLast_spec {record : Bytes} (h : b.writeLast a io t record = (b', t')) :
    t'.accepted ++ b'.buffered = t.accepted ++ b.buffered ++ record
      ∧ t'.received = t.received := by
  unfold writeLast at h
  rcases hp : (if b.len = 0 then t.pollWrite io .writeLast record
    else if io.isWriteVectored t.stream then t.pollWriteVectored io .writeLast [b.buffered, record]
    else (.ready (.ok 0), t)) with ⟨res, t₁⟩
  -- Whichever way they were offered, the transport took a prefix of both.
  have hoffer : t₁.accepted = t.accepted ++ (b.buffered ++ record).take res.taken
      ∧ t₁.received = t.received := by
    split at hp
    · rename_i hzero
      have hnil : b.buffered = [] := List.length_eq_zero_iff.mp (b.length_buffered.trans hzero)
      obtain ⟨ha, -, hr⟩ := Transport.pollWrite_spec hp
      exact ⟨by simpa [hnil] using ha, hr⟩
    · split at hp
      · obtain ⟨ha, -, hr⟩ := Transport.pollWriteVectored_spec hp
        exact ⟨by simpa using ha, hr⟩
      · obtain ⟨rfl, rfl⟩ := Prod.mk.inj hp
        exact ⟨by simp [Poll.taken], rfl⟩
  obtain ⟨ha, hr⟩ := hoffer
  rw [hp] at h
  have hkeep : b'.buffered = (b.buffered ++ record).drop res.taken ∧ t' = t₁ := by
    rcases res with (e | n) | _ <;> obtain ⟨rfl, rfl⟩ := Prod.mk.inj h <;>
      exact ⟨keepUnwritten_buffered _ _ _, rfl⟩
  obtain ⟨hb, rfl⟩ := hkeep
  rw [ha, hb, List.append_assoc, List.take_append_drop, List.append_assoc]
  exact ⟨rfl, hr⟩

end WriteBuffer

end Btls.Stream
