import Btls.Stream.Core
import Btls.Stream.Packer

/-!
# Stream — Write

`write_records` and the three ways it seals: on the stack, after the buffered records, and with one
`SSL_write` per record.  Each is shown to seal exactly the prefix of its input that it reports
(`Writes`), and the write is assembled from them (`writeRecords_spec`).

`Seals` is the account of one part: from one state to the next exactly some plaintext was sealed,
and the records of it are with the transport or buffered.  Moving records and setting flags seals
nothing, parts add up (`Seals.trans`), and what is left to show of each way is what it reports: the
loop over `SSL_write` reports all that it sealed, and its error only where that is nothing
(`sslWriteRecords_spec`).

A loop that BoringSSL could keep going takes `fuel`, and returns `none` if that is not enough.
-/

namespace Btls.Stream

open Btls.Support

/-- `SEAL_STACK_LEN`. -/
def sealStackLen : Nat := 17 * 1024

namespace WriteBuffer

variable {σ : Type} (B : BoringSsl σ) (a : Allocator)

/-- Seals as much of `bufs` as `sealBudget` allows after the buffered records.  Returns the
plaintext sealed, `none` if BoringSSL declines, and the records added. -/
def sealInto (b : WriteBuffer) (ssl : σ) (limits : SealLimits) (bufs : List Bytes) (total : Nat) :
    Except IoError (Option Nat) × Bytes × WriteBuffer × σ :=
  let budget := sealBudget limits.maxFragment limits.recordOverhead limits.pendingLen b.len total
  match limits.sealedLen budget with
  | none => (.ok none, [], b, ssl)
  | some maxOut =>
      let room := b.makeRoom a maxOut
      match B.sealChecked ssl bufs budget maxOut with
      | (.ok (some sealed), ssl) =>
          have hroom : room.bytes.len + sealed.records.length ≤ room.bytes.capacity := by
            have hspare := b.makeRoom_spare a maxOut
            have hle := sealed.records_le
            simp only [room]
            omega
          (.ok (some sealed.consumed), sealed.records, room.fill sealed.records hroom, ssl)
      | (.ok none, ssl) => (.ok none, [], room, ssl)
      | (.error e, ssl) => (.error (SslError.ofStack e).intoIoErrorOrOther, [], room, ssl)

end WriteBuffer

namespace SslStream

variable {σ τ : Type} (B : BoringSsl σ) (io : AsyncStream τ) (a : Allocator)

/-- Adds records to what BoringSSL produced. -/
def produce (s : SslStream σ τ) (records : Bytes) (writeBuf : WriteBuffer)
    (transport : Transport τ) : SslStream σ τ :=
  s.setStream
    { s.stream with writeBuf, transport, produced := s.stream.produced ++ records }

def setRecords (s : SslStream σ τ) (writeBuf : WriteBuffer) (transport : Transport τ) :
    SslStream σ τ :=
  s.setStream { s.stream with writeBuf, transport }

def setWriteThrough (s : SslStream σ τ) (writeThrough : Bool) : SslStream σ τ :=
  s.setStream { s.stream with writeThrough }

/-- `write_buf.drain_unless_blocked(transport)`. -/
def drainUnlessBlocked (s : SslStream σ τ) : SslStream σ τ :=
  let (writeBuf, transport) := s.stream.writeBuf.drainUnlessBlocked io s.stream.transport
  s.setRecords writeBuf transport

/-- Where the loop of `sslWriteRecords` is. -/
structure Sealing where
  written : Nat
  packer : Packer
  /-- A short seal means a smaller fragment size; batch the rest instead. -/
  through : Bool

/-- The loop of `sslWriteRecords`: the error that ended it, and the plaintext sealed. -/
def sealLoop (total : Nat) :
    Nat → SslStream σ τ → Sealing → Option (Option IoError × Nat × SslStream σ τ)
  | 0, _, _ => none
  | fuel + 1, s, ⟨written, packer, through⟩ =>
      match packer.nextRecord with
      | none => some (none, written, s)
      | some (plaintext, packer) =>
          let len := plaintext.length
          let s := s.setWriteThrough (through && total ≤ saturatingAdd written len)
          match s.write B io a fuel plaintext with
          | none => none
          | some (.error e, s) => some (some e, written, s)
          | some (.ok n, s) =>
              -- Pack no more than one fragment, so a smaller one copies no plaintext twice.
              let packer := if n < len then { packer with limit := n } else packer
              let through := through && !decide (n < len)
              let written := written + n
              if s.stream.writeBuf.isFull && maxRecord < total - written then
                some (none, written, s)
              else sealLoop total fuel s ⟨written, packer.advance n, through⟩

/-- Seals `bufs` with one `SSL_write` per record and writes them with as few transport writes as
possible. -/
def sslWriteRecords (fuel : Nat) (s : SslStream σ τ) (bufs : List Bytes) (total : Nat) :
    Option (Except IoError Nat × SslStream σ τ) :=
  let s := s.setRecords (s.stream.writeBuf.reserve a total) s.stream.transport
  match sealLoop B io a total fuel s ⟨0, .new bufs, true⟩ with
  | none => none
  | some (err, written, s) =>
      let s := (s.setWriteThrough false).drainUnlessBlocked io
      match err with
      | some e => if written = 0 then some (.error e, s) else some (.ok written, s)
      -- Sealed plaintext must be reported, or a retry would send it twice.
      | none => some (.ok written, s)

/-- Seals `bufs` after the buffered records and drains them unless the transport is blocked, or
writes them with `sslWriteRecords` where BoringSSL declines. -/
def writeBuffered (fuel : Nat) (s : SslStream σ τ) (bufs : List Bytes) (total : Nat) :
    Option (Except IoError Nat × SslStream σ τ) :=
  match B.sealAppDataLimits s.ssl with
  | none => sslWriteRecords B io a fuel s bufs total
  | some limits =>
      let (sealed, records, writeBuf, ssl) := s.stream.writeBuf.sealInto B a s.ssl limits bufs total
      let s := { s with ssl }.produce records writeBuf s.stream.transport
      match sealed with
      | .error e => some (.error e, s)
      | .ok (some n) => some (.ok n, s.drainUnlessBlocked io)
      | .ok none => sslWriteRecords B io a fuel s bufs total

/-- Seals a write of at most `MAX_RECORD` bytes on the stack and sends it with one transport write,
or buffers it where it does not all fit; `none` if BoringSSL declines. -/
def sealOnStack (s : SslStream σ τ) (bufs : List Bytes) (total : Nat) :
    Except IoError (Option Nat) × SslStream σ τ :=
  match B.sealChecked s.ssl bufs total sealStackLen with
  | (.ok none, ssl) => (.ok none, { s with ssl })
  | (.error e, ssl) => (.error (SslError.ofStack e).intoIoErrorOrOther, { s with ssl })
  | (.ok (some sealed), ssl) =>
      let (writeBuf, transport) :=
        if sealed.consumed < total then
          (s.stream.writeBuf.push a sealed.records, s.stream.transport)
        else s.stream.writeBuf.writeLast a io s.stream.transport sealed.records
      (.ok (some sealed.consumed), { s with ssl }.produce sealed.records writeBuf transport)

/-- `write_records` past its first check, with `total` bytes to write. -/
def writeNonempty (fuel : Nat) (s : SslStream σ τ) (bufs : List Bytes) (total : Nat) :
    Option (Except IoError Nat × SslStream σ τ) :=
  if total ≤ maxRecord ∧ s.stream.writeBuf.isEmpty then
    match s.sealOnStack B io a bufs total with
    | (.error e, s) => some (.error e, s)
    | (.ok (some n), s) =>
        if n < total then
          -- The stack records are buffered; the rest follows them.  Sealed plaintext must be
          -- reported, so an error after it is dropped.
          match writeBuffered B io a fuel s (advanceSlices bufs n) (total - n) with
          | none => none
          | some (.ok m, s) => some (.ok (n + m), s)
          | some (.error _, s) => some (.ok n, s)
        else some (.ok n, s)
    | (.ok none, s) => writeBuffered B io a fuel s bufs total
  else writeBuffered B io a fuel s bufs total

/-- Seals `bufs` into records and writes them with as few transport writes as possible. -/
def writeRecords (fuel : Nat) (s : SslStream σ τ) (bufs : List Bytes) :
    Option (Except IoError Nat × SslStream σ τ) :=
  let (res, writeBuf, transport) := s.stream.writeBuf.retry io s.stream.transport
  let s := s.setRecords writeBuf transport
  match res with
  | .error e => some (.error e, s)
  | .ok () =>
      let total := totalLen bufs
      -- Past this point every seal consumes at least one byte, so no path reports `Ok(0)`.
      if total = 0 then some (.ok 0, s) else writeNonempty B io a fuel s bufs total

/-! ### What a write seals -/

/-- From `s` to `s'` exactly `data` was sealed, and the records are accounted for. -/
structure Seals (s : SslStream σ τ) (data : Bytes) (s' : SslStream σ τ) : Prop where
  kept : Kept s s'
  plaintext : B.plaintext s'.ssl = B.plaintext s.ssl ++ data
  sslReads : s'.sslReads = s.sslReads

/-- A write of `input` that returned `r` sealed what it reports, at least a byte where there is
one. -/
def Writes (s : SslStream σ τ) (input : Bytes) (r : Except IoError Nat) (s' : SslStream σ τ) :
    Prop :=
  match r with
  | .ok n => n ≤ input.length ∧ (input ≠ [] → 0 < n) ∧ Seals B s (input.take n) s'
  | .error _ => Seals B s [] s'

variable {B io a} {s s₁ s' : SslStream σ τ}

/-- Nothing was sealed. -/
theorem Seals.refl (s : SslStream σ τ) : Seals B s [] s := ⟨.refl s, by simp, rfl⟩

/-- Two parts seal one after the other. -/
theorem Seals.trans {d₁ d₂ : Bytes} (h₁ : Seals B s d₁ s₁) (h₂ : Seals B s₁ d₂ s') :
    Seals B s (d₁ ++ d₂) s' :=
  ⟨h₁.kept.trans h₂.kept, by rw [h₂.plaintext, h₁.plaintext, List.append_assoc],
    h₂.sslReads.trans h₁.sslReads⟩

/-- A write after steps that sealed nothing. -/
theorem Writes.after {input : Bytes} {r : Except IoError Nat} (h₁ : Seals B s [] s₁)
    (h₂ : Writes B s₁ input r s') : Writes B s input r s' := by
  rcases r with e | n
  · exact h₁.trans h₂
  · exact ⟨h₂.1, h₂.2.1, h₁.trans h₂.2.2⟩

/-- Steps that sealed nothing after a write. -/
theorem Writes.before {input : Bytes} {r : Except IoError Nat} (h₁ : Writes B s input r s₁)
    (h₂ : Seals B s₁ [] s') : Writes B s input r s' := by
  rcases r with e | n
  · exact Seals.trans h₁ h₂
  · exact ⟨h₁.1, h₁.2.1, by simpa using h₁.2.2.trans h₂⟩

/-- A change of the stream that keeps the accounts seals nothing. -/
theorem seals_setStream {w : StreamWrapper τ}
    (hacc : s.stream.Accounted → w.Accounted) (hkeep : s.stream.Keeps w) :
    Seals B s [] (s.setStream w) :=
  ⟨⟨hacc, fun _ => hkeep⟩, by simp [setStream], rfl⟩

/-- Moving records to the transport seals nothing. -/
theorem seals_setRecords {b : WriteBuffer} {t : Transport τ}
    (ht : t.accepted ++ b.buffered
      = s.stream.transport.accepted ++ s.stream.writeBuf.buffered)
    (hr : t.received = s.stream.transport.received) : Seals B s [] (s.setRecords b t) :=
  seals_setStream (fun hs => hs.moveRecords ht hr) rfl

/-- Nor does a flag. -/
theorem seals_setWriteThrough (through : Bool) : Seals B s [] (s.setWriteThrough through) :=
  seals_setStream (fun hs => ⟨hs.written, hs.read⟩) rfl

/-- Nor does a drain. -/
theorem seals_drainUnlessBlocked : Seals B s [] (s.drainUnlessBlocked io) := by
  unfold drainUnlessBlocked
  rcases hd : s.stream.writeBuf.drainUnlessBlocked io s.stream.transport with ⟨b, t⟩
  obtain ⟨ht, hr⟩ := WriteBuffer.drainUnlessBlocked_spec hd
  exact seals_setRecords ht hr

/-- Sealing `data` outside the BIO, and accounting for the records. -/
theorem seals_produce {ssl : σ} {data records : Bytes} {b : WriteBuffer} {t : Transport τ}
    (hp : B.plaintext ssl = B.plaintext s.ssl ++ data)
    (ht : t.accepted ++ b.buffered
      = s.stream.transport.accepted ++ s.stream.writeBuf.buffered ++ records)
    (hr : t.received = s.stream.transport.received) :
    Seals B s data ({ s with ssl }.produce records b t) :=
  ⟨⟨fun hs => hs.addRecords ht hr, fun _ => rfl⟩, hp, rfl⟩

/-- Nor does a call after which BoringSSL has taken no plaintext. -/
theorem seals_call {α : Type} {p : Boring (Except SslFailure α × σ)}
    (hp : p.Leaves takesWrites fun r => B.plaintext r.2 = B.plaintext s.ssl)
    {r : Except SslError α} (h : s.call io a p = (r, s')) : Seals B s [] s' := by
  obtain ⟨hk, hreads, ⟨v, -, hq⟩ | ⟨e, f, -, hq⟩⟩ := call_spec hp h
  · exact ⟨hk, by simpa using hq, hreads⟩
  · exact ⟨hk, by simpa using hq, hreads⟩

/-! ### One `SSL_write` per record -/

/-- **A write seals what it returns.** -/
theorem write_spec {fuel : Nat} {buf : Bytes} {r : Except IoError Nat} (hbuf : buf ≠ [])
    (h : s.write B io a fuel buf = some (r, s')) : Writes B s buf r s' := by
  induction fuel generalizing s with
  | zero => cases h
  | succ fuel ih =>
      unfold write at h
      rcases hw : s.sslWrite B io a buf with ⟨res, s₁⟩
      rw [hw] at h
      have htake : buf.take cIntMax ≠ [] := by
        simpa [cIntMax] using hbuf
      have hcall := hw
      rw [sslWrite, if_neg (by simpa using hbuf)] at hcall
      obtain ⟨hk, hreads, hq⟩ := call_spec (B.sslWrite_spec s.ssl _ htake) hcall
      rcases hq with ⟨n, rfl, hn, hle, hp⟩ | ⟨e, f, rfl, hp⟩
      · obtain ⟨rfl, rfl⟩ := Prod.mk.inj (Option.some.inj h)
        rw [List.length_take] at hle
        refine ⟨by omega, fun _ => hn, ⟨hk, ?_, hreads⟩⟩
        rw [hp, List.take_take]
        congr 2
        omega
      · have hnone : Seals B s [] s₁ := ⟨hk, by simpa using hp, hreads⟩
        simp only at h
        split at h
        · exact (ih h).after hnone
        · obtain ⟨rfl, rfl⟩ := Prod.mk.inj (Option.some.inj h)
          exact hnone

/-- **The loop seals a prefix of what the packer holds**, non-empty where it ends without an error
and there was anything. -/
theorem sealLoop_spec {fuel total written written' : Nat} {packer : Packer} {through : Bool}
    {err : Option IoError} (hp : packer.Valid)
    (h : sealLoop B io a total fuel s ⟨written, packer, through⟩ = some (err, written', s')) :
    ∃ n ≤ packer.unsealed.length, written' = written + n
      ∧ Seals B s (packer.unsealed.take n) s'
      ∧ (err = none → packer.unsealed ≠ [] → 0 < n) := by
  -- On the fuel; the packer keeps, as `unsealed`, just what the records so far have not taken.
  induction fuel generalizing s written packer through with
  | zero => cases h
  | succ fuel ih =>
      unfold sealLoop at h
      rcases hn : packer.nextRecord with _ | ⟨record, packer₁⟩
      · rw [hn] at h
        obtain ⟨rfl, rfl, rfl⟩ : _ ∧ _ ∧ _ := by simpa using h
        exact ⟨0, Nat.zero_le _, rfl, by simpa using .refl _,
          fun _ hne => absurd (Packer.nextRecord_none hp hn) hne⟩
      obtain ⟨hp₁, hun, -, hpos, -, hhead⟩ := Packer.nextRecord_some hp hn
      rw [hn] at h
      simp only at h
      rcases hw : write B io a fuel (s.setWriteThrough
          (through && decide (total ≤ saturatingAdd written record.length))) record
        with _ | ⟨e | n, s₁⟩ <;> rw [hw] at h
      · cases h
      all_goals
        have hrec : record ≠ [] := List.ne_nil_of_length_pos hpos
        have hwrote := (write_spec hrec hw).after (seals_setWriteThrough _)
      · obtain ⟨rfl, rfl, rfl⟩ : _ ∧ _ ∧ _ := by simpa using h
        exact ⟨0, Nat.zero_le _, rfl, by simpa [Writes] using hwrote, nofun⟩
      · obtain ⟨hle, hpos', hseal⟩ := hwrote
        have hn0 := hpos' hrec
        have hlen : record.length ≤ packer.unsealed.length := by
          rw [hhead, List.length_take]
          omega
        have htake : record.take n = packer.unsealed.take n := by
          rw [hhead, List.take_take, Nat.min_eq_left hle]
        rw [htake] at hseal
        simp only at h
        split at h
        · obtain ⟨rfl, rfl, rfl⟩ : _ ∧ _ ∧ _ := by simpa using h
          exact ⟨n, by omega, rfl, hseal, fun _ _ => hn0⟩
        · -- The packer goes on after the `n` bytes, with a limit of `n` if the seal was short.
          have hp₂ : Packer.Valid (if n < record.length then { packer₁ with limit := n }
              else packer₁) := by
            split
            · exact ⟨hp₁.within, hn0⟩
            · exact hp₁
          have hun₂ : Packer.unsealed (if n < record.length then { packer₁ with limit := n }
              else packer₁) = packer.unsealed := by
            split
            · exact hun
            · exact hun
          obtain ⟨hp₃, hun₃⟩ := Packer.advance_spec hp₂ (n := n) (by rw [hun₂]; omega)
          obtain ⟨m, hm, rfl, hseal₂, -⟩ := ih hp₃ h
          rw [hun₃, hun₂] at hm hseal₂
          rw [List.length_drop] at hm
          refine ⟨n + m, by omega, by omega, ?_, fun _ _ => by omega⟩
          rw [List.take_add]
          exact hseal.trans hseal₂

/-- **The loop reports all that it sealed**, even where it fails. -/
theorem sslWriteRecords_spec {fuel total : Nat} {bufs : List Bytes} {r : Except IoError Nat}
    (h : sslWriteRecords B io a fuel s bufs total = some (r, s')) :
    Writes B s bufs.flatten r s' := by
  unfold sslWriteRecords at h
  have hreserve : Seals B s []
      (s.setRecords (s.stream.writeBuf.reserve a total) s.stream.transport) :=
    seals_setRecords (by rw [WriteBuffer.reserve_buffered]) rfl
  simp only at h
  rcases hl : sealLoop B io a total fuel
      (s.setRecords (s.stream.writeBuf.reserve a total) s.stream.transport)
      ⟨0, .new bufs, true⟩ with _ | ⟨err, written, s₁⟩ <;> rw [hl] at h
  · cases h
  obtain ⟨n, hn, rfl, hseal, hpos⟩ := sealLoop_spec (Packer.valid_new bufs) hl
  rw [Packer.unsealed_new] at hn hseal hpos
  rw [Nat.zero_add] at h
  have hdrain : Seals B s₁ [] ((s₁.setWriteThrough false).drainUnlessBlocked io) :=
    (seals_setWriteThrough false).trans seals_drainUnlessBlocked
  refine Writes.after hreserve ?_
  rcases err with _ | e
  · obtain ⟨rfl, rfl⟩ := Prod.mk.inj (Option.some.inj h)
    exact Writes.before ⟨hn, hpos rfl, hseal⟩ hdrain
  · simp only at h
    split at h <;> obtain ⟨rfl, rfl⟩ := Prod.mk.inj (Option.some.inj h)
    · rename_i h0
      rw [h0, List.take_zero] at hseal
      exact Seals.trans hseal hdrain
    · exact Writes.before ⟨hn, fun _ => by omega, hseal⟩ hdrain

/-! ### Sealing past the BIO -/

/-- Sealing in place takes the start of the slices, or nothing. -/
theorem sealChecked_spec {ssl ssl' : σ} {bufs : List Bytes} {maxIn room : Nat}
    {r : Except ErrorStack (Option (Sealed room))}
    (h : B.sealChecked ssl bufs maxIn room = (r, ssl')) :
    match r with
    | .ok (some sealed) => sealed.consumed ≤ min maxIn bufs.flatten.length
        ∧ (0 < min maxIn bufs.flatten.length → 0 < sealed.consumed)
        ∧ B.plaintext ssl' = B.plaintext ssl ++ bufs.flatten.take sealed.consumed
    | _ => B.plaintext ssl' = B.plaintext ssl := by
  unfold BoringSsl.sealChecked at h
  rcases hs : B.sealAppData ssl bufs maxIn room with ⟨out | _ | queue, ssl₁⟩ <;> rw [hs] at h
  · rename_i consumed
    obtain ⟨hout, hle, hpos, hp⟩ :=
      B.sealAppData_success ssl bufs maxIn room out consumed (by rw [hs])
    rw [hs] at hp
    have hfit : out.length ≤ room ∧ consumed ≤ maxIn := ⟨hout, by omega⟩
    simp only [dif_pos hfit] at h
    obtain ⟨rfl, rfl⟩ := Prod.mk.inj h
    exact ⟨hle, hpos, hp⟩
  · obtain ⟨rfl, rfl⟩ := Prod.mk.inj h
    have hd := B.sealAppData_declined ssl bufs maxIn room (by rw [hs])
    rwa [hs] at hd
  · obtain ⟨rfl, rfl⟩ := Prod.mk.inj h
    have he := B.sealAppData_error ssl bufs maxIn room queue (by rw [hs])
    rwa [hs] at he

/-- The budget is never zero. -/
theorem sealBudget_pos {fragment overhead pending buffered total : Nat} (hf : 0 < fragment)
    (ht : 0 < total) : 0 < sealBudget fragment overhead pending buffered total := by
  unfold sealBudget
  simp only
  split
  · exact ht
  · have hmul : 0 < max (divCeil (writeBufCapacity - buffered - pending)
        (max (saturatingAdd fragment overhead) 1)) 1 * fragment := Nat.mul_pos (by omega) hf
    unfold saturatingMul usizeMax
    omega

/-- **So does the seal path.** -/
theorem sealInto_spec {b b' : WriteBuffer} {ssl ssl' : σ} {limits : SealLimits}
    {bufs : List Bytes} {total : Nat} {r : Except IoError (Option Nat)} {records : Bytes}
    (ht : 0 < total) (h : b.sealInto B a ssl limits bufs total = (r, records, b', ssl')) :
    b'.buffered = b.buffered ++ records ∧
      match r with
      | .ok (some n) => n ≤ bufs.flatten.length ∧ (bufs.flatten ≠ [] → 0 < n)
          ∧ B.plaintext ssl' = B.plaintext ssl ++ bufs.flatten.take n
      | _ => B.plaintext ssl' = B.plaintext ssl := by
  unfold WriteBuffer.sealInto at h
  have hbudget : 0 < sealBudget limits.maxFragment limits.recordOverhead limits.pendingLen b.len
      total := sealBudget_pos limits.maxFragment_pos ht
  simp only at h
  split at h
  · obtain ⟨rfl, rfl, rfl, rfl⟩ : _ ∧ _ ∧ _ ∧ _ := by simpa using h
    simp
  rename_i maxOut hmax
  rcases hs : B.sealChecked ssl bufs (sealBudget limits.maxFragment limits.recordOverhead
    limits.pendingLen b.len total) maxOut with ⟨queue | _ | sealed, ssl₁⟩ <;>
    have hspec := sealChecked_spec hs <;> simp only [hs] at h <;>
    obtain ⟨rfl, rfl, rfl, rfl⟩ : _ ∧ _ ∧ _ ∧ _ := by simpa using h
  · exact ⟨by simp, hspec⟩
  · exact ⟨by simp, hspec⟩
  · obtain ⟨hle, hpos, hp⟩ := hspec
    refine ⟨by rw [WriteBuffer.fill_buffered, WriteBuffer.makeRoom_buffered], by omega, ?_, hp⟩
    intro hne
    have hlen := List.length_pos_iff.mpr hne
    exact hpos (by omega)

/-- **A buffered write** reports what it sealed, on either path. -/
theorem writeBuffered_spec {fuel total : Nat} {bufs : List Bytes} {r : Except IoError Nat}
    (ht : 0 < total) (h : writeBuffered B io a fuel s bufs total = some (r, s')) :
    Writes B s bufs.flatten r s' := by
  unfold writeBuffered at h
  rcases hl : B.sealAppDataLimits s.ssl with _ | limits <;> rw [hl] at h
  · exact sslWriteRecords_spec h
  rcases hs : s.stream.writeBuf.sealInto B a s.ssl limits bufs total
    with ⟨queue | _ | n, records, b, ssl⟩ <;>
    obtain ⟨hb, hspec⟩ := sealInto_spec ht hs <;> simp only [hs] at h
  all_goals
    have hacc : s.stream.transport.accepted ++ b.buffered
        = s.stream.transport.accepted ++ s.stream.writeBuf.buffered ++ records := by
      rw [hb, List.append_assoc]
  · obtain ⟨rfl, rfl⟩ := Prod.mk.inj (Option.some.inj h)
    exact seals_produce (by simpa using hspec) hacc rfl
  · exact (sslWriteRecords_spec h).after (seals_produce (by simpa using hspec) hacc rfl)
  · obtain ⟨rfl, rfl⟩ := Prod.mk.inj (Option.some.inj h)
    obtain ⟨hle, hpos, hp⟩ := hspec
    exact Writes.before ⟨hle, hpos, seals_produce hp hacc rfl⟩ seals_drainUnlessBlocked

/-- A seal on the stack seals what it reports, or declines having sealed nothing. -/
theorem sealOnStack_spec {total : Nat} {bufs : List Bytes} {r : Except IoError (Option Nat)}
    (ht : 0 < total) (h : s.sealOnStack B io a bufs total = (r, s')) :
    match r with
    | .ok (some n) => n ≤ total ∧ Writes B s bufs.flatten (.ok n) s'
    | _ => Seals B s [] s' := by
  unfold sealOnStack at h
  rcases hs : B.sealChecked s.ssl bufs total sealStackLen with ⟨queue | _ | sealed, ssl₁⟩ <;>
    have hspec := sealChecked_spec hs <;> simp only [hs] at h
  · obtain ⟨rfl, rfl⟩ := Prod.mk.inj h
    exact ⟨⟨id, fun _ => .refl _⟩, by simpa using hspec, rfl⟩
  · obtain ⟨rfl, rfl⟩ := Prod.mk.inj h
    exact ⟨⟨id, fun _ => .refl _⟩, by simpa using hspec, rfl⟩
  · rcases hw : (if sealed.consumed < total then
        (s.stream.writeBuf.push a sealed.records, s.stream.transport)
      else s.stream.writeBuf.writeLast a io s.stream.transport sealed.records) with ⟨b, t⟩
    rw [hw] at h
    obtain ⟨rfl, rfl⟩ := Prod.mk.inj h
    have hrec : t.accepted ++ b.buffered = s.stream.transport.accepted
          ++ s.stream.writeBuf.buffered ++ sealed.records
        ∧ t.received = s.stream.transport.received := by
      split at hw
      · obtain ⟨rfl, rfl⟩ := Prod.mk.inj hw
        rw [WriteBuffer.push_buffered, List.append_assoc]
        exact ⟨rfl, rfl⟩
      · exact WriteBuffer.writeLast_spec hw
    obtain ⟨hle, hpos, hp⟩ := hspec
    refine ⟨by omega, by omega, fun hne => ?_, seals_produce hp hrec.1 hrec.2⟩
    have hlen := List.length_pos_iff.mpr hne
    exact hpos (by omega)

/-! ### The whole write -/

/-- **So does any write.** -/
theorem writeNonempty_spec {fuel : Nat} {bufs : List Bytes} {r : Except IoError Nat}
    (ht : 0 < totalLen bufs)
    (h : writeNonempty B io a fuel s bufs (totalLen bufs) = some (r, s')) :
    Writes B s bufs.flatten r s' := by
  unfold writeNonempty at h
  split at h
  case isFalse => exact writeBuffered_spec ht h
  rename_i hsmall
  have htotal : totalLen bufs = bufs.flatten.length := by
    have hmax := hsmall.1
    rw [totalLen_eq] at hmax ⊢
    unfold maxRecord usizeMax at *
    omega
  rcases hs : s.sealOnStack B io a bufs (totalLen bufs) with ⟨e | _ | n, s₁⟩ <;>
    have hspec := sealOnStack_spec ht hs <;> simp only [hs] at h
  · obtain ⟨rfl, rfl⟩ := Prod.mk.inj (Option.some.inj h)
    exact hspec
  · exact (writeBuffered_spec ht h).after hspec
  obtain ⟨hn, hfirst⟩ := hspec
  split at h
  case isFalse =>
    obtain ⟨rfl, rfl⟩ := Prod.mk.inj (Option.some.inj h)
    exact hfirst
  rename_i hshort
  rcases hw : writeBuffered B io a fuel s₁ (advanceSlices bufs n) (totalLen bufs - n)
    with _ | ⟨e | m, s₂⟩ <;> simp only [hw] at h
  · cases h
  all_goals
    have hrest := writeBuffered_spec (by omega) hw
    obtain ⟨rfl, rfl⟩ := Prod.mk.inj (Option.some.inj h)
  · exact hfirst.before hrest
  · obtain ⟨hm, -, hseal⟩ := hrest
    rw [advanceSlices_flatten] at hm hseal
    rw [List.length_drop] at hm
    refine ⟨by omega, fun hne => ?_, ?_⟩
    · have := hfirst.2.1 hne
      omega
    · rw [List.take_add]
      exact hfirst.2.2.trans hseal

/-- **A write seals exactly what it reports.**  `Ok(n)` is the first `n` bytes of the input, at
least one where there are any; an error is nothing. -/
theorem writeRecords_spec {fuel : Nat} {bufs : List Bytes} {r : Except IoError Nat}
    (h : writeRecords B io a fuel s bufs = some (r, s')) : Writes B s bufs.flatten r s' := by
  unfold writeRecords at h
  rcases hr : s.stream.writeBuf.retry io s.stream.transport with ⟨res, b, t⟩
  obtain ⟨ht, hrec⟩ := WriteBuffer.retry_spec hr
  have hretry : Seals B s [] (s.setRecords b t) := seals_setRecords ht hrec
  simp only [hr] at h
  rcases res with e | _
  · obtain ⟨rfl, rfl⟩ := Prod.mk.inj (Option.some.inj h)
    exact hretry
  simp only at h
  split at h
  · rename_i hzero
    obtain ⟨rfl, rfl⟩ := Prod.mk.inj (Option.some.inj h)
    have hnil := (totalLen_eq_zero bufs).mp hzero
    exact ⟨Nat.zero_le _, fun hne => absurd hnil hne, hretry⟩
  · rename_i hpos
    exact (writeNonempty_spec (by omega) h).after hretry

end SslStream

end Btls.Stream
