import Btls.Stream.Buffers
import Btls.Support.Interact

/-!
# Stream — Bio

The stream behind the BIO and the three operations BoringSSL has on it.  BoringSSL's code is a
program over these (`Boring`): it may read, write and flush in any order and any number of times,
and go on with what it is told.

`StreamWrapper` carries two ghosts, the record bytes BoringSSL produced and the ciphertext it was
handed; `Accounted` says where both are, and every BIO operation keeps it (`Bio.handle_kept`).  The
ghosts are told by the operation and its answer alone, not by what the stream did with it.

`read_spec`, `write_spec` and `flush_spec` are what the operations do to the stream: a read hands
over what the transport gave, a write takes the record whole, with the transport or into the buffer,
and a flush only moves records.  An error of the transport is kept in the BIO until `make_error`
takes it.
-/

namespace Btls.Stream

open Btls.Support

/-! ### The stream behind the BIO -/

structure StreamWrapper (τ : Type) where
  transport : Transport τ
  readBuf : ReadBuffer
  writeBuf : WriteBuffer
  /-- Set while sealing the last record of a write, which goes straight to the transport unless
  `writeBuf` is blocked. -/
  writeThrough : Bool
  /-- Set once `SSL_shutdown` has nothing left to send. -/
  shutdownSent : Bool
  /-- The end or error a read met after taking plaintext, reported by the next read. -/
  readEnd : Option (Except IoError Unit)
  /-- Ghost: every record byte BoringSSL produced, in sealing order. -/
  produced : Bytes
  /-- Ghost: every byte BoringSSL was handed. -/
  handed : Bytes

namespace StreamWrapper

variable {τ : Type} (io : AsyncStream τ) (a : Allocator)

def new (stream : τ) : StreamWrapper τ where
  transport := ⟨stream, [], [], []⟩
  readBuf := .empty
  writeBuf := .empty
  writeThrough := false
  shutdownSent := false
  readEnd := none
  produced := []
  handed := []

def read (w : StreamWrapper τ) (len : Nat) : Except IoError Bytes × StreamWrapper τ :=
  let (r, readBuf, transport) := w.readBuf.read io a w.transport len
  (r, { w with readBuf, transport })

/-- Once `writeBuf` is blocked, no record goes straight to the transport. -/
def write (w : StreamWrapper τ) (buf : Bytes) : Except IoError Nat × StreamWrapper τ :=
  if w.writeThrough && !w.writeBuf.blocked then
    let (writeBuf, transport) := w.writeBuf.writeLast a io w.transport buf
    (.ok buf.length, { w with writeBuf, transport })
  else (.ok buf.length, { w with writeBuf := w.writeBuf.push a buf })

def flush (w : StreamWrapper τ) : Except IoError Unit × StreamWrapper τ :=
  match w.writeBuf.drain io .flush w.transport with
  | (.error e, writeBuf, transport) => (.error e, { w with writeBuf, transport })
  | (.ok (), writeBuf, transport) =>
      match transport.pollFlush io with
      | (.ready r, transport) => (r, { w with writeBuf, transport })
      | (.pending, transport) =>
          (.error (.simple .wouldBlock), { w with writeBuf, transport })

/-- Adds records to what BoringSSL produced. -/
def noteProduced (w : StreamWrapper τ) (records : Bytes) : StreamWrapper τ :=
  { w with produced := w.produced ++ records }

/-- Adds ciphertext to what BoringSSL was handed. -/
def noteHanded (w : StreamWrapper τ) (data : Bytes) : StreamWrapper τ :=
  { w with handed := w.handed ++ data }

@[simp] theorem noteProduced_transport (w : StreamWrapper τ) (records : Bytes) :
    (w.noteProduced records).transport = w.transport := rfl

@[simp] theorem noteProduced_writeBuf (w : StreamWrapper τ) (records : Bytes) :
    (w.noteProduced records).writeBuf = w.writeBuf := rfl

@[simp] theorem noteProduced_shutdownSent (w : StreamWrapper τ) (records : Bytes) :
    (w.noteProduced records).shutdownSent = w.shutdownSent := rfl

@[simp] theorem noteHanded_transport (w : StreamWrapper τ) (data : Bytes) :
    (w.noteHanded data).transport = w.transport := rfl

@[simp] theorem noteHanded_writeBuf (w : StreamWrapper τ) (data : Bytes) :
    (w.noteHanded data).writeBuf = w.writeBuf := rfl

@[simp] theorem noteHanded_shutdownSent (w : StreamWrapper τ) (data : Bytes) :
    (w.noteHanded data).shutdownSent = w.shutdownSent := rfl

@[simp] theorem noteProduced_produced (w : StreamWrapper τ) (records : Bytes) :
    (w.noteProduced records).produced = w.produced ++ records := rfl

@[simp] theorem noteProduced_handed (w : StreamWrapper τ) (records : Bytes) :
    (w.noteProduced records).handed = w.handed := rfl

@[simp] theorem noteHanded_handed (w : StreamWrapper τ) (data : Bytes) :
    (w.noteHanded data).handed = w.handed ++ data := rfl

@[simp] theorem noteHanded_produced (w : StreamWrapper τ) (data : Bytes) :
    (w.noteHanded data).produced = w.produced := rfl

/-- Where the bytes are.  What BoringSSL produced is with the transport or buffered; what the
transport gave is with BoringSSL or buffered. -/
structure Accounted (w : StreamWrapper τ) : Prop where
  written : w.transport.accepted ++ w.writeBuf.buffered = w.produced
  read : w.handed ++ w.readBuf.buffered = w.transport.received

/-- `w'` has the stored end of `w`, which only a read changes. -/
def Keeps (w w' : StreamWrapper τ) : Prop := w'.readEnd = w.readEnd

/-- Nothing was done. -/
theorem Keeps.refl (w : StreamWrapper τ) : Keeps w w := rfl

/-- And nothing after it. -/
theorem Keeps.trans {w w₁ w' : StreamWrapper τ} (h₁ : Keeps w w₁) (h₂ : Keeps w₁ w') :
    Keeps w w' := Eq.trans h₂ h₁

/-- At first there is nothing to account for. -/
theorem accounted_new (stream : τ) : (new stream).Accounted := ⟨rfl, rfl⟩

variable {io a} {w w' : StreamWrapper τ}

/-- Moving records between the buffer and the transport keeps the accounts. -/
theorem Accounted.moveRecords (hw : w.Accounted) {b : WriteBuffer} {t : Transport τ}
    (ht : t.accepted ++ b.buffered = w.transport.accepted ++ w.writeBuf.buffered)
    (hr : t.received = w.transport.received) :
    { w with writeBuf := b, transport := t : StreamWrapper τ }.Accounted :=
  ⟨ht.trans hw.written, hw.read.trans hr.symm⟩

/-- So does adding records that BoringSSL produced. -/
theorem Accounted.addRecords (hw : w.Accounted) {b : WriteBuffer} {t : Transport τ}
    {records : Bytes}
    (ht : t.accepted ++ b.buffered = w.transport.accepted ++ w.writeBuf.buffered ++ records)
    (hr : t.received = w.transport.received) :
    { w with
      writeBuf := b
      transport := t
      produced := w.produced ++ records : StreamWrapper τ }.Accounted :=
  ⟨ht.trans (by rw [hw.written]), hw.read.trans hr.symm⟩

/-- **A read hands over what the transport gave**, in order. -/
theorem read_spec {len : Nat} {r : Except IoError Bytes} (hw : w.Accounted)
    (h : w.read io a len = (r, w')) :
    (w'.noteHanded (ReadBuffer.handedOut r)).Accounted ∧ Keeps w w' := by
  unfold read at h
  rcases hr : w.readBuf.read io a w.transport len with ⟨r₁, b₁, t₁⟩
  rw [hr] at h
  obtain ⟨rfl, rfl⟩ := Prod.mk.inj h
  obtain ⟨given, hrec, hhand, hacc⟩ := ReadBuffer.read_spec hr
  refine ⟨⟨?_, ?_⟩, rfl⟩
  · show t₁.accepted ++ w.writeBuf.buffered = w.produced
    rw [hacc, hw.written]
  · show w.handed ++ ReadBuffer.handedOut r₁ ++ b₁.buffered = t₁.received
    rw [List.append_assoc, hhand, ← List.append_assoc, hw.read, hrec]

/-- **A write takes the record whole**, to the transport or to the buffer. -/
theorem write_spec {buf : Bytes} {r : Except IoError Nat} (hw : w.Accounted)
    (h : w.write io a buf = (r, w')) :
    r = .ok buf.length ∧ (w'.noteProduced buf).Accounted ∧ Keeps w w' := by
  unfold write at h
  split at h
  · rcases hl : w.writeBuf.writeLast a io w.transport buf with ⟨b₁, t₁⟩
    rw [hl] at h
    obtain ⟨rfl, rfl⟩ := Prod.mk.inj h
    obtain ⟨ht, hr⟩ := WriteBuffer.writeLast_spec hl
    exact ⟨rfl, hw.addRecords ht hr, rfl⟩
  · obtain ⟨rfl, rfl⟩ := Prod.mk.inj h
    refine ⟨rfl, hw.addRecords ?_ rfl, rfl⟩
    rw [WriteBuffer.push_buffered, List.append_assoc]

/-- **A flush only moves records** from the buffer to the transport. -/
theorem flush_spec {r : Except IoError Unit} (hw : w.Accounted) (h : w.flush io = (r, w')) :
    w'.Accounted ∧ Keeps w w' := by
  unfold flush at h
  rcases hd : w.writeBuf.drain io .flush w.transport with ⟨res, b₁, t₁⟩
  obtain ⟨ht, hr, -⟩ := WriteBuffer.drain_spec hd
  rw [hd] at h
  rcases res with e | _
  · obtain ⟨rfl, rfl⟩ := Prod.mk.inj h
    exact ⟨hw.moveRecords ht hr, rfl⟩
  · rcases hp : t₁.pollFlush io with ⟨res | _, t₂⟩ <;> simp only [hp] at h <;>
      obtain ⟨rfl, rfl⟩ := Prod.mk.inj h <;>
      obtain ⟨ha, hr'⟩ := Transport.pollFlush_spec hp <;>
      exact ⟨hw.moveRecords (by rw [ha]; exact ht) (hr'.trans hr), rfl⟩

end StreamWrapper

/-! ### The BIO -/

/-- What BoringSSL asks of the BIO. -/
inductive BioOp where
  | read (len : Nat)
  | write (buf : Bytes)
  | flush

/-- What it is told: the result, or on failure whether the retry flag is set. -/
abbrev BioRes : BioOp → Type
  | .read _ => Except Bool Bytes
  | .write _ => Except Bool Nat
  | .flush => Except Bool Unit

abbrev Boring (α : Type) := Prog BioOp BioRes α

/-- An operation and what it was told. -/
abbrev BioEvent : Type := Prog.Event BioOp BioRes

/-- `StreamState`, the BIO's data. -/
structure Bio (τ : Type) where
  stream : StreamWrapper τ
  error : Option IoError

def retriableError (e : IoError) : Bool := e.kind = .wouldBlock || e.kind = .notConnected

namespace Bio

variable {τ : Type} (io : AsyncStream τ) (a : Allocator)

/-- The end of `bread`, `bwrite` and the flush `ctrl`: an error is kept for `make_error`. -/
def finish {α : Type} (b : Bio τ) : Except IoError α × StreamWrapper τ → Except Bool α × Bio τ
  | (.ok v, stream) => (.ok v, { b with stream })
  | (.error e, stream) => (.error (retriableError e), ⟨stream, some e⟩)

/-- An operation of the BIO.  The ghosts are told by the operation and its answer alone: BoringSSL
produced what it asked to write, and was handed what it was told it read. -/
def handle : (op : BioOp) → Bio τ → BioRes op × Bio τ
  | .read len, b =>
      let (r, b) := b.finish (b.stream.read io a len)
      (r, { b with stream := b.stream.noteHanded (ReadBuffer.handedOut r) })
  | .write buf, b =>
      let (r, b) := b.finish (b.stream.write io a buf)
      (r, { b with stream := b.stream.noteProduced buf })
  | .flush, b => b.finish (b.stream.flush io)

end Bio

/-- The operation failed. -/
def fails : (op : BioOp) → BioRes op → Prop
  | .read _, r => ∃ retry, r = .error retry
  | .write _, r => ∃ retry, r = .error retry
  | .flush, r => ∃ retry, r = .error retry

/-- The BIO takes every write whole. -/
def takesWrites : (op : BioOp) → BioRes op → Prop
  | .read _, _ => True
  | .write buf, r => r = .ok buf.length
  | .flush, _ => True

/-- What a BIO operation keeps of a BIO. -/
def Bio.Kept {τ : Type} (b b' : Bio τ) : Prop :=
  b.stream.Accounted → b'.stream.Accounted ∧ b.stream.Keeps b'.stream

/-- Every operation keeps the account, and the stored end. -/
theorem Bio.handle_kept {τ : Type} {io : AsyncStream τ} {a : Allocator} (op : BioOp) (b : Bio τ) :
    b.Kept (Bio.handle io a op b).2 := by
  intro hb
  cases op with
  | read len =>
      rcases hr : b.stream.read io a len with ⟨e | data, w⟩ <;>
        obtain ⟨hacc, hkeep⟩ := StreamWrapper.read_spec hb hr <;> simp only [handle, finish, hr] <;>
        exact ⟨hacc, hkeep⟩
  | write buf =>
      rcases hr : b.stream.write io a buf with ⟨e | n, w⟩ <;>
        obtain ⟨-, hacc, hkeep⟩ := StreamWrapper.write_spec hb hr <;> simp only [handle, finish, hr] <;>
        exact ⟨hacc, hkeep⟩
  | flush =>
      rcases hr : b.stream.flush io with ⟨e | _, w⟩ <;>
        simpa [handle, finish, hr] using StreamWrapper.flush_spec hb hr

/-- A write is never refused. -/
theorem Bio.handle_takesWrites {τ : Type} {io : AsyncStream τ} {a : Allocator} (b : Bio τ)
    (op : BioOp) : takesWrites op (Bio.handle io a op b).1 := by
  cases op with
  | read len => trivial
  | write buf =>
      show (b.finish (b.stream.write io a buf)).1 = .ok buf.length
      unfold StreamWrapper.write
      split <;> rfl
  | flush => trivial

end Btls.Stream
