import Btls.Stream.Machine
import Mathlib.Logic.Relation

/-!
# Stream — Moves

The primitive moves that writes, reads and handshakes are made of.  A `Move` is a call into
BoringSSL, a step of the write buffer (reserving, draining, sealing in place or on the stack) or a
change of one of the stream's own flags; `Moves` is any number of them.

`moves_rel` is the rule: a relation between streams that is reflexive and transitive and holds of
every move holds of every call that is made of moves.  So what is to be shown of all calls is shown
of nine moves, and the loops of a write and of a read are gone through here and nowhere else.

Only the retry that begins a write, `poll_flush` and `poll_shutdown` are not made of moves.  A
record is sealed on the stack only where the buffer is not blocked, which the move keeps as a
condition: what follows the seal is a write to the transport.
-/

namespace Btls.Stream

open Btls.Support Relation

namespace SslStream

variable {σ τ : Type} (B : BoringSsl σ) (io : AsyncStream τ) (a : Allocator)

/-- One move: a call into BoringSSL, a step of the write buffer, or a change of the stream's own flags.
A record is sealed on the stack only where the transport is not blocked. -/
inductive Move : SslStream σ τ → SslStream σ τ → Prop where
  | sslRead {s s' : SslStream σ τ} {len : Nat} {r : Except SslError Bytes}
      (h : s.call io a (B.sslRead s.ssl len) = (r, s')) :
      Move s { s' with sslReads := s'.sslReads ++ [r] }
  | sslWrite {s s' : SslStream σ τ} {buf : Bytes} {r : Except SslError Nat}
      (h : s.call io a (B.sslWrite s.ssl buf) = (r, s')) : Move s s'
  | sslDoHandshake {s s' : SslStream σ τ} {r : Except SslError Unit}
      (h : s.call io a (B.sslDoHandshake s.ssl) = (r, s')) : Move s s'
  | reserve (s : SslStream σ τ) (total : Nat) :
      Move s (s.setRecords (s.stream.writeBuf.reserve a total) s.stream.transport)
  | drain (s : SslStream σ τ) : Move s (s.drainUnlessBlocked io)
  | writeThrough (s : SslStream σ τ) (through : Bool) : Move s (s.setWriteThrough through)
  | readEnd (s : SslStream σ τ) (stop : Option (Except IoError Unit)) : Move s (s.setReadEnd stop)
  | sealInto {s : SslStream σ τ} {limits : SealLimits} {bufs : List Bytes} {total : Nat}
      {r : Except IoError (Option Nat)} {records : Bytes} {b : WriteBuffer} {ssl : σ}
      (h : s.stream.writeBuf.sealInto B a s.ssl limits bufs total = (r, records, b, ssl)) :
      Move s ({ s with ssl }.produce records b s.stream.transport)
  | stack {s s' : SslStream σ τ} {bufs : List Bytes} {total : Nat}
      {r : Except IoError (Option Nat)} (hb : s.stream.writeBuf.blocked = false)
      (h : s.sealOnStack B io a bufs total = (r, s')) : Move s s'

/-- Any number of moves. -/
abbrev Moves : SslStream σ τ → SslStream σ τ → Prop := ReflTransGen (Move B io a)

variable {B io a} {s s₁ s' : SslStream σ τ}

/-- **What every move keeps is kept by any number of them.** -/
theorem moves_rel {R : SslStream σ τ → SslStream σ τ → Prop} (hrefl : ∀ s, R s s)
    (htrans : ∀ s s₁ s', R s s₁ → R s₁ s' → R s s') (hmove : ∀ s s', Move B io a s s' → R s s')
    (h : Moves B io a s s') : R s s' := by
  induction h with
  | refl => exact hrefl s
  | tail _ h ih => exact htrans _ _ _ ih (hmove _ _ h)

/-- `SslStream::write` repeats `SSL_write` for as long as BoringSSL asks for it with no error kept. -/
theorem write_moves {fuel : Nat} {buf : Bytes} {r : Except IoError Nat}
    (h : s.write B io a fuel buf = some (r, s')) : Moves B io a s s' := by
  induction fuel generalizing s with
  | zero => cases h
  | succ fuel ih =>
      unfold write at h
      rcases hw : s.sslWrite B io a buf with ⟨res, s₁⟩
      have hone : Moves B io a s s₁ := by
        unfold sslWrite at hw
        split at hw
        · obtain ⟨-, rfl⟩ := Prod.mk.inj hw
          exact .refl
        · exact .single (.sslWrite hw)
      rw [hw] at h
      rcases res with e | n
      · simp only at h
        split at h
        · exact hone.trans (ih h)
        · obtain ⟨-, rfl⟩ := Prod.mk.inj (Option.some.inj h)
          exact hone
      · obtain ⟨-, rfl⟩ := Prod.mk.inj (Option.some.inj h)
        exact hone

/-- A turn of the loop is a record that goes through `SSL_write`. -/
theorem sealLoop_moves {fuel total written' : Nat} {at' : Sealing} {err : Option IoError}
    (h : sealLoop B io a total fuel s at' = some (err, written', s')) : Moves B io a s s' := by
  induction fuel generalizing s at' with
  | zero => cases h
  | succ fuel ih =>
      obtain ⟨written, packer, through⟩ := at'
      unfold sealLoop at h
      rcases hn : packer.nextRecord with _ | ⟨record, packer₁⟩ <;> simp only [hn] at h
      · obtain ⟨-, -, rfl⟩ : _ ∧ _ ∧ _ := by simpa using h
        exact .refl
      rcases hw : write B io a fuel (s.setWriteThrough
          (through && decide (total ≤ saturatingAdd written record.length))) record
        with _ | ⟨e | n, s₁⟩ <;> simp only [hw] at h
      · cases h
      all_goals
        have hwrote : Moves B io a s s₁ := .head (.writeThrough s _) (write_moves hw)
      · obtain ⟨-, -, rfl⟩ : _ ∧ _ ∧ _ := by simpa using h
        exact hwrote
      · split at h
        · obtain ⟨-, -, rfl⟩ : _ ∧ _ ∧ _ := by simpa using h
          exact hwrote
        · exact hwrote.trans (ih h)

/-- Without in-place sealing the records go through `SSL_write` one by one. -/
theorem sslWriteRecords_moves {fuel total : Nat} {bufs : List Bytes} {r : Except IoError Nat}
    (h : sslWriteRecords B io a fuel s bufs total = some (r, s')) : Moves B io a s s' := by
  unfold sslWriteRecords at h
  simp only at h
  rcases hl : sealLoop B io a total fuel
      (s.setRecords (s.stream.writeBuf.reserve a total) s.stream.transport)
      ⟨0, .new bufs, true⟩ with _ | ⟨err, written, s₁⟩ <;> rw [hl] at h
  · cases h
  have hall : Moves B io a s ((s₁.setWriteThrough false).drainUnlessBlocked io) :=
    (ReflTransGen.head (.reserve s total) (sealLoop_moves hl)).tail (.writeThrough s₁ false)
      |>.tail (.drain _)
  rcases err with _ | e
  · obtain ⟨-, rfl⟩ := Prod.mk.inj (Option.some.inj h)
    exact hall
  · simp only at h
    split at h <;> obtain ⟨-, rfl⟩ := Prod.mk.inj (Option.some.inj h)
    · exact hall
    · exact hall

/-- A buffered write reserves and seals in place, or falls back to `SSL_write`. -/
theorem writeBuffered_moves {fuel total : Nat} {bufs : List Bytes} {r : Except IoError Nat}
    (h : writeBuffered B io a fuel s bufs total = some (r, s')) : Moves B io a s s' := by
  unfold writeBuffered at h
  rcases hl : B.sealAppDataLimits s.ssl with _ | limits <;> rw [hl] at h
  · exact sslWriteRecords_moves h
  rcases hs : s.stream.writeBuf.sealInto B a s.ssl limits bufs total
    with ⟨queue | _ | n, records, b, ssl⟩ <;> simp only [hs] at h
  all_goals
    have hsealed : Moves B io a s ({ s with ssl }.produce records b s.stream.transport) :=
      .single (.sealInto hs)
  · obtain ⟨-, rfl⟩ := Prod.mk.inj (Option.some.inj h)
    exact hsealed
  · exact hsealed.trans (sslWriteRecords_moves h)
  · obtain ⟨-, rfl⟩ := Prod.mk.inj (Option.some.inj h)
    exact hsealed.tail (.drain _)

/-- Past the retry, an empty buffer is not blocked, so a write on the stack is a move. -/
theorem writeNonempty_moves {fuel total : Nat} {bufs : List Bytes} {r : Except IoError Nat}
    (hb : s.stream.writeBuf.isEmpty = true → s.stream.writeBuf.blocked = false)
    (h : writeNonempty B io a fuel s bufs total = some (r, s')) : Moves B io a s s' := by
  unfold writeNonempty at h
  split at h
  case isFalse => exact writeBuffered_moves h
  rename_i hsmall
  rcases hs : s.sealOnStack B io a bufs total with ⟨e | _ | n, s₁⟩ <;>
    have hstack : Moves B io a s s₁ := .single (.stack (hb hsmall.2) hs) <;> simp only [hs] at h
  · obtain ⟨-, rfl⟩ := Prod.mk.inj (Option.some.inj h)
    exact hstack
  · exact hstack.trans (writeBuffered_moves h)
  split at h
  case isFalse =>
    obtain ⟨-, rfl⟩ := Prod.mk.inj (Option.some.inj h)
    exact hstack
  rcases hw : writeBuffered B io a fuel s₁ (advanceSlices bufs n) (total - n)
    with _ | ⟨e | m, s₂⟩ <;> simp only [hw] at h
  · cases h
  all_goals
    obtain ⟨-, rfl⟩ := Prod.mk.inj (Option.some.inj h)
    exact hstack.trans (writeBuffered_moves hw)

/-! ### Reads and the handshake -/

/-- A read of no bytes does not call BoringSSL. -/
theorem sslReadUninit_moves {len : Nat} {r : Except SslError Bytes}
    (h : s.sslReadUninit B io a len = (r, s')) : Moves B io a s s' := by
  unfold sslReadUninit at h
  split at h
  · obtain ⟨-, rfl⟩ := Prod.mk.inj h
    exact .refl
  · rcases hc : s.call io a (B.sslRead s.ssl (min cIntMax len)) with ⟨r₁, s₁⟩
    rw [hc] at h
    obtain ⟨-, rfl⟩ := Prod.mk.inj h
    exact .single (.sslRead hc)

/-- `SslStream::read_uninit` repeats `SSL_read` likewise. -/
theorem readUninit_moves {fuel len : Nat} {r : Except IoError Bytes}
    (h : s.readUninit B io a fuel len = some (r, s')) : Moves B io a s s' := by
  induction fuel generalizing s with
  | zero => cases h
  | succ fuel ih =>
      unfold readUninit at h
      rcases hr : s.sslReadUninit B io a len with ⟨e | data, s₁⟩ <;>
        have hone := sslReadUninit_moves hr <;> simp only [hr] at h
      · split at h
        · obtain ⟨-, rfl⟩ := Prod.mk.inj (Option.some.inj h)
          exact hone
        split at h
        · obtain ⟨-, rfl⟩ := Prod.mk.inj (Option.some.inj h)
          exact hone
        split at h
        · exact hone.trans (ih h)
        · obtain ⟨-, rfl⟩ := Prod.mk.inj (Option.some.inj h)
          exact hone
      · obtain ⟨-, rfl⟩ := Prod.mk.inj (Option.some.inj h)
        exact hone

/-- The loop reads until the buffer is full or a read stops it. -/
theorem readLoop_moves {fuel remaining : Nat} {got got' : Bytes}
    {stop : Option (Except IoError Unit)}
    (h : s.readLoop B io a fuel remaining got = some (stop, got', s')) : Moves B io a s s' := by
  induction fuel generalizing s remaining got with
  | zero => cases h
  | succ fuel ih =>
      unfold readLoop at h
      rcases hr : s.readUninit B io a fuel remaining with _ | ⟨r, s₁⟩ <;> simp only [hr] at h
      · cases h
      have hone := readUninit_moves hr
      rcases hcvt : cvt r with (e | _ | ⟨b, data⟩) | _ <;> simp only [hcvt] at h
      · obtain ⟨-, -, rfl⟩ : _ ∧ _ ∧ _ := by simpa using h
        exact hone
      · obtain ⟨-, -, rfl⟩ : _ ∧ _ ∧ _ := by simpa using h
        exact hone
      · split at h
        · obtain ⟨-, -, rfl⟩ : _ ∧ _ ∧ _ := by simpa using h
          exact hone
        · exact hone.trans (ih h)
      · obtain ⟨-, -, rfl⟩ : _ ∧ _ ∧ _ := by simpa using h
        exact hone

/-- A read takes the stored end, or loops and stores the end that it met after some plaintext. -/
theorem pollRead_moves {fuel cap : Nat} {r : Poll (Except IoError Unit)} {got : Bytes}
    (h : s.pollRead B io a fuel cap = some (r, got, s')) : Moves B io a s s' := by
  unfold pollRead at h
  split at h
  · obtain ⟨-, -, rfl⟩ : _ ∧ _ ∧ _ := by simpa using h
    exact .refl
  split at h
  · obtain ⟨-, -, rfl⟩ : _ ∧ _ ∧ _ := by simpa using h
    exact .single (.readEnd s none)
  rcases hl : s.readLoop B io a fuel cap [] with _ | ⟨stop, data, s₁⟩ <;> simp only [hl] at h
  · cases h
  have hloop := readLoop_moves hl
  split at h
  · rcases stop with _ | stop <;> obtain ⟨-, -, rfl⟩ : _ ∧ _ ∧ _ := by simpa using h
    · exact hloop
    · exact hloop
  · obtain ⟨-, -, rfl⟩ : _ ∧ _ ∧ _ := by simpa using h
    exact hloop.tail (.readEnd s₁ stop)

/-- A handshake is one call. -/
theorem pollDoHandshake_moves {r : Poll (Except SslError Unit)}
    (h : s.pollDoHandshake B io a = (r, s')) : Moves B io a s s' := by
  unfold pollDoHandshake at h
  rcases hc : s.doHandshake B io a with ⟨r₁, s₁⟩
  rw [hc] at h
  obtain ⟨-, rfl⟩ := Prod.mk.inj h
  exact .single (.sslDoHandshake hc)

end SslStream

end Btls.Stream
