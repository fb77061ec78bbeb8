import Btls.Stream.Shutdown

/-!
# Stream — Polled

A call touches the transport by polling it and in no other way.  `OnePoll` is one poll, of any of
the five kinds and by whoever issued it, and `Polled` is any number of them; neither says what was
answered.

`step_polled`: every call on a stream is `Polled`, so what every poll keeps of the transport, or
extends, holds of the transport across the call.  `Channel` takes it for the network between two
streams: each poll launches bytes or lands some, so a call does.

The proof follows the calls down.  A drain, a retry and the last write are polls of the write
buffer, a fill is one of the read buffer, and BoringSSL sees the transport through the BIO alone; a
write, a read and a handshake are then made of moves, and the rest is the retry, the flush and the
shutdown.
-/

namespace Btls.Stream

open Btls.Support Relation

section Buffers

variable {τ : Type} {io : AsyncStream τ} {a : Allocator} {t t' : Transport τ}

/-- A poll of the transport. -/
inductive OnePoll (io : AsyncStream τ) : Transport τ → Transport τ → Prop where
  | write (t : Transport τ) (issuer : Issuer) (buf : Bytes) :
      OnePoll io t (t.pollWrite io issuer buf).2
  | writeVectored (t : Transport τ) (issuer : Issuer) (bufs : List Bytes) :
      OnePoll io t (t.pollWriteVectored io issuer bufs).2
  | flush (t : Transport τ) : OnePoll io t (t.pollFlush io).2
  | shutdown (t : Transport τ) : OnePoll io t (t.pollShutdown io).2
  | read (t : Transport τ) (cap : Nat) : OnePoll io t (t.pollRead io cap).2

/-- Any number of polls of the transport. -/
abbrev Polled (io : AsyncStream τ) : Transport τ → Transport τ → Prop := ReflTransGen (OnePoll io)

/-- A write poll is one poll. -/
theorem pollWrite_polled {issuer : Issuer} {buf : Bytes} {r : Poll (Except IoError Nat)}
    (h : t.pollWrite io issuer buf = (r, t')) : Polled io t t' := by
  have hone : OnePoll io t (t.pollWrite io issuer buf).2 := .write t issuer buf
  rw [h] at hone
  exact .single hone

/-- So is a flush poll. -/
theorem pollFlush_polled {r : Poll (Except IoError Unit)} (h : t.pollFlush io = (r, t')) :
    Polled io t t' := by
  have hone : OnePoll io t (t.pollFlush io).2 := .flush t
  rw [h] at hone
  exact .single hone

namespace WriteBuffer

variable {b b' : WriteBuffer} {issuer : Issuer}

/-- A drain polls once for each part the transport takes. -/
theorem drainLoop_polled {turns : Nat} {rest rest' : Bytes} {r : Except IoError Unit}
    (h : drainLoop io issuer turns rest t = (r, rest', t')) : Polled io t t' := by
  induction turns generalizing rest t with
  | zero =>
      obtain ⟨-, -, rfl⟩ : _ ∧ _ ∧ _ := by simpa [drainLoop] using h
      exact .refl
  | succ turns ih =>
      unfold drainLoop at h
      split at h
      · obtain ⟨-, -, rfl⟩ : _ ∧ _ ∧ _ := by simpa using h
        exact .refl
      rcases hp : t.pollWrite io issuer rest with ⟨(e | _ | n) | _, t₁⟩ <;>
        have hone := pollWrite_polled hp <;> simp only [hp] at h
      · obtain ⟨-, -, rfl⟩ : _ ∧ _ ∧ _ := by simpa using h
        exact hone
      · obtain ⟨-, -, rfl⟩ : _ ∧ _ ∧ _ := by simpa using h
        exact hone
      · exact hone.trans (ih h)
      · obtain ⟨-, -, rfl⟩ : _ ∧ _ ∧ _ := by simpa using h
        exact hone

/-- So it does over the whole of the buffered records. -/
theorem drain_polled {r : Except IoError Unit} (h : b.drain io issuer t = (r, b', t')) :
    Polled io t t' := drainLoop_polled (drain_loop h)

/-- A retry drains, or polls nothing where nothing is buffered. -/
theorem retry_polled {r : Except IoError Unit} (h : b.retry io t = (r, b', t')) :
    Polled io t t' := by
  unfold retry at h
  rcases hd : (if b.isEmpty then (.ok (), b, t) else b.drain io .retry t) with ⟨res, b₁, t₁⟩
  have hpolled : Polled io t t₁ := by
    split at hd
    · obtain ⟨-, -, rfl⟩ : _ ∧ _ ∧ _ := by simpa using hd
      exact .refl
    · exact drain_polled hd
  rw [hd] at h
  rcases res with e | _ <;> simp only at h
  · split at h <;> obtain ⟨-, -, rfl⟩ : _ ∧ _ ∧ _ := by simpa using h
    · exact hpolled
    · exact hpolled
  · obtain ⟨-, -, rfl⟩ : _ ∧ _ ∧ _ := by simpa using h
    exact hpolled

/-- A drain that a blocked buffer skips polls nothing. -/
theorem drainUnlessBlocked_polled (h : b.drainUnlessBlocked io t = (b', t')) :
    Polled io t t' := by
  unfold drainUnlessBlocked at h
  split at h
  · obtain ⟨-, rfl⟩ := Prod.mk.inj h
    exact .refl
  · rcases hd : b.drain io .finish t with ⟨r, b₁, t₁⟩
    rw [hd] at h
    obtain ⟨-, rfl⟩ := Prod.mk.inj h
    exact drain_polled hd

/-- The last record is polled at most once, with the buffered ones or alone. -/
theorem writeLast_polled {record : Bytes} (h : b.writeLast a io t record = (b', t')) :
    Polled io t t' := by
  unfold writeLast at h
  rcases hp : (if b.len = 0 then t.pollWrite io .writeLast record
    else if io.isWriteVectored t.stream then t.pollWriteVectored io .writeLast [b.buffered, record]
    else (.ready (.ok 0), t)) with ⟨res, t₁⟩
  have hpolled : Polled io t t₁ := by
    split at hp
    · exact pollWrite_polled hp
    split at hp
    · have hone : OnePoll io t (t.pollWriteVectored io .writeLast [b.buffered, record]).2 :=
        .writeVectored t .writeLast [b.buffered, record]
      rw [hp] at hone
      exact .single hone
    · obtain ⟨-, rfl⟩ := Prod.mk.inj hp
      exact .refl
  rw [hp] at h
  rcases res with (e | n) | _ <;> obtain ⟨-, rfl⟩ := Prod.mk.inj h <;> exact hpolled

end WriteBuffer

/-- A read polls the transport only to fill an empty buffer. -/
theorem ReadBuffer.read_polled {b b' : ReadBuffer} {len : Nat} {r : Except IoError Bytes}
    (h : b.read io a t len = (r, b', t')) : Polled io t t' := by
  unfold ReadBuffer.read at h
  rcases hf : (if b.isEmpty then ReadBuffer.fill io a t else (.ok (), b, t)) with ⟨filled, b₁, t₁⟩
  have hpolled : Polled io t t₁ := by
    split at hf
    · unfold ReadBuffer.fill at hf
      have hone : OnePoll io t (t.pollRead io (a.grow 0 readBufCapacity)).2 := .read t _
      rcases hp : t.pollRead io (a.grow 0 readBufCapacity) with ⟨(e | data) | _, t₂⟩ <;>
        rw [hp] at hf hone <;> obtain ⟨-, -, rfl⟩ : _ ∧ _ ∧ _ := by simpa using hf
      all_goals exact .single hone
    · obtain ⟨-, -, rfl⟩ : _ ∧ _ ∧ _ := by simpa using hf
      exact .refl
  rw [hf] at h
  rcases filled with e | _ <;> obtain ⟨-, -, rfl⟩ : _ ∧ _ ∧ _ := by simpa using h
  · exact hpolled
  · exact hpolled

/-- A flush drains and then flushes the transport. -/
theorem StreamWrapper.flush_polled {w w' : StreamWrapper τ} {r : Except IoError Unit}
    (h : w.flush io = (r, w')) : Polled io w.transport w'.transport := by
  unfold flush at h
  rcases hd : w.writeBuf.drain io .flush w.transport with ⟨e | _, b, t₁⟩ <;>
    have hdrain := WriteBuffer.drain_polled hd <;> simp only [hd] at h
  · obtain ⟨-, rfl⟩ := Prod.mk.inj h
    exact hdrain
  · rcases hp : t₁.pollFlush io with ⟨res | _, t₂⟩ <;> have hflush := pollFlush_polled hp <;>
      simp only [hp] at h <;> obtain ⟨-, rfl⟩ := Prod.mk.inj h <;> exact hdrain.trans hflush

/-- An operation of the BIO is a read, a flush, or a write, which polls only for the last record. -/
theorem Bio.handle_polled (bio : Bio τ) (op : BioOp) :
    Polled io bio.stream.transport (Bio.handle io a op bio).2.stream.transport := by
  cases op with
  | read len =>
      rcases hr : bio.stream.readBuf.read io a bio.stream.transport len with ⟨e | data, b, t₁⟩ <;>
        simpa [handle, finish, StreamWrapper.read, hr] using ReadBuffer.read_polled hr
  | write buf =>
      by_cases hthrough : (bio.stream.writeThrough && !bio.stream.writeBuf.blocked) = true
      · rcases hl : bio.stream.writeBuf.writeLast a io bio.stream.transport buf with ⟨b, t₁⟩
        simpa [handle, finish, StreamWrapper.write, hthrough, hl] using
          WriteBuffer.writeLast_polled hl
      · simp [handle, finish, StreamWrapper.write, hthrough, ReflTransGen.refl]
  | flush =>
      rcases hf : bio.stream.flush io with ⟨e | _, w⟩ <;>
        simpa [handle, finish, hf] using StreamWrapper.flush_polled hf

end Buffers

namespace SslStream

variable {σ τ : Type} {B : BoringSsl σ} {io : AsyncStream τ} {a : Allocator}
  {s s' : SslStream σ τ} {l : Label}

/-- So does a call into BoringSSL, which sees the transport through the BIO only. -/
theorem call_polled {α : Type} {p : Boring (Except SslFailure α × σ)} {r : Except SslError α}
    (h : s.call io a p = (r, s')) : Polled io s.stream.transport s'.stream.transport := by
  have hbio : Polled io s.bio.stream.transport
      (p.interp (Bio.handle io a) s.bio).2.stream.transport := by
    refine Prog.interp_rel (R := fun b b' : Bio τ => Polled io b.stream.transport b'.stream.transport)
      (fun _ => .refl) ?_ p s.bio
    intro b₀ b op h₀
    exact h₀.trans (Bio.handle_polled b op)
  unfold call at h
  rcases hi : p.interp (Bio.handle io a) s.bio with ⟨⟨res, ssl⟩, bio⟩
  rw [hi] at h hbio
  rcases res with f | v
  · rcases hm : makeError { s with ssl, bio } f with ⟨e, s₁⟩
    obtain ⟨-, hstream, -, -⟩ := makeError_spec hm
    simp only [hm] at h
    obtain ⟨-, rfl⟩ := Prod.mk.inj h
    rw [hstream]
    exact hbio
  · obtain ⟨-, rfl⟩ := Prod.mk.inj h
    exact hbio

/-- A move is a call into BoringSSL, a drain, or no poll at all. -/
theorem Move.polled (h : Move B io a s s') :
    Polled io s.stream.transport s'.stream.transport := by
  cases h with
  | @sslRead s' len r h =>
      have hcall : Polled io s.stream.transport s'.stream.transport := call_polled h
      exact hcall
  | sslWrite h => exact call_polled h
  | sslDoHandshake h => exact call_polled h
  | reserve total => exact .refl
  | drain =>
      unfold drainUnlessBlocked
      rcases hd : s.stream.writeBuf.drainUnlessBlocked io s.stream.transport with ⟨b, t⟩
      exact WriteBuffer.drainUnlessBlocked_polled hd
  | writeThrough through => exact .refl
  | readEnd stop => exact .refl
  | sealInto h => exact .refl
  | @stack s' bufs total r hb h =>
      unfold sealOnStack at h
      rcases hs : B.sealChecked s.ssl bufs total sealStackLen with ⟨queue | _ | sealed, ssl⟩ <;>
        simp only [hs] at h
      · obtain ⟨-, rfl⟩ := Prod.mk.inj h
        exact .refl
      · obtain ⟨-, rfl⟩ := Prod.mk.inj h
        exact .refl
      · rcases hw : (if sealed.consumed < total then
            (s.stream.writeBuf.push a sealed.records, s.stream.transport)
          else s.stream.writeBuf.writeLast a io s.stream.transport sealed.records) with ⟨b, t⟩
        rw [hw] at h
        obtain ⟨-, rfl⟩ := Prod.mk.inj h
        split at hw
        · obtain ⟨-, rfl⟩ := Prod.mk.inj hw
          exact .refl
        · exact WriteBuffer.writeLast_polled hw

/-- A shutdown calls BoringSSL, flushes, and shuts the transport down. -/
theorem pollShutdown_polled {r : Poll (Except IoError Unit)} (h : s.pollShutdown B io a = (r, s')) :
    Polled io s.stream.transport s'.stream.transport := by
  obtain ⟨p, s₁, hsend, hcase⟩ := pollShutdown_cases h
  have hsent : Polled io s.stream.transport s₁.stream.transport := by
    rcases sendShutdown_cases hsend with ⟨-, -, rfl⟩ | ⟨-, d, s₂, hd, hcase⟩
    · exact .refl
    unfold shutdown at hd
    rcases hc : s.call io a (B.sslShutdown s.ssl) with ⟨d', s₃⟩
    have hcall : Polled io s.stream.transport s₃.stream.transport := call_polled hc
    rw [hc] at hd
    obtain ⟨-, rfl⟩ := Prod.mk.inj hd
    rcases hcase with ⟨-, -, rfl⟩ | ⟨-, -, rfl⟩
    · exact hcall
    · exact hcall
  rcases hcase with rfl | ⟨-, res, w, hf, hcase⟩
  · exact hsent
  have hflush := hsent.trans (StreamWrapper.flush_polled hf)
  rcases hcase with rfl | ⟨-, t, ht, rfl⟩
  · exact hflush
  · have hone : OnePoll io w.transport (w.transport.pollShutdown io).2 := .shutdown w.transport
    rw [ht] at hone
    exact hflush.tail hone

/-- **A call touches the transport by polling it.** -/
theorem step_polled (h : Step B io a s l s') :
    Polled io s.stream.transport s'.stream.transport := by
  by_cases hl : ∃ r, l = .shutdown r
  · obtain ⟨r, rfl⟩ := hl
    cases h with
    | shutdown h => exact pollShutdown_polled h
  · exact step_rel (R := fun s s' => Polled io s.stream.transport s'.stream.transport)
      (fun _ => .refl) (fun _ _ _ => ReflTransGen.trans) (fun _ _ => Move.polled)
      (fun _ _ _ _ => WriteBuffer.retry_polled) (fun _ _ _ => StreamWrapper.flush_polled) h
      fun r hr => hl ⟨r, hr⟩

end SslStream

end Btls.Stream
