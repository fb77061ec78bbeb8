import Btls.Stream.Polls

/-!
# Stream — Armed

Why a call returns `Pending`.  A task that is told `Pending` sleeps until a waker it registered is
called, and the transport registers the waker of the call that it answers `Pending`: a write, a
flush or a read.  So a `Pending` that the transport did not return in that same call is a wakeup
lost.

The error that makes a write `Pending` comes from one of two places.  `retry` fails with it where
the transport leaves a full buffer; or BoringSSL reports that it is blocked, and the error is the
one that the BIO kept for `make_error`.  The BIO keeps an error until it is taken, also from one
call to the next, so what is shown of every part of a write is that an error the BIO keeps after it
was kept before it, or is armed (`KeepsArmed`).  BoringSSL reports a blocked BIO only when a BIO
operation failed (`BlamesBio`), and a failed operation replaces the error kept from before.

`one_refusal` is about one call from any state.
-/

namespace Btls.Stream

open Btls.Support

/-- A poll of the transport was pending, so the waker is registered. -/
def Armed (events : List TransportEvent) : Prop :=
  (∃ issuer, .write issuer .pending ∈ events) ∨ .flush .pending ∈ events ∨ .read .pending ∈ events

/-- A waker stays registered whatever else is polled. -/
theorem Armed.mono {es fs : List TransportEvent} (hsub : es ⊆ fs) (h : Armed es) : Armed fs := by
  rcases h with ⟨issuer, h⟩ | h | h
  · exact .inl ⟨issuer, hsub h⟩
  · exact .inr (.inl (hsub h))
  · exact .inr (.inr (hsub h))

/-- The BIO keeps an error that would block. -/
def Bio.Blocked {τ : Type} (b : Bio τ) : Prop := ∃ e, b.error = some e ∧ e.kind = .wouldBlock

/-- `make_error` takes the error the BIO keeps. -/
def SslFailure.TakesError (f : SslFailure) : Prop :=
  f.code = .wantRead ∨ f.code = .wantWrite ∨ f.code = .syscall ∧ f.queue.isEmpty = true

/-! ### The BIO -/

section Bio

variable {τ : Type} {io : AsyncStream τ} {a : Allocator}

/-- What succeeded has not failed. -/
theorem not_exists_ok {α : Type} (v : α) : ¬ ∃ retry : Bool, (.ok v : Except Bool α) = .error retry := by
  rintro ⟨retry, h⟩
  cases h

/-- An operation that fails replaces the error the BIO keeps, with one that is armed if it would
block; any other leaves it. -/
theorem Bio.handle_armed (hio : NeverReadyWouldBlock io) (op : BioOp) (b : Bio τ) :
    ∃ new, (Bio.handle io a op b).2.stream.transport.events = b.stream.transport.events ++ new
      ∧ ((Bio.handle io a op b).2.error = b.error ∧ ¬ fails op (Bio.handle io a op b).1
        ∨ fails op (Bio.handle io a op b).1 ∧ ((Bio.handle io a op b).2.Blocked → Armed new)) := by
  cases op with
  | read len =>
      rcases hr : b.stream.readBuf.read io a b.stream.transport len with ⟨e | data, b₁, t₁⟩ <;>
        obtain ⟨new, hnew, -, hpend⟩ := ReadBuffer.read_events hr <;>
        simp only [handle, finish, StreamWrapper.read, hr] <;> refine ⟨new, hnew, ?_⟩
      · refine .inr ⟨⟨_, rfl⟩, ?_⟩
        rintro ⟨x, hx, hk⟩
        obtain rfl := Option.some.inj hx
        exact .inr (.inr (hpend hio _ rfl hk))
      · exact .inl ⟨trivial, not_exists_ok _⟩
  | write buf =>
      have hpatient : Patient b.stream.writeBuf b.stream.transport
          (Bio.handle io a (.write buf) b).2.stream.writeBuf
          (Bio.handle io a (.write buf) b).2.stream.transport := handle_patient (.write buf) b
      obtain ⟨new, hnew, -⟩ := hpatient
      refine ⟨new, hnew, .inl ?_⟩
      rcases hw : b.stream.write io a buf with ⟨r, w⟩
      obtain rfl : r = .ok buf.length := by
        unfold StreamWrapper.write at hw
        split at hw <;> exact (Prod.mk.inj hw).1.symm
      simp only [handle, finish, hw]
      exact ⟨trivial, not_exists_ok _⟩
  | flush =>
      rcases hf : b.stream.flush io with ⟨e | _, w⟩ <;>
        obtain ⟨-, new, hnew, -, hpend⟩ := StreamWrapper.flush_events hf <;>
        simp only [handle, finish, hf] <;> refine ⟨new, hnew, ?_⟩
      · refine .inr ⟨⟨_, rfl⟩, ?_⟩
        rintro ⟨x, hx, hk⟩
        obtain rfl := Option.some.inj hx
        rcases hpend hio _ rfl hk with h | h
        · exact .inl ⟨_, h⟩
        · exact .inr (.inl h)
      · exact .inl ⟨trivial, not_exists_ok _⟩

/-- So does a whole program. -/
theorem Bio.interp_armed {ρ : Type} (hio : NeverReadyWouldBlock io) (p : Boring ρ) (b : Bio τ) :
    ∃ new, (p.interp (Bio.handle io a) b).2.stream.transport.events
        = b.stream.transport.events ++ new
      ∧ ((p.interp (Bio.handle io a) b).2.error = b.error
          ∧ (∀ e ∈ p.events (Bio.handle io a) b, ¬ fails e.1 e.2)
        ∨ (∃ e ∈ p.events (Bio.handle io a) b, fails e.1 e.2)
          ∧ ((p.interp (Bio.handle io a) b).2.Blocked → Armed new)) := by
  induction p generalizing b with
  | ret r => exact ⟨[], (List.append_nil _).symm, .inl ⟨rfl, nofun⟩⟩
  | call op k ih =>
      obtain ⟨es, hes, hop⟩ := Bio.handle_armed (a := a) hio op b
      obtain ⟨fs, hfs, hrest⟩ := ih (Bio.handle io a op b).1 (Bio.handle io a op b).2
      refine ⟨es ++ fs, by rw [Prog.interp, hfs, hes, List.append_assoc], ?_⟩
      rw [Prog.interp, Prog.events]
      rcases hrest with ⟨hsame, hfine⟩ | ⟨⟨e, he, hfail⟩, harmed⟩
      · rcases hop with ⟨hkept, hok⟩ | ⟨hfail, harmed⟩
        · exact .inl ⟨hsame.trans hkept, List.forall_mem_cons.mpr ⟨hok, hfine⟩⟩
        · refine .inr ⟨⟨_, List.mem_cons_self, hfail⟩, ?_⟩
          rintro ⟨x, hx, hk⟩
          exact (harmed ⟨x, hsame ▸ hx, hk⟩).mono (List.subset_append_left _ _)
      · exact .inr ⟨⟨e, List.mem_cons_of_mem _ he, hfail⟩,
          fun h => (harmed h).mono (List.subset_append_right _ _)⟩

end Bio

/-! ### The parts of a write -/

namespace SslStream

variable {σ τ : Type} {B : BoringSsl σ} {io : AsyncStream τ} {a : Allocator}
  {s s₁ s' : SslStream σ τ}

/-- `make_error` reports that it would block only with the error that the BIO keeps. -/
theorem makeError_blocked {f : SslFailure} {e : SslError} (h : s.makeError f = (e, s')) :
    (s'.bio.Blocked → s.bio.Blocked)
      ∧ (e.intoIoErrorOrOther.kind = .wouldBlock → f.TakesError ∧ s.bio.Blocked) := by
  have taken {code : ErrorCode} (hf : f.TakesError)
      (h : ((⟨code, s.bio.error.map .io⟩ : SslError), s.getBioError.2) = (e, s')) :
      (s'.bio.Blocked → s.bio.Blocked)
        ∧ (e.intoIoErrorOrOther.kind = .wouldBlock → f.TakesError ∧ s.bio.Blocked) := by
    obtain ⟨rfl, rfl⟩ := Prod.mk.inj h
    refine ⟨?_, fun hk => ⟨hf, ?_⟩⟩
    · rintro ⟨x, hx, -⟩
      cases hx
    · rcases hx : s.bio.error with _ | x <;> rw [hx] at hk
      · cases hk
      · exact ⟨x, hx, hk⟩
  have other {code : ErrorCode} {cause : Option InnerError}
      (h : ((⟨code, cause⟩ : SslError), s) = (e, s')) (hcause : ∀ x, cause ≠ some (.io x)) :
      (s'.bio.Blocked → s.bio.Blocked)
        ∧ (e.intoIoErrorOrOther.kind = .wouldBlock → f.TakesError ∧ s.bio.Blocked) := by
    obtain ⟨rfl, rfl⟩ := Prod.mk.inj h
    refine ⟨id, fun hk => ?_⟩
    rcases cause with _ | x | stack
    · cases hk
    · exact absurd rfl (hcause x)
    · cases hk
  rcases f with ⟨code, queue⟩
  unfold makeError at h
  cases code <;> simp only at h
  case wantRead => exact taken (.inl rfl) h
  case wantWrite => exact taken (.inr (.inl rfl)) h
  case syscall =>
    split at h
    case isTrue hempty => exact taken (.inr (.inr ⟨rfl, hempty⟩)) h
    case isFalse => exact other h (by simp)
  all_goals exact other h (by simp)

/-- From `s` to `s'`, an error that would block and that the BIO keeps was kept before, or is
armed. -/
def KeepsArmed (s s' : SslStream σ τ) : Prop :=
  ∃ new, s'.stream.transport.events = s.stream.transport.events ++ new
    ∧ (s'.bio.Blocked → s.bio.Blocked ∨ Armed new)

/-- Nothing was done. -/
theorem KeepsArmed.refl (s : SslStream σ τ) : KeepsArmed s s := ⟨[], by simp, .inl⟩

/-- Two parts, one after the other. -/
theorem KeepsArmed.trans (h₁ : KeepsArmed s s₁) (h₂ : KeepsArmed s₁ s') : KeepsArmed s s' := by
  obtain ⟨es, hes, h₁⟩ := h₁
  obtain ⟨fs, hfs, h₂⟩ := h₂
  refine ⟨es ++ fs, by rw [hfs, hes, List.append_assoc], fun h => ?_⟩
  rcases h₂ h with h | h
  · exact (h₁ h).imp_right (Armed.mono (List.subset_append_left _ _))
  · exact .inr (h.mono (List.subset_append_right _ _))

/-- A part that leaves the BIO's error alone. -/
theorem StaysPatient.keepsArmed (h : StaysPatient s s') (herror : s'.bio.error = s.bio.error) :
    KeepsArmed s s' := by
  obtain ⟨new, hnew, -⟩ := h
  refine ⟨new, hnew, ?_⟩
  rintro ⟨x, hx, hk⟩
  exact .inl ⟨x, herror ▸ hx, hk⟩

/-- A call into BoringSSL, whose programs are made of BIO operations. -/
theorem call_keepsArmed (hio : NeverReadyWouldBlock io) {α : Type}
    {p : Boring (Except SslFailure α × σ)} {r : Except SslError α} (h : s.call io a p = (r, s')) :
    KeepsArmed s s' := by
  obtain ⟨new, hnew, herror⟩ := Bio.interp_armed (a := a) hio p s.bio
  have hbio : (p.interp (Bio.handle io a) s.bio).2.Blocked → s.bio.Blocked ∨ Armed new := by
    rintro ⟨x, hx, hk⟩
    rcases herror with ⟨hsame, -⟩ | ⟨-, harmed⟩
    · exact .inl ⟨x, hsame ▸ hx, hk⟩
    · exact .inr (harmed ⟨x, hx, hk⟩)
  unfold call at h
  rcases hi : p.interp (Bio.handle io a) s.bio with ⟨⟨f | v, ssl⟩, bio⟩ <;>
    rw [hi] at h hnew hbio
  · rcases hm : makeError { s with ssl, bio } f with ⟨e, s₁⟩
    obtain ⟨-, hstream, -⟩ := makeError_spec hm
    simp only [hm] at h
    obtain ⟨-, rfl⟩ := Prod.mk.inj h
    exact ⟨new, by rw [hstream]; exact hnew, fun hb => hbio ((makeError_blocked hm).1 hb)⟩
  · obtain ⟨-, rfl⟩ := Prod.mk.inj h
    exact ⟨new, hnew, hbio⟩

/-- A move that is no call leaves the BIO's error alone. -/
theorem Move.keepsArmed (hio : NeverReadyWouldBlock io) (h : Move B io a s s') : KeepsArmed s s' := by
  have hpatient := h.patient
  cases h with
  | sslRead h =>
      have hcall := call_keepsArmed hio h
      exact hcall
  | sslWrite h => exact call_keepsArmed hio h
  | sslDoHandshake h => exact call_keepsArmed hio h
  | reserve total => exact hpatient.keepsArmed rfl
  | drain => exact hpatient.keepsArmed rfl
  | writeThrough through => exact hpatient.keepsArmed rfl
  | readEnd stop => exact hpatient.keepsArmed rfl
  | sealInto h => exact hpatient.keepsArmed rfl
  | stack hb h =>
      refine hpatient.keepsArmed ?_
      unfold sealOnStack at h
      split at h <;> obtain ⟨-, rfl⟩ := Prod.mk.inj h <;> rfl

/-- So with any number of moves. -/
theorem moves_keepsArmed (hio : NeverReadyWouldBlock io) (h : Moves B io a s s') : KeepsArmed s s' :=
  moves_rel KeepsArmed.refl (fun _ _ _ => KeepsArmed.trans) (fun _ _ => Move.keepsArmed hio) h

/-! ### What a write waits for -/

/-- `SSL_write` reports an error of the BIO only after an operation that failed. -/
def BlamesBio (B : BoringSsl σ) : Prop :=
  ∀ ssl buf, (B.sslWrite ssl buf).Paths takesWrites fun es r =>
    ∀ f, r.1 = .error f → f.TakesError → ∃ e ∈ es, fails e.1 e.2

/-- From `s` to `s'` a poll of the transport was pending; or else the BIO kept an error from before
`s`, and BoringSSL blamed it with nothing failed. -/
def Waits (B : BoringSsl σ) (s s' : SslStream σ τ) : Prop :=
  ∃ new, s'.stream.transport.events = s.stream.transport.events ++ new
    ∧ (Armed new ∨ s.bio.Blocked ∧ ¬ BlamesBio B)

/-- A part that only keeps errors may come before one that waits. -/
theorem KeepsArmed.waits (h₁ : KeepsArmed s s₁) (h₂ : Waits B s₁ s') : Waits B s s' := by
  obtain ⟨es, hes, h₁⟩ := h₁
  obtain ⟨fs, hfs, h₂⟩ := h₂
  refine ⟨es ++ fs, by rw [hfs, hes, List.append_assoc], ?_⟩
  rcases h₂ with h | ⟨hblocked, hB⟩
  · exact .inl (h.mono (List.subset_append_right _ _))
  · exact (h₁ hblocked).symm.imp (Armed.mono (List.subset_append_left _ _)) fun h => ⟨h, hB⟩

/-- And after it. -/
theorem Waits.keepsArmed (h₁ : Waits B s s₁) (h₂ : KeepsArmed s₁ s') : Waits B s s' := by
  obtain ⟨es, hes, h₁⟩ := h₁
  obtain ⟨fs, hfs, -⟩ := h₂
  exact ⟨es ++ fs, by rw [hfs, hes, List.append_assoc],
    h₁.imp_left (Armed.mono (List.subset_append_left _ _))⟩

/-- **An `SSL_write` that would block waits for the transport**: a BIO operation in it failed, and
armed the error that it reports. -/
theorem sslWrite_waits (hio : NeverReadyWouldBlock io) {buf : Bytes} {e : SslError}
    (h : s.sslWrite B io a buf = (.error e, s')) (hk : e.intoIoErrorOrOther.kind = .wouldBlock) :
    Waits B s s' := by
  unfold sslWrite at h
  split at h
  · cases (Prod.mk.inj h).1
  obtain ⟨new, hnew, herror⟩ := Bio.interp_armed (a := a) hio
    (B.sslWrite s.ssl (buf.take cIntMax)) s.bio
  have htaken (b : Bio τ) (op : BioOp) : takesWrites op (Bio.handle io a op b).1 :=
    Bio.handle_takesWrites b op
  have hblames (hB : BlamesBio B) :=
    Prog.interp_paths htaken (hB s.ssl (buf.take cIntMax)) s.bio
  unfold call at h
  rcases hi : (B.sslWrite s.ssl (buf.take cIntMax)).interp (Bio.handle io a) s.bio
    with ⟨⟨f | v, ssl⟩, bio⟩ <;> rw [hi] at h hnew herror hblames
  · rcases hm : makeError { s with ssl, bio } f with ⟨e', s₁⟩
    obtain ⟨-, hstream, -⟩ := makeError_spec hm
    simp only [hm] at h
    obtain ⟨he, rfl⟩ := Prod.mk.inj h
    obtain rfl := Except.error.inj he
    obtain ⟨htakes, hblocked⟩ := (makeError_blocked hm).2 hk
    refine ⟨new, by rw [hstream]; exact hnew, ?_⟩
    rcases herror with ⟨hsame, hfine⟩ | ⟨-, harmed⟩
    · obtain ⟨x, hx, hxk⟩ := hblocked
      refine .inr ⟨⟨x, hsame ▸ hx, hxk⟩, fun hB => ?_⟩
      obtain ⟨event, hmem, hfail⟩ := hblames hB f rfl htakes
      exact hfine event hmem hfail
    · exact .inl (harmed hblocked)
  · cases (Prod.mk.inj h).1

/-- An `SSL_write` that does not fail may still keep an error. -/
theorem sslWrite_keepsArmed (hio : NeverReadyWouldBlock io) {buf : Bytes} {r : Except SslError Nat}
    (h : s.sslWrite B io a buf = (r, s')) : KeepsArmed s s' := by
  unfold sslWrite at h
  split at h
  · obtain ⟨-, rfl⟩ := Prod.mk.inj h
    exact .refl s
  · exact call_keepsArmed hio h

/-- `SslStream::write` reports the error of its last `SSL_write`. -/
theorem write_waits (hio : NeverReadyWouldBlock io) {fuel : Nat} {buf : Bytes} {e : IoError}
    (h : s.write B io a fuel buf = some (.error e, s')) (hk : e.kind = .wouldBlock) :
    Waits B s s' := by
  induction fuel generalizing s with
  | zero => cases h
  | succ fuel ih =>
      unfold write at h
      rcases hw : s.sslWrite B io a buf with ⟨f | n, s₁⟩ <;> simp only [hw] at h
      · split at h
        · exact (sslWrite_keepsArmed hio hw).waits (ih h)
        · obtain ⟨he, rfl⟩ := Prod.mk.inj (Option.some.inj h)
          obtain rfl := Except.error.inj he
          exact sslWrite_waits hio hw hk
      · cases (Prod.mk.inj (Option.some.inj h)).1

/-- The error that ends the loop is the last `SSL_write`'s. -/
theorem sealLoop_waits (hio : NeverReadyWouldBlock io) {fuel total written' : Nat} {at' : Sealing}
    {e : IoError} (h : sealLoop B io a total fuel s at' = some (some e, written', s'))
    (hk : e.kind = .wouldBlock) : Waits B s s' := by
  induction fuel generalizing s at' with
  | zero => cases h
  | succ fuel ih =>
      obtain ⟨written, packer, through⟩ := at'
      unfold sealLoop at h
      rcases hn : packer.nextRecord with _ | ⟨record, packer₁⟩ <;> simp only [hn] at h
      · cases (Prod.mk.inj (Option.some.inj h)).1
      have hthrough : KeepsArmed s (s.setWriteThrough
          (through && decide (total ≤ saturatingAdd written record.length))) :=
        Move.keepsArmed (B := B) (a := a) hio (.writeThrough s _)
      rcases hw : write B io a fuel (s.setWriteThrough
          (through && decide (total ≤ saturatingAdd written record.length))) record
        with _ | ⟨f | n, s₁⟩ <;> simp only [hw] at h
      · cases h
      · obtain ⟨he, -, rfl⟩ : _ ∧ _ ∧ _ := by simpa using h
        subst he
        exact hthrough.waits (write_waits hio hw hk)
      · split at h
        · cases (Prod.mk.inj (Option.some.inj h)).1
        · exact (hthrough.trans (moves_keepsArmed hio (write_moves hw))).waits (ih h)

/-- The loop reports an error only where it has sealed nothing. -/
theorem sslWriteRecords_waits (hio : NeverReadyWouldBlock io) {fuel total : Nat} {bufs : List Bytes}
    {e : IoError} (h : sslWriteRecords B io a fuel s bufs total = some (.error e, s'))
    (hk : e.kind = .wouldBlock) : Waits B s s' := by
  unfold sslWriteRecords at h
  simp only at h
  rcases hl : sealLoop B io a total fuel
      (s.setRecords (s.stream.writeBuf.reserve a total) s.stream.transport)
      ⟨0, .new bufs, true⟩ with _ | ⟨_ | f, written, s₁⟩ <;> simp only [hl] at h
  · cases h
  · cases (Prod.mk.inj (Option.some.inj h)).1
  split at h
  case isFalse => cases (Prod.mk.inj (Option.some.inj h)).1
  obtain ⟨he, rfl⟩ := Prod.mk.inj (Option.some.inj h)
  obtain rfl := Except.error.inj he
  have hloop := (Move.keepsArmed (B := B) hio (.reserve s total)).waits (sealLoop_waits hio hl hk)
  have hend : Moves B io a s₁ ((s₁.setWriteThrough false).drainUnlessBlocked io) :=
    .tail (.single (.writeThrough s₁ false)) (.drain _)
  exact hloop.keepsArmed (moves_keepsArmed hio hend)

/-- An error of a seal is never that it would block. -/
theorem sealInto_error {b b' : WriteBuffer} {ssl ssl' : σ} {limits : SealLimits} {bufs : List Bytes}
    {total : Nat} {e : IoError} {records : Bytes}
    (h : b.sealInto B a ssl limits bufs total = (.error e, records, b', ssl')) : e.kind = .other := by
  unfold WriteBuffer.sealInto at h
  simp only at h
  split at h
  · cases (Prod.mk.inj h).1
  rename_i maxOut _
  rcases hs : B.sealChecked ssl bufs (sealBudget limits.maxFragment limits.recordOverhead
    limits.pendingLen b.len total) maxOut with ⟨queue | _ | sealed, ssl₁⟩ <;> simp only [hs] at h
  · obtain rfl := Except.error.inj (Prod.mk.inj h).1
    rfl
  · cases (Prod.mk.inj h).1
  · cases (Prod.mk.inj h).1

/-- An error of sealing in place is not one that would block. -/
theorem sealOnStack_error {total : Nat} {bufs : List Bytes} {e : IoError}
    (h : s.sealOnStack B io a bufs total = (.error e, s')) : e.kind = .other := by
  unfold sealOnStack at h
  rcases hs : B.sealChecked s.ssl bufs total sealStackLen with ⟨queue | _ | sealed, ssl₁⟩ <;>
    simp only [hs] at h
  · obtain rfl := Except.error.inj (Prod.mk.inj h).1
    rfl
  · cases (Prod.mk.inj h).1
  · cases (Prod.mk.inj h).1

/-- So a buffered write would block only in `SSL_write`. -/
theorem writeBuffered_waits (hio : NeverReadyWouldBlock io) {fuel total : Nat} {bufs : List Bytes}
    {e : IoError} (h : writeBuffered B io a fuel s bufs total = some (.error e, s'))
    (hk : e.kind = .wouldBlock) : Waits B s s' := by
  unfold writeBuffered at h
  rcases hl : B.sealAppDataLimits s.ssl with _ | limits <;> rw [hl] at h
  · exact sslWriteRecords_waits hio h hk
  rcases hs : s.stream.writeBuf.sealInto B a s.ssl limits bufs total
    with ⟨f | _ | n, records, b, ssl⟩ <;> simp only [hs] at h
  · obtain ⟨he, -⟩ := Prod.mk.inj (Option.some.inj h)
    obtain rfl := Except.error.inj he
    have hother := sealInto_error hs
    rw [hk] at hother
    cases hother
  · exact (Move.keepsArmed hio (.sealInto hs)).waits (sslWriteRecords_waits hio h hk)
  · cases (Prod.mk.inj (Option.some.inj h)).1

/-- And so would a write of at most `MAX_RECORD` bytes, on the stack or behind it. -/
theorem writeNonempty_waits (hio : NeverReadyWouldBlock io) {fuel total : Nat} {bufs : List Bytes}
    {e : IoError} (hb : s.stream.writeBuf.isEmpty = true → s.stream.writeBuf.blocked = false)
    (h : writeNonempty B io a fuel s bufs total = some (.error e, s')) (hk : e.kind = .wouldBlock) :
    Waits B s s' := by
  unfold writeNonempty at h
  split at h
  case isFalse => exact writeBuffered_waits hio h hk
  rename_i hsmall
  rcases hs : s.sealOnStack B io a bufs total with ⟨f | _ | n, s₁⟩ <;> simp only [hs] at h
  · obtain ⟨he, -⟩ := Prod.mk.inj (Option.some.inj h)
    obtain rfl := Except.error.inj he
    have hother := sealOnStack_error hs
    rw [hk] at hother
    cases hother
  · exact (Move.keepsArmed hio (.stack (hb hsmall.2) hs)).waits (writeBuffered_waits hio h hk)
  -- Past a stack seal the write reports what it sealed, and no error.
  · split at h
    case isFalse => cases (Prod.mk.inj (Option.some.inj h)).1
    rcases hw : writeBuffered B io a fuel s₁ (advanceSlices bufs n) (total - n)
      with _ | ⟨f | m, s₂⟩ <;> simp only [hw] at h
    · cases h
    · cases (Prod.mk.inj (Option.some.inj h)).1
    · cases (Prod.mk.inj (Option.some.inj h)).1

/-- A poll is `Pending` for an error that would block. -/
theorem pending_of_cvt {α : Type} {r : Except IoError α} (h : cvt r = .pending) :
    ∃ e, r = .error e ∧ e.kind = .wouldBlock := by
  rcases r with e | v
  · refine ⟨e, rfl, ?_⟩
    by_contra hk
    simp [cvt, hk] at h
  · cases h

/-- **One refusal a write, and `Pending` is armed.**  Once the transport refuses a poll of `retry` or
`write_last`, the rest of the write polls it only in BoringSSL's own flush.  A write that returns
`Pending` for its records, in the retry or in an `SSL_write` that flushes them, does so only where the
transport returned `Pending` to a write or a flush in that call; a write in which BoringSSL waits for
the peer, where it did to a read.  A flush returns `Pending` only where the transport did. -/
theorem one_refusal (hio : NeverReadyWouldBlock io) {fuel : Nat} {bufs : List Bytes}
    {r : Poll (Except IoError Nat)} (h : s.pollWriteVectored B io a fuel bufs = some (r, s')) :
    (∃ new, s'.stream.transport.events = s.stream.transport.events ++ new ∧ OneRefusal new
        ∧ (∀ e b t, s.stream.writeBuf.retry io s.stream.transport = (.error e, b, t) →
          r = .pending → .write .retry .pending ∈ new)
        -- An error that the BIO keeps from an earlier call is taken only if nothing replaces it.
        ∧ (BlamesBio B ∨ ¬ s.bio.Blocked → r = .pending → .read .pending ∉ new →
          (∃ issuer, .write issuer .pending ∈ new) ∨ .flush .pending ∈ new))
      ∧ ∀ r s', s.pollFlush io = (r, s') →
          ∃ new, s'.stream.transport.events = s.stream.transport.events ++ new
            ∧ (r = .pending → .write .flush .pending ∈ new ∨ .flush .pending ∈ new) := by
  refine ⟨?_, fun r s' hflush => ?_⟩
  · obtain ⟨⟨res, s₁⟩, hw, heq⟩ := Option.map_eq_some_iff.mp h
    obtain ⟨rfl, rfl⟩ := Prod.mk.inj heq
    unfold writeRecords at hw
    rcases hr : s.stream.writeBuf.retry io s.stream.transport with ⟨e | _, b, t⟩ <;>
      obtain ⟨new, hnew, -, hone, hblocks, hempty, hpend⟩ := WriteBuffer.retry_events hr <;>
      simp only [hr] at hw
    · obtain ⟨rfl, rfl⟩ := Prod.mk.inj (Option.some.inj hw)
      have harmed (hpending : cvt (.error e : Except IoError Nat) = .pending) :
          .write .retry .pending ∈ new := by
        obtain ⟨e', he, hk⟩ := pending_of_cvt hpending
        obtain rfl := Except.error.inj he
        exact hpend hio e rfl hk
      exact ⟨new, hnew, hone, fun _ _ _ _ => harmed, fun _ hp _ => .inl ⟨_, harmed hp⟩⟩
    · have hmoves : Moves B io a (s.setRecords b t) s₁ := by
        split at hw
        · obtain ⟨-, rfl⟩ := Prod.mk.inj (Option.some.inj hw)
          exact .refl
        · exact writeNonempty_moves (hempty rfl) hw
      obtain ⟨more, hmore, hone', -, hkeep, -⟩ := moves_patient hmoves
      refine ⟨new ++ more, by rw [hmore, ← List.append_assoc, ← hnew]; rfl, ?_, nofun, ?_⟩
      · exact Patient.oneRefusal_append hone hone' fun hr => (hkeep (hblocks rfl hr)).2
      · intro hclean hpending hread
        obtain ⟨e, rfl, hk⟩ := pending_of_cvt hpending
        have hwaits : Waits B (s.setRecords b t) s₁ := by
          split at hw
          · cases (Prod.mk.inj (Option.some.inj hw)).1
          · exact writeNonempty_waits hio (hempty rfl) hw hk
        obtain ⟨more', hmore', harmed | ⟨hblocked, hB⟩⟩ := hwaits
        · rw [hmore, List.append_cancel_left_eq] at hmore'
          subst hmore'
          rcases harmed with ⟨issuer, h⟩ | h | h
          · exact .inl ⟨issuer, List.mem_append_right _ h⟩
          · exact .inr (List.mem_append_right _ h)
          · exact absurd (List.mem_append_right _ h) hread
        · exact absurd (hclean.resolve_left hB) (not_not_intro hblocked)
  · unfold pollFlush flush at hflush
    rcases hf : s.stream.flush io with ⟨res, w⟩
    obtain ⟨-, new, hnew, -, hpend⟩ := StreamWrapper.flush_events hf
    rw [hf] at hflush
    obtain ⟨rfl, rfl⟩ := Prod.mk.inj hflush
    refine ⟨new, hnew, fun hpending => ?_⟩
    obtain ⟨e, rfl, hk⟩ := pending_of_cvt hpending
    exact hpend hio e rfl hk

/-- The stalled transport is always pending. -/
theorem stalled_neverReadyWouldBlock : NeverReadyWouldBlock stalled := ⟨nofun, nofun, nofun⟩

/-- The clear library without in-place sealing, which flushes the BIO before each record. -/
def flushingSsl : BoringSsl Bytes :=
  { clearSsl with
    sealAppDataLimits := fun _ => none
    sslWrite := fun s buf => .call .flush fun
      | .error _ => .ret (.error ⟨.wantWrite, []⟩, s)
      | .ok () => .call (.write (clearRecord (buf.take maxRecord))) fun
        | .error _ => .ret (.error ⟨.wantWrite, []⟩, s)
        | .ok _ => .ret (.ok (buf.take maxRecord).length, s ++ buf.take maxRecord)
    sslWrite_spec := fun s buf hbuf x _ => by
      rcases x with retry | _
      · rfl
      · intro x hx
        obtain rfl : x = _ := hx
        have hlen := List.length_pos_iff.mpr hbuf
        refine ⟨?_, ?_, ?_⟩
        · rw [List.length_take, maxRecord]; omega
        · rw [List.length_take]; omega
        · simp [clearSsl] }

/-- The library reports an error only where a flush or a write failed. -/
theorem flushingSsl_blamesBio : BlamesBio flushingSsl := by
  rintro ssl buf (retry | _) -
  · exact fun _ _ _ => ⟨_, List.mem_singleton_self _, retry, rfl⟩
  · rintro (retry | n) -
    · exact fun _ _ _ => ⟨_, List.mem_cons_of_mem _ (List.mem_singleton_self _), retry, rfl⟩
    · exact nofun

/-- The stalled transport refuses three bytes once, and the write of two more only buffers; a
library that flushes first is refused again, and the write returns `Pending`. -/
theorem one_refusal_stalled :
    (∃ s', refusedBytes.pollWriteVectored clearSsl stalled exactly 1 [[7, 8]]
        = some (.ready (.ok 2), s')
      ∧ s'.stream.transport.events = [.write .retry .pending]
      ∧ ∃ new, s'.stream.transport.events = refusedBytes.stream.transport.events ++ new
        ∧ OneRefusal new)
    ∧ ∃ s', refusedBytes.pollWriteVectored flushingSsl stalled exactly 2 [[7, 8]]
        = some (.pending, s')
      ∧ s'.stream.transport.events = [.write .retry .pending, .write .flush .pending]
      ∧ ∃ new, s'.stream.transport.events = refusedBytes.stream.transport.events ++ new
        ∧ OneRefusal new
        ∧ ((∃ issuer, .write issuer .pending ∈ new) ∨ .flush .pending ∈ new) := by
  have hbuffers : ∃ s', refusedBytes.pollWriteVectored clearSsl stalled exactly 1 [[7, 8]]
        = some (.ready (.ok 2), s')
      ∧ s'.stream.transport.events = [.write .retry .pending] := ⟨_, rfl, rfl⟩
  have hflushes : ∃ s', refusedBytes.pollWriteVectored flushingSsl stalled exactly 2 [[7, 8]]
        = some (.pending, s')
      ∧ s'.stream.transport.events = [.write .retry .pending, .write .flush .pending] :=
    ⟨_, rfl, rfl⟩
  obtain ⟨s', hs', hevents⟩ := hbuffers
  obtain ⟨s'', hs'', hevents'⟩ := hflushes
  obtain ⟨⟨new, hnew, hone, -⟩, -⟩ := one_refusal stalled_neverReadyWouldBlock hs'
  obtain ⟨⟨new', hnew', hone', -, harmed⟩, -⟩ := one_refusal stalled_neverReadyWouldBlock hs''
  have hread : .read .pending ∉ new' := by
    have hall : [.write .retry .pending, .write .flush .pending] = new' := hevents'.symm.trans hnew'
    simp [← hall]
  exact ⟨⟨s', hs', hevents, new, hnew, hone⟩, s'', hs'', hevents', new', hnew', hone',
    harmed (.inl flushingSsl_blamesBio) rfl hread⟩

end SslStream

end Btls.Stream
