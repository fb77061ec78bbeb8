import Btls.Stream.Budget
import Btls.Stream.Moves

/-!
# Stream — Polls

Which polls of the transport one call makes.  `Patient` is what every part of a write keeps: once a
poll of `retry` or `write_last` is refused the buffer is blocked, and a blocked buffer is polled by
`StreamWrapper::flush` alone.  A write is a retry and then patient parts.

Each poll is an event with the part of the crate that issued it, so a poll of BoringSSL's own flush
is told from one of the crate's (`Own`).  The parts are gone through from below, a drain, a read,
the operations of the BIO, a call into BoringSSL and each move, and one after the other they stay
patient (`Patient.trans`): what is not polled for after a refusal is the second part's by its own
condition.

* `WriteBuffer.drain_events`: a drain stops at the first refusal, and would block only where that is
  `Pending`.
* `WriteBuffer.retry_events`: a retry that succeeds has blocked the buffer if the transport refused
  anything.
* `moves_patient`: any number of moves is patient.
-/

namespace Btls.Stream

open Btls.Support

/-! ### Events -/

/-- The transport took nothing: it is not ready, or failed. -/
def Refused (r : Poll (Except IoError Nat)) : Prop := r = .pending ∨ ∃ e, r = .ready (.error e)

namespace TransportEvent

/-- A refusal that blocks the buffer. -/
def Refusal (e : TransportEvent) : Prop :=
  ∃ issuer r, e = .write issuer r ∧ (issuer = .retry ∨ issuer = .writeLast) ∧ Refused r

/-- A write poll of the crate's own, rather than in a flush, which in a write only BoringSSL calls. -/
def Own (e : TransportEvent) : Prop := ∃ issuer r, e = .write issuer r ∧ issuer ≠ .flush

end TransportEvent

open TransportEvent

/-- No write poll of the crate's own comes after a refusal. -/
def OneRefusal (events : List TransportEvent) : Prop :=
  events.Pairwise fun e e' => e.Refusal → ¬ e'.Own

/-- The transport never answers that it would block: it is pending instead. -/
structure NeverReadyWouldBlock {τ : Type} (io : AsyncStream τ) : Prop where
  write : ∀ t buf e, (io.pollWrite t buf).1 = .ready (.error e) → e.kind ≠ .wouldBlock
  flush : ∀ t e, (io.pollFlush t).1 = .ready (.error e) → e.kind ≠ .wouldBlock
  read : ∀ t cap e, (io.pollRead t cap).1 = .ready (.error e) → e.kind ≠ .wouldBlock

section Events

variable {τ : Type} {io : AsyncStream τ} {a : Allocator} {b b' : WriteBuffer} {t t' : Transport τ}
  {issuer : Issuer}

/-- Write polls do not shut the transport down. -/
theorem not_shutdown_of_write {new : List TransportEvent}
    (h : ∀ e ∈ new, ∃ p, e = .write issuer p) (r : Poll (Except IoError Unit)) :
    .shutdown r ∉ new := by
  intro hr
  obtain ⟨p, hp⟩ := h _ hr
  cases hp

/-- What `finish` polls is no refusal: its error is dropped, with nothing polled after it. -/
theorem not_refusal_of_finish {r : Poll (Except IoError Nat)} {e : TransportEvent}
    (h : e = .write .finish r) : ¬ e.Refusal := by
  rintro ⟨issuer, r', rfl, hissuer, -⟩
  obtain ⟨rfl, -⟩ := TransportEvent.write.inj h
  rcases hissuer with h | h <;> cases h

/-- A drain makes write polls of its issuer's, the last of which alone may be refused, and then the
drain fails. -/
theorem WriteBuffer.drainLoop_events {turns : Nat} {rest rest' : Bytes} {r : Except IoError Unit}
    (h : drainLoop io issuer turns rest t = (r, rest', t')) :
    ∃ new, t'.events = t.events ++ new ∧ (∀ e ∈ new, ∃ p, e = .write issuer p)
      ∧ OneRefusal new ∧ ((∃ e ∈ new, e.Refusal) → ∃ e, r = .error e)
      ∧ (NeverReadyWouldBlock io → ∀ e, r = .error e → e.kind = .wouldBlock →
          .write issuer .pending ∈ new) := by
  -- On the turns; only a turn that took bytes goes on, so a refusal is the last event.
  induction turns generalizing rest t with
  | zero =>
      obtain ⟨rfl, -, rfl⟩ : _ ∧ _ ∧ _ := by simpa [drainLoop] using h
      exact ⟨[], by simp, by simp, .nil, by simp, by simp⟩
  | succ turns ih =>
      unfold drainLoop at h
      split at h
      · obtain ⟨rfl, -, rfl⟩ : _ ∧ _ ∧ _ := by simpa using h
        exact ⟨[], by simp, by simp, .nil, by simp, by simp⟩
      have hpoll : ∀ p t₁, t.pollWrite io issuer rest = (p, t₁) →
          t₁.events = t.events ++ [.write issuer p] ∧ (io.pollWrite t.stream rest).1 = p := by
        intro p t₁ hp
        obtain ⟨rfl, rfl⟩ := Prod.mk.inj hp
        exact ⟨rfl, rfl⟩
      have one : ∀ p : Poll (Except IoError Nat), OneRefusal [.write issuer p] := fun p =>
        List.pairwise_singleton _ _
      rcases hp : t.pollWrite io issuer rest with ⟨(e | _ | n) | _, t₁⟩ <;>
        obtain ⟨hevents, hanswer⟩ := hpoll _ _ hp <;> simp only [hp] at h
      · obtain ⟨rfl, -, rfl⟩ : _ ∧ _ ∧ _ := by simpa using h
        refine ⟨_, hevents, by simp, one _, fun _ => ⟨_, rfl⟩, fun hio e' he hk => ?_⟩
        obtain rfl := Except.error.inj he
        exact absurd hk (hio.write _ _ _ hanswer)
      · obtain ⟨rfl, -, rfl⟩ : _ ∧ _ ∧ _ := by simpa using h
        refine ⟨_, hevents, by simp, one _, fun _ => ⟨_, rfl⟩, fun _ e' he hk => ?_⟩
        obtain rfl := Except.error.inj he
        cases hk
      · obtain ⟨new, hnew, hissuer, hone, hrefused, hpend⟩ := ih h
        have htook : ¬ (TransportEvent.write issuer (.ready (.ok (n + 1)))).Refusal := by
          rintro ⟨_, r, he, -, hr⟩
          obtain ⟨-, rfl⟩ := TransportEvent.write.inj he
          rcases hr with hr | ⟨e, hr⟩ <;> cases hr
        refine ⟨_ :: new, by rw [hnew, hevents, List.append_assoc]; rfl, ?_, ?_, ?_, ?_⟩
        · intro e he
          rcases List.mem_cons.mp he with rfl | he
          · exact ⟨_, rfl⟩
          · exact hissuer e he
        · exact List.pairwise_cons.mpr ⟨fun _ _ hr => absurd hr htook, hone⟩
        · rintro ⟨e, he, hr⟩
          rcases List.mem_cons.mp he with rfl | he
          · exact absurd hr htook
          · exact hrefused ⟨e, he, hr⟩
        · intro hio e he hk
          exact List.mem_cons_of_mem _ (hpend hio e he hk)
      · obtain ⟨rfl, -, rfl⟩ : _ ∧ _ ∧ _ := by simpa using h
        exact ⟨_, hevents, by simp, one _, fun _ => ⟨_, rfl⟩, fun _ _ _ _ => by simp⟩

/-- Taking bytes off does not unblock the buffer. -/
theorem WriteBuffer.advance_blocked (b : WriteBuffer) (n : Nat) :
    (b.advance n).blocked = b.blocked := by
  unfold advance
  split <;> rfl

/-- **A drain stops at the first refusal**, and would block only where that is `Pending`. -/
theorem WriteBuffer.drain_events {r : Except IoError Unit} (h : b.drain io issuer t = (r, b', t')) :
    b'.blocked = b.blocked ∧
    ∃ new, t'.events = t.events ++ new ∧ (∀ e ∈ new, ∃ p, e = .write issuer p)
      ∧ OneRefusal new ∧ ((∃ e ∈ new, e.Refusal) → ∃ e, r = .error e)
      ∧ (NeverReadyWouldBlock io → ∀ e, r = .error e → e.kind = .wouldBlock →
          .write issuer .pending ∈ new) := by
  unfold drain at h
  rcases hl : drainLoop io issuer b.len b.buffered t with ⟨res, rest, t₁⟩
  rw [hl] at h
  obtain ⟨rfl, rfl, rfl⟩ : _ ∧ _ ∧ _ := by simpa using h
  exact ⟨advance_blocked _ _, drainLoop_events hl⟩

/-- A retry that succeeds has blocked the buffer if the transport refused anything; one that fails
with `WouldBlock` was refused. -/
theorem WriteBuffer.retry_events {r : Except IoError Unit} (h : b.retry io t = (r, b', t')) :
    ∃ new, t'.events = t.events ++ new ∧ (∀ r, .shutdown r ∉ new) ∧ OneRefusal new
      ∧ (r = .ok () → (∃ e ∈ new, e.Refusal) → b'.blocked = true)
      ∧ (r = .ok () → b'.isEmpty = true → b'.blocked = false)
      ∧ (NeverReadyWouldBlock io → ∀ e, r = .error e → e.kind = .wouldBlock →
          .write .retry .pending ∈ new) := by
  unfold retry at h
  by_cases hempty : b.isEmpty = true
  · obtain ⟨rfl, rfl, rfl⟩ : _ ∧ _ ∧ _ := by simpa [hempty] using h
    exact ⟨[], by simp, nofun, .nil, fun _ => nofun, fun _ _ => rfl, nofun⟩
  rcases hd : b.drain io .retry t with ⟨e | _, b₁, t₁⟩ <;>
    obtain ⟨-, new, hnew, hissuer, hone, hrefused, hpend⟩ := drain_events hd <;>
    have hopen := not_shutdown_of_write hissuer <;> rw [if_neg hempty, hd] at h
  · by_cases hk : e.kind ≠ .wouldBlock ∨ b₁.isFull = true
    · obtain ⟨rfl, rfl, rfl⟩ : _ ∧ _ ∧ _ := by simpa [if_pos hk] using h
      exact ⟨new, hnew, hopen, hone, nofun, nofun, hpend⟩
    · obtain ⟨rfl, rfl, rfl⟩ : _ ∧ _ ∧ _ := by simpa [if_neg hk] using h
      have hleft := drain_error hd
      refine ⟨new, hnew, hopen, hone, fun _ _ => ?_, fun _ he => ?_, nofun⟩
      · show (!b₁.isEmpty) = true
        rw [hleft]
        rfl
      · show (!b₁.isEmpty) = false
        have he' : b₁.isEmpty = true := he
        rw [he']
        rfl
  · obtain ⟨rfl, rfl, rfl⟩ : _ ∧ _ ∧ _ := by simpa using h
    refine ⟨new, hnew, hopen, hone, fun _ hr => ?_, fun _ he => ?_, nofun⟩
    · obtain ⟨e, he⟩ := hrefused hr
      cases he
    · show (!b₁.isEmpty) = false
      have he' : b₁.isEmpty = true := he
      rw [he']
      rfl

/-- From `b` and `t`, a part of a write polls the transport at most until it is refused, which blocks
the buffer; a blocked buffer stays blocked and is not polled.  The transport is not shut down. -/
def Patient (b : WriteBuffer) (t : Transport τ) (b' : WriteBuffer) (t' : Transport τ) : Prop :=
  ∃ new, t'.events = t.events ++ new ∧ OneRefusal new
    ∧ ((∃ e ∈ new, e.Refusal) → b'.blocked = true)
    ∧ (b.blocked = true → b'.blocked = true ∧ ∀ e ∈ new, ¬ e.Own)
    ∧ ∀ r, .shutdown r ∉ new

namespace Patient

/-- Polls in another name leave the buffer as patient as it was. -/
theorem foreign {new : List TransportEvent} (ht : t'.events = t.events ++ new)
    (hnew : ∀ e ∈ new, ¬ e.Own ∧ ∀ r, e ≠ .shutdown r) (hb : b'.blocked = b.blocked) :
    Patient b t b' t' := by
  have hrefusal : ∀ e ∈ new, ¬ e.Refusal := by
    rintro e he ⟨issuer, r, rfl, hissuer, -⟩
    refine (hnew _ he).1 ⟨issuer, r, rfl, ?_⟩
    rcases hissuer with rfl | rfl <;> nofun
  refine ⟨new, ht, ?_, ?_, fun h => ⟨hb.trans h, fun e he => (hnew e he).1⟩, ?_⟩
  · exact List.pairwise_of_forall_mem_list fun e he e' _ hr => absurd hr (hrefusal e he)
  · rintro ⟨e, he, hr⟩
    exact absurd hr (hrefusal e he)
  · exact fun r hr => (hnew _ hr).2 r rfl

/-- Without a poll nothing is refused. -/
theorem quiet (ht : t'.events = t.events) (hb : b'.blocked = b.blocked) : Patient b t b' t' :=
  foreign (by rw [ht, List.append_nil]) (fun _ he => absurd he List.not_mem_nil) hb

/-- Nothing was done. -/
theorem refl (b : WriteBuffer) (t : Transport τ) : Patient b t b t := .quiet rfl rfl

/-- Two parts refuse once if the second does not poll on its own after a refusal in the first. -/
theorem oneRefusal_append {es fs : List TransportEvent} (hes : OneRefusal es) (hfs : OneRefusal fs)
    (h : (∃ e ∈ es, e.Refusal) → ∀ e ∈ fs, ¬ e.Own) : OneRefusal (es ++ fs) :=
  List.pairwise_append.mpr ⟨hes, hfs, fun e he e' he' hr => h ⟨e, he, hr⟩ e' he'⟩

/-- A refusal blocks the buffer, and a blocked buffer is not polled for. -/
theorem trans {b₁ : WriteBuffer} {t₁ : Transport τ} (h₁ : Patient b t b₁ t₁)
    (h₂ : Patient b₁ t₁ b' t') : Patient b t b' t' := by
  obtain ⟨es, hes, hone, hblock, hkeep, hopen⟩ := h₁
  obtain ⟨fs, hfs, hone', hblock', hkeep', hopen'⟩ := h₂
  refine ⟨es ++ fs, by rw [hfs, hes, List.append_assoc], ?_, ?_, ?_, ?_⟩
  · exact oneRefusal_append hone hone' fun hr => (hkeep' (hblock hr)).2
  · rintro ⟨e, he, hr⟩
    rcases List.mem_append.mp he with he | he
    · exact (hkeep' (hblock ⟨e, he, hr⟩)).1
    · exact hblock' ⟨e, he, hr⟩
  · intro hb
    obtain ⟨hb₁, hquiet⟩ := hkeep hb
    obtain ⟨hb', hquiet'⟩ := hkeep' hb₁
    refine ⟨hb', fun e he => ?_⟩
    rcases List.mem_append.mp he with he | he
    · exact hquiet e he
    · exact hquiet' e he
  · intro r hr
    rcases List.mem_append.mp hr with hr | hr
    · exact hopen r hr
    · exact hopen' r hr

end Patient

namespace WriteBuffer

/-- Pushing a record does not unblock the buffer. -/
@[simp] theorem push_blocked (b : WriteBuffer) (record : Bytes) :
    (b.push a record).blocked = b.blocked := makeRoom_blocked a b record.length

/-- Nor does keeping the rest of one. -/
theorem keepUnwritten_blocked (b : WriteBuffer) (n : Nat) (record : Bytes) :
    (b.keepUnwritten a n record).blocked = b.blocked := by
  unfold keepUnwritten
  split
  · rw [push_blocked, advance_blocked]
  · rfl

/-- The last drain of a write is skipped where the buffer is blocked. -/
theorem drainUnlessBlocked_patient (h : b.drainUnlessBlocked io t = (b', t')) :
    Patient b t b' t' := by
  unfold drainUnlessBlocked at h
  by_cases hb : b.blocked = true
  · rw [if_pos hb] at h
    obtain ⟨rfl, rfl⟩ := Prod.mk.inj h
    exact .refl _ _
  rw [if_neg hb] at h
  rcases hd : b.drain io .finish t with ⟨r, b₁, t₁⟩
  obtain ⟨-, new, hnew, hissuer, hone, -, -⟩ := drain_events hd
  rw [hd] at h
  obtain ⟨rfl, rfl⟩ := Prod.mk.inj h
  refine ⟨new, hnew, hone, ?_, fun h => absurd h hb, not_shutdown_of_write hissuer⟩
  rintro ⟨e, he, hr⟩
  obtain ⟨p, hp⟩ := hissuer e he
  exact absurd hr (not_refusal_of_finish hp)

/-- `write_last` polls once, and blocks the buffer where that is refused. -/
theorem writeLast_patient {record : Bytes} (hb : b.blocked = false)
    (h : b.writeLast a io t record = (b', t')) : Patient b t b' t' := by
  unfold writeLast at h
  rcases hp : (if b.len = 0 then t.pollWrite io .writeLast record
    else if io.isWriteVectored t.stream then t.pollWriteVectored io .writeLast [b.buffered, record]
    else (.ready (.ok 0), t)) with ⟨res, t₁⟩
  have hevents : t₁.events = t.events ++ [.write .writeLast res]
      ∨ t₁.events = t.events ∧ res = .ready (.ok 0) := by
    split at hp
    · obtain ⟨rfl, rfl⟩ := Prod.mk.inj hp
      exact .inl rfl
    · split at hp <;> obtain ⟨rfl, rfl⟩ := Prod.mk.inj hp
      · exact .inl rfl
      · exact .inr ⟨rfl, rfl⟩
  rw [hp] at h
  have hblocked : t' = t₁ ∧ (Refused res → b'.blocked = true) := by
    rcases res with (e | n) | _ <;> obtain ⟨rfl, rfl⟩ := Prod.mk.inj h <;> refine ⟨rfl, fun hr => ?_⟩
    · exact keepUnwritten_blocked _ _ _
    · rcases hr with hr | ⟨e, hr⟩ <;> cases hr
    · exact keepUnwritten_blocked _ _ _
  obtain ⟨rfl, hrefused⟩ := hblocked
  have hnot : ¬ b.blocked = true := by simp [hb]
  rcases hevents with hevents | ⟨hevents, rfl⟩
  · refine ⟨_, hevents, List.pairwise_singleton _ _, ?_, fun h => absurd h hnot, by simp⟩
    rintro ⟨e, he, issuer, r, rfl, -, hr⟩
    obtain ⟨-, rfl⟩ := TransportEvent.write.inj (List.mem_singleton.mp he)
    exact hrefused hr
  · exact ⟨[], by simp [hevents], .nil, nofun, fun h => absurd h hnot, nofun⟩

end WriteBuffer

/-- A fill polls the transport once, and would block only where that is pending. -/
theorem ReadBuffer.fill_events {rb : ReadBuffer} {r : Except IoError Unit}
    (h : ReadBuffer.fill io a t = (r, rb, t')) :
    ∃ p, t'.events = t.events ++ [.read p]
      ∧ (NeverReadyWouldBlock io → ∀ e, r = .error e → e.kind = .wouldBlock → p = .pending) := by
  have hpoll : ∀ p t₁, t.pollRead io (a.grow 0 readBufCapacity) = (p, t₁) →
      t₁.events = t.events ++ [.read p]
        ∧ (io.pollRead t.stream (a.grow 0 readBufCapacity)).1 = p := by
    intro p t₁ hp
    obtain ⟨rfl, rfl⟩ := Prod.mk.inj hp
    exact ⟨rfl, rfl⟩
  unfold ReadBuffer.fill at h
  rcases hp : t.pollRead io (a.grow 0 readBufCapacity) with ⟨(e | data) | _, t₁⟩ <;>
    obtain ⟨hevents, hanswer⟩ := hpoll _ _ hp <;> rw [hp] at h <;>
    obtain ⟨rfl, -, rfl⟩ : _ ∧ _ ∧ _ := by simpa using h
  · refine ⟨_, hevents, fun hio e' he hk => ?_⟩
    obtain rfl := Except.error.inj he
    exact absurd hk (hio.read _ _ _ hanswer)
  · refine ⟨_, hevents, fun _ e he => ?_⟩
    cases he
  · exact ⟨_, hevents, fun _ _ _ _ => rfl⟩

/-- A read polls at most once, and would block only where that is `Pending`. -/
theorem ReadBuffer.read_events {rb rb' : ReadBuffer} {len : Nat} {r : Except IoError Bytes}
    (h : rb.read io a t len = (r, rb', t')) :
    ∃ new, t'.events = t.events ++ new ∧ (∀ e ∈ new, ∃ p, e = .read p)
      ∧ (NeverReadyWouldBlock io → ∀ e, r = .error e → e.kind = .wouldBlock →
          .read .pending ∈ new) := by
  unfold ReadBuffer.read at h
  rcases hf : (if rb.isEmpty then ReadBuffer.fill io a t else (.ok (), rb, t)) with ⟨filled, b₁, t₁⟩
  have hevents : ∃ new, t₁.events = t.events ++ new ∧ (∀ e ∈ new, ∃ p, e = .read p)
      ∧ (NeverReadyWouldBlock io → ∀ e, filled = .error e → e.kind = .wouldBlock →
          .read .pending ∈ new) := by
    split at hf
    · obtain ⟨p, hp, hpend⟩ := ReadBuffer.fill_events hf
      refine ⟨[.read p], hp, fun e he => ⟨p, List.mem_singleton.mp he⟩, fun hio e he hk => ?_⟩
      obtain rfl := hpend hio e he hk
      exact List.mem_singleton_self _
    · obtain ⟨rfl, -, rfl⟩ : _ ∧ _ ∧ _ := by simpa using hf
      exact ⟨[], by simp, nofun, nofun⟩
  obtain ⟨new, hnew, hreads, hpend⟩ := hevents
  rw [hf] at h
  rcases filled with e | _ <;> obtain ⟨rfl, -, rfl⟩ : _ ∧ _ ∧ _ := by simpa using h
  · refine ⟨new, hnew, hreads, fun hio e' he hk => ?_⟩
    obtain rfl := Except.error.inj he
    exact hpend hio e rfl hk
  · exact ⟨new, hnew, hreads, nofun⟩

/-- It writes nothing. -/
theorem ReadBuffer.read_patient {b : WriteBuffer} {rb rb' : ReadBuffer} {len : Nat}
    {r : Except IoError Bytes} (h : rb.read io a t len = (r, rb', t')) : Patient b t b t' := by
  obtain ⟨new, hnew, hreads, -⟩ := ReadBuffer.read_events h
  refine Patient.foreign hnew (fun e he => ?_) rfl
  obtain ⟨p, rfl⟩ := hreads e he
  exact ⟨nofun, nofun⟩

namespace StreamWrapper

variable {w w' : StreamWrapper τ}

/-- A record that BoringSSL writes is buffered where the buffer is blocked. -/
theorem write_patient {buf : Bytes} {r : Except IoError Nat} (h : w.write io a buf = (r, w')) :
    Patient w.writeBuf w.transport w'.writeBuf w'.transport := by
  unfold write at h
  split at h
  · rename_i hthrough
    have hb : w.writeBuf.blocked = false := by
      simp only [Bool.and_eq_true, Bool.not_eq_true'] at hthrough
      exact hthrough.2
    rcases hl : w.writeBuf.writeLast a io w.transport buf with ⟨b₁, t₁⟩
    rw [hl] at h
    obtain ⟨-, rfl⟩ := Prod.mk.inj h
    exact WriteBuffer.writeLast_patient hb hl
  · obtain ⟨-, rfl⟩ := Prod.mk.inj h
    exact .quiet rfl (WriteBuffer.push_blocked _ _)

/-- A flush polls in its own name, and says so if it is not ready. -/
theorem flush_events {r : Except IoError Unit} (h : w.flush io = (r, w')) :
    w'.writeBuf.blocked = w.writeBuf.blocked
      ∧ ∃ new, w'.transport.events = w.transport.events ++ new
        ∧ (∀ e ∈ new, (∃ p, e = .write .flush p) ∨ ∃ p, e = .flush p)
        ∧ (NeverReadyWouldBlock io → ∀ e, r = .error e → e.kind = .wouldBlock →
            .write .flush .pending ∈ new ∨ .flush .pending ∈ new) := by
  unfold flush at h
  rcases hd : w.writeBuf.drain io .flush w.transport with ⟨e | _, b₁, t₁⟩ <;>
    obtain ⟨hb, new, hnew, hissuer, -, -, hpend⟩ := WriteBuffer.drain_events hd <;>
    simp only [hd] at h
  · obtain ⟨rfl, rfl⟩ := Prod.mk.inj h
    exact ⟨hb, new, hnew, fun e he => .inl (hissuer e he), fun hio e he hk => .inl (hpend hio e he hk)⟩
  · have hpoll : ∀ p t₂, t₁.pollFlush io = (p, t₂) →
        t₂.events = t₁.events ++ [.flush p] ∧ (io.pollFlush t₁.stream).1 = p := by
      intro p t₂ hp
      obtain ⟨rfl, rfl⟩ := Prod.mk.inj hp
      exact ⟨rfl, rfl⟩
    rcases hp : t₁.pollFlush io with ⟨res | _, t₂⟩ <;>
      obtain ⟨hevents, hanswer⟩ := hpoll _ _ hp <;> simp only [hp] at h <;>
      obtain ⟨rfl, rfl⟩ := Prod.mk.inj h <;>
      refine ⟨hb, new ++ [.flush _], by rw [hevents, hnew, List.append_assoc], ?_, ?_⟩
    · intro e he
      rcases List.mem_append.mp he with he | he
      · exact .inl (hissuer e he)
      · exact .inr ⟨_, List.mem_singleton.mp he⟩
    · intro hio e he hk
      obtain rfl : res = .error e := he
      exact absurd hk (hio.flush _ _ hanswer)
    · intro e he
      rcases List.mem_append.mp he with he | he
      · exact .inl (hissuer e he)
      · exact .inr ⟨_, List.mem_singleton.mp he⟩
    · exact fun _ _ _ _ => .inr (by simp)

/-- BoringSSL's own flush is counted apart. -/
theorem flush_patient {r : Except IoError Unit} (h : w.flush io = (r, w')) :
    Patient w.writeBuf w.transport w'.writeBuf w'.transport := by
  obtain ⟨hb, new, hnew, hissuer, -⟩ := flush_events h
  refine Patient.foreign hnew (fun e he => ?_) hb
  rcases hissuer e he with ⟨p, rfl⟩ | ⟨p, rfl⟩
  · refine ⟨?_, nofun⟩
    rintro ⟨issuer, r, he, hissue⟩
    obtain ⟨rfl, -⟩ := TransportEvent.write.inj he
    exact hissue rfl
  · exact ⟨nofun, nofun⟩

end StreamWrapper

/-- So every operation of the BIO is patient. -/
theorem Bio.handle_patient (op : BioOp) (bio : Bio τ) :
    Patient bio.stream.writeBuf bio.stream.transport
      (Bio.handle io a op bio).2.stream.writeBuf (Bio.handle io a op bio).2.stream.transport := by
  cases op with
  | read len =>
      rcases hr : bio.stream.readBuf.read io a bio.stream.transport len with ⟨e | data, b₁, t₁⟩ <;>
        simpa [handle, finish, StreamWrapper.read, hr] using ReadBuffer.read_patient hr
  | write buf =>
      rcases hr : bio.stream.write io a buf with ⟨e | n, w⟩ <;>
        simpa [handle, finish, hr] using StreamWrapper.write_patient hr
  | flush =>
      rcases hr : bio.stream.flush io with ⟨e | _, w⟩ <;>
        simpa [handle, finish, hr] using StreamWrapper.flush_patient hr

end Events

/-! ### The parts of a write -/

namespace SslStream

variable {σ τ : Type} {B : BoringSsl σ} {io : AsyncStream τ} {a : Allocator}
  {s s₁ s' : SslStream σ τ}

/-- From `s` to `s'` a part of a write was patient. -/
def StaysPatient (s s' : SslStream σ τ) : Prop :=
  Patient s.stream.writeBuf s.stream.transport s'.stream.writeBuf s'.stream.transport

/-- Nothing was done. -/
theorem StaysPatient.refl (s : SslStream σ τ) : StaysPatient s s := Patient.refl _ _

/-- Two parts, one after the other. -/
theorem StaysPatient.trans (h₁ : StaysPatient s s₁) (h₂ : StaysPatient s₁ s') : StaysPatient s s' :=
  Patient.trans h₁ h₂

/-- So is a call into BoringSSL. -/
theorem call_patient {α : Type} {p : Boring (Except SslFailure α × σ)} {r : Except SslError α}
    (h : s.call io a p = (r, s')) : StaysPatient s s' := by
  have hbio : Patient s.bio.stream.writeBuf s.bio.stream.transport
      (p.interp (Bio.handle io a) s.bio).2.stream.writeBuf
      (p.interp (Bio.handle io a) s.bio).2.stream.transport := by
    refine Prog.interp_rel (R := fun b b' : Bio τ => Patient b.stream.writeBuf b.stream.transport
      b'.stream.writeBuf b'.stream.transport) (fun _ => .refl _ _) ?_ p s.bio
    intro b₀ b op h₀
    exact h₀.trans (Bio.handle_patient op b)
  unfold call at h
  rcases hi : p.interp (Bio.handle io a) s.bio with ⟨⟨res, ssl⟩, bio⟩
  rw [hi] at h hbio
  rcases res with f | v
  · rcases hm : makeError { s with ssl, bio } f with ⟨e, s₁⟩
    obtain ⟨-, hstream, -⟩ := makeError_spec hm
    simp only [hm] at h
    obtain ⟨-, rfl⟩ := Prod.mk.inj h
    show Patient _ _ s₁.stream.writeBuf s₁.stream.transport
    rw [hstream]
    exact hbio
  · obtain ⟨-, rfl⟩ := Prod.mk.inj h
    exact hbio

/-- Sealing in place polls nothing. -/
theorem sealInto_blocked {b b' : WriteBuffer} {ssl ssl' : σ} {limits : SealLimits}
    {bufs : List Bytes} {total : Nat} {r : Except IoError (Option Nat)} {records : Bytes}
    (h : b.sealInto B a ssl limits bufs total = (r, records, b', ssl')) :
    b'.blocked = b.blocked := by
  unfold WriteBuffer.sealInto at h
  simp only at h
  split at h
  · obtain ⟨-, -, rfl, -⟩ : _ ∧ _ ∧ _ ∧ _ := by simpa using h
    rfl
  rename_i maxOut _
  rcases hs : B.sealChecked ssl bufs (sealBudget limits.maxFragment limits.recordOverhead
    limits.pendingLen b.len total) maxOut with ⟨queue | _ | sealed, ssl₁⟩ <;>
    simp only [hs] at h <;> obtain ⟨-, -, rfl, -⟩ : _ ∧ _ ∧ _ ∧ _ := by simpa using h
  all_goals exact WriteBuffer.makeRoom_blocked _ _ _

/-- A record sealed on the stack is written only where the buffer is not blocked. -/
theorem sealOnStack_patient {total : Nat} {bufs : List Bytes} {r : Except IoError (Option Nat)}
    (hb : s.stream.writeBuf.blocked = false) (h : s.sealOnStack B io a bufs total = (r, s')) :
    StaysPatient s s' := by
  unfold sealOnStack at h
  rcases hs : B.sealChecked s.ssl bufs total sealStackLen with ⟨queue | _ | sealed, ssl₁⟩ <;>
    simp only [hs] at h
  · obtain ⟨-, rfl⟩ := Prod.mk.inj h
    exact .refl s
  · obtain ⟨-, rfl⟩ := Prod.mk.inj h
    exact .refl s
  · rcases hw : (if sealed.consumed < total then
        (s.stream.writeBuf.push a sealed.records, s.stream.transport)
      else s.stream.writeBuf.writeLast a io s.stream.transport sealed.records) with ⟨b, t⟩
    rw [hw] at h
    obtain ⟨-, rfl⟩ := Prod.mk.inj h
    show Patient s.stream.writeBuf s.stream.transport b t
    split at hw
    · obtain ⟨rfl, rfl⟩ := Prod.mk.inj hw
      exact .quiet rfl (WriteBuffer.push_blocked _ _)
    · exact WriteBuffer.writeLast_patient hb hw

/-- So every move is patient. -/
theorem Move.patient (h : Move B io a s s') : StaysPatient s s' := by
  cases h with
  | sslRead h =>
      have hcall := call_patient h
      exact hcall
  | sslWrite h => exact call_patient h
  | sslDoHandshake h => exact call_patient h
  | reserve total =>
      refine Patient.quiet rfl ?_
      show (s.stream.writeBuf.reserve a total).blocked = s.stream.writeBuf.blocked
      unfold WriteBuffer.reserve
      split
      · exact WriteBuffer.makeRoom_blocked _ _ _
      · rfl
  | drain =>
      unfold drainUnlessBlocked
      rcases hd : s.stream.writeBuf.drainUnlessBlocked io s.stream.transport with ⟨b, t⟩
      exact WriteBuffer.drainUnlessBlocked_patient hd
  | writeThrough through => exact Patient.quiet rfl rfl
  | readEnd stop => exact Patient.quiet rfl rfl
  | sealInto h => exact Patient.quiet rfl (sealInto_blocked h)
  | stack hb h => exact sealOnStack_patient hb h

/-- And any number of them. -/
theorem moves_patient (h : Moves B io a s s') : StaysPatient s s' :=
  moves_rel StaysPatient.refl (fun _ _ _ => StaysPatient.trans) (fun _ _ => Move.patient) h

end SslStream

end Btls.Stream
