import Btls.Stream.Polls

/-!
# Stream — Shutdown

How a stream is shut down.  A poll of `poll_shutdown` is three phases, each of which may be pending
or fail and be polled again: `SSL_shutdown`, the flush and the transport's own shutdown.

`orderly_shutdown` is about every run: the last phase follows the other two, `SSL_shutdown` is over
once it is done, and the transport ends on BoringSSL's last record.

* The order is `Orderly`, kept by every step.  A call other than `poll_shutdown` keeps it because it
  shuts nothing down (`StaysOpen`, `step_open`).
* The last record is `EndsWith`: once BoringSSL has handed over its alert, nothing follows it.  This
  is asked of the library call by call (`Closes`) and carried through the BIO to the account of what
  was produced.
* What was produced reaches the transport before it is shut down, because the flush between the two
  phases succeeded.
-/

namespace Btls.Stream

open Btls.Support

variable {σ τ : Type} {B : BoringSsl σ} {io : AsyncStream τ} {a : Allocator}

namespace SslStream

variable {s s₁ s' : SslStream σ τ} {l : Label}

/-! ### Calls that shut nothing down -/

/-- A write is a retry and then moves. -/
theorem writeRecords_moves {fuel : Nat} {bufs : List Bytes} {r : Except IoError Nat}
    (h : writeRecords B io a fuel s bufs = some (r, s')) :
    ∃ res b t, s.stream.writeBuf.retry io s.stream.transport = (res, b, t)
      ∧ Moves B io a (s.setRecords b t) s' := by
  unfold writeRecords at h
  rcases hr : s.stream.writeBuf.retry io s.stream.transport with ⟨e | _, b, t⟩ <;>
    obtain ⟨-, -, -, -, -, hempty, -⟩ := WriteBuffer.retry_events hr <;> simp only [hr] at h
  · obtain ⟨-, rfl⟩ := Prod.mk.inj (Option.some.inj h)
    exact ⟨_, b, t, rfl, .refl⟩
  · refine ⟨_, b, t, rfl, ?_⟩
    split at h
    · obtain ⟨-, rfl⟩ := Prod.mk.inj (Option.some.inj h)
      exact .refl
    · exact writeNonempty_moves (hempty rfl) h

/-- A relation that every move, retry and flush extends holds of every call but `poll_shutdown`. -/
theorem step_rel {R : SslStream σ τ → SslStream σ τ → Prop} (hrefl : ∀ s, R s s)
    (htrans : ∀ s s₁ s', R s s₁ → R s₁ s' → R s s') (hmove : ∀ s s', Move B io a s s' → R s s')
    (hretry : ∀ s res b t, s.stream.writeBuf.retry io s.stream.transport = (res, b, t) →
      R s (s.setRecords b t))
    (hflush : ∀ s r w, s.stream.flush io = (r, w) → R s (s.setStream w))
    (h : Step B io a s l s') (hl : ∀ r, l ≠ .shutdown r) : R s s' := by
  have hmoves : ∀ s s', Moves B io a s s' → R s s' := by
    intro s s' h
    exact moves_rel hrefl htrans hmove h
  have hwrite : ∀ fuel bufs r,
      (s.writeRecords B io a fuel bufs).map (fun r => (cvt r.1, r.2)) = some (r, s') → R s s' := by
    intro fuel bufs r h
    obtain ⟨⟨res, s₁⟩, hw, heq⟩ := Option.map_eq_some_iff.mp h
    obtain ⟨rfl, rfl⟩ := Prod.mk.inj heq
    obtain ⟨res, b, t, hr, hm⟩ := writeRecords_moves hw
    exact htrans _ _ _ (hretry _ _ _ _ hr) (hmoves _ _ hm)
  cases h with
  | write h => exact hwrite _ _ _ h
  | writeVectored h => exact hwrite _ _ _ h
  | flush h =>
      unfold pollFlush flush at h
      rcases hf : s.stream.flush io with ⟨res, w⟩
      rw [hf] at h
      obtain ⟨-, rfl⟩ := Prod.mk.inj h
      exact hflush _ _ _ hf
  | shutdown h => exact absurd rfl (hl _)
  | handshake h => exact hmoves _ _ (pollDoHandshake_moves h)
  | read h => exact hmoves _ _ (pollRead_moves h)

/-- From `s` to `s'` neither BoringSSL nor the transport was shut down. -/
structure StaysOpen (s s' : SslStream σ τ) : Prop where
  events : ∃ new, s'.stream.transport.events = s.stream.transport.events ++ new
    ∧ ∀ r, .shutdown r ∉ new
  shutdowns : s'.sslShutdowns = s.sslShutdowns
  sent : s'.stream.shutdownSent = s.stream.shutdownSent

/-- Nothing was done. -/
theorem StaysOpen.refl (s : SslStream σ τ) : StaysOpen s s := ⟨⟨[], by simp, nofun⟩, rfl, rfl⟩

/-- And nothing after it. -/
theorem StaysOpen.trans (h₁ : StaysOpen s s₁) (h₂ : StaysOpen s₁ s') : StaysOpen s s' := by
  obtain ⟨es, hes, hopen⟩ := h₁.events
  obtain ⟨fs, hfs, hopen'⟩ := h₂.events
  refine ⟨⟨es ++ fs, by rw [hfs, hes, List.append_assoc], fun r hr => ?_⟩,
    h₂.shutdowns.trans h₁.shutdowns, h₂.sent.trans h₁.sent⟩
  rcases List.mem_append.mp hr with hr | hr
  · exact hopen r hr
  · exact hopen' r hr

end SslStream

/-! ### The BIO -/

/-- What an operation puts on the wire. -/
def BioOp.written : BioOp → Bytes
  | .write buf => buf
  | _ => []

/-- A flush leaves the flags and the account of records alone. -/
theorem StreamWrapper.flush_frame {w w' : StreamWrapper τ} {r : Except IoError Unit}
    (h : w.flush io = (r, w')) :
    w'.shutdownSent = w.shutdownSent ∧ w'.produced = w.produced := by
  unfold flush at h
  rcases hd : w.writeBuf.drain io .flush w.transport with ⟨e | _, b, t⟩ <;> simp only [hd] at h
  · obtain ⟨-, rfl⟩ := Prod.mk.inj h
    exact ⟨rfl, rfl⟩
  · rcases hp : t.pollFlush io with ⟨res | _, t₁⟩ <;> simp only [hp] at h <;>
      obtain ⟨-, rfl⟩ := Prod.mk.inj h <;> exact ⟨rfl, rfl⟩

/-- A BIO operation never shuts down, and the wire gets what it writes. -/
theorem Bio.handle_frame (bio : Bio τ) (op : BioOp) :
    (Bio.handle io a op bio).2.stream.shutdownSent = bio.stream.shutdownSent
      ∧ (Bio.handle io a op bio).2.stream.produced = bio.stream.produced ++ op.written := by
  cases op with
  | read len =>
      rcases hr : bio.stream.readBuf.read io a bio.stream.transport len with ⟨e | data, b, t⟩ <;>
        simp [handle, finish, StreamWrapper.read, hr, BioOp.written]
  | write buf =>
      by_cases hthrough : (bio.stream.writeThrough && !bio.stream.writeBuf.blocked) = true <;>
        simp [handle, finish, StreamWrapper.write, hthrough, BioOp.written]
  | flush =>
      rcases hf : bio.stream.flush io with ⟨e | _, w⟩ <;>
        simpa [handle, finish, hf, BioOp.written] using StreamWrapper.flush_frame hf

namespace SslStream

variable {s s₁ s' : SslStream σ τ} {l : Label}

/-- A call into BoringSSL does not shut the transport down. -/
theorem call_open {α : Type} {p : Boring (Except SslFailure α × σ)} {r : Except SslError α}
    (h : s.call io a p = (r, s')) : StaysOpen s s' := by
  obtain ⟨new, hnew, -, -, -, hopen⟩ := call_patient h
  have hbio : (p.interp (Bio.handle io a) s.bio).2.stream.shutdownSent = s.stream.shutdownSent := by
    refine Prog.interp_rel (R := fun b b' : Bio τ => b'.stream.shutdownSent = b.stream.shutdownSent)
      (fun _ => rfl) ?_ p s.bio
    intro b₀ b op h₀
    exact (Bio.handle_frame b op).1.trans h₀
  unfold call at h
  rcases hi : p.interp (Bio.handle io a) s.bio with ⟨⟨res, ssl⟩, bio⟩
  rw [hi] at h hbio
  rcases res with f | v
  · rcases hm : makeError { s with ssl, bio } f with ⟨e, s₁⟩
    obtain ⟨-, hstream, -, hdowns⟩ := makeError_spec hm
    simp only [hm] at h
    obtain ⟨-, rfl⟩ := Prod.mk.inj h
    exact ⟨⟨new, hnew, hopen⟩, hdowns, by rw [hstream]; exact hbio⟩
  · obtain ⟨-, rfl⟩ := Prod.mk.inj h
    exact ⟨⟨new, hnew, hopen⟩, rfl, hbio⟩

/-- No move does. -/
theorem Move.staysOpen (h : Move B io a s s') : StaysOpen s s' := by
  obtain ⟨new, hnew, -, -, -, hopen⟩ := h.patient
  have frame (hd : s'.sslShutdowns = s.sslShutdowns)
      (hs : s'.stream.shutdownSent = s.stream.shutdownSent) : StaysOpen s s' :=
    ⟨⟨new, hnew, hopen⟩, hd, hs⟩
  cases h with
  | sslRead h => exact frame (call_open h).shutdowns (call_open h).sent
  | sslWrite h => exact call_open h
  | sslDoHandshake h => exact call_open h
  | reserve total => exact frame rfl rfl
  | drain => exact frame rfl rfl
  | writeThrough through => exact frame rfl rfl
  | readEnd stop => exact frame rfl rfl
  | sealInto h => exact frame rfl rfl
  | stack hb h =>
      unfold sealOnStack at h
      split at h <;> obtain ⟨-, rfl⟩ := Prod.mk.inj h <;> exact frame rfl rfl

/-- Nor does a flush. -/
theorem flush_open {r : Except IoError Unit} {w : StreamWrapper τ}
    (h : s.stream.flush io = (r, w)) : StaysOpen s (s.setStream w) := by
  obtain ⟨new, hnew, -, -, -, hopen⟩ := StreamWrapper.flush_patient h
  exact ⟨⟨new, hnew, hopen⟩, rfl, (StreamWrapper.flush_frame h).1⟩

/-- **Only a call of `poll_shutdown` may shut the transport down.** -/
theorem step_open (h : Step B io a s l s') (hl : ∀ r, l ≠ .shutdown r) : StaysOpen s s' := by
  refine step_rel StaysOpen.refl (fun _ _ _ => StaysOpen.trans) (fun _ _ => Move.staysOpen) ?_
    (fun _ _ _ => flush_open) h hl
  intro s res b t hr
  obtain ⟨new, hnew, hopen, -⟩ := WriteBuffer.retry_events hr
  exact ⟨⟨new, hnew, hopen⟩, rfl, rfl⟩

/-! ### The order of a shutdown -/

/-- `SSL_shutdown` has nothing left to send: it succeeded, or reported that the peer or a fatal alert
had already closed the connection. -/
def Done : Except SslError ShutdownResult → Prop
  | .ok _ => True
  | .error e => e.code = .zeroReturn ∨ closedByAlert e = true

/-- The alert is sent once: later calls pass over `SSL_shutdown`. -/
theorem sendShutdown_cases {r : Poll (Except IoError Unit)} (h : s.sendShutdown B io a = (r, s')) :
    (s.stream.shutdownSent = true ∧ r = .ready (.ok ()) ∧ s' = s)
      ∨ (s.stream.shutdownSent = false ∧ ∃ d s₁, s.shutdown B io a = (d, s₁)
        ∧ (Done d ∧ r = .ready (.ok ()) ∧ s' = s₁.setShutdownSent
          ∨ ¬ Done d ∧ r ≠ .ready (.ok ()) ∧ s' = s₁)) := by
  unfold sendShutdown at h
  split at h
  · rename_i hsent
    obtain ⟨rfl, rfl⟩ := Prod.mk.inj h
    exact .inl ⟨hsent, rfl, rfl⟩
  rename_i hsent
  refine .inr ⟨by simpa using hsent, ?_⟩
  rcases hd : s.shutdown B io a with ⟨e | v, s₁⟩ <;> simp only [hd] at h <;>
    refine ⟨_, s₁, rfl, ?_⟩
  · by_cases hz : e.code = .zeroReturn
    · rw [if_pos hz] at h
      obtain ⟨rfl, rfl⟩ := Prod.mk.inj h
      exact .inl ⟨.inl hz, rfl, rfl⟩
    by_cases hc : closedByAlert e = true
    · rw [if_neg hz, if_pos hc] at h
      obtain ⟨rfl, rfl⟩ := Prod.mk.inj h
      exact .inl ⟨.inr hc, rfl, rfl⟩
    rw [if_neg hz, if_neg hc] at h
    have hdone : ¬ Done (.error e) := by
      rintro (h | h)
      · exact hz h
      · exact hc h
    split at h <;> obtain ⟨rfl, rfl⟩ := Prod.mk.inj h <;> exact .inr ⟨hdone, by simp, rfl⟩
  · obtain ⟨rfl, rfl⟩ := Prod.mk.inj h
    exact .inl ⟨trivial, rfl, rfl⟩

/-- `SSL_shutdown` is over once it is done, which `shutdown_sent` remembers. -/
structure Orderly (s : SslStream σ τ) : Prop where
  once : s.sslShutdowns.Pairwise fun d _ => ¬ Done d
  sent : s.stream.shutdownSent = true ↔ ∃ d ∈ s.sslShutdowns, Done d

/-- What does not shut the transport down keeps the order. -/
theorem Orderly.of_open (hs : Orderly s) (h : StaysOpen s s') : Orderly s' :=
  ⟨by rw [h.shutdowns]; exact hs.once, by rw [h.shutdowns, h.sent]; exact hs.sent⟩

/-- Sending the alert keeps it, and does not shut the transport down. -/
theorem Orderly.sendShutdown (hs : Orderly s) {r : Poll (Except IoError Unit)}
    (h : s.sendShutdown B io a = (r, s')) :
    Orderly s' ∧ (r = .ready (.ok ()) → s'.stream.shutdownSent = true)
      ∧ ∃ new, s'.stream.transport.events = s.stream.transport.events ++ new
        ∧ ∀ r, .shutdown r ∉ new := by
  rcases sendShutdown_cases h with ⟨hsent, rfl, rfl⟩ | ⟨hsent, d, s₁, hd, hcase⟩
  · exact ⟨hs, fun _ => hsent, [], by simp, nofun⟩
  unfold shutdown at hd
  rcases hc : s.call io a (B.sslShutdown s.ssl) with ⟨d', s₂⟩
  obtain ⟨hevents, hdowns, hsent'⟩ := call_open hc
  rw [hc] at hd
  obtain ⟨rfl, rfl⟩ := Prod.mk.inj hd
  have hfresh : ∀ d ∈ s.sslShutdowns, ¬ Done d := by
    intro d hd hdone
    have := hs.sent.mpr ⟨d, hd, hdone⟩
    rw [hsent] at this
    cases this
  have honce : (s₂.sslShutdowns ++ [d']).Pairwise fun d _ => ¬ Done d := by
    rw [hdowns]
    refine List.pairwise_append.mpr ⟨hs.once, List.pairwise_singleton _ _, ?_⟩
    intro d hd _ _
    exact hfresh d hd
  rcases hcase with ⟨hdone, rfl, rfl⟩ | ⟨hdone, hr, rfl⟩
  · exact ⟨⟨honce, fun _ => ⟨d', by simp [setShutdownSent, setStream], hdone⟩, fun _ => rfl⟩,
      fun _ => rfl, hevents⟩
  · refine ⟨⟨honce, fun h => ?_, ?_⟩, fun h => absurd h hr, hevents⟩
    · have h' : s.stream.shutdownSent = true := hsent'.symm.trans h
      rw [hsent] at h'
      cases h'
    · rintro ⟨d, hd, hdone'⟩
      rcases List.mem_append.mp hd with hd | hd
      · rw [hdowns] at hd
        exact absurd hdone' (hfresh d hd)
      · rw [List.mem_singleton.mp hd] at hdone'
        exact absurd hdone' hdone

/-- From `s` to `s'` the transport's shutdown was polled, and answered `r`. -/
def ShutsTransport (s s' : SslStream σ τ) (r : Poll (Except IoError Unit)) : Prop :=
  ∃ new, s'.stream.transport.events = s.stream.transport.events ++ new ∧ .shutdown r ∈ new

/-- What a poll of the transport's shutdown, answered `r`, comes after in the same call. -/
structure ShutsLast (s : SslStream σ τ) (l : Label) (s' : SslStream σ τ)
    (r : Poll (Except IoError Unit)) : Prop where
  label : l = .shutdown r
  done : ∃ d ∈ s'.sslShutdowns, Done d
  drained : s'.stream.writeBuf.buffered = []
  flushed : ∃ pre, s'.stream.transport.events
      = s.stream.transport.events ++ pre ++ [.flush (.ready (.ok ())), .shutdown r]
    ∧ ∀ r, .shutdown r ∉ pre

/-- Such a call is not the one that shuts it down. -/
theorem StaysOpen.not_shutsTransport (h : StaysOpen s s') {r : Poll (Except IoError Unit)} :
    ¬ ShutsTransport s s' r := by
  obtain ⟨new, hnew, hopen⟩ := h.events
  rintro ⟨new', hnew', hr⟩
  rw [hnew, List.append_cancel_left_eq] at hnew'
  subst hnew'
  exact hopen r hr

/-- A flush that succeeds drains the buffer and ends with the transport's own. -/
theorem flush_last {w w' : StreamWrapper τ} (h : w.flush io = (.ok (), w')) :
    w'.writeBuf.buffered = []
      ∧ ∃ pre, w'.transport.events = w.transport.events ++ pre ++ [.flush (.ready (.ok ()))]
        ∧ ∀ r, .shutdown r ∉ pre := by
  unfold StreamWrapper.flush at h
  rcases hd : w.writeBuf.drain io .flush w.transport with ⟨e | _, b, t⟩ <;> simp only [hd] at h
  · cases (Prod.mk.inj h).1
  obtain ⟨-, new, hnew, hissuer, -⟩ := WriteBuffer.drain_events hd
  obtain ⟨-, -, hdrained⟩ := WriteBuffer.drain_spec hd
  rcases hp : t.pollFlush io with ⟨res | _, t₁⟩ <;> simp only [hp] at h
  · obtain ⟨rfl, rfl⟩ := Prod.mk.inj h
    have hevents : t₁.events = t.events ++ [.flush (.ready (.ok ()))] := by
      obtain ⟨hr, rfl⟩ := Prod.mk.inj hp
      exact congrArg (fun r => t.events ++ [.flush r]) hr
    exact ⟨hdrained rfl, new, by rw [hevents, hnew], not_shutdown_of_write hissuer⟩
  · cases (Prod.mk.inj h).1

/-- The three parts of `poll_shutdown`, each of which may end it. -/
theorem pollShutdown_cases {r : Poll (Except IoError Unit)}
    (h : s.pollShutdown B io a = (r, s')) :
    ∃ p s₁, s.sendShutdown B io a = (p, s₁)
      ∧ (s' = s₁ ∨ p = .ready (.ok ()) ∧ ∃ res w, s₁.stream.flush io = (res, w)
        ∧ (s' = s₁.setStream w ∨ res = .ok () ∧ ∃ t, w.transport.pollShutdown io = (r, t)
          ∧ s' = (s₁.setStream w).setRecords w.writeBuf t)) := by
  unfold pollShutdown at h
  rcases hsend : s.sendShutdown B io a with ⟨(e | _) | _, s₁⟩ <;> simp only [hsend] at h <;>
    refine ⟨_, s₁, rfl, ?_⟩
  · exact .inl (Prod.mk.inj h).2.symm
  · refine .inr ⟨rfl, ?_⟩
    unfold pollFlush flush at h
    rcases hf : s₁.stream.flush io with ⟨e | _, w⟩ <;> simp only [hf] at h <;>
      refine ⟨_, w, rfl, ?_⟩
    · have hcvt : cvt (.error e) ≠ .ready (.ok ()) := fun h => nomatch cvt_eq_ok.mp h
      split at h
      · rename_i heq
        exact absurd (Prod.mk.inj heq).1 hcvt
      · exact .inl (Prod.mk.inj h).2.symm
    · exact .inr ⟨rfl, _, (Prod.mk.inj h).1 ▸ rfl, (Prod.mk.inj h).2.symm⟩
  · exact .inl (Prod.mk.inj h).2.symm

/-- The transport is shut down behind the alert and a flush of all records. -/
theorem Orderly.pollShutdown (hs : Orderly s) {r : Poll (Except IoError Unit)}
    (h : s.pollShutdown B io a = (r, s')) :
    Orderly s' ∧ ∀ r', ShutsTransport s s' r' → ShutsLast s (.shutdown r) s' r' := by
  obtain ⟨p, s₁, hsend, hcase⟩ := pollShutdown_cases h
  obtain ⟨hs₁, hsent, new₁, hnew₁, hopen₁⟩ := hs.sendShutdown hsend
  have not_yet {new₂ : List TransportEvent} {r' : Poll (Except IoError Unit)}
      (hnew₂ : s'.stream.transport.events = s₁.stream.transport.events ++ new₂)
      (hopen₂ : ∀ r, .shutdown r ∉ new₂) : ¬ ShutsTransport s s' r' := by
    rintro ⟨new, hnew, hr⟩
    rw [hnew₂, hnew₁, List.append_assoc, List.append_cancel_left_eq] at hnew
    subst hnew
    rcases List.mem_append.mp hr with hr | hr
    · exact hopen₁ r' hr
    · exact hopen₂ r' hr
  -- The transport is shut down last: after the alert is sent, and the buffer drained and flushed.
  rcases hcase with rfl | ⟨rfl, res, w, hf, hcase⟩
  · exact ⟨hs₁, fun r' hr => absurd hr (not_yet (List.append_nil _).symm nofun)⟩
  have hopen := flush_open hf
  rcases hcase with rfl | ⟨rfl, t, ht, rfl⟩
  · obtain ⟨new₂, hnew₂, hopen₂⟩ := hopen.events
    exact ⟨hs₁.of_open hopen, fun r' hr => absurd hr (not_yet hnew₂ hopen₂)⟩
  obtain ⟨hr, rfl⟩ := Prod.mk.inj ht
  have hs' := hs₁.of_open hopen
  refine ⟨⟨hs'.once, hs'.sent⟩, fun r' hr' => ?_⟩
  obtain ⟨hdrained, pre, hpre, hno⟩ := flush_last hf
  have hevents : w.transport.events ++ [.shutdown r] = s.stream.transport.events
      ++ (new₁ ++ pre) ++ [.flush (.ready (.ok ())), .shutdown r] := by
    rw [hpre, show s₁.stream.transport.events = _ from hnew₁]
    simp
  have hquiet : ∀ r, .shutdown r ∉ new₁ ++ pre := by
    intro r hr
    rcases List.mem_append.mp hr with hr | hr
    · exact hopen₁ r hr
    · exact hno r hr
  obtain ⟨new, hnew, hmem⟩ := hr'
  obtain rfl : r' = r := by
    have hnew' : w.transport.events ++ [.shutdown r] = s.stream.transport.events ++ new := by
      rw [← hnew, ← hr]
      rfl
    rw [hevents, List.append_assoc, List.append_cancel_left_eq] at hnew'
    subst hnew'
    rcases List.mem_append.mp hmem with hmem | hmem
    · exact absurd hmem (hquiet r')
    · simpa using hmem
  refine ⟨rfl, ?_, hdrained, new₁ ++ pre, ?_, hquiet⟩
  · exact hs'.sent.mp (hopen.sent.trans (hsent rfl))
  · rw [← hevents, ← hr]
    rfl

end SslStream

/-! ### The last record -/

/-- A close_notify or a fatal alert handed over before is the last record: nothing follows it.  One
handed over now ends what is handed over. -/
def Closing (before : Option Bytes) (out : Bytes) (after : Option Bytes) : Prop :=
  match before with
  | some record => out = [] ∧ after = some record
  | none => ∀ record, after = some record → record <:+ out

/-- No bytes, and the alert as before. -/
theorem Closing.refl (alert : Option Bytes) : Closing alert [] alert := by
  cases alert with
  | none => exact nofun
  | some record => exact ⟨rfl, rfl⟩

/-- Once sent, the alert stays the last of the bytes. -/
theorem Closing.trans {x y z : Option Bytes} {out out' : Bytes} (h₁ : Closing x out y)
    (h₂ : Closing y out' z) : Closing x (out ++ out') z := by
  cases x with
  | some record =>
      obtain ⟨rfl, rfl⟩ := h₁
      exact h₂
  | none =>
      intro record hz
      cases y with
      | some record' =>
          obtain ⟨rfl, rfl⟩ := h₂
          obtain rfl := Option.some.inj hz
          rw [List.append_nil]
          exact h₁ _ rfl
      | none => exact (h₂ record hz).trans (List.suffix_append out out')

/-- The connection is closed already, by what the error queue or the code says. -/
def SslFailure.Closed (f : SslFailure) : Prop :=
  f.code = .zeroReturn ∨ .protocolIsShutdown ∈ f.queue

/-- The records a seal wrote. -/
def SealResult.records : SealResult → Bytes
  | .success out _ => out
  | _ => []

/-- BoringSSL hands nothing over after a close_notify or a fatal alert, `alert` being the one it has
handed over; and where it is `ready`, with the handshake finished and no quiet shutdown, an
`SSL_shutdown` that is done has handed one over. -/
structure Closes (B : BoringSsl σ) (alert : σ → Option Bytes) (ready : σ → Prop) : Prop where
  sslRead : ∀ s len, (B.sslRead s len).Traces takesWrites BioOp.written fun out r =>
    Closing (alert s) out (alert r.2)
  sslWrite : ∀ s buf, (B.sslWrite s buf).Traces takesWrites BioOp.written fun out r =>
    Closing (alert s) out (alert r.2)
  sslDoHandshake : ∀ s, (B.sslDoHandshake s).Traces takesWrites BioOp.written fun out r =>
    Closing (alert s) out (alert r.2)
  sslShutdown : ∀ s, (B.sslShutdown s).Traces takesWrites BioOp.written fun out r =>
    Closing (alert s) out (alert r.2)
      ∧ (ready s → (∀ f, r.1 = .error f → f.Closed) → alert r.2 ≠ none)
  sealAppData : ∀ s bufs maxIn room, Closing (alert s) (B.sealAppData s bufs maxIn room).1.records
    (alert (B.sealAppData s bufs maxIn room).2)

namespace SslStream

variable {s s₁ s' : SslStream σ τ} {l : Label} {ls : List Label} {ssl : σ} {stream : τ}
  {alert : σ → Option Bytes} {ready : σ → Prop}

/-- From `s` to `s'` nothing was handed over past a last record. -/
def EndsWith (alert : σ → Option Bytes) (s s' : SslStream σ τ) : Prop :=
  ∃ out, s'.stream.produced = s.stream.produced ++ out
    ∧ Closing (alert s.ssl) out (alert s'.ssl)

/-- A part that writes no record and leaves BoringSSL alone. -/
theorem EndsWith.quiet (hp : s'.stream.produced = s.stream.produced) (hssl : s'.ssl = s.ssl) :
    EndsWith alert s s' :=
  ⟨[], by rw [hp, List.append_nil], by rw [hssl]; exact Closing.refl _⟩

/-- Two parts, one after the other. -/
theorem EndsWith.trans (h₁ : EndsWith alert s s₁) (h₂ : EndsWith alert s₁ s') :
    EndsWith alert s s' := by
  obtain ⟨out, hout, hc⟩ := h₁
  obtain ⟨out', hout', hc'⟩ := h₂
  exact ⟨out ++ out', by rw [hout', hout, List.append_assoc], hc.trans hc'⟩

/-- `PROTOCOL_IS_SHUTDOWN` is looked for in the queue that the error carries. -/
theorem closedByAlert_iff {e : SslError} :
    closedByAlert e = true ↔ ∃ queue, e.cause = some (.ssl queue) ∧ .protocolIsShutdown ∈ queue := by
  unfold closedByAlert SslError.sslError
  rcases e with ⟨code, _ | ⟨io | queue⟩⟩ <;> simp

/-- The transport's errors carry no queue. -/
theorem cause_io {o : Option IoError} {queue : ErrorStack} :
    o.map InnerError.io ≠ some (.ssl queue) := by
  rcases o with _ | io <;> simp

/-- An error that says the connection is closed says so of what BoringSSL reported. -/
theorem closed_of_done {t t' : SslStream σ τ} {f : SslFailure} {e : SslError}
    (h : makeError t f = (e, t')) (hd : Done (.error e)) : f.Closed := by
  have hqueue (hcause : ∀ queue, e.cause = some (.ssl queue) → queue = f.queue)
      (hclosed : closedByAlert e = true) : f.Closed := by
    obtain ⟨queue, hq, hmem⟩ := closedByAlert_iff.mp hclosed
    rw [hcause queue hq] at hmem
    exact .inr hmem
  rcases f with ⟨code, queue⟩
  have hcode : e.code = code := by
    unfold makeError at h
    cases code <;> simp only [getBioError] at h
    case syscall => split at h <;> rw [← (Prod.mk.inj h).1]
    all_goals rw [← (Prod.mk.inj h).1]
  rcases hd with hd | hd
  · exact .inl (hcode.symm.trans hd)
  · refine hqueue (fun queue' hcause => ?_) hd
    unfold makeError at h
    cases code <;> simp only [getBioError] at h
    case syscall =>
      split at h <;> rw [← (Prod.mk.inj h).1] at hcause
      · exact absurd hcause cause_io
      · cases hcause
        rfl
    all_goals rw [← (Prod.mk.inj h).1] at hcause
    case zeroReturn => cases hcause
    case rest => cases hcause
    case ssl =>
      cases hcause
      rfl
    all_goals exact absurd hcause cause_io

/-- What a call hands over and what it leaves are a trace of BoringSSL's program. -/
theorem call_traces {α : Type} {p : Boring (Except SslFailure α × σ)}
    {Q : Bytes → Except SslFailure α × σ → Prop} (hQ : p.Traces takesWrites BioOp.written Q)
    {r : Except SslError α} (h : s.call io a p = (r, s')) :
    ∃ out res, s'.stream.produced = s.stream.produced ++ out ∧ Q out (res, s'.ssl)
      ∧ ∀ f, res = .error f → ∃ e t t', r = .error e ∧ makeError (t : SslStream σ τ) f = (e, t') := by
  obtain ⟨out, hout, hq⟩ := Prog.interp_traces (fun bio : Bio τ => bio.stream.produced)
    Bio.handle_takesWrites (fun bio op => (Bio.handle_frame bio op).2) hQ s.bio
  unfold call at h
  rcases hi : p.interp (Bio.handle io a) s.bio with ⟨⟨res, ssl⟩, bio⟩
  rw [hi] at h hout hq
  rcases res with f | v
  · rcases hm : makeError { s with ssl, bio } f with ⟨e, s₁⟩
    obtain ⟨hssl, hstream, -, -⟩ := makeError_spec hm
    simp only [hm] at h
    obtain ⟨rfl, rfl⟩ := Prod.mk.inj h
    refine ⟨out, .error f, by rw [hstream]; exact hout, by rw [hssl]; exact hq, fun f' hf => ?_⟩
    obtain rfl := Except.error.inj hf
    exact ⟨e, _, _, rfl, hm⟩
  · obtain ⟨rfl, rfl⟩ := Prod.mk.inj h
    exact ⟨out, .ok v, hout, hq, nofun⟩

/-- What BoringSSL says of a call holds of the account of records. -/
theorem call_endsWith {α : Type} {p : Boring (Except SslFailure α × σ)} {r : Except SslError α}
    (hp : p.Traces takesWrites BioOp.written fun out r => Closing (alert s.ssl) out (alert r.2))
    (h : s.call io a p = (r, s')) : EndsWith alert s s' := by
  obtain ⟨out, res, hout, hc, -⟩ := call_traces hp h
  exact ⟨out, hout, hc⟩

/-- Nothing is sealed in place behind the alert. -/
theorem sealChecked_closing (hB : Closes B alert ready) {ssl ssl' : σ} {bufs : List Bytes}
    {maxIn room : Nat} {r : Except ErrorStack (Option (Sealed room))}
    (h : B.sealChecked ssl bufs maxIn room = (r, ssl')) :
    Closing (alert ssl) (match r with | .ok (some sealed) => sealed.records | _ => [])
      (alert ssl') := by
  have hseal := hB.sealAppData ssl bufs maxIn room
  unfold BoringSsl.sealChecked at h
  rcases hs : B.sealAppData ssl bufs maxIn room with ⟨out | _ | queue, ssl₁⟩ <;> rw [hs] at h hseal
  · rename_i consumed
    obtain ⟨hout, hle, -, -⟩ := B.sealAppData_success ssl bufs maxIn room out consumed (by rw [hs])
    have hfit : out.length ≤ room ∧ consumed ≤ maxIn := ⟨hout, by omega⟩
    simp only [dif_pos hfit] at h
    obtain ⟨rfl, rfl⟩ := Prod.mk.inj h
    exact hseal
  · obtain ⟨rfl, rfl⟩ := Prod.mk.inj h
    exact hseal
  · obtain ⟨rfl, rfl⟩ := Prod.mk.inj h
    exact hseal

/-- Nor by any move. -/
theorem Move.endsWith (hB : Closes B alert ready) (h : Move B io a s s') :
    EndsWith alert s s' := by
  cases h with
  | sslRead h =>
      have hcall := call_endsWith (hB.sslRead _ _) h
      exact hcall
  | sslWrite h => exact call_endsWith (hB.sslWrite _ _) h
  | sslDoHandshake h => exact call_endsWith (hB.sslDoHandshake _) h
  | reserve total => exact .quiet rfl rfl
  | drain => exact .quiet rfl rfl
  | writeThrough through => exact .quiet rfl rfl
  | readEnd stop => exact .quiet rfl rfl
  | @sealInto limits bufs total r records b ssl h =>
      refine ⟨records, rfl, ?_⟩
      show Closing (alert s.ssl) records (alert ssl)
      unfold WriteBuffer.sealInto at h
      simp only at h
      split at h
      · obtain ⟨-, rfl, -, rfl⟩ : _ ∧ _ ∧ _ ∧ _ := by simpa using h
        exact .refl _
      rename_i maxOut _
      rcases hs : B.sealChecked s.ssl bufs (sealBudget limits.maxFragment limits.recordOverhead
          limits.pendingLen s.stream.writeBuf.len total) maxOut with ⟨queue | _ | sealed, ssl₁⟩ <;>
        have hc := sealChecked_closing hB hs <;> simp only [hs] at h <;>
        obtain ⟨-, rfl, -, rfl⟩ : _ ∧ _ ∧ _ ∧ _ := by simpa using h
      all_goals exact hc
  | @stack s' bufs total r hb h =>
      unfold sealOnStack at h
      rcases hs : B.sealChecked s.ssl bufs total sealStackLen with ⟨queue | _ | sealed, ssl₁⟩ <;>
        have hc := sealChecked_closing hB hs <;> simp only [hs] at h <;>
        obtain ⟨-, rfl⟩ := Prod.mk.inj h
      · exact ⟨[], (List.append_nil _).symm, hc⟩
      · exact ⟨[], (List.append_nil _).symm, hc⟩
      · exact ⟨sealed.records, rfl, hc⟩

/-- A flush writes no record of its own. -/
theorem flush_endsWith {r : Except IoError Unit} {w : StreamWrapper τ}
    (h : s.stream.flush io = (r, w)) : EndsWith alert s (s.setStream w) :=
  .quiet (StreamWrapper.flush_frame h).2 rfl

/-- `SSL_shutdown` too, and where it is done it has closed the connection. -/
theorem sendShutdown_endsWith (hB : Closes B alert ready) {r : Poll (Except IoError Unit)}
    (h : s.sendShutdown B io a = (r, s')) :
    EndsWith alert s s' ∧ (ready s.ssl → s.stream.shutdownSent = false →
      s'.stream.shutdownSent = true → alert s'.ssl ≠ none) := by
  rcases sendShutdown_cases h with ⟨hsent, rfl, rfl⟩ | ⟨hsent, d, s₁, hd, hcase⟩
  · exact ⟨.quiet rfl rfl, fun _ h _ => absurd hsent (by simp [h])⟩
  unfold shutdown at hd
  rcases hc : s.call io a (B.sslShutdown s.ssl) with ⟨d', s₂⟩
  obtain ⟨out, res, hout, ⟨hclosing, hready⟩, hres⟩ := call_traces (hB.sslShutdown s.ssl) hc
  rw [hc] at hd
  obtain ⟨rfl, rfl⟩ := Prod.mk.inj hd
  rcases hcase with ⟨hdone, rfl, rfl⟩ | ⟨hdone, hr, rfl⟩
  · refine ⟨⟨out, hout, hclosing⟩, fun hrdy _ _ => hready hrdy fun f hf => ?_⟩
    obtain ⟨e, t, t', rfl, hm⟩ := hres f hf
    exact closed_of_done hm hdone
  · refine ⟨⟨out, hout, hclosing⟩, fun _ _ hs => ?_⟩
    have hs' : s₂.stream.shutdownSent = true := hs
    rw [(call_open hc).sent, hsent] at hs'
    cases hs'

/-- `poll_shutdown` writes the alert, if BoringSSL is ready to. -/
theorem pollShutdown_endsWith (hB : Closes B alert ready) {r : Poll (Except IoError Unit)}
    (h : s.pollShutdown B io a = (r, s')) :
    EndsWith alert s s' ∧ (ready s.ssl → s.stream.shutdownSent = false →
      s'.stream.shutdownSent = true → alert s'.ssl ≠ none) := by
  obtain ⟨p, s₁, hsend, hcase⟩ := pollShutdown_cases h
  obtain ⟨h₁, hready⟩ := sendShutdown_endsWith hB hsend
  rcases hcase with rfl | ⟨rfl, res, w, hf, hcase⟩
  · exact ⟨h₁, hready⟩
  have h₂ : EndsWith alert s (s₁.setStream w) := h₁.trans (flush_endsWith hf)
  have hsent : w.shutdownSent = s₁.stream.shutdownSent := (StreamWrapper.flush_frame hf).1
  have hready₂ : ready s.ssl → s.stream.shutdownSent = false → w.shutdownSent = true →
      alert s₁.ssl ≠ none := by
    intro hrdy hs hw
    exact hready hrdy hs (hsent.symm.trans hw)
  rcases hcase with rfl | ⟨rfl, t, ht, rfl⟩
  · exact ⟨h₂, hready₂⟩
  · exact ⟨h₂.trans (.quiet rfl rfl), hready₂⟩

/-- **No step writes a record behind the alert.** -/
theorem step_endsWith (hB : Closes B alert ready) (h : Step B io a s l s') :
    EndsWith alert s s' := by
  by_cases hl : ∃ r, l = .shutdown r
  · obtain ⟨r, rfl⟩ := hl
    cases h with
    | shutdown h => exact (pollShutdown_endsWith hB h).1
  · exact step_rel (fun _ => .quiet rfl rfl) (fun _ _ _ => EndsWith.trans)
      (fun _ _ => Move.endsWith hB) (fun _ _ _ _ _ => .quiet rfl rfl) (fun _ _ _ => flush_endsWith)
      h fun r hr => hl ⟨r, hr⟩

/-- Nor does any run. -/
theorem run_endsWith (hB : Closes B alert ready) (h : Run (Step B io a) s ls s') :
    EndsWith alert s s' :=
  h.rel (fun _ => .quiet rfl rfl) (fun _ _ _ => EndsWith.trans) fun _ _ _ => step_endsWith hB

/-! ### Whole runs -/

/-- A new stream has sent nothing. -/
theorem Orderly.new : Orderly (.new ssl stream) :=
  ⟨.nil, by simp [SslStream.new, SslStream.stream, StreamWrapper.new]⟩

/-- **What one call does to the shutdown.** -/
theorem Orderly.step (hs : Orderly s) (h : Step B io a s l s') :
    Orderly s' ∧ ∀ r, ShutsTransport s s' r → ShutsLast s l s' r := by
  by_cases hl : ∃ r, l = .shutdown r
  · obtain ⟨r, rfl⟩ := hl
    cases h with
    | shutdown h => exact hs.pollShutdown h
  · have hopen := step_open h fun r hr => hl ⟨r, hr⟩
    exact ⟨hs.of_open hopen, fun r hr => absurd hr hopen.not_shutsTransport⟩

/-- **Orderly shutdown.**  In every state a run reaches, no `SSL_shutdown` follows one that was done.
The next call polls the transport's shutdown only as the last act of a `poll_shutdown` with
`SSL_shutdown` done, `write_buf` empty and the transport flushed in that call; the transport then has
every record produced.  With a BoringSSL that hands nothing over after a close_notify or a fatal
alert, that alert is the end of them, in every later state too. -/
theorem orderly_shutdown (h : Run (Step B io a) (.new ssl stream) ls s) :
    s.sslShutdowns.Pairwise (fun d _ => ¬ Done d)
      ∧ (∀ l s' r, Step B io a s l s' → ShutsTransport s s' r →
          ShutsLast s l s' r ∧ s'.stream.transport.accepted = s'.stream.produced)
      ∧ ∀ (alert : σ → Option Bytes) (ready : σ → Prop), Closes B alert ready → alert ssl = none →
          (∀ l s', Step B io a s l s' → ready s.ssl → s.stream.shutdownSent = false →
            s'.stream.shutdownSent = true → alert s'.ssl ≠ none)
          ∧ ∀ record, alert s.ssl = some record → record <:+ s.stream.produced
            ∧ ∀ ls' s', Run (Step B io a) s ls' s' →
              alert s'.ssl = some record ∧ s'.stream.produced = s.stream.produced := by
  have hs : Orderly s := h.invariant (fun _ _ _ hs hstep => (hs.step hstep).1) .new
  refine ⟨hs.once, fun l s' r hstep hr => ?_, fun alert ready hB hnone => ⟨?_, ?_⟩⟩
  · have hlast := (hs.step hstep).2 r hr
    have hwritten := (sound_of_run (h.snoc hstep)).accounted.written
    rw [hlast.drained, List.append_nil] at hwritten
    exact ⟨hlast, hwritten⟩
  · intro l s' hstep hrdy hsent hsent'
    by_cases hl : ∃ r, l = .shutdown r
    · obtain ⟨r, rfl⟩ := hl
      cases hstep with
      | shutdown hstep => exact (pollShutdown_endsWith hB hstep).2 hrdy hsent hsent'
    · rw [(step_open hstep fun r hr => hl ⟨r, hr⟩).sent, hsent] at hsent'
      cases hsent'
  · intro record hrecord
    obtain ⟨out, hout, hclosing⟩ := run_endsWith hB h
    rw [show alert (SslStream.new ssl stream).ssl = none from hnone] at hclosing
    have hproduced : s.stream.produced = out := hout
    refine ⟨hproduced ▸ hclosing record hrecord, fun ls' s' hrun => ?_⟩
    obtain ⟨out', hout', hclosing'⟩ := run_endsWith hB hrun
    rw [hrecord] at hclosing'
    obtain ⟨rfl, halert⟩ := hclosing'
    exact ⟨halert, by rw [hout', List.append_nil]⟩

def closeNotify : Bytes := [21, 3, 3, 0, 2, 1, 0]

/-- A library that does nothing but close; its state is whether it has. -/
def alertOnly : BoringSsl Bool where
  sealAppDataLimits _ := none
  sealAppData s _ _ _ := (.declined, s)
  sslRead s _ := .ret (.error ⟨.wantRead, []⟩, s)
  sslWrite s _ := .ret (.error ⟨.wantWrite, []⟩, s)
  sslShutdown s :=
    if s then .ret (.ok .sent, true)
    else .call (.write closeNotify) fun _ => .ret (.ok .sent, true)
  sslDoHandshake s := .ret (.ok (), s)
  plaintext _ := []
  sealAppData_success _ _ _ _ _ _ h := nomatch h
  sealAppData_declined _ _ _ _ _ := rfl
  sealAppData_error _ _ _ _ _ _ := rfl
  sslWrite_spec _ _ _ := rfl
  sslRead_spec _ _ _ := ⟨rfl, nofun⟩
  sslShutdown_spec s := by
    cases s with
    | false => exact fun _ _ => rfl
    | true => exact rfl
  sslDoHandshake_spec _ := rfl

/-- A library that writes the alert and nothing else. -/
theorem alertOnly_closes :
    Closes alertOnly (fun closed => if closed then some closeNotify else none) fun _ => True where
  sslRead _ _ := Closing.refl _
  sslWrite _ _ := Closing.refl _
  sslDoHandshake _ := Closing.refl _
  sslShutdown s := by
    cases s with
    | false =>
        refine fun _ _ => ⟨fun record h => ?_, fun _ _ => nofun⟩
        rw [← Option.some.inj h]
        exact List.suffix_rfl
    | true => exact ⟨⟨rfl, rfl⟩, fun _ _ => nofun⟩
  sealAppData _ _ _ _ := Closing.refl _

/-- A shutdown whose first flush is refused and whose second sends the close_notify. -/
theorem orderly_shutdown_resumed :
    ∃ s s', Run (Step alertOnly scripted exactly) (.new false ⟨[.pending, .ready (.ok 7)], []⟩)
        [.shutdown .pending] s
      ∧ Step alertOnly scripted exactly s (.shutdown (.ready (.ok ()))) s'
      ∧ ShutsLast s (.shutdown (.ready (.ok ()))) s' (.ready (.ok ()))
      ∧ s'.stream.transport.accepted = closeNotify
      ∧ closeNotify <:+ s.stream.produced := by
  have hrun : ∃ s s', Run (Step alertOnly scripted exactly)
        (.new false ⟨[.pending, .ready (.ok 7)], []⟩) [.shutdown .pending] s
      ∧ Step alertOnly scripted exactly s (.shutdown (.ready (.ok ()))) s'
      ∧ ShutsTransport s s' (.ready (.ok ())) ∧ s.ssl = true
      ∧ s'.stream.transport.accepted = closeNotify := by
    refine ⟨_, _, .one (.shutdown rfl), .shutdown rfl, ⟨_, rfl, ?_⟩, rfl, rfl⟩
    exact .tail _ (.tail _ (.head _))
  obtain ⟨s, s', hs, hstep, hr, hclosed, haccepted⟩ := hrun
  obtain ⟨-, hlast, hends⟩ := orderly_shutdown hs
  obtain ⟨-, hsuffix⟩ := hends _ _ alertOnly_closes rfl
  exact ⟨s, s', hs, hstep, (hlast _ _ _ hstep hr).1, haccepted,
    (hsuffix closeNotify (by rw [hclosed]; rfl)).1⟩

end SslStream

end Btls.Stream
