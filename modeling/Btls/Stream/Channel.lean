import Btls.Stream.Polled

/-!
# Stream — Channel

Two streams over one network that loses and reorders nothing.  Each end is polled whenever its owner
likes, so a run is any interleaving of the calls of both.

What the record layer means is a parameter: `content` is the application data that a stream of
records carries.  That a library puts on the wire the records of what it sealed (`Sends`), and
returns the content of what it was handed (`Receives`), is the contract of each; that nothing else
happens to the bytes between the two libraries is what is proved here.
-/

namespace Btls.Stream

open Btls.Support Relation

/-! ### What crosses the BIO -/

/-- What BoringSSL was handed. -/
def BioEvent.given : BioEvent → Bytes
  | ⟨.read _, .ok data⟩ => data
  | _ => []

/-- What an `SSL_read` returned. -/
def fruit {ε : Type} : Except ε Bytes → Bytes
  | .ok data => data
  | .error _ => []

section Bio

variable {τ : Type} {io : AsyncStream τ} {a : Allocator}

/-- A flush hands nothing to BoringSSL. -/
theorem StreamWrapper.flush_handed {w w' : StreamWrapper τ} {r : Except IoError Unit}
    (h : w.flush io = (r, w')) : w'.handed = w.handed := by
  unfold flush at h
  rcases hd : w.writeBuf.drain io .flush w.transport with ⟨e | _, b, t⟩ <;> simp only [hd] at h
  · obtain ⟨-, rfl⟩ := Prod.mk.inj h
    rfl
  · rcases hp : t.pollFlush io with ⟨res | _, t₁⟩ <;> simp only [hp] at h <;>
      obtain ⟨-, rfl⟩ := Prod.mk.inj h <;> rfl

/-- A read hands over what it gives, and nothing else does. -/
theorem Bio.handle_handed (bio : Bio τ) (op : BioOp) :
    (Bio.handle io a op bio).2.stream.handed
      = bio.stream.handed ++ BioEvent.given ⟨op, (Bio.handle io a op bio).1⟩ := by
  cases op with
  | read len =>
      rcases hr : bio.stream.readBuf.read io a bio.stream.transport len with ⟨e | data, b, t⟩ <;>
        simp [handle, finish, StreamWrapper.read, hr, ReadBuffer.handedOut, BioEvent.given]
  | write buf =>
      by_cases hthrough : (bio.stream.writeThrough && !bio.stream.writeBuf.blocked) = true <;>
        simp [handle, finish, StreamWrapper.write, hthrough, BioEvent.given]
  | flush =>
      rcases hf : bio.stream.flush io with ⟨e | _, w⟩ <;>
        simpa [handle, finish, hf, BioEvent.given] using StreamWrapper.flush_handed hf

end Bio

namespace SslStream

variable {σ τ : Type} {B : BoringSsl σ} {io : AsyncStream τ} {a : Allocator} {s s' : SslStream σ τ}

/-- The code of an error is the one that BoringSSL gave. -/
theorem makeError_code {f : SslFailure} {e : SslError} (h : s.makeError f = (e, s')) :
    e.code = f.code := by
  rcases f with ⟨code, queue⟩
  unfold makeError at h
  cases code <;> simp only [getBioError] at h
  case syscall => split at h <;> rw [← (Prod.mk.inj h).1]
  all_goals rw [← (Prod.mk.inj h).1]

/-- What a call was handed and what it leaves are a path of BoringSSL's program. -/
theorem call_paths {α : Type} {p : Boring (Except SslFailure α × σ)}
    {Q : List BioEvent → Except SslFailure α × σ → Prop} (hQ : p.Paths takesWrites Q)
    {r : Except SslError α} (h : s.call io a p = (r, s')) :
    ∃ es res, s'.stream.handed = s.stream.handed ++ es.flatMap BioEvent.given
      ∧ s'.sslReads = s.sslReads ∧ Q es (res, s'.ssl)
      ∧ ((∃ v, r = .ok v ∧ res = .ok v)
        ∨ ∃ e f, r = .error e ∧ res = .error f ∧ e.code = f.code) := by
  have hq : Q (p.events (Bio.handle io a) s.bio) (p.interp (Bio.handle io a) s.bio).1 :=
    Prog.interp_paths Bio.handle_takesWrites hQ s.bio
  have hlog : (p.interp (Bio.handle io a) s.bio).2.stream.handed
      = s.bio.stream.handed ++ (p.events (Bio.handle io a) s.bio).flatMap BioEvent.given :=
    Prog.interp_log (fun bio : Bio τ => bio.stream.handed) Bio.handle_handed p s.bio
  unfold call at h
  rcases hi : p.interp (Bio.handle io a) s.bio with ⟨⟨res, ssl⟩, bio⟩
  rw [hi] at h hq hlog
  rcases res with f | v
  · rcases hm : makeError { s with ssl, bio } f with ⟨e, s₁⟩
    obtain ⟨hssl, hstream, hreads, -⟩ := makeError_spec hm
    simp only [hm] at h
    obtain ⟨rfl, rfl⟩ := Prod.mk.inj h
    exact ⟨_, .error f, by rw [hstream]; exact hlog, hreads, by rw [hssl]; exact hq,
      .inr ⟨e, f, rfl, rfl, makeError_code hm⟩⟩
  · obtain ⟨rfl, rfl⟩ := Prod.mk.inj h
    exact ⟨_, .ok v, hlog, rfl, hq, .inl ⟨v, rfl, rfl⟩⟩

end SslStream

/-! ### The two libraries -/

/-- `Sent s out`: a library that is now in `s` has put the records `out` on the wire, and they carry
what it sealed. -/
structure Sends {σ : Type} (B : BoringSsl σ) (content : Bytes → Bytes)
    (Sent : σ → Bytes → Prop) : Prop where
  content_eq : ∀ s out, Sent s out → content out = B.plaintext s
  sealAppData : ∀ s out bufs maxIn room, Sent s out →
    Sent (B.sealAppData s bufs maxIn room).2 (out ++ (B.sealAppData s bufs maxIn room).1.records)
  sslRead : ∀ s out len, Sent s out →
    (B.sslRead s len).Traces takesWrites BioOp.written fun new r => Sent r.2 (out ++ new)
  sslWrite : ∀ s out buf, Sent s out →
    (B.sslWrite s buf).Traces takesWrites BioOp.written fun new r => Sent r.2 (out ++ new)
  sslShutdown : ∀ s out, Sent s out →
    (B.sslShutdown s).Traces takesWrites BioOp.written fun new r => Sent r.2 (out ++ new)
  sslDoHandshake : ∀ s out, Sent s out →
    (B.sslDoHandshake s).Traces takesWrites BioOp.written fun new r => Sent r.2 (out ++ new)

/-- `Took s inp got`: a library that is now in `s` was handed `inp`, and its `SSL_read` calls returned
`got`, which the records in `inp` carry.  An `SSL_read` that wants more has returned all they carry. -/
structure Receives {σ : Type} (B : BoringSsl σ) (content : Bytes → Bytes)
    (Took : σ → Bytes → Bytes → Prop) : Prop where
  content_prefix : ∀ s inp got, Took s inp got → got <+: content inp
  sealAppData : ∀ s inp got bufs maxIn room, Took s inp got →
    Took (B.sealAppData s bufs maxIn room).2 inp got
  sslRead : ∀ s inp got len, Took s inp got → (B.sslRead s len).Paths takesWrites fun es r =>
    Took r.2 (inp ++ es.flatMap BioEvent.given) (got ++ fruit r.1)
      ∧ ∀ f, r.1 = .error f → f.code = .wantRead →
        got = content (inp ++ es.flatMap BioEvent.given)
  sslWrite : ∀ s inp got buf, Took s inp got → (B.sslWrite s buf).Paths takesWrites fun es r =>
    Took r.2 (inp ++ es.flatMap BioEvent.given) got
  sslShutdown : ∀ s inp got, Took s inp got → (B.sslShutdown s).Paths takesWrites fun es r =>
    Took r.2 (inp ++ es.flatMap BioEvent.given) got
  sslDoHandshake : ∀ s inp got, Took s inp got → (B.sslDoHandshake s).Paths takesWrites fun es r =>
    Took r.2 (inp ++ es.flatMap BioEvent.given) got

namespace SslStream

variable {σ τ : Type} {B : BoringSsl σ} {io : AsyncStream τ} {a : Allocator}
  {s s₁ s' : SslStream σ τ} {l : Label} {content : Bytes → Bytes} {Sent : σ → Bytes → Prop}
  {Took : σ → Bytes → Bytes → Prop}

/-- The records of a call that is checked are those that BoringSSL wrote. -/
theorem sealChecked_records {ssl ssl' : σ} {bufs : List Bytes} {maxIn room : Nat}
    {r : Except ErrorStack (Option (Sealed room))}
    (h : B.sealChecked ssl bufs maxIn room = (r, ssl')) :
    (B.sealAppData ssl bufs maxIn room).2 = ssl'
      ∧ (B.sealAppData ssl bufs maxIn room).1.records
        = match r with | .ok (some sealed) => sealed.records | _ => [] := by
  unfold BoringSsl.sealChecked at h
  rcases hs : B.sealAppData ssl bufs maxIn room with ⟨out | _ | queue, ssl₁⟩ <;> rw [hs] at h
  · rename_i consumed
    obtain ⟨hout, hle, -, -⟩ := B.sealAppData_success ssl bufs maxIn room out consumed (by rw [hs])
    have hfit : out.length ≤ room ∧ consumed ≤ maxIn := ⟨hout, by omega⟩
    simp only [dif_pos hfit] at h
    obtain ⟨rfl, rfl⟩ := Prod.mk.inj h
    exact ⟨rfl, rfl⟩
  · obtain ⟨rfl, rfl⟩ := Prod.mk.inj h
    exact ⟨rfl, rfl⟩
  · obtain ⟨rfl, rfl⟩ := Prod.mk.inj h
    exact ⟨rfl, rfl⟩

/-! #### Sending -/

/-- What the stream produced is what its library sent. -/
def InSent (Sent : σ → Bytes → Prop) (s : SslStream σ τ) : Prop := Sent s.ssl s.stream.produced

/-- What BoringSSL says of a call holds of all that it wrote. -/
theorem call_sent {α : Type} {p : Boring (Except SslFailure α × σ)} {r : Except SslError α}
    (hp : p.Traces takesWrites BioOp.written fun new r => Sent r.2 (s.stream.produced ++ new))
    (h : s.call io a p = (r, s')) : InSent Sent s' := by
  obtain ⟨out, res, hout, hsent, -⟩ := call_traces hp h
  unfold InSent
  rw [hout]
  exact hsent

/-- So it does across a move. -/
theorem Move.sent (hB : Sends B content Sent) (h : Move B io a s s') (hs : InSent Sent s) :
    InSent Sent s' := by
  cases h with
  | @sslRead s' len r h =>
      have hcall : InSent Sent s' := call_sent (hB.sslRead _ _ _ hs) h
      exact hcall
  | sslWrite h => exact call_sent (hB.sslWrite _ _ _ hs) h
  | sslDoHandshake h => exact call_sent (hB.sslDoHandshake _ _ hs) h
  | reserve total => exact hs
  | drain => exact hs
  | writeThrough through => exact hs
  | readEnd stop => exact hs
  | @sealInto limits bufs total r records b ssl h =>
      show Sent ssl (s.stream.produced ++ records)
      unfold WriteBuffer.sealInto at h
      simp only at h
      split at h
      · obtain ⟨-, rfl, -, rfl⟩ : _ ∧ _ ∧ _ ∧ _ := by simpa using h
        rw [List.append_nil]
        exact hs
      rename_i maxOut _
      rcases hc : B.sealChecked s.ssl bufs (sealBudget limits.maxFragment limits.recordOverhead
          limits.pendingLen s.stream.writeBuf.len total) maxOut with ⟨queue | _ | sealed, ssl₁⟩ <;>
        have hseal := hB.sealAppData _ _ bufs (sealBudget limits.maxFragment limits.recordOverhead
          limits.pendingLen s.stream.writeBuf.len total) maxOut hs <;>
        rw [(sealChecked_records hc).1, (sealChecked_records hc).2] at hseal <;>
        simp only [hc] at h <;> obtain ⟨-, rfl, -, rfl⟩ : _ ∧ _ ∧ _ ∧ _ := by simpa using h
      all_goals exact hseal
  | @stack s' bufs total r hb h =>
      unfold sealOnStack at h
      rcases hc : B.sealChecked s.ssl bufs total sealStackLen with ⟨queue | _ | sealed, ssl₁⟩ <;>
        have hseal := hB.sealAppData _ _ bufs total sealStackLen hs <;>
        rw [(sealChecked_records hc).1, (sealChecked_records hc).2] at hseal <;>
        simp only [hc] at h <;> obtain ⟨-, rfl⟩ := Prod.mk.inj h
      · rw [List.append_nil] at hseal
        exact hseal
      · rw [List.append_nil] at hseal
        exact hseal
      · exact hseal

/-- A call keeps what is true of the bytes at the BIO, if its moves and `SSL_shutdown` do. -/
theorem step_keeps {P : SslStream σ τ → Prop}
    (hmove : ∀ s s', Move B io a s s' → P s → P s')
    (hquiet : ∀ s w, w.produced = s.stream.produced → w.handed = s.stream.handed →
      P s → P (s.setStream w))
    (hshutdown : ∀ s s' r, s.shutdown B io a = (r, s') → P s → P s')
    (h : Step B io a s l s') (hs : P s) : P s' := by
  have hflush : ∀ s r w, s.stream.flush io = (r, w) → P s → P (s.setStream w) := by
    intro s r w hf hs
    exact hquiet s w (StreamWrapper.flush_frame hf).2 (StreamWrapper.flush_handed hf) hs
  by_cases hl : ∃ r, l = .shutdown r
  · obtain ⟨r, rfl⟩ := hl
    cases h with
    | shutdown h =>
        obtain ⟨p, s₁, hsend, hcase⟩ := pollShutdown_cases h
        have h₁ : P s₁ := by
          rcases sendShutdown_cases hsend with ⟨-, -, rfl⟩ | ⟨-, d, s₂, hd, hcase⟩
          · exact hs
          have h₂ := hshutdown _ _ _ hd hs
          rcases hcase with ⟨-, -, rfl⟩ | ⟨-, -, rfl⟩
          · exact hquiet s₂ _ rfl rfl h₂
          · exact h₂
        rcases hcase with rfl | ⟨-, res, w, hf, hcase⟩
        · exact h₁
        have h₂ := hflush s₁ _ _ hf h₁
        rcases hcase with rfl | ⟨-, t, -, rfl⟩
        · exact h₂
        · exact hquiet _ _ rfl rfl h₂
  · exact step_rel (R := fun s s' => P s → P s') (fun _ => id) (fun _ _ _ h₁ h₂ => h₂ ∘ h₁) hmove
      (fun s _ _ _ _ => hquiet s _ rfl rfl) hflush h (fun r hr => hl ⟨r, hr⟩) hs

/-- And across a step. -/
theorem step_sent (hB : Sends B content Sent) (h : Step B io a s l s') (hs : InSent Sent s) :
    InSent Sent s' := by
  refine step_keeps (fun _ _ => Move.sent hB) ?_ ?_ h hs
  · intro s w hw _ hs
    show Sent s.ssl w.produced
    rw [hw]
    exact hs
  · intro s s' r hd hs
    unfold shutdown at hd
    rcases hc : s.call io a (B.sslShutdown s.ssl) with ⟨d, s₁⟩
    have hcall : InSent Sent s₁ := call_sent (hB.sslShutdown _ _ hs) hc
    rw [hc] at hd
    obtain ⟨-, rfl⟩ := Prod.mk.inj hd
    exact hcall

/-! #### Receiving -/

/-- What the library of the stream took is what it was handed and what its reads returned. -/
def InTook (Took : σ → Bytes → Bytes → Prop) (s : SslStream σ τ) : Prop :=
  Took s.ssl s.stream.handed (s.sslReads.flatMap returned)

/-- A last `SSL_read` that wants more has left nothing of what the library was handed. -/
def Dry (content : Bytes → Bytes) (s : SslStream σ τ) : Prop :=
  ∀ e, s.sslReads.getLast? = some (.error e) → e.code = .wantRead →
    s.sslReads.flatMap returned = content s.stream.handed

/-- What BoringSSL says of a call holds of all that it was handed. -/
theorem call_took {α : Type} {p : Boring (Except SslFailure α × σ)} {r : Except SslError α}
    (hp : p.Paths takesWrites fun es r =>
      Took r.2 (s.stream.handed ++ es.flatMap BioEvent.given) (s.sslReads.flatMap returned))
    (h : s.call io a p = (r, s')) : InTook Took s' := by
  obtain ⟨es, res, hhanded, hreads, htook, -⟩ := call_paths hp h
  unfold InTook
  rw [hhanded, hreads]
  exact htook

/-- So it does with what an `SSL_read` returned. -/
theorem sslRead_took (hB : Receives B content Took) {len : Nat} {r : Except SslError Bytes}
    (hs : InTook Took s) (h : s.call io a (B.sslRead s.ssl len) = (r, s₁)) :
    InTook Took { s₁ with sslReads := s₁.sslReads ++ [r] }
      ∧ Dry content { s₁ with sslReads := s₁.sslReads ++ [r] } := by
  obtain ⟨es, res, hhanded, hreads, ⟨htook, hdry⟩, hres⟩ := call_paths (hB.sslRead _ _ _ len hs) h
  have hnew : (s.sslReads ++ [r]).flatMap returned = s.sslReads.flatMap returned ++ fruit res := by
    rw [List.flatMap_append, List.flatMap_singleton]
    rcases hres with ⟨v, rfl, rfl⟩ | ⟨e, f, rfl, rfl, -⟩ <;> rfl
  constructor
  · show Took s₁.ssl s₁.stream.handed ((s₁.sslReads ++ [r]).flatMap returned)
    rw [hhanded, hreads, hnew]
    exact htook
  · intro e he hwant
    have hlast : (s₁.sslReads ++ [r]).getLast? = some (.error e) := he
    rw [List.getLast?_concat] at hlast
    obtain rfl := Option.some.inj hlast
    obtain ⟨v, hv, -⟩ | ⟨e', f, he', rfl, hcode⟩ := hres
    · cases hv
    obtain rfl := Except.error.inj he'
    show (s₁.sslReads ++ [Except.error e]).flatMap returned = content s₁.stream.handed
    rw [hreads, hnew, hhanded, ← hdry f rfl (hcode.symm.trans hwant)]
    exact List.append_nil _

/-- Across a move. -/
theorem Move.took (hB : Receives B content Took) (h : Move B io a s s') (hs : InTook Took s) :
    InTook Took s' := by
  cases h with
  | sslRead h => exact (sslRead_took hB hs h).1
  | sslWrite h => exact call_took (hB.sslWrite _ _ _ _ hs) h
  | sslDoHandshake h => exact call_took (hB.sslDoHandshake _ _ _ hs) h
  | reserve total => exact hs
  | drain => exact hs
  | writeThrough through => exact hs
  | readEnd stop => exact hs
  | @sealInto limits bufs total r records b ssl h =>
      show Took ssl s.stream.handed (s.sslReads.flatMap returned)
      unfold WriteBuffer.sealInto at h
      simp only at h
      split at h
      · obtain ⟨-, -, -, rfl⟩ : _ ∧ _ ∧ _ ∧ _ := by simpa using h
        exact hs
      rename_i maxOut _
      rcases hc : B.sealChecked s.ssl bufs (sealBudget limits.maxFragment limits.recordOverhead
          limits.pendingLen s.stream.writeBuf.len total) maxOut with ⟨queue | _ | sealed, ssl₁⟩ <;>
        have hseal := hB.sealAppData _ _ _ bufs (sealBudget limits.maxFragment
          limits.recordOverhead limits.pendingLen s.stream.writeBuf.len total) maxOut hs <;>
        rw [(sealChecked_records hc).1] at hseal <;>
        simp only [hc] at h <;> obtain ⟨-, -, -, rfl⟩ : _ ∧ _ ∧ _ ∧ _ := by simpa using h
      all_goals exact hseal
  | @stack s' bufs total r hb h =>
      unfold sealOnStack at h
      rcases hc : B.sealChecked s.ssl bufs total sealStackLen with ⟨queue | _ | sealed, ssl₁⟩ <;>
        have hseal := hB.sealAppData _ _ _ bufs total sealStackLen hs <;>
        rw [(sealChecked_records hc).1] at hseal <;>
        simp only [hc] at h <;> obtain ⟨-, rfl⟩ := Prod.mk.inj h
      all_goals exact hseal

/-- And across a step. -/
theorem step_took (hB : Receives B content Took) (h : Step B io a s l s') (hs : InTook Took s) :
    InTook Took s' := by
  refine step_keeps (fun _ _ => Move.took hB) ?_ ?_ h hs
  · intro s w _ hw hs
    show Took s.ssl w.handed (s.sslReads.flatMap returned)
    rw [hw]
    exact hs
  · intro s s' r hd hs
    unfold shutdown at hd
    rcases hc : s.call io a (B.sslShutdown s.ssl) with ⟨d, s₁⟩
    have hcall : InTook Took s₁ := call_took (hB.sslShutdown _ _ _ hs) hc
    rw [hc] at hd
    obtain ⟨-, rfl⟩ := Prod.mk.inj hd
    exact hcall

/-- What a read with room leaves is what its last `SSL_read` left. -/
theorem sslReadUninit_took (hB : Receives B content Took) {len : Nat} {r : Except SslError Bytes}
    (hlen : 0 < len) (hs : InTook Took s) (h : s.sslReadUninit B io a len = (r, s')) :
    InTook Took s' ∧ Dry content s' := by
  unfold sslReadUninit at h
  rw [if_neg (by omega)] at h
  rcases hc : s.call io a (B.sslRead s.ssl (min cIntMax len)) with ⟨r₁, s₁⟩
  rw [hc] at h
  obtain ⟨rfl, rfl⟩ := Prod.mk.inj h
  exact sslRead_took hB hs hc

/-- A read that returns nothing left no whole record in what was handed over. -/
theorem readUninit_took (hB : Receives B content Took) {fuel len : Nat} {r : Except IoError Bytes}
    (hlen : 0 < len) (hs : InTook Took s) (h : s.readUninit B io a fuel len = some (r, s')) :
    InTook Took s' ∧ Dry content s' := by
  induction fuel generalizing s with
  | zero => cases h
  | succ fuel ih =>
      unfold readUninit at h
      rcases hr : s.sslReadUninit B io a len with ⟨e | data, s₁⟩ <;>
        have h₁ := sslReadUninit_took hB hlen hs hr <;> simp only [hr] at h
      · split at h
        · obtain ⟨-, rfl⟩ := Prod.mk.inj (Option.some.inj h)
          exact h₁
        split at h
        · obtain ⟨-, rfl⟩ := Prod.mk.inj (Option.some.inj h)
          exact h₁
        split at h
        · exact ih h₁.1 h
        · obtain ⟨-, rfl⟩ := Prod.mk.inj (Option.some.inj h)
          exact h₁
      · obtain ⟨-, rfl⟩ := Prod.mk.inj (Option.some.inj h)
        exact h₁

/-- So does a loop that stops. -/
theorem readLoop_took (hB : Receives B content Took) {fuel remaining : Nat} {got got' : Bytes}
    {stop : Option (Except IoError Unit)} (hrem : 0 < remaining) (hs : InTook Took s)
    (h : s.readLoop B io a fuel remaining got = some (stop, got', s')) :
    InTook Took s' ∧ Dry content s' := by
  induction fuel generalizing s remaining got with
  | zero => cases h
  | succ fuel ih =>
      unfold readLoop at h
      rcases hr : s.readUninit B io a fuel remaining with _ | ⟨r, s₁⟩ <;> simp only [hr] at h
      · cases h
      have h₁ := readUninit_took hB hrem hs hr
      rcases hc : cvt r with (e | _ | ⟨b, data⟩) | _ <;> simp only [hc] at h
      · obtain ⟨-, -, rfl⟩ : _ ∧ _ ∧ _ := by simpa using h
        exact h₁
      · obtain ⟨-, -, rfl⟩ : _ ∧ _ ∧ _ := by simpa using h
        exact h₁
      · split at h
        · obtain ⟨-, -, rfl⟩ : _ ∧ _ ∧ _ := by simpa using h
          exact h₁
        · exact ih (by omega) h₁.1 h
      · obtain ⟨-, -, rfl⟩ : _ ∧ _ ∧ _ := by simpa using h
        exact h₁

/-- A read that is pending has just asked `SSL_read`. -/
theorem pollRead_dry (hB : Receives B content Took) {fuel cap : Nat} {got : Bytes}
    (hs : InTook Took s) (h : s.pollRead B io a fuel cap = some (.pending, got, s')) :
    Dry content s' := by
  unfold pollRead at h
  split at h
  · cases h
  rename_i hcap
  rcases he : s.stream.readEnd with _ | stop <;> simp only [he] at h
  · rcases hl : s.readLoop B io a fuel cap [] with _ | ⟨stop, data, s₁⟩ <;> simp only [hl] at h
    · cases h
    have h₁ := readLoop_took hB (by omega) hs hl
    split at h
    · rcases stop with _ | stop
      · obtain ⟨-, rfl⟩ : _ ∧ _ := by simpa using h
        exact h₁.2
      · cases h
    · cases h
  · cases h

end SslStream

/-! ### The network -/

/-- What two ends share.  What is sent from the near end waits in `inFlight` and is given at the far
end in order; nothing else changes what is in flight. -/
structure Network (ν : Type) where
  near : AsyncStream ν
  far : AsyncStream ν
  inFlight : ν → Bytes
  near_write : ∀ n buf, inFlight (near.pollWrite n buf).2
    = inFlight n ++ buf.take (near.pollWrite n buf).1.taken
  near_writeVectored : ∀ n bufs, inFlight (near.pollWriteVectored n bufs).2
    = inFlight n ++ bufs.flatten.take (near.pollWriteVectored n bufs).1.taken
  near_flush : ∀ n, inFlight (near.pollFlush n).2 = inFlight n
  near_shutdown : ∀ n, inFlight (near.pollShutdown n).2 = inFlight n
  near_read : ∀ n cap, inFlight (near.pollRead n cap).2 = inFlight n
  far_write : ∀ n buf, inFlight (far.pollWrite n buf).2 = inFlight n
  far_writeVectored : ∀ n bufs, inFlight (far.pollWriteVectored n bufs).2 = inFlight n
  far_flush : ∀ n, inFlight (far.pollFlush n).2 = inFlight n
  far_shutdown : ∀ n, inFlight (far.pollShutdown n).2 = inFlight n
  far_read : ∀ n cap, inFlight n
    = (far.pollRead n cap).1.given ++ inFlight (far.pollRead n cap).2

namespace Network

variable {ν : Type} (N : Network ν) {t t' : Transport ν}

/-- From `t` to `t'` what the transport took went into flight. -/
def Launches (t t' : Transport ν) : Prop :=
  ∃ d, t'.accepted = t.accepted ++ d ∧ N.inFlight t'.stream = N.inFlight t.stream ++ d

/-- From `t` to `t'` what the transport gave was in flight. -/
def Lands (t t' : Transport ν) : Prop :=
  ∃ d, t'.received = t.received ++ d ∧ N.inFlight t.stream = d ++ N.inFlight t'.stream

variable {N}

/-- What a stream does to its transport, the network launches. -/
theorem launches_of_polled (h : Polled N.near t t') : N.Launches t t' := by
  induction h with
  | refl => exact ⟨[], by simp, by simp⟩
  | @tail t₁ t' _ hone ih =>
      obtain ⟨d, hacc, hfly⟩ := ih
      have quiet {t₁ t₂ : Transport ν} (ha : t₁.accepted = t.accepted ++ d)
          (hf : N.inFlight t₁.stream = N.inFlight t.stream ++ d) (ha' : t₂.accepted = t₁.accepted)
          (hf' : N.inFlight t₂.stream = N.inFlight t₁.stream) : N.Launches t t₂ :=
        ⟨d, ha'.trans ha, hf'.trans hf⟩
      cases hone with
      | write issuer buf =>
          refine ⟨d ++ buf.take (N.near.pollWrite t₁.stream buf).1.taken, ?_, ?_⟩
          · rw [← List.append_assoc, ← hacc]
            rfl
          · rw [← List.append_assoc, ← hfly]
            exact N.near_write _ _
      | writeVectored issuer bufs =>
          refine ⟨d ++ bufs.flatten.take (N.near.pollWriteVectored t₁.stream bufs).1.taken, ?_, ?_⟩
          · rw [← List.append_assoc, ← hacc]
            rfl
          · rw [← List.append_assoc, ← hfly]
            exact N.near_writeVectored _ _
      | flush => exact quiet hacc hfly rfl (N.near_flush _)
      | shutdown => exact quiet hacc hfly rfl (N.near_shutdown _)
      | read cap => exact quiet hacc hfly rfl (N.near_read _ _)

/-- And lands, seen from the other side. -/
theorem lands_of_polled (h : Polled N.far t t') : N.Lands t t' := by
  induction h with
  | refl => exact ⟨[], by simp, by simp⟩
  | @tail t₁ t' _ hone ih =>
      obtain ⟨d, hrec, hfly⟩ := ih
      have quiet {t₁ t₂ : Transport ν} (hr : t₁.received = t.received ++ d)
          (hf : N.inFlight t.stream = d ++ N.inFlight t₁.stream) (hr' : t₂.received = t₁.received)
          (hf' : N.inFlight t₂.stream = N.inFlight t₁.stream) : N.Lands t t₂ :=
        ⟨d, hr'.trans hr, by rw [hf', hf]⟩
      cases hone with
      | write issuer buf => exact quiet hrec hfly rfl (N.far_write _ _)
      | writeVectored issuer bufs => exact quiet hrec hfly rfl (N.far_writeVectored _ _)
      | flush => exact quiet hrec hfly rfl (N.far_flush _)
      | shutdown => exact quiet hrec hfly rfl (N.far_shutdown _)
      | read cap =>
          refine ⟨d ++ (N.far.pollRead t₁.stream cap).1.given, ?_, ?_⟩
          · rw [← List.append_assoc, ← hrec]
            rfl
          · rw [List.append_assoc, hfly]
            exact congrArg (d ++ ·) (N.far_read _ _)

end Network

/-! ### The pair -/

/-- Two streams and the network they share. -/
structure Pair (σ₁ σ₂ ν : Type) where
  near : SslStream σ₁ ν
  far : SslStream σ₂ ν
  net : ν

/-- The stream with the network as it now is. -/
def SslStream.attach {σ ν : Type} (s : SslStream σ ν) (net : ν) : SslStream σ ν :=
  s.setRecords s.stream.writeBuf { s.stream.transport with stream := net }

/-- A call of one end. -/
inductive PairStep {σ₁ σ₂ ν : Type} (B₁ : BoringSsl σ₁) (B₂ : BoringSsl σ₂) (N : Network ν)
    (a₁ a₂ : Allocator) : Pair σ₁ σ₂ ν → Label ⊕ Label → Pair σ₁ σ₂ ν → Prop where
  | near {p : Pair σ₁ σ₂ ν} {l : Label} {s : SslStream σ₁ ν}
      (h : Step B₁ N.near a₁ (p.near.attach p.net) l s) :
      PairStep B₁ B₂ N a₁ a₂ p (.inl l) ⟨s, p.far, s.stream.transport.stream⟩
  | far {p : Pair σ₁ σ₂ ν} {l : Label} {s : SslStream σ₂ ν}
      (h : Step B₂ N.far a₂ (p.far.attach p.net) l s) :
      PairStep B₁ B₂ N a₁ a₂ p (.inr l) ⟨p.near, s, s.stream.transport.stream⟩

/-- What the calls of the near end report as written. -/
def sentBy : Label ⊕ Label → Bytes
  | .inl l => l.sealed
  | .inr _ => []

/-- What the calls of the far end deliver. -/
def deliveredBy : Label ⊕ Label → Bytes
  | .inl _ => []
  | .inr l => l.delivered

section Pair

variable {σ₁ σ₂ ν : Type} {B₁ : BoringSsl σ₁} {B₂ : BoringSsl σ₂} {N : Network ν}
  {a₁ a₂ : Allocator} {content : Bytes → Bytes} {Sent : σ₁ → Bytes → Prop}
  {Took : σ₂ → Bytes → Bytes → Prop} {p p' : Pair σ₁ σ₂ ν} {l : Label ⊕ Label}
  {ls : List (Label ⊕ Label)} {ssl₁ : σ₁} {ssl₂ : σ₂} {net : ν}

/-- What holds of a pair between calls: every byte is with one of its libraries, in a buffer of one
of its ends or in flight. -/
structure Joined (N : Network ν) (Sent : σ₁ → Bytes → Prop) (Took : σ₂ → Bytes → Bytes → Prop)
    (p : Pair σ₁ σ₂ ν) : Prop where
  near : p.near.stream.Accounted
  far : p.far.stream.Accounted
  sent : p.near.InSent Sent
  took : p.far.InTook Took
  flight : p.near.stream.transport.accepted
    = p.far.stream.transport.received ++ N.inFlight p.net

/-- What a call delivers is what its `SSL_read` calls returned. -/
theorem Step.delivered {σ τ : Type} {B : BoringSsl σ} {io : AsyncStream τ} {a : Allocator}
    {s s' : SslStream σ τ} {l : Label} (ha : s.stream.Accounted) (h : Step B io a s l s') :
    s'.sslReads.flatMap returned = s.sslReads.flatMap returned ++ l.delivered := by
  obtain ⟨rs, hreads, hobs, -⟩ := h.reads ha
  have hplain := congrArg (List.flatMap ReadItem.plaintext) hobs
  have howed (stop : Option (Except IoError Unit)) :
      (owedBy stop).flatMap ReadItem.plaintext = [] := by
    rcases stop with _ | stop <;> rfl
  rw [List.flatMap_append, List.flatMap_append, howed, howed, List.nil_append, List.append_nil,
    List.flatMap_assoc, plaintext_reported] at hplain
  simp only [plaintext_observed] at hplain
  rw [hreads, List.flatMap_append, hplain]

/-- **What one call of either end does.** -/
theorem Joined.step (hS : Sends B₁ content Sent) (hR : Receives B₂ content Took)
    (hp : Joined N Sent Took p) (h : PairStep B₁ B₂ N a₁ a₂ p l p') :
    Joined N Sent Took p'
      ∧ B₁.plaintext p'.near.ssl = B₁.plaintext p.near.ssl ++ sentBy l
      ∧ p'.far.sslReads.flatMap returned = p.far.sslReads.flatMap returned ++ deliveredBy l := by
  cases h with
  | @near l s h =>
      have ha : (p.near.attach p.net).stream.Accounted := ⟨hp.near.written, hp.near.read⟩
      obtain ⟨-, ha', hplain⟩ := h.seals ha
      obtain ⟨d, hacc, hfly⟩ := N.launches_of_polled (SslStream.step_polled h)
      refine ⟨⟨ha', hp.far, SslStream.step_sent hS h hp.sent, hp.took, ?_⟩, hplain, ?_⟩
      · show s.stream.transport.accepted
          = p.far.stream.transport.received ++ N.inFlight s.stream.transport.stream
        rw [hacc, hfly, ← List.append_assoc]
        exact congrArg (· ++ d) hp.flight
      · exact (List.append_nil _).symm
  | @far l s h =>
      have ha : (p.far.attach p.net).stream.Accounted := ⟨hp.far.written, hp.far.read⟩
      obtain ⟨d, hrec, hfly⟩ := N.lands_of_polled (SslStream.step_polled h)
      have hdelivered := h.delivered ha
      refine ⟨⟨hp.near, (h.seals ha).2.1, hp.sent, SslStream.step_took hR h hp.took, ?_⟩, ?_,
        hdelivered⟩
      · show p.near.stream.transport.accepted
          = s.stream.transport.received ++ N.inFlight s.stream.transport.stream
        rw [hrec, List.append_assoc, ← hfly]
        exact hp.flight
      · exact (List.append_nil _).symm

/-- Two streams with nothing said and nothing in flight. -/
def Pair.new (ssl₁ : σ₁) (ssl₂ : σ₂) (net : ν) : Pair σ₁ σ₂ ν :=
  ⟨.new ssl₁ net, .new ssl₂ net, net⟩

/-- **What a run does.**  The pair stays joined, and the labels are all that was sealed and read. -/
theorem joined_of_run (hS : Sends B₁ content Sent) (hR : Receives B₂ content Took)
    (hsent : Sent ssl₁ []) (htook : Took ssl₂ [] []) (hnet : N.inFlight net = [])
    (h : Run (PairStep B₁ B₂ N a₁ a₂) (.new ssl₁ ssl₂ net) ls p) :
    Joined N Sent Took p
      ∧ B₁.plaintext p.near.ssl = B₁.plaintext ssl₁ ++ ls.flatMap sentBy
      ∧ p.far.sslReads.flatMap returned = ls.flatMap deliveredBy := by
  have hnew : Joined N Sent Took (.new ssl₁ ssl₂ net) :=
    ⟨StreamWrapper.accounted_new net, StreamWrapper.accounted_new net, hsent, htook, by
      show [] = [] ++ N.inFlight net
      rw [hnet]
      rfl⟩
  have hkeep : ∀ p l p', Joined N Sent Took p → PairStep B₁ B₂ N a₁ a₂ p l p' →
      Joined N Sent Took p' := fun _ _ _ hp hstep => (hp.step hS hR hstep).1
  refine ⟨h.invariant hkeep hnew, ?_, ?_⟩
  · obtain ⟨new, hlog, hnew⟩ := Run.ledger (fun p => B₁.plaintext p.near.ssl) (fun _ => []) sentBy
      hkeep (fun p l p' hp hstep => ⟨sentBy l, (hp.step hS hR hstep).2.1, by simp⟩) h hnew
    rw [hlog, show new = _ by simpa using hnew]
    rfl
  · obtain ⟨new, hlog, hnew⟩ := Run.ledger (fun p => p.far.sslReads.flatMap returned) (fun _ => [])
      deliveredBy hkeep (fun p l p' hp hstep => ⟨deliveredBy l, (hp.step hS hR hstep).2.2, by simp⟩)
      h hnew
    rw [hlog, show new = _ by simpa using hnew]
    rfl

/-- **End to end.**  In any interleaving of the calls of two streams over a network that keeps the
order, what the reads at the far end deliver is a prefix of what the writes at the near end report as
written.  Once a read is pending because `SSL_read` wants more, and nothing is buffered at either end
or in flight, it is all of it. -/
theorem delivered_in_order (hnil : content [] = [])
    (hmono : ∀ out out', out <+: out' → content out <+: content out')
    (hS : Sends B₁ content Sent) (hR : Receives B₂ content Took)
    (hsent : Sent ssl₁ []) (htook : Took ssl₂ [] []) (hnet : N.inFlight net = [])
    (h : Run (PairStep B₁ B₂ N a₁ a₂) (.new ssl₁ ssl₂ net) ls p) :
    ls.flatMap deliveredBy <+: ls.flatMap sentBy
      ∧ ∀ cap got s e, Step B₂ N.far a₂ (p.far.attach p.net) (.read cap .pending got) s →
          s.sslReads.getLast? = some (.error e) → e.code = .wantRead →
          p.near.stream.writeBuf.buffered = [] → s.stream.readBuf.buffered = [] →
          N.inFlight s.stream.transport.stream = [] →
          ls.flatMap deliveredBy = ls.flatMap sentBy := by
  obtain ⟨hp, hplain, hread⟩ := joined_of_run hS hR hsent htook hnet h
  have hcontent : content p.near.stream.produced = ls.flatMap sentBy := by
    rw [hS.content_eq _ _ hp.sent, hplain, ← hS.content_eq _ _ hsent, hnil, List.nil_append]
  constructor
  · have hhanded : p.far.stream.handed <+: p.near.stream.produced := by
      rw [← hp.near.written, hp.flight, ← hp.far.read, List.append_assoc, List.append_assoc]
      exact List.prefix_append _ _
    rw [← hread, ← hcontent]
    exact (hR.content_prefix _ _ _ hp.took).trans (hmono _ _ hhanded)
  · intro cap got s e hstep hlast hwant hflushed hdrained hlanded
    have hstep' : PairStep B₁ B₂ N a₁ a₂ p (.inr (.read cap .pending got))
        ⟨p.near, s, s.stream.transport.stream⟩ := .far hstep
    obtain ⟨hp', -, hread'⟩ := hp.step hS hR hstep'
    have hgot : got = [] := by
      cases hstep with
      | read hpoll =>
          obtain ⟨rs, -, -, -, -, -, hpend, -⟩ :=
            SslStream.pollRead_spec (s := p.far.attach p.net) ⟨hp.far.written, hp.far.read⟩ hpoll
          exact (hpend rfl).1
    have hdry : s.sslReads.flatMap returned = content s.stream.handed := by
      have htook : (p.far.attach p.net).InTook Took := hp.took
      cases hstep with
      | read hpoll => exact SslStream.pollRead_dry hR htook hpoll e hlast hwant
    have hall : s.stream.handed = p.near.stream.produced := by
      have hwritten := hp'.near.written
      have hflight := hp'.flight
      have hreadAll := hp'.far.read
      simp only [hflushed, hdrained, hlanded, List.append_nil] at hwritten hflight hreadAll
      rw [hreadAll, ← hflight, hwritten]
    subst hgot
    simp only [deliveredBy, Label.delivered, List.append_nil] at hread'
    rw [← hread, ← hread', hdry, hall, hcontent]

end Pair

/-! ### Two ends in the clear -/

/-- A record may hold something. -/
theorem maxRecord_pos : 0 < maxRecord := by decide

/-- A library whose records are the plaintext, with what it sealed and what it holds for its reader. -/
def plainSsl : BoringSsl (Bytes × Bytes) where
  sealAppDataLimits _ := some ⟨maxRecord, 0, 0, maxRecord_pos⟩
  sealAppData s bufs maxIn room :=
    let data := bufs.flatten.take maxIn
    if data.length ≤ room then (.success data data.length, s.1 ++ data, s.2) else (.declined, s)
  sslRead s len :=
    if s.2.isEmpty then
      .call (.read len) fun
        | .ok [] => .ret (.error ⟨.zeroReturn, []⟩, s)
        | .ok (b :: data) => .ret (.ok ((b :: data).take len), s.1, (b :: data).drop len)
        | .error retry => .ret (.error ⟨if retry then .wantRead else .ssl, []⟩, s)
    else .ret (.ok (s.2.take len), s.1, s.2.drop len)
  sslWrite s buf := .call (.write buf) fun
    | .ok _ => .ret (.ok buf.length, s.1 ++ buf, s.2)
    | .error _ => .ret (.error ⟨.wantWrite, []⟩, s)
  sslShutdown s := .ret (.ok .sent, s)
  sslDoHandshake s := .ret (.ok (), s)
  plaintext := Prod.fst
  sealAppData_success s bufs maxIn room out consumed h := by
    simp only at h ⊢
    split at h
    · rename_i hroom
      obtain ⟨rfl, rfl⟩ := SealResult.success.inj h
      rw [if_pos hroom]
      refine ⟨hroom, Nat.le_of_eq (List.length_take), ?_, ?_⟩
      · rw [List.length_take]
        exact id
      · rw [List.length_take, List.take_eq_take_min]
    · cases h
  sealAppData_declined s bufs maxIn room h := by
    simp only at h ⊢
    split at h
    · cases h
    · rename_i hroom
      rw [if_neg hroom]
  sealAppData_error s bufs maxIn room queue h := by
    simp only at h
    split at h <;> cases h
  sslWrite_spec s buf hbuf x hx := by
    obtain rfl : x = _ := hx
    exact ⟨List.length_pos_iff.mpr hbuf, Nat.le_refl _, by simp⟩
  sslRead_spec s len hlen := by
    have htake {data data' : Bytes} (hne : data ≠ [])
        (h : (Except.ok (data.take len) : Except SslFailure Bytes) = .ok data') :
        0 < data'.length ∧ data'.length ≤ len := by
      obtain rfl := Except.ok.inj h
      have hpos := List.length_pos_iff.mpr hne
      rw [List.length_take]
      omega
    split
    · intro x _
      beta_reduce
      split
      · exact ⟨rfl, nofun⟩
      · exact ⟨rfl, fun data' => htake (List.cons_ne_nil _ _)⟩
      · exact ⟨rfl, nofun⟩
    · rename_i hne
      exact ⟨rfl, fun data' => htake (by simpa using hne)⟩
  sslShutdown_spec _ := rfl
  sslDoHandshake_spec _ := rfl

/-- A library without records sends the plaintext. -/
theorem plainSsl_sends : Sends plainSsl id fun s out => s.1 = out where
  content_eq _ _ h := h.symm
  sealAppData s out bufs maxIn room h := by
    subst h
    simp only [plainSsl]
    split
    · rfl
    · exact (List.append_nil _).symm
  sslRead s out len h := by
    subst h
    simp only [plainSsl]
    split
    · intro x _
      beta_reduce
      split <;> exact (List.append_nil _).symm
    · exact (List.append_nil _).symm
  sslWrite s out buf h x hx := by
    subst h
    obtain rfl : x = _ := hx
    show s.1 ++ buf = s.1 ++ (buf ++ [])
    rw [List.append_nil]
  sslShutdown _ _ h := h.trans (List.append_nil _).symm
  sslDoHandshake _ _ h := h.trans (List.append_nil _).symm

/-- And hands over what it is given. -/
theorem plainSsl_receives : Receives plainSsl id fun s inp got => inp = got ++ s.2 where
  content_prefix s inp got h := ⟨s.2, h.symm⟩
  sealAppData s inp got bufs maxIn room h := by
    simp only [plainSsl]
    split
    · exact h
    · exact h
  sslRead s inp got len h := by
    simp only [plainSsl]
    split
    · rename_i hnil
      rw [List.isEmpty_iff.mp hnil, List.append_nil] at h
      subst h
      intro x _
      beta_reduce
      split
      · exact ⟨by simpa [BioEvent.given, fruit] using hnil, by simp⟩
      · refine ⟨?_, fun _ he => absurd he (by simp)⟩
        simp [BioEvent.given, fruit, List.take_append_drop]
      · exact ⟨by simpa [BioEvent.given, fruit] using hnil, by simp [BioEvent.given]⟩
    · refine ⟨?_, fun _ he => absurd he (by simp)⟩
      subst h
      simp [fruit, List.take_append_drop]
  sslWrite s inp got buf h x hx := by
    obtain rfl : x = _ := hx
    show inp ++ [] = got ++ s.2
    rw [List.append_nil]
    exact h
  sslShutdown s inp got h := by simpa [plainSsl, Prog.Paths] using h
  sslDoHandshake s inp got h := by simpa [plainSsl, Prog.Paths] using h

/-- A queue from the near end to the far end, and nothing the other way. -/
def queue : Network Bytes where
  near :=
    { pollWrite := fun n buf => (.ready (.ok buf.length), n ++ buf)
      pollWriteVectored := fun n bufs => (.ready (.ok bufs.flatten.length), n ++ bufs.flatten)
      isWriteVectored := fun _ => true
      pollFlush := fun n => (.ready (.ok ()), n)
      pollShutdown := fun n => (.ready (.ok ()), n)
      pollRead := fun n _ => (.pending, n)
      pollWrite_le := by simp
      pollWriteVectored_le := by simp
      pollRead_le := by simp }
  far :=
    { pollWrite := fun n _ => (.pending, n)
      pollWriteVectored := fun n _ => (.pending, n)
      isWriteVectored := fun _ => false
      pollFlush := fun n => (.ready (.ok ()), n)
      pollShutdown := fun n => (.ready (.ok ()), n)
      pollRead := fun n cap =>
        if n.isEmpty then (.pending, n) else (.ready (.ok (n.take cap)), n.drop cap)
      pollWrite_le := by simp
      pollWriteVectored_le := by simp
      pollRead_le := by
        intro n cap data h
        split at h
        · cases h
        · obtain rfl : n.take cap = data := by simpa using h
          exact List.length_take_le _ _ }
  inFlight := id
  near_write n buf := by simp [Poll.taken]
  near_writeVectored n bufs := by
    show n ++ bufs.flatten = n ++ bufs.flatten.take bufs.flatten.length
    rw [List.take_length]
  near_flush _ := rfl
  near_shutdown _ := rfl
  near_read _ _ := rfl
  far_write _ _ := rfl
  far_writeVectored _ _ := rfl
  far_flush _ := rfl
  far_shutdown _ := rfl
  far_read n cap := by
    dsimp only
    split
    · rfl
    · simp [Poll.given, List.take_append_drop]

/-- A write of two slices, read a byte at first and then the rest. -/
def queueLabels : List (Label ⊕ Label) :=
  [.inl (.write [[7], [8, 9]] (.ready (.ok 3))), .inr (.read 1 (.ready (.ok ())) [7]),
    .inr (.read 8 (.ready (.ok ())) [8, 9])]

/-- Three bytes in two writes, read at once. -/
theorem delivered_in_order_queue :
    ∃ p s, Run (PairStep plainSsl plainSsl queue exactly exactly) (.new ([], []) ([], []) [])
        queueLabels p
      ∧ Step plainSsl queue.far exactly (p.far.attach p.net) (.read 8 .pending []) s
      ∧ queueLabels.flatMap deliveredBy = queueLabels.flatMap sentBy
      ∧ queueLabels.flatMap sentBy = [7, 8, 9] := by
  have hrun : ∃ p s, Run (PairStep plainSsl plainSsl queue exactly exactly)
        (.new ([], []) ([], []) []) queueLabels p
      ∧ Step plainSsl queue.far exactly (p.far.attach p.net) (.read 8 .pending []) s
      ∧ s.sslReads.getLast? = some (.error ⟨.wantRead, some (.io (.simple .wouldBlock))⟩)
      ∧ p.near.stream.writeBuf.buffered = [] ∧ s.stream.readBuf.buffered = []
      ∧ queue.inFlight s.stream.transport.stream = [] := by
    refine ⟨_, _, .snoc (.snoc (.snoc (.nil _) (.near (.writeVectored
      (show SslStream.pollWriteVectored _ _ _ 3 _ _ = _ from rfl)))) (.far (.read
      (show SslStream.pollRead _ _ _ 3 _ _ = _ from rfl)))) (.far (.read
      (show SslStream.pollRead _ _ _ 3 _ _ = _ from rfl))), .read
      (show SslStream.pollRead _ _ _ 3 _ _ = _ from rfl), rfl, rfl, rfl, rfl⟩
  obtain ⟨p, s, hrun, hstep, hlast, hflushed, hdrained, hlanded⟩ := hrun
  have hall := (delivered_in_order rfl (fun _ _ => id) plainSsl_sends plainSsl_receives rfl rfl rfl
    hrun).2 _ _ _ _ hstep hlast rfl hflushed hdrained hlanded
  exact ⟨p, s, hrun, hstep, hall, rfl⟩

end Btls.Stream
