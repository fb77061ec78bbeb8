import Btls.Stream.Core

/-!
# Stream — Read

`poll_read` and what it reports of the `SSL_read` calls it makes.

`observed` says what a reader should see of one `SSL_read` result: its bytes, an end, an error, or
nothing where the call would block.  A `poll_read` reports what it observes, at once or, for an end
met after plaintext, through `readEnd` in the next (`pollRead_spec`).

The loop reads until the caller's buffer is full, nothing is buffered that could fill it or
`SSL_read` returns something else than bytes, and `readUninit` calls `SSL_read` again where
BoringSSL asks for that.  Each of the loops is followed by the list of results that it went through
(`Reads`), and `readLoop_spec` says which of these it has reported and which it stores.  A loop that
BoringSSL could keep going takes fuel.
-/

namespace Btls.Stream

open Btls.Support

/-! ### What a reader sees -/

inductive ReadItem where
  | byte (b : UInt8)
  | stop (r : Except IoError Unit)

/-- `SSL_read` results that mean the end of the stream: `close_notify`, or a transport that ended
without one. -/
def SslError.IsEnd (e : SslError) : Prop :=
  e.code = .zeroReturn ∨ (e.code = .syscall ∧ e.ioError = none)

instance (e : SslError) : Decidable e.IsEnd := inferInstanceAs (Decidable (_ ∨ _))

/-- `SSL_read` results that are no result yet: to be tried again at once, or once the transport is
ready. -/
def SslError.WouldBlock (e : SslError) : Prop :=
  (e.code = .wantRead ∧ e.ioError = none) ∨ e.intoIoErrorOrOther.kind = .wouldBlock

instance (e : SslError) : Decidable e.WouldBlock := inferInstanceAs (Decidable (_ ∨ _))

def observed : Except SslError Bytes → List ReadItem
  | .ok data => data.map .byte
  | .error e =>
      if e.IsEnd then [.stop (.ok ())]
      else if e.WouldBlock then []
      else [.stop (.error e.intoIoErrorOrOther)]

/-- What a `poll_read` of a buffer with room for `cap` bytes tells its caller. -/
def reported (cap : Nat) (r : Poll (Except IoError Unit)) (got : Bytes) : List ReadItem :=
  got.map .byte ++
    match r with
    | .ready (.ok ()) => if got = [] ∧ cap ≠ 0 then [.stop (.ok ())] else []
    | .ready (.error e) => [.stop (.error e)]
    | .pending => []

/-- What a stored end is still to tell. -/
def owedBy (stop : Option (Except IoError Unit)) : List ReadItem := stop.toList.map .stop

namespace SslStream

variable {σ τ : Type} (B : BoringSsl σ) (io : AsyncStream τ) (a : Allocator)

def setReadEnd (s : SslStream σ τ) (readEnd : Option (Except IoError Unit)) : SslStream σ τ :=
  s.setStream { s.stream with readEnd }

@[simp] theorem setReadEnd_readEnd (s : SslStream σ τ) (readEnd : Option (Except IoError Unit)) :
    (s.setReadEnd readEnd).stream.readEnd = readEnd := rfl

@[simp] theorem setReadEnd_sslReads (s : SslStream σ τ)
    (readEnd : Option (Except IoError Unit)) : (s.setReadEnd readEnd).sslReads = s.sslReads := rfl

/-- The loop of `pollRead`: `SSL_read` returns at most one record, so it goes on while buffered
ciphertext can fill the caller's buffer.  Returns the end it met and the plaintext it took. -/
def readLoop : Nat → SslStream σ τ → Nat → Bytes →
    Option (Option (Except IoError Unit) × Bytes × SslStream σ τ)
  | 0, _, _, _ => none
  | fuel + 1, s, remaining, got =>
      match s.readUninit B io a fuel remaining with
      | none => none
      | some (r, s) =>
          match cvt r with
          | .ready (.ok []) => some (some (.ok ()), got, s)
          | .ready (.ok (b :: data)) =>
              let got := got ++ b :: data
              let remaining := remaining - (b :: data).length
              -- Without buffered ciphertext, another record needs a transport poll.
              if remaining = 0 ∨ s.stream.readBuf.isEmpty then some (none, got, s)
              else readLoop fuel s remaining got
          | .ready (.error e) => some (some (.error e), got, s)
          | .pending => some (none, got, s)

/-- `poll_read` into a buffer with room for `remaining` bytes; also returns the plaintext put
there. -/
def pollRead (fuel : Nat) (s : SslStream σ τ) (remaining : Nat) :
    Option (Poll (Except IoError Unit) × Bytes × SslStream σ τ) :=
  if remaining = 0 then some (.ready (.ok ()), [], s)
  else
    match s.stream.readEnd with
    | some stop => some (.ready stop, [], s.setReadEnd none)
    | none =>
        match s.readLoop B io a fuel remaining [] with
        | none => none
        | some (stop, got, s) =>
            if got = [] then
              match stop with
              | some stop => some (.ready stop, got, s)
              | none => some (.pending, got, s)
            else some (.ready (.ok ()), got, s.setReadEnd stop)

variable {B io a} {s s₁ s' : SslStream σ τ}

/-- From `s` to `s'` the `SSL_read` results `rs` came in, and nothing was sealed. -/
structure Reads (B : BoringSsl σ) (s : SslStream σ τ) (rs : List (Except SslError Bytes))
    (s' : SslStream σ τ) : Prop where
  kept : Kept s s'
  plaintext : B.plaintext s'.ssl = B.plaintext s.ssl
  sslReads : s'.sslReads = s.sslReads ++ rs

theorem Reads.trans {rs₁ rs₂ : List (Except SslError Bytes)} (h₁ : Reads B s rs₁ s₁)
    (h₂ : Reads B s₁ rs₂ s') : Reads B s (rs₁ ++ rs₂) s' :=
  ⟨h₁.kept.trans h₂.kept, h₂.plaintext.trans h₁.plaintext, by
    rw [h₂.sslReads, h₁.sslReads, List.append_assoc]⟩

theorem sslReadUninit_spec {len : Nat} {r : Except SslError Bytes} (hlen : 0 < len)
    (h : s.sslReadUninit B io a len = (r, s')) :
    Reads B s [r] s' ∧ ∀ data, r = .ok data → 0 < data.length ∧ data.length ≤ len := by
  unfold sslReadUninit at h
  rw [if_neg (by omega)] at h
  have hmin : 0 < min cIntMax len := by
    unfold cIntMax
    omega
  rcases hc : s.call io a (B.sslRead s.ssl (min cIntMax len)) with ⟨r₁, s₁⟩
  obtain ⟨hk, hreads, hq⟩ := call_spec (B.sslRead_spec s.ssl _ hmin) hc
  rw [hc] at h
  obtain ⟨rfl, rfl⟩ := Prod.mk.inj h
  have hkept : Kept s { s₁ with sslReads := s₁.sslReads ++ [r₁] } := ⟨hk.accounted, hk.keeps⟩
  rcases hq with ⟨v, rfl, hp, hdata⟩ | ⟨e, f, rfl, hp, -⟩
  · refine ⟨⟨hkept, hp, by rw [hreads]⟩, fun data hd => ?_⟩
    have := hdata data (by rw [Except.ok.inj hd])
    omega
  · exact ⟨⟨hkept, hp, by rw [hreads]⟩, nofun⟩

/-- **`read_uninit` returns what its `SSL_read` calls let the reader see.**  All but the last would
block. -/
theorem readUninit_spec {fuel len : Nat} {r : Except IoError Bytes} (hlen : 0 < len)
    (h : s.readUninit B io a fuel len = some (r, s')) :
    ∃ rs last, Reads B s (rs ++ [last]) s' ∧ rs.flatMap observed = [] ∧
      match cvt r with
      | .ready (.ok []) => ∃ e, last = .error e ∧ e.IsEnd
      | .ready (.ok data) => last = .ok data ∧ data.length ≤ len
      | .ready (.error e) => observed last = [.stop (.error e)]
      | .pending => ∃ e, last = .error e ∧ ¬ e.IsEnd ∧ e.WouldBlock := by
  induction fuel generalizing s with
  | zero => cases h
  | succ fuel ih =>
      unfold readUninit at h
      rcases hr : s.sslReadUninit B io a len with ⟨e | data, s₁⟩ <;>
        obtain ⟨hreads, hdata⟩ := sslReadUninit_spec hlen hr <;> simp only [hr] at h
      case ok =>
        obtain ⟨rfl, rfl⟩ := Prod.mk.inj (Option.some.inj h)
        obtain ⟨hpos, hle⟩ := hdata data rfl
        refine ⟨[], _, hreads, rfl, ?_⟩
        rcases data with _ | ⟨b, data⟩
        · exact absurd hpos (by simp)
        · exact ⟨rfl, hle⟩
      by_cases hz : e.code = .zeroReturn
      · rw [if_pos hz] at h
        obtain ⟨rfl, rfl⟩ := Prod.mk.inj (Option.some.inj h)
        exact ⟨[], _, hreads, rfl, e, rfl, .inl hz⟩
      by_cases hsys : e.code = .syscall ∧ e.ioError = none
      · rw [if_neg hz, if_pos hsys] at h
        obtain ⟨rfl, rfl⟩ := Prod.mk.inj (Option.some.inj h)
        exact ⟨[], _, hreads, rfl, e, rfl, .inr hsys⟩
      have hend : ¬ e.IsEnd := fun he => he.elim hz hsys
      by_cases hwant : e.code = .wantRead ∧ e.ioError = none
      · rw [if_neg hz, if_neg hsys, if_pos hwant] at h
        obtain ⟨rs, last, hrest, hnone, hlast⟩ := ih h
        have hblock : e.WouldBlock := .inl hwant
        refine ⟨.error e :: rs, last, hreads.trans hrest, ?_, hlast⟩
        simp [observed, hend, hblock, hnone]
      · rw [if_neg hz, if_neg hsys, if_neg hwant] at h
        obtain ⟨rfl, rfl⟩ := Prod.mk.inj (Option.some.inj h)
        refine ⟨[], _, hreads, rfl, ?_⟩
        by_cases hk : e.intoIoErrorOrOther.kind = .wouldBlock
        · simp only [cvt, if_pos hk]
          exact ⟨e, rfl, hend, .inr hk⟩
        · have hblock : ¬ e.WouldBlock := fun hb => hb.elim hwant hk
          simp only [cvt, if_neg hk]
          simp [observed, hend, hblock]

/-- **The loop reports what it observes.**  The plaintext it took and the end it met are what its
`SSL_read` results let the reader see; with neither, the last of them would block. -/
theorem readLoop_spec {fuel remaining : Nat} {got got' : Bytes}
    {stop : Option (Except IoError Unit)} (hrem : 0 < remaining)
    (h : s.readLoop B io a fuel remaining got = some (stop, got', s')) :
    ∃ rs last data, Reads B s (rs ++ [last]) s' ∧ got' = got ++ data
      ∧ (rs ++ [last]).flatMap observed = data.map .byte ++ owedBy stop
      ∧ data.length ≤ remaining
      ∧ (stop = some (.ok ()) → ∃ e, last = .error e ∧ e.IsEnd)
      ∧ (data = [] → stop = none → ∃ e, last = .error e ∧ ¬ e.IsEnd ∧ e.WouldBlock) := by
  induction fuel generalizing s remaining got with
  | zero => cases h
  | succ fuel ih =>
      unfold readLoop at h
      rcases hr : s.readUninit B io a fuel remaining with _ | ⟨r, s₁⟩ <;> simp only [hr] at h
      · cases h
      obtain ⟨rs, last, hreads, hnone, hlast⟩ := readUninit_spec hrem hr
      rcases hc : cvt r with (e | _ | ⟨b, data⟩) | _ <;> simp only [hc] at h hlast
      · obtain ⟨rfl, rfl, rfl⟩ : _ ∧ _ ∧ _ := by simpa using h
        refine ⟨rs, last, [], hreads, by simp, ?_, Nat.zero_le _, nofun, nofun⟩
        simp [hnone, hlast, owedBy]
      · obtain ⟨rfl, rfl, rfl⟩ : _ ∧ _ ∧ _ := by simpa using h
        obtain ⟨e, rfl, hend⟩ := hlast
        refine ⟨rs, _, [], hreads, by simp, ?_, Nat.zero_le _, fun _ => ⟨e, rfl, hend⟩, nofun⟩
        simp [hnone, observed, hend, owedBy]
      · obtain ⟨rfl, hle⟩ := hlast
        split at h
        · obtain ⟨rfl, rfl, rfl⟩ : _ ∧ _ ∧ _ := by simpa using h
          refine ⟨rs, _, b :: data, hreads, rfl, ?_, hle, nofun, nofun⟩
          simp [hnone, observed, owedBy]
        · rename_i hmore
          obtain ⟨rs', last', data', hreads', rfl, hobs, hle', hend, hblock⟩ :=
            ih (by omega) h
          refine ⟨rs ++ [.ok (b :: data)] ++ rs', last', b :: data ++ data', ?_, by simp, ?_,
            ?_, hend, nofun⟩
          · simpa using hreads.trans hreads'
          · rw [List.append_assoc, List.flatMap_append, hobs, List.flatMap_append, hnone]
            simp [observed]
          · rw [List.length_append]; omega
      · obtain ⟨rfl, rfl, rfl⟩ : _ ∧ _ ∧ _ := by simpa using h
        obtain ⟨e, rfl, hend, hblock⟩ := hlast
        refine ⟨rs, _, [], hreads, by simp, ?_, Nat.zero_le _, nofun, fun _ _ =>
          ⟨e, rfl, hend, hblock⟩⟩
        simp [hnone, observed, hend, hblock, owedBy]

/-- A read of no bytes changes nothing. -/
theorem pollRead_zero {fuel : Nat} :
    s.pollRead B io a fuel 0 = some (.ready (.ok ()), [], s) := if_pos rfl

/-- A stored end is reported by the next read with room, which does nothing else. -/
theorem pollRead_stored {fuel cap : Nat} {stop : Except IoError Unit} (hcap : cap ≠ 0)
    (he : s.stream.readEnd = some stop) :
    s.pollRead B io a fuel cap = some (.ready stop, [], s.setReadEnd none) := by
  rw [pollRead, if_neg hcap, he]

/-- Bytes come with `Ready(Ok)`; an error met after them is not told with them. -/
theorem pollRead_bytes {fuel cap : Nat} {r : Poll (Except IoError Unit)} {got : Bytes}
    (h : s.pollRead B io a fuel cap = some (r, got, s')) (hgot : got ≠ []) : r = .ready (.ok ()) := by
  unfold pollRead at h
  split at h
  · exact (Prod.mk.inj (Option.some.inj h)).1.symm
  rcases he : s.stream.readEnd with _ | stop <;> simp only [he] at h
  · rcases hl : s.readLoop B io a fuel cap [] with _ | ⟨stop, data, s₁⟩ <;> simp only [hl] at h
    · cases h
    by_cases hdata : data = []
    · rw [if_pos hdata] at h
      rcases stop with _ | stop <;> obtain ⟨-, rfl, -⟩ : _ ∧ _ ∧ _ := by simpa using h
      · exact absurd hdata hgot
      · exact absurd hdata hgot
    · rw [if_neg hdata] at h
      exact (Prod.mk.inj (Option.some.inj h)).1.symm
  · obtain ⟨-, rfl, -⟩ : _ ∧ _ ∧ _ := by simpa using h
    exact absurd rfl hgot

/-- **A read reports what it observes, or owes it.**  With nothing taken, an end it reports is
stored or just met, and it is pending only where its last `SSL_read` would block. -/
theorem pollRead_spec {fuel cap : Nat} {r : Poll (Except IoError Unit)} {got : Bytes}
    (ha : s.stream.Accounted) (h : s.pollRead B io a fuel cap = some (r, got, s')) :
    ∃ rs, s'.stream.Accounted ∧ B.plaintext s'.ssl = B.plaintext s.ssl
      ∧ s'.sslReads = s.sslReads ++ rs
      ∧ owedBy s.stream.readEnd ++ rs.flatMap observed
          = reported cap r got ++ owedBy s'.stream.readEnd
      ∧ (s'.stream.readEnd = some (.ok ()) ∨ (r = .ready (.ok ()) ∧ got = [] ∧ cap ≠ 0) →
          s.stream.readEnd = some (.ok ()) ∧ rs = []
            ∨ ∃ rs' e, rs = rs' ++ [.error e] ∧ e.IsEnd)
      ∧ (r = .pending → got = [] ∧ ∃ rs' e, rs = rs' ++ [.error e] ∧ ¬ e.IsEnd ∧ e.WouldBlock)
      ∧ got.length ≤ cap := by
  unfold pollRead at h
  split at h
  · rename_i hcap
    obtain ⟨rfl, rfl, rfl⟩ : _ ∧ _ ∧ _ := by simpa using h
    refine ⟨[], ha, rfl, by simp, by simp [reported, hcap], fun hend => .inl ⟨?_, rfl⟩, nofun,
      Nat.zero_le _⟩
    exact hend.resolve_right fun hr => hr.2.2 hcap
  rename_i hcap
  rcases he : s.stream.readEnd with _ | stop <;> simp only [he] at h
  · rcases hl : s.readLoop B io a fuel cap [] with _ | ⟨stop, data, s₁⟩ <;> simp only [hl] at h
    · cases h
    obtain ⟨rs, last, data', hreads, hdata, hobs, hle, hend, hblock⟩ :=
      readLoop_spec (by omega) hl
    obtain rfl : data = data' := by simpa using hdata
    have ha₁ := hreads.kept.accounted ha
    have hstored : s₁.stream.readEnd = none := Eq.trans (hreads.kept.keeps ha) he
    -- With nothing read, how the loop stopped is reported; otherwise it is stored for the next call.
    split at h
    · rename_i hnil
      subst hnil
      rcases stop with _ | stop <;> obtain ⟨rfl, rfl, rfl⟩ : _ ∧ _ ∧ _ := by simpa using h
      · refine ⟨_, ha₁, hreads.plaintext, hreads.sslReads, ?_, ?_, fun _ => ⟨rfl, ?_⟩, hle⟩
        · simpa [owedBy, reported, hstored] using hobs
        · simp [hstored]
        · obtain ⟨e, rfl, hne, hb⟩ := hblock rfl rfl
          exact ⟨rs, e, rfl, hne, hb⟩
      · refine ⟨_, ha₁, hreads.plaintext, hreads.sslReads, ?_, fun hr => .inr ?_, nofun, hle⟩
        · rcases stop with e | _ <;> simpa [owedBy, reported, hstored, hcap] using hobs
        · have hok : stop = .ok () := by simpa [hstored, hcap] using hr
          obtain ⟨e, rfl, he'⟩ := hend (congrArg some hok)
          exact ⟨rs, e, rfl, he'⟩
    · rename_i hne
      obtain ⟨rfl, rfl, rfl⟩ : _ ∧ _ ∧ _ := by simpa using h
      refine ⟨_, ⟨ha₁.written, ha₁.read⟩, hreads.plaintext, hreads.sslReads, ?_,
        fun hr => .inr ?_, nofun, hle⟩
      · simpa [owedBy, reported, hne] using hobs
      · have hok : stop = some (.ok ()) := by simpa [hne] using hr
        obtain ⟨e, rfl, he'⟩ := hend hok
        exact ⟨rs, e, rfl, he'⟩
  · obtain ⟨rfl, rfl, rfl⟩ : _ ∧ _ ∧ _ := by simpa using h
    refine ⟨[], ⟨ha.written, ha.read⟩, rfl, by simp, ?_,
      fun hr => .inl ⟨?_, rfl⟩, ?_, Nat.zero_le _⟩
    · rcases stop with e | _ <;> simp [reported, owedBy, hcap]
    · simpa [hcap] using hr
    · simp

end SslStream

end Btls.Stream
