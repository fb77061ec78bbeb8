import Btls.Limit.Fragment

/-!
# Limit — Retry

Application data written through the BIO, with what a write that stopped half-way owes: the bytes it
has not reported, and a record that the transport refused.  The caller retries with the same buffer,
and meanwhile the keys, the limits and the fragment may all have changed.

What is owed is always a prefix of the buffer of the retry, and a round offers at least the pending
record (`le_toWrite`).  So `do_tls_write` finishes it, and the ledger of what was sealed and
reported stays balanced over any calls (`retry_completes`).
-/

namespace Btls.Limit

open Btls.Support Btls.Tls Btls.Seal

/-- How a write or a round of it ended.  `unfinished` is there to be excluded, as is
`SSL_R_BAD_WRITE_RETRY`. -/
inductive WriteResult where
  | wrote (n : Nat)
  /-- The transport refused a record, or failed. -/
  | stopped
  | badWriteRetry
  | protocolIsShutdown
  | badLength
  | needsHandshake
  | unfinished
  deriving DecidableEq

/-- What was written, where `do_tls_write` wrote. -/
def WriteResult.written : WriteResult → Option Nat
  | .wrote n => some n
  | _ => none

/-- How the loop of the record layer ended. -/
def WriteResult.status : WriteResult → WriteStatus
  | .needsHandshake => .needsHandshake
  | .unfinished => .unfinished
  | _ => .returned

section Model

variable {κ ρ : Type} (A : Aead κ ρ)

/-- `do_tls_write` of application data, with the plaintext of the records it sealed.  A pending record
is finished by an offer of no less than it, and rejects a smaller one; without one, what is offered is
sealed and is pending until the transport has taken it. -/
structure DoTlsWrite (A : Aead κ ρ) where
  run : SslImpl κ → Bytes → WriteResult × List Bytes × SslImpl κ
  /-- It writes under the fragment it finds. -/
  frame : ∀ s inp r out s', run s inp = (r, out, s') →
    tlsAppDataFragment A s' = tlsAppDataFragment A s
      ∧ s'.unreportedBytesWritten = s.unreportedBytesWritten
  short : ∀ s inp, inp.length < s.pendingWrite.length → ∃ s', run s inp = (.badWriteRetry, [], s')
    ∧ s'.pendingWrite = s.pendingWrite
  pending : ∀ s inp r out s', s.pendingWrite ≠ [] → s.pendingWrite.length ≤ inp.length →
    run s inp = (r, out, s') → out = []
      ∧ (r = .wrote s.pendingWrite.length ∧ s'.pendingWrite = []
        ∨ r = .stopped ∧ s'.pendingWrite = s.pendingWrite)
  fresh : ∀ s inp r out s', s.pendingWrite = [] → run s inp = (r, out, s') →
    r = .wrote inp.length ∧ out.flatten = inp ∧ s'.pendingWrite = []
      ∨ r = .stopped ∧ out = [] ∧ s'.pendingWrite = []
      ∨ r = .stopped ∧ out.flatten = inp ∧ s'.pendingWrite = inp

/-- The 0-RTT data of a client whose handshake is not done. -/
structure EarlyData where
  written : Nat
  /-- `early_session->ticket_max_early_data`. -/
  ticketMax : Nat
  canEarlyWrite : Bool

/-- Ghost: a record of application data, and the fragment in force when it was sealed. -/
structure AppRecord where
  plaintext : Bytes
  fragment : Nat

/-- The writing half of a connection. -/
structure Writer (κ : Type) where
  ssl : SslImpl κ
  earlyData : Option EarlyData
  /-- Ghost: the bytes of `unreported_bytes_written`. -/
  unreported : Bytes
  /-- Ghost: the records of application data, in order. -/
  records : List AppRecord

end Model

namespace Writer

variable {κ ρ : Type} {A : Aead κ ρ} (D : DoTlsWrite A)

/-- The plaintext sealed. -/
def sealed (w : Writer κ) : Bytes := w.records.flatMap AppRecord.plaintext

/-- What was sealed and not reported: bytes the transport has taken, and the pending record. -/
def owed (w : Writer κ) : Bytes := w.unreported ++ w.ssl.pendingWrite

/-- `is_early_data_write`. -/
def isEarlyDataWrite (w : Writer κ) : Bool :=
  match w.earlyData with
  | some e => e.canEarlyWrite
  | none => false

/-- What the 0-RTT budget has left, in an early data write. -/
def earlyLeft (isEarly : Bool) (w : Writer κ) : Option Nat :=
  if isEarly then w.earlyData.map fun e => e.ticketMax - e.written else none

def bumpEarlyData (isEarly : Bool) (w : Writer κ) (n : Nat) : Writer κ :=
  if isEarly then
    { w with earlyData := w.earlyData.map fun e => { e with written := e.written + n } }
  else w

@[simp] theorem bumpEarlyData_ssl {isEarly : Bool} {w : Writer κ} {n : Nat} :
    (w.bumpEarlyData isEarly n).ssl = w.ssl := by
  cases isEarly <;> rfl

@[simp] theorem bumpEarlyData_records {isEarly : Bool} {w : Writer κ} {n : Nat} :
    (w.bumpEarlyData isEarly n).records = w.records := by
  cases isEarly <;> rfl

def setUnreported (w : Writer κ) (total : Nat) : Writer κ :=
  { w with ssl := { w.ssl with unreportedBytesWritten := total } }

/-- One call of `do_tls_write`. -/
def doTlsWrite (w : Writer κ) (inp : Bytes) : WriteResult × Writer κ :=
  let (r, out, ssl) := D.run w.ssl inp
  (r, { w with
    ssl
    records := w.records ++ out.map fun plaintext => ⟨plaintext, tlsAppDataFragment A w.ssl⟩ })

/-- The loop of `tls_write_app_data`, running at most `fuel` times, once `total` bytes are written. -/
def writeLoop (isEarly partialWrite : Bool) :
    (fuel : Nat) → Writer κ → (total : Nat) → (inp : Bytes) → WriteResult × Writer κ
  | 0, w, _, _ => (.unfinished, w)
  | fuel + 1, w, total, inp =>
      match toWrite (A := A) w.ssl (w.earlyLeft isEarly) inp with
      | none =>
          (.needsHandshake, { w.setUnreported total with
            earlyData := w.earlyData.map fun e => { e with canEarlyWrite := false } })
      | some n =>
          match w.doTlsWrite D (inp.take n) with
          | (.wrote written, w) =>
              let w := { w.bumpEarlyData isEarly written with
                unreported := w.unreported ++ inp.take written }
              let total := total + written
              let inp := inp.drop written
              if inp = [] ∨ partialWrite then
                (.wrote total, { w.setUnreported 0 with unreported := [] })
              else writeLoop isEarly partialWrite fuel w total inp
          | (r, w) => (r, w.setUnreported total)

/-- `tls_write_app_data`. -/
def tlsWriteAppData (partialWrite : Bool) (fuel : Nat) (w : Writer κ) (inp : Bytes) :
    WriteResult × Writer κ :=
  if w.ssl.writeShutdown ≠ .none then (.protocolIsShutdown, w)
  else
    let total := w.ssl.unreportedBytesWritten
    if inp.length < total then (.badLength, w)
    else writeLoop D w.isEarlyDataWrite partialWrite fuel w total (inp.drop total)

/-! ### The loop of the record layer

`Limit.tlsWriteAppData` is the same loop without the account of what was written, over a record layer of
which less is asked. -/

variable {D} {w w' : Writer κ} {inp : Bytes} {r : WriteResult}

/-- `D` is `do_tls_write` of `W`, and has the plaintext of the records besides. -/
structure Accounts (W : WriteUpstream A) (D : DoTlsWrite A) : Prop where
  ssl : ∀ s inp, (W.doTlsWrite s inp).2 = (D.run s inp).2.2
  written : ∀ s inp, (W.doTlsWrite s inp).1 = (D.run s inp).1.written

/-- `do_tls_write` writes, stops, or rejects what it is offered. -/
theorem run_status {s s' : SslImpl κ} {out : List Bytes} (h : D.run s inp = (r, out, s')) :
    r.status = .returned := by
  by_cases hpending : s.pendingWrite = []
  · rcases D.fresh _ _ _ _ _ hpending h with ⟨rfl, -⟩ | ⟨rfl, -⟩ | ⟨rfl, -⟩ <;> rfl
  · by_cases hle : s.pendingWrite.length ≤ inp.length
    · obtain ⟨-, ⟨rfl, -⟩ | ⟨rfl, -⟩⟩ := D.pending _ _ _ _ _ hpending hle h <;> rfl
    · obtain ⟨s₁, hshort, -⟩ := D.short s inp (Nat.not_le.mp hle)
      cases h.symm.trans hshort
      rfl

/-- What is written of 0-RTT is taken off what is left of it. -/
theorem earlyLeft_bump (isEarly : Bool) {w w₁ : Writer κ} (hearly : w₁.earlyData = w.earlyData) (n : Nat)
    (unreported : Bytes) :
    earlyLeft isEarly { w₁.bumpEarlyData isEarly n with unreported }
      = (w.earlyLeft isEarly).map (· - n) := by
  cases isEarly with
  | false => rfl
  | true =>
      simp only [earlyLeft, bumpEarlyData, if_true, hearly, Option.map_map]
      congr 1
      funext e
      exact (Nat.sub_sub _ _ _).symm

/-- One call of `do_tls_write`, as the record layer sees it. -/
theorem doTlsWrite_view {W : WriteUpstream A} (hW : Accounts W D) (h : w.doTlsWrite D inp = (r, w')) :
    W.doTlsWrite w.ssl inp = (r.written, w'.ssl) ∧ w'.earlyData = w.earlyData ∧ r.status = .returned := by
  have hwritten := hW.written w.ssl inp
  have hssl := hW.ssl w.ssl inp
  unfold doTlsWrite at h
  rcases hrun : D.run w.ssl inp with ⟨res, out, ssl⟩
  rw [hrun] at h hwritten hssl
  obtain ⟨rfl, rfl⟩ := Prod.mk.inj h
  exact ⟨Prod.ext hwritten hssl, rfl, run_status hrun⟩

/-- **The two loops are one.**  They end alike, and leave the connection the same but for the count of what is
not reported. -/
theorem writeLoop_ssl {W : WriteUpstream A} (hW : Accounts W D) (isEarly partialWrite : Bool) (fuel : Nat)
    (w : Writer κ) (total : Nat) (inp : Bytes) :
    (Limit.tlsWriteAppData W partialWrite fuel w.ssl (w.earlyLeft isEarly) inp).1
        = (writeLoop D isEarly partialWrite fuel w total inp).1.status
      ∧ ∃ unreportedBytesWritten, (writeLoop D isEarly partialWrite fuel w total inp).2.ssl
        = { (Limit.tlsWriteAppData W partialWrite fuel w.ssl (w.earlyLeft isEarly) inp).2 with
            unreportedBytesWritten } := by
  induction fuel generalizing w total inp with
  | zero => exact ⟨rfl, _, rfl⟩
  | succ fuel ih =>
      unfold writeLoop Limit.tlsWriteAppData
      rcases hn : toWrite (A := A) w.ssl (w.earlyLeft isEarly) inp with _ | n
      · exact ⟨rfl, _, rfl⟩
      rcases hd : w.doTlsWrite D (inp.take n) with ⟨res, w₁⟩
      obtain ⟨hdo, hearly, hstatus⟩ := doTlsWrite_view hW hd
      simp only [hd, hdo]
      cases res with
      | wrote k =>
          have hssl : (w₁.bumpEarlyData isEarly k).ssl = w₁.ssl := bumpEarlyData_ssl
          by_cases hdone : inp.drop k = [] ∨ partialWrite = true
          · simp only [WriteResult.written, if_pos hdone]
            exact ⟨rfl, 0, by simp only [setUnreported, hssl]⟩
          · simp only [WriteResult.written, if_neg hdone]
            rw [← earlyLeft_bump isEarly hearly k (w₁.unreported ++ inp.take k), ← hssl]
            exact ih { w₁.bumpEarlyData isEarly k with unreported := w₁.unreported ++ inp.take k } _ _
      | stopped => exact ⟨rfl, _, rfl⟩
      | badWriteRetry => exact ⟨rfl, _, rfl⟩
      | protocolIsShutdown => exact ⟨rfl, _, rfl⟩
      | badLength => exact ⟨rfl, _, rfl⟩
      | needsHandshake => cases hstatus
      | unfinished => cases hstatus

/-- A write that was stopped and is retried keeps the limits, as `Limit.tlsWriteAppData` does. -/
theorem tlsWriteAppData_limits {W : WriteUpstream A} (hW : Accounts W D) {partialWrite : Bool}
    (hs : Limit.Sound A w.ssl) (h : w.tlsWriteAppData D partialWrite (inp.length + 1) inp = (r, w')) :
    Limit.Sound A w'.ssl := by
  unfold tlsWriteAppData at h
  split at h
  · cases h
    exact hs
  dsimp only at h
  split at h
  · cases h
    exact hs
  obtain ⟨-, _, hssl⟩ := writeLoop_ssl hW w.isEarlyDataWrite partialWrite (inp.length + 1) w
    w.ssl.unreportedBytesWritten (inp.drop w.ssl.unreportedBytesWritten)
  rw [h] at hssl
  have hfuel : (inp.drop w.ssl.unreportedBytesWritten).length < inp.length + 1 := by
    rw [List.length_drop]
    omega
  rw [hssl]
  exact (tlsWriteAppData_sound hs hfuel (Prod.eta _).symm).1.congr rfl ⟨rfl, rfl, rfl⟩ rfl

/-! ### One round -/

/-- **A round offers the pending record**, whatever the fragment and the 0-RTT budget are now. -/
theorem le_toWrite {s : SslImpl κ} {early : Option Nat} {n : Nat} (hp : s.pendingWrite <+: inp)
    (h : toWrite (A := A) s early inp = some n) : s.pendingWrite.length ≤ n := by
  have hle := hp.length_le
  by_cases hnil : s.pendingWrite = []
  · rw [hnil]
    exact Nat.zero_le _
  unfold toWrite at h
  have hcut : ∀ frag, some (if s.pendingWrite ≠ [] then
      max (min frag inp.length) (min s.pendingWrite.length inp.length)
      else min frag inp.length) = some n → s.pendingWrite.length ≤ n := by
    intro frag hn
    rw [if_pos hnil, Nat.min_eq_left hle] at hn
    rw [← Option.some.inj hn]
    exact Nat.le_max_right _ _
  split at h
  · cases h
  · exact hcut _ h

/-- What a round of `w` over `inp` did: it sealed `new`, and took bytes or left them pending. -/
structure Round (A : Aead κ ρ) (w : Writer κ) (inp : Bytes) (new : List AppRecord)
    (r : WriteResult) (w' : Writer κ) : Prop where
  records : w'.records = w.records ++ new
  within : ∀ e ∈ new, e.fragment = tlsAppDataFragment A w.ssl ∧ e.plaintext.length ≤ e.fragment
  fragment : tlsAppDataFragment A w'.ssl = tlsAppDataFragment A w.ssl
  unreported : w'.unreported = w.unreported
  unreportedBytesWritten : w'.ssl.unreportedBytesWritten = w.ssl.unreportedBytesWritten
  /-- A pending record is finished, and nothing sealed. -/
  finishes : w.ssl.pendingWrite ≠ [] →
    new = [] ∧ (r = .wrote w.ssl.pendingWrite.length ∨ r = .stopped)
  ends : (∃ k, r = .wrote k ∧ k ≤ inp.length ∧ (inp ≠ [] → 0 < k)
      ∧ w.ssl.pendingWrite ++ new.flatMap AppRecord.plaintext = inp.take k
      ∧ w'.ssl.pendingWrite = [])
    ∨ r = .stopped ∧ w'.ssl.pendingWrite <+: inp
      ∧ w.ssl.pendingWrite ++ new.flatMap AppRecord.plaintext = w'.ssl.pendingWrite

/-- The records of a write hold its plaintext in order. -/
theorem flatMap_plaintext (out : List Bytes) (frag : Nat) :
    (out.map fun plaintext => (⟨plaintext, frag⟩ : AppRecord)).flatMap AppRecord.plaintext
      = out.flatten := by
  rw [List.flatMap_map, List.flatMap_def, List.map_id']

/-- **One round of the loop**: it retries the record that is pending, or seals the next. -/
theorem doTlsWrite_round {early : Option Nat} {n : Nat} (hp : w.ssl.pendingWrite <+: inp)
    (hn : toWrite (A := A) w.ssl early inp = some n)
    (h : w.doTlsWrite D (inp.take n) = (r, w')) : ∃ new, Round A w inp new r w' := by
  obtain ⟨hpos, hle, hfrag⟩ := toWrite_spec hn
  have htake : (inp.take n).length = n := by rw [List.length_take, Nat.min_eq_left hle]
  unfold doTlsWrite at h
  rcases hrun : D.run w.ssl (inp.take n) with ⟨res, out, ssl⟩
  rw [hrun] at h
  obtain ⟨rfl, rfl⟩ := Prod.mk.inj h
  obtain ⟨hframe, hunreported⟩ := D.frame _ _ _ _ _ hrun
  -- With nothing pending, what is offered is sealed; what is pending is only offered again.
  by_cases hpending : w.ssl.pendingWrite = []
  · have hwithin : out.flatten = inp.take n → ∀ e ∈ out.map fun plaintext =>
        (⟨plaintext, tlsAppDataFragment A w.ssl⟩ : AppRecord),
        e.fragment = tlsAppDataFragment A w.ssl ∧ e.plaintext.length ≤ e.fragment := by
      intro hout e he
      obtain ⟨plaintext, hmem, rfl⟩ := List.mem_map.mp he
      refine ⟨rfl, Nat.le_trans ?_ (hfrag hpending)⟩
      rw [← htake, ← hout]
      exact (List.sublist_flatten_of_mem hmem).length_le
    rcases D.fresh _ _ _ _ _ hpending hrun with ⟨rfl, hout, hnil⟩ | ⟨rfl, rfl, hnil⟩
      | ⟨rfl, hout, hblocked⟩
    · refine ⟨_, rfl, hwithin hout, hframe, rfl, hunreported, fun h => absurd hpending h,
        .inl ⟨_, rfl, by rw [htake]; exact hle, by rw [htake]; exact hpos, ?_, hnil⟩⟩
      rw [hpending, flatMap_plaintext, hout, htake]
      rfl
    · refine ⟨_, rfl, nofun, hframe, rfl, hunreported, fun h => absurd hpending h,
        .inr ⟨rfl, ?_, ?_⟩⟩
      · rw [hnil]
        exact List.nil_prefix
      · rw [hpending, hnil]
        rfl
    · refine ⟨_, rfl, hwithin hout, hframe, rfl, hunreported, fun h => absurd hpending h,
        .inr ⟨rfl, ?_, ?_⟩⟩
      · rw [hblocked]
        exact List.take_prefix _ _
      · rw [hpending, flatMap_plaintext, hout, hblocked]
        rfl
  · have hoffer := le_toWrite hp hn
    obtain ⟨rfl, hres⟩ := D.pending _ _ _ _ _ hpending (by rw [htake]; exact hoffer) hrun
    have hends : w.ssl.pendingWrite = inp.take w.ssl.pendingWrite.length :=
      List.prefix_iff_eq_take.mp hp
    refine ⟨[], rfl, nofun, hframe, rfl, hunreported, fun _ => ⟨rfl, ?_⟩, ?_⟩
    · rcases hres with ⟨rfl, -⟩ | ⟨rfl, -⟩
      · exact .inl rfl
      · exact .inr rfl
    · rcases hres with ⟨rfl, hnil⟩ | ⟨rfl, hsame⟩
      · refine .inl ⟨_, rfl, hp.length_le, fun _ => List.length_pos_iff.mpr hpending, ?_, hnil⟩
        rw [List.flatMap_nil, List.append_nil]
        exact hends
      · refine .inr ⟨rfl, by rw [hsame]; exact hp, ?_⟩
        rw [List.flatMap_nil, List.append_nil]
        exact hsame.symm

/-! ### A call -/

/-- What a call, or the rest of one, did over `inp`: it sealed `new`, and owes what it does not
report. -/
structure Call (A : Aead κ ρ) (w : Writer κ) (inp : Bytes) (new : List AppRecord)
    (r : WriteResult) (w' : Writer κ) : Prop where
  records : w'.records = w.records ++ new
  within : ∀ e ∈ new, e.fragment = tlsAppDataFragment A w.ssl ∧ e.plaintext.length ≤ e.fragment
  consistent : r ≠ .badWriteRetry ∧ r ≠ .unfinished ∧ r ≠ .badLength
  counted : w'.unreported.length = w'.ssl.unreportedBytesWritten
  taken : w.ssl.pendingWrite ++ new.flatMap AppRecord.plaintext <+: inp
  balance : match r with
    | .wrote n => n = (w.owed ++ new.flatMap AppRecord.plaintext).length ∧ w'.owed = []
    | _ => w'.owed = w.owed ++ new.flatMap AppRecord.plaintext

/-- **A call of the loop** seals what it was asked to, or stops at a record that is pending. -/
theorem writeLoop_call {isEarly partialWrite : Bool} {fuel total : Nat}
    (hp : w.ssl.pendingWrite <+: inp) (htotal : w.unreported.length = total)
    (hfuel : inp.length < fuel)
    (h : writeLoop D isEarly partialWrite fuel w total inp = (r, w')) :
    ∃ new, Call A w inp new r w' := by
  -- On the fuel: a round takes at least a byte of what is left, and what is pending is a prefix of it.
  induction fuel generalizing w total inp with
  | zero => exact absurd hfuel (Nat.not_lt_zero _)
  | succ fuel ih =>
      unfold writeLoop at h
      rcases hn : toWrite (A := A) w.ssl (w.earlyLeft isEarly) inp with _ | n <;>
        simp only [hn] at h
      · obtain ⟨rfl, rfl⟩ := Prod.mk.inj h
        refine ⟨[], (List.append_nil _).symm, nofun, by decide, htotal, ?_, ?_⟩
        · simpa using hp
        · simp [owed, setUnreported]
      rcases hd : w.doTlsWrite D (inp.take n) with ⟨res, w₁⟩
      obtain ⟨new, hround⟩ := doTlsWrite_round hp hn hd
      rw [hd] at h
      rcases hround.ends with ⟨k, rfl, hk, hpos, htaken, hnil⟩ | ⟨rfl, hprefix, hpending⟩
      · simp only at h
        have hbytes : (inp.take k).length = k := by rw [List.length_take, Nat.min_eq_left hk]
        split at h
        · obtain ⟨rfl, rfl⟩ := Prod.mk.inj h
          refine ⟨new, ?_, hround.within, by simp, rfl, ?_, ?_, ?_⟩
          · simpa [setUnreported] using hround.records
          · rw [htaken]
            exact List.take_prefix _ _
          · rw [owed, List.append_assoc, htaken, List.length_append, hbytes, htotal]
          · simpa [owed, setUnreported] using hnil
        · rename_i hmore
          have hne : inp ≠ [] := by
            rintro rfl
            exact hmore (.inl List.drop_nil)
          have hk' := hpos hne
          obtain ⟨new₂, hcall⟩ := ih (by simp [hnil])
            (by simp [hround.unreported, htotal, hbytes])
            (by rw [List.length_drop]; omega) h
          have hsame : tlsAppDataFragment A w₁.ssl = tlsAppDataFragment A w.ssl := hround.fragment
          have howed : w.owed ++ new.flatMap AppRecord.plaintext
              = w.unreported ++ inp.take k := by
            rw [owed, List.append_assoc, htaken]
          refine ⟨new ++ new₂, ?_, ?_, hcall.consistent, hcall.counted, ?_, ?_⟩
          · rw [hcall.records]
            simp [hround.records]
          · intro e he
            rcases List.mem_append.mp he with he | he
            · exact hround.within e he
            · obtain ⟨hfrag, hle⟩ := hcall.within e he
              rw [bumpEarlyData_ssl, hsame] at hfrag
              exact ⟨hfrag, hle⟩
          · have hrest := hcall.taken
            rw [bumpEarlyData_ssl, hnil, List.nil_append] at hrest
            rw [List.flatMap_append, ← List.append_assoc, htaken]
            have hall := (List.prefix_append_right_inj (inp.take k)).mpr hrest
            rwa [List.take_append_drop] at hall
          · have hbal := hcall.balance
            rw [List.flatMap_append, ← List.append_assoc, howed]
            simp only [owed, bumpEarlyData_ssl, hnil, List.append_nil, hround.unreported] at hbal
            exact hbal
      · simp only at h
        obtain ⟨rfl, rfl⟩ := Prod.mk.inj h
        refine ⟨new, hround.records, hround.within, by decide, ?_, ?_, ?_⟩
        · show w₁.unreported.length = total
          rw [hround.unreported, htotal]
        · rw [hpending]
          exact hprefix
        · show w₁.unreported ++ w₁.ssl.pendingWrite = w.unreported ++ w.ssl.pendingWrite ++ _
          rw [hround.unreported, ← hpending, List.append_assoc]

/-- With partial writes on, a retry reports the record it finished and no more. -/
theorem writeLoop_unfinished {isEarly : Bool} {fuel total n : Nat}
    (hp : w.ssl.pendingWrite <+: inp) (hpending : w.ssl.pendingWrite ≠ [])
    (h : writeLoop D isEarly true fuel w total inp = (.wrote n, w')) :
    n = total + w.ssl.pendingWrite.length := by
  cases fuel with
  | zero => cases (Prod.mk.inj h).1
  | succ fuel =>
      unfold writeLoop at h
      rcases hn : toWrite (A := A) w.ssl (w.earlyLeft isEarly) inp with _ | m <;>
        simp only [hn] at h
      · cases (Prod.mk.inj h).1
      rcases hd : w.doTlsWrite D (inp.take m) with ⟨res, w₁⟩
      obtain ⟨new, hround⟩ := doTlsWrite_round hp hn hd
      obtain ⟨-, rfl | rfl⟩ := hround.finishes hpending
      · simp only [hd, or_true, if_true] at h
        exact (WriteResult.wrote.inj (Prod.mk.inj h).1).symm
      · simp only [hd] at h
        cases (Prod.mk.inj h).1

/-- The bytes that are owed are where they are expected in the buffer of a retry. -/
theorem owed_prefix (hcount : w.unreported.length = w.ssl.unreportedBytesWritten)
    (hsame : w.owed <+: inp) :
    w.ssl.unreportedBytesWritten ≤ inp.length
      ∧ inp = w.unreported ++ inp.drop w.ssl.unreportedBytesWritten
      ∧ w.ssl.pendingWrite <+: inp.drop w.ssl.unreportedBytesWritten := by
  obtain ⟨rest, rfl⟩ := hsame
  have hdrop : (w.owed ++ rest).drop w.ssl.unreportedBytesWritten
      = w.ssl.pendingWrite ++ rest := by
    rw [owed, List.append_assoc, ← hcount, List.drop_left]
  refine ⟨?_, ?_, ?_⟩
  · rw [owed, List.append_assoc, List.length_append, hcount]
    exact Nat.le_add_right _ _
  · rw [hdrop, owed, List.append_assoc]
  · rw [hdrop]
    exact List.prefix_append _ _

/-- **What one call seals and reports.** -/
structure Wrote (A : Aead κ ρ) (w : Writer κ) (inp : Bytes) (new : List AppRecord)
    (r : WriteResult) (w' : Writer κ) : Prop where
  records : w'.records = w.records ++ new
  within : ∀ e ∈ new, e.fragment = tlsAppDataFragment A w.ssl ∧ e.plaintext.length ≤ e.fragment
  consistent : r ≠ .badWriteRetry ∧ r ≠ .unfinished ∧ r ≠ .badLength
  counted : w'.unreported.length = w'.ssl.unreportedBytesWritten
  reports : ∀ n, r = .wrote n →
    inp.take n = w.owed ++ new.flatMap AppRecord.plaintext ∧ w'.owed = []
  owes : (∀ n, r ≠ .wrote n) →
    w'.owed = w.owed ++ new.flatMap AppRecord.plaintext ∧ w'.owed <+: inp

/-- So does a whole write, whether or not it is a retry. -/
theorem tlsWriteAppData_wrote {partialWrite : Bool}
    (hcount : w.unreported.length = w.ssl.unreportedBytesWritten) (hsame : w.owed <+: inp)
    (h : w.tlsWriteAppData D partialWrite (inp.length + 1) inp = (r, w')) :
    ∃ new, Wrote A w inp new r w' := by
  unfold tlsWriteAppData at h
  split at h
  · obtain ⟨rfl, rfl⟩ := Prod.mk.inj h
    exact ⟨[], (List.append_nil _).symm, nofun, by decide, hcount, nofun,
      fun _ => ⟨(List.append_nil _).symm, hsame⟩⟩
  obtain ⟨hle, hinp, hp⟩ := owed_prefix hcount hsame
  simp only [Nat.not_lt.mpr hle, if_false] at h
  obtain ⟨new, hcall⟩ := writeLoop_call hp hcount
    (by rw [List.length_drop]; omega) h
  have htaken : w.owed ++ new.flatMap AppRecord.plaintext <+: inp := by
    have hall := (List.prefix_append_right_inj w.unreported).mpr hcall.taken
    rwa [← hinp, ← List.append_assoc] at hall
  refine ⟨new, hcall.records, hcall.within, hcall.consistent, hcall.counted, ?_, ?_⟩
  · rintro n rfl
    obtain ⟨rfl, howed⟩ := hcall.balance
    exact ⟨(List.prefix_iff_eq_take.mp htaken).symm, howed⟩
  · intro hnot
    have howed : w'.owed = w.owed ++ new.flatMap AppRecord.plaintext := by
      have hbal := hcall.balance
      cases r with
      | wrote n => exact absurd rfl (hnot n)
      | _ => exact hbal
    exact ⟨howed, howed ▸ htaken⟩

/-! ### Whole runs -/

/-- What happens to a connection between two writes and in them. -/
inductive Label where
  | write (inp : Bytes) (r : WriteResult)
  | change

/-- The bytes a write reports. -/
def Label.reported : Label → Bytes
  | .write inp (.wrote n) => inp.take n
  | _ => []

/-- A caller retries with the same buffer.  Between writes the connection may do anything but
write application data: change its keys, its limits, its fragment, its 0-RTT. -/
inductive Step (D : DoTlsWrite A) : Writer κ → Label → Writer κ → Prop where
  | write {w w' : Writer κ} {partialWrite : Bool} {inp : Bytes} {r : WriteResult}
      (hsame : w.owed <+: inp)
      (h : w.tlsWriteAppData D partialWrite (inp.length + 1) inp = (r, w')) :
      Step D w (.write inp r) w'
  | change (w : Writer κ) (ssl : SslImpl κ) (earlyData : Option EarlyData)
      (hpending : ssl.pendingWrite = w.ssl.pendingWrite)
      (hunreported : ssl.unreportedBytesWritten = w.ssl.unreportedBytesWritten) :
      Step D w .change { w with ssl, earlyData }

/-- A connection that has written nothing. -/
def start (s : SslImpl κ) : Writer κ where
  ssl := { s with pendingWrite := [], unreportedBytesWritten := 0 }
  earlyData := none
  unreported := []
  records := []

/-- Between steps the count is that of the bytes, and every record kept its fragment. -/
structure Sound (w : Writer κ) : Prop where
  counted : w.unreported.length = w.ssl.unreportedBytesWritten
  within : ∀ e ∈ w.records, e.plaintext.length ≤ e.fragment

/-- Nothing is pending at first. -/
theorem sound_start (s : SslImpl κ) : Sound (start s) := ⟨rfl, nofun⟩

/-- **Every write adds to what was sealed**, and reports it when it is out. -/
theorem Sound.step {l : Label} (hs : Sound w) (h : Step D w l w') :
    Sound w' ∧ ∃ new, w'.sealed = w.sealed ++ new ∧ w.owed ++ new = l.reported ++ w'.owed := by
  cases h with
  | @write _ partialWrite inp r hsame h =>
      obtain ⟨new, hw⟩ := tlsWriteAppData_wrote hs.counted hsame h
      refine ⟨⟨hw.counted, ?_⟩, new.flatMap AppRecord.plaintext, ?_, ?_⟩
      · intro e he
        rw [hw.records] at he
        rcases List.mem_append.mp he with he | he
        · exact hs.within e he
        · exact (hw.within e he).2
      · rw [sealed, hw.records, List.flatMap_append]
        rfl
      · cases r with
        | wrote n =>
            obtain ⟨htake, howed⟩ := hw.reports n rfl
            rw [howed, List.append_nil]
            exact htake.symm
        | _ => exact (hw.owes nofun).1.symm
  | change ssl earlyData hpending hunreported =>
      refine ⟨⟨hs.counted.trans hunreported.symm, hs.within⟩, [], (List.append_nil _).symm, ?_⟩
      show w.unreported ++ w.ssl.pendingWrite ++ [] = w.unreported ++ ssl.pendingWrite
      rw [hpending, List.append_nil]

/-- What a retry does with the pending record before anything else: a round offers at least that, and
`do_tls_write` finishes it or leaves it, and seals nothing. -/
theorem finishes_pending (hcount : w.unreported.length = w.ssl.unreportedBytesWritten)
    (hsame : w.owed <+: inp) (hpending : w.ssl.pendingWrite ≠ []) {early : Option Nat} {n : Nat}
    (hn : toWrite (A := A) w.ssl early (inp.drop w.ssl.unreportedBytesWritten) = some n)
    {w₁ : Writer κ} {r₁ : WriteResult}
    (h : w.doTlsWrite D ((inp.drop w.ssl.unreportedBytesWritten).take n) = (r₁, w₁)) :
    w.ssl.pendingWrite.length ≤ n ∧ w₁.records = w.records
      ∧ (r₁ = .wrote w.ssl.pendingWrite.length ∧ w₁.ssl.pendingWrite = []
        ∨ r₁ = .stopped ∧ w₁.ssl.pendingWrite = w.ssl.pendingWrite) := by
  obtain ⟨-, -, hp⟩ := owed_prefix hcount hsame
  obtain ⟨new, hround⟩ := doTlsWrite_round hp hn h
  obtain ⟨rfl, hres⟩ := hround.finishes hpending
  refine ⟨le_toWrite hp hn, by rw [hround.records, List.append_nil], ?_⟩
  rcases hround.ends with ⟨k, rfl, -, -, -, hnil⟩ | ⟨rfl, -, hleft⟩
  · refine .inl ⟨?_, hnil⟩
    rcases hres with h | h
    · exact h
    · cases h
  · rw [List.flatMap_nil, List.append_nil] at hleft
    exact .inr ⟨rfl, hleft.symm⟩

/-- **A blocked write completes under any fragment.**  Over any writes, each retried with the same
buffer, and any changes of the connection between them, what was sealed is what the writes reported
and what is owed, in order.  A retry is never inconsistent.  It finishes the pending record first,
reports exactly that, and seals none of it again; every further record keeps the fragment then in
force. -/
theorem retry_completes {s : SslImpl κ} {ls : List Label} (h : Run (Step D) (start s) ls w) :
    w.sealed = ls.flatMap Label.reported ++ w.owed
      ∧ (∀ e ∈ w.records, e.plaintext.length ≤ e.fragment)
      ∧ ∀ partialWrite inp r w', w.owed <+: inp →
        w.tlsWriteAppData D partialWrite (inp.length + 1) inp = (r, w') →
          (∃ new, Wrote A w inp new r w')
          ∧ (w.ssl.pendingWrite ≠ [] →
            (∀ early n, toWrite (A := A) w.ssl early (inp.drop w.ssl.unreportedBytesWritten) = some n →
              ∀ r₁ w₁, w.doTlsWrite D ((inp.drop w.ssl.unreportedBytesWritten).take n) = (r₁, w₁) →
                w.ssl.pendingWrite.length ≤ n ∧ w₁.records = w.records
                  ∧ (r₁ = .wrote w.ssl.pendingWrite.length ∧ w₁.ssl.pendingWrite = []
                    ∨ r₁ = .stopped ∧ w₁.ssl.pendingWrite = w.ssl.pendingWrite))
            ∧ ∀ n, partialWrite = true → r = .wrote n → n = w.owed.length) := by
  have hs : Sound w := h.invariant (fun _ _ _ hs hstep => (hs.step hstep).1) (sound_start s)
  refine ⟨?_, hs.within, fun partialWrite inp r w' hsame hcall => ⟨?_, fun hpending => ⟨?_, ?_⟩⟩⟩
  · obtain ⟨new, hsealed, hledger⟩ := h.ledger sealed owed Label.reported
      (fun _ _ _ hs hstep => (hs.step hstep).1) (fun _ _ _ hs hstep => (hs.step hstep).2)
      (sound_start s)
    rw [hsealed, ← hledger]
    rfl
  · exact tlsWriteAppData_wrote hs.counted hsame hcall
  · intro early n hn r₁ w₁ hround
    exact finishes_pending hs.counted hsame hpending hn hround
  · rintro n rfl rfl
    unfold tlsWriteAppData at hcall
    split at hcall
    · cases (Prod.mk.inj hcall).1
    obtain ⟨hle, -, hp⟩ := owed_prefix hs.counted hsame
    simp only [Nat.not_lt.mpr hle, if_false] at hcall
    rw [writeLoop_unfinished hp hpending hcall, owed, List.length_append, hs.counted]

/-- A BIO that refuses a record of more than 64 bytes once. -/
def refusesLong : DoTlsWrite Aead.tagOnly where
  run s inp :=
    if s.pendingWrite = [] then
      if inp.length ≤ 64 then (.wrote inp.length, [inp], s)
      else (.stopped, [inp], { s with pendingWrite := inp })
    else if s.pendingWrite.length ≤ inp.length then
      (.wrote s.pendingWrite.length, [], { s with pendingWrite := [] })
    else (.badWriteRetry, [], s)
  frame s inp r out s' h := by
    split at h
    · split at h <;> obtain ⟨-, -, rfl⟩ : _ ∧ _ ∧ _ := by simpa using h
      · exact ⟨rfl, rfl⟩
      · exact ⟨rfl, rfl⟩
    · split at h <;> obtain ⟨-, -, rfl⟩ : _ ∧ _ ∧ _ := by simpa using h
      · exact ⟨rfl, rfl⟩
      · exact ⟨rfl, rfl⟩
  short s inp h := by
    have hpending : s.pendingWrite ≠ [] := List.ne_nil_of_length_pos (Nat.zero_lt_of_lt h)
    exact ⟨s, by rw [if_neg hpending, if_neg (Nat.not_le.mpr h)], rfl⟩
  pending s inp r out s' hpending hle h := by
    rw [if_neg hpending, if_pos hle] at h
    obtain ⟨rfl, rfl, rfl⟩ : _ ∧ _ ∧ _ := by simpa using h
    exact ⟨rfl, .inl ⟨rfl, rfl⟩⟩
  fresh s inp r out s' hpending h := by
    rw [if_pos hpending] at h
    split at h <;> obtain ⟨rfl, rfl, rfl⟩ : _ ∧ _ ∧ _ := by simpa using h
    · exact .inl ⟨rfl, by simp, hpending⟩
    · exact .inr (.inr ⟨rfl, by simp, rfl⟩)

def eightyBytes : Bytes := List.replicate 80 7

/-- A connection without a limit. -/
def unlimited : Writer Unit :=
  start (sslRecordSizeLimitSetWriteState sampleSsl .earlyData sampleSsl.writeRecordSizeLimit)

/-- There 70 bytes are one record, which is refused. -/
def refusedRecord : Writer Unit :=
  (unlimited.tlsWriteAppData refusesLong false ((eightyBytes.take 70).length + 1)
    (eightyBytes.take 70)).2

/-- Then the limit is 64. -/
def underLimit : Writer Unit :=
  { refusedRecord with
    ssl := sslRecordSizeLimitSetWriteState refusedRecord.ssl .other sampleSsl.writeRecordSizeLimit }

/-- The retry finishes the refused record, and seals 10 more bytes. -/
theorem retry_completes_smaller :
    underLimit.sealed = eightyBytes.take 70
      ∧ ∃ w', underLimit.tlsWriteAppData refusesLong false (eightyBytes.length + 1) eightyBytes
          = (.wrote 80, w')
        ∧ w'.records.map (fun e => (e.plaintext.length, e.fragment)) = [(70, 512), (10, 63)]
        ∧ ∃ new, Wrote Aead.tagOnly underLimit eightyBytes new (.wrote 80) w' := by
  have hfirst : unlimited.tlsWriteAppData refusesLong false ((eightyBytes.take 70).length + 1)
      (eightyBytes.take 70) = (.stopped, refusedRecord) := Prod.ext (by decide +kernel) rfl
  have hrun : Run (Step refusesLong) unlimited
      ([.write (eightyBytes.take 70) .stopped] ++ [.change]) underLimit :=
    .snoc (.one (.write List.nil_prefix hfirst)) (.change refusedRecord _ _ rfl rfl)
  have howed : underLimit.owed = eightyBytes.take 70 := by decide +kernel
  have hcall : (underLimit.tlsWriteAppData refusesLong false (eightyBytes.length + 1) eightyBytes).1
      = .wrote 80 := by decide +kernel
  obtain ⟨hledger, -, hretry⟩ := retry_completes hrun
  have hsame : underLimit.owed <+: eightyBytes := howed ▸ List.take_prefix _ _
  refine ⟨hledger.trans howed, _, Prod.ext hcall rfl, by decide +kernel, ?_⟩
  exact (hretry _ _ _ _ hsame (Prod.ext hcall rfl)).1

end Writer

end Btls.Limit
