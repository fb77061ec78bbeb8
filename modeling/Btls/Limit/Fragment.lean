import Btls.Seal.Fidelity
import Btls.Support.Runs

/-!
# Limit — Fragment

The three producers of records on the write side, and the limit on a record: handshake messages
(`tls_add_message`), application data through the BIO (`tls_write_app_data`) and application data
sealed into the caller's output (`tls_seal_app_data`).

Each cuts at a fragment it computes at its own moment.  What carries the limit from one to the other
is `Sound`: what was sealed kept the limit then in force, and what is queued would keep the one in
force now.
-/

namespace Btls.Limit

open Btls.Support Btls.Tls Btls.Seal

section Model

variable {κ ρ : Type} (A : Aead κ ρ)

/-- `inp` is sealed as one record, as two where records are split, or not at all. -/
inductive SealsRecord (A : Aead κ ρ) : SslImpl κ → Bytes → SslImpl κ → Prop where
  | nothing (s : SslImpl κ) (inp : Bytes) : SealsRecord A s inp s
  | one {s s' : SslImpl κ} {inp : Bytes} {outPrefix out outSuffix addr : Nat} {r : Option Bytes}
      (h : doSealRecord A s outPrefix out outSuffix rtApplicationData addr inp = (r, s')) :
      SealsRecord A s inp s'
  | split {s s₁ s' : SslImpl κ} {inp : Bytes} {pre₁ out₁ suf₁ addr₁ pre₂ out₂ suf₂ addr₂ : Nat}
      {r₁ r₂ : Option Bytes}
      (h₁ : doSealRecord A s pre₁ out₁ suf₁ rtApplicationData addr₁ (inp.take 1) = (r₁, s₁))
      (h₂ : doSealRecord A s₁ pre₂ out₂ suf₂ rtApplicationData addr₂ (inp.drop 1) = (r₂, s')) :
      SealsRecord A s inp s'

/-- The rest of the record layer, with the functions that write through the BIO. -/
structure WriteUpstream extends Upstream A where
  addRecordToFlight : SslImpl κ → UInt8 → Bytes → Bool × SslImpl κ
  /-- `do_tls_write` of application data, which returns how much it wrote. -/
  doTlsWrite : SslImpl κ → Bytes → Option Nat × SslImpl κ
  /-- One record at the end of the flight, unless it fails before that. -/
  addRecord_spec : ∀ s type inp b s', addRecordToFlight s type inp = (b, s') →
    ∃ s₁ pendingFlight errors,
      (s₁ = s ∨ ∃ outPrefix out outSuffix addr r,
        doSealRecord A s outPrefix out outSuffix type addr inp = (r, s₁))
        ∧ s' = { s₁ with pendingFlight, errors }
  /-- A pending record is finished, or not; nothing is sealed. -/
  doTlsWrite_pending : ∀ s inp r s', s.pendingWrite ≠ [] → doTlsWrite s inp = (r, s') →
    (∀ n, r = some n → n = s.pendingWrite.length ∧ n ≤ inp.length)
      ∧ ∃ writeBuffer pendingWrite errors, s' = { s with writeBuffer, pendingWrite, errors }
  /-- Otherwise the queued handshake data is flushed and then `inp` is sealed, unless either fails
  before that. -/
  doTlsWrite_fresh : ∀ s inp r s', s.pendingWrite = [] → doTlsWrite s inp = (r, s') →
    (∀ n, r = some n → n = inp.length)
      ∧ ∃ s₁ s₂ writeBuffer pendingWrite pendingFlight keyUpdatePending errors,
          (s₁ = s ∨ ∃ buffer b, flushPendingHsData { s with writeBuffer := buffer } = (b, s₁))
          ∧ SealsRecord A s₁ inp s₂
          ∧ s' = { s₂ with writeBuffer, pendingWrite, pendingFlight, keyUpdatePending, errors }

/-- A BIO that takes every record at once. -/
def WriteUpstream.direct : WriteUpstream A where
  toUpstream := .behindFlight A
  addRecordToFlight s type inp :=
    let body := headerLength + explicitNonceLen A s
    match doSealRecord A s 0 body (body + inp.length) type body inp with
    | (some record, s₁) => (true, { s₁ with pendingFlight := s₁.pendingFlight.append record })
    | (none, s₁) => (false, s₁)
  doTlsWrite s inp :=
    if s.pendingWrite ≠ [] then
      if s.pendingWrite.length ≤ inp.length then
        (some s.pendingWrite.length, { s with pendingWrite := [] })
      else (none, s.putError .internalError)
    else
      match (Upstream.behindFlight A).flushPendingHsData s with
      | (false, s₁) => (none, s₁)
      | (true, s₁) =>
          let body := headerLength + explicitNonceLen A s₁
          match doSealRecord A s₁ 0 body (body + inp.length) rtApplicationData body inp with
          | (some _, s₂) => (some inp.length, { s₂ with pendingFlight := .reset })
          | (none, s₂) => (none, s₂)
  addRecord_spec := by
    intro s type inp b s' h
    dsimp only at h
    split at h <;> rename_i hseal <;> obtain ⟨-, rfl⟩ := Prod.mk.inj h <;>
      exact ⟨_, _, _, .inr ⟨_, _, _, _, _, hseal⟩, rfl⟩
  doTlsWrite_pending := by
    intro s inp r s' hpending h
    rw [if_pos hpending] at h
    split at h <;> obtain ⟨rfl, rfl⟩ := Prod.mk.inj h
    · rename_i hle
      refine ⟨fun n hn => ?_, _, _, _, rfl⟩
      obtain rfl := Option.some.inj hn
      exact ⟨rfl, hle⟩
    · exact ⟨nofun, _, _, _, rfl⟩
  doTlsWrite_fresh := by
    intro s inp r s' hpending h
    rw [if_neg (by simp [hpending])] at h
    dsimp only at h
    split at h <;> rename_i hflush
    · obtain ⟨rfl, rfl⟩ := Prod.mk.inj h
      exact ⟨nofun, _, _, _, _, _, _, _, .inr ⟨s.writeBuffer, _, hflush⟩, .nothing _ _, rfl⟩
    split at h <;> rename_i hseal <;> obtain ⟨rfl, rfl⟩ := Prod.mk.inj h
    · exact ⟨fun n hn => (Option.some.inj hn).symm, _, _, _, _, _, _, _,
        .inr ⟨s.writeBuffer, _, hflush⟩, .one hseal, rfl⟩
    · exact ⟨nofun, _, _, _, _, _, _, _, .inr ⟨s.writeBuffer, _, hflush⟩, .one hseal, rfl⟩

variable {A} (W : WriteUpstream A)

/-! ### `tls_add_message` -/

/-- How `tls_add_message` ended.  `underflow` and `unfinished` are there to be excluded: a
subtraction below zero, and a loop that ran longer than its input. -/
inductive AddStatus where
  | ok
  | failed
  | underflow
  | unfinished
  deriving DecidableEq

/-- Its loop under the null cipher: one record for each fragment. -/
def addRecords (frag : Nat) : (fuel : Nat) → SslImpl κ → (rest : Bytes) → AddStatus × SslImpl κ
  | _, s, [] => (.ok, s)
  | 0, s, _ => (.unfinished, s)
  | fuel + 1, s, rest =>
      let chunk := rest.take (min frag rest.length)
      match W.addRecordToFlight s rtHandshake chunk with
      | (false, s) => (.failed, s)
      | (true, s) => addRecords frag fuel s (rest.drop chunk.length)

/-- Flushes the queued data if it is full. -/
def flushIfFull (frag : Nat) (s : SslImpl κ) : Bool × SslImpl κ :=
  if s.pendingHsData.isSome ∧ frag ≤ s.hsData.length then W.flushPendingHsData s else (true, s)

/-- Its loop under a cipher: messages are packed into `pending_hs_data`. -/
def queueMessage (frag : Nat) : (fuel : Nat) → SslImpl κ → (rest : Bytes) → AddStatus × SslImpl κ
  | _, s, [] => (.ok, s)
  | 0, s, _ => (.unfinished, s)
  | fuel + 1, s, rest =>
      match flushIfFull W frag s with
      | (false, s) => (.failed, s)
      | (true, s) =>
          let pendingLen := s.hsData.length
          if frag < pendingLen then (.underflow, s)
          else
            let chunk := rest.take (min (frag - pendingLen) rest.length)
            queueMessage frag fuel { s with pendingHsData := some (s.hsData ++ chunk) }
              (rest.drop chunk.length)

/-- `tls_add_message`, its loops running at most `fuel` times. -/
def tlsAddMessage (fuel : Nat) (s : SslImpl κ) (msg : Bytes) : AddStatus × SslImpl κ :=
  if !s.isQuic && s.isNullCipher A then addRecords W (tlsMaxSendFragment A s) fuel s msg
  else queueMessage W (tlsMaxSendFragment A s) fuel s msg

/-! ### `tls_write_app_data` -/

/-- How much one round offers to `do_tls_write`.  `early` is what the 0-RTT budget has left, in an
early data write; `none` where it is spent. -/
def toWrite (s : SslImpl κ) (early : Option Nat) (inp : Bytes) : Option Nat :=
  let frag := tlsAppDataFragment A s
  match early with
  | some 0 => none
  | _ =>
      let frag := (early.map (min frag)).getD frag
      let n := min frag inp.length
      -- A record pending from an earlier epoch may exceed the current fragment.
      some (if s.pendingWrite ≠ [] then max n (min s.pendingWrite.length inp.length) else n)

inductive WriteStatus where
  | returned
  | needsHandshake
  | unfinished
  deriving DecidableEq

/-- The loop of `tls_write_app_data`, running at most `fuel` times. -/
def tlsWriteAppData (partialWrite : Bool) :
    (fuel : Nat) → SslImpl κ → (early : Option Nat) → (inp : Bytes) → WriteStatus × SslImpl κ
  | 0, s, _, _ => (.unfinished, s)
  | fuel + 1, s, early, inp =>
      match toWrite (A := A) s early inp with
      | none => (.needsHandshake, s)
      | some n =>
          match W.doTlsWrite s (inp.take n) with
          | (none, s) => (.returned, s)
          | (some written, s) =>
              let rest := inp.drop written
              if rest = [] ∨ partialWrite then (.returned, s)
              else tlsWriteAppData partialWrite fuel s (early.map (· - written)) rest

/-! ### The connection's moves -/

/-- `ssl_encryption_level_t`, as far as the limits tell the levels apart. -/
inductive Level where
  | earlyData
  | other

/-- `ssl_record_size_limit_set_write_state`. -/
def sslRecordSizeLimitSetWriteState (s : SslImpl κ) (level : Level) (pending : RecordSizeLimit) :
    SslImpl κ :=
  { s with writeRecordSizeLimit := match level with
      | .earlyData => ⟨0, .inl rfl⟩
      | .other => pending }

/-- What an application or the handshake makes the connection do. -/
inductive Label (κ : Type) where
  | addMessage (msg : Bytes)
  | writeAppData (partialWrite : Bool) (early : Option Nat) (inp : Bytes)
  | sealAppData (out : OutSpan) (slicesAddr : Nat) (slices : List Slice) (maxIn : Nat)
  | setMaxSendFragment (n : Nat)
  | setWriteState (level : Level) (pending : RecordSizeLimit) (version : Nat) (ctx : κ)
  | encryptedExtensions (pending : RecordSizeLimit)
  | flush

inductive Step : SslImpl κ → Label κ → SslImpl κ → Prop where
  | addMessage {s s' : SslImpl κ} {msg : Bytes} {r : AddStatus}
      (h : tlsAddMessage W msg.length s msg = (r, s')) : Step s (.addMessage msg) s'
  | writeAppData {s s' : SslImpl κ} {partialWrite : Bool} {early : Option Nat} {inp : Bytes}
      {r : WriteStatus}
      (h : tlsWriteAppData W partialWrite (inp.length + 1) s early inp = (r, s')) :
      Step s (.writeAppData partialWrite early inp) s'
  | sealAppData {s s' : SslImpl κ} {out : OutSpan} {slicesAddr maxIn : Nat} {slices : List Slice}
      {r : SealReturn}
      (h : tlsSealAppData A W.toUpstream s out slicesAddr slices maxIn = (r, s')) :
      Step s (.sealAppData out slicesAddr slices maxIn) s'
  | setMaxSendFragment (s : SslImpl κ) (n : Nat) :
      Step s (.setMaxSendFragment n) { s with maxSendFragment := .clamp n }
  /-- The handshake flushes the queued data before it replaces the write keys. -/
  | setWriteState {s s₁ : SslImpl κ} (level : Level) (pending : RecordSizeLimit) (version : Nat)
      (ctx : κ) (h : W.flushPendingHsData s = (true, s₁)) :
      Step s (.setWriteState level pending version ctx)
        (sslRecordSizeLimitSetWriteState
          { s₁ with aeadWriteCtx := some ctx, writeSequence := 0, protocolVersion := version }
          level pending)
  /-- A TLS 1.3 client has queued nothing under its keys when EncryptedExtensions arrives. -/
  | encryptedExtensions (s : SslImpl κ) (pending : RecordSizeLimit) (h : s.hsData = []) :
      Step s (.encryptedExtensions pending) { s with writeRecordSizeLimit := pending }
  | flush {s s' : SslImpl κ} {b : Bool} (h : W.flushPendingHsData s = (b, s')) : Step s .flush s'

end Model

/-! ### What the check asks for -/

section Sound

variable {κ ρ : Type} {A : Aead κ ρ} {W : WriteUpstream A} {s s₁ s' : SslImpl κ}

/-- `n` bytes sealed now would pass `ssl_record_size_limit_check_seal`. -/
def Passes (A : Aead κ ρ) (s : SslImpl κ) (n : Nat) : Prop :=
  sslRecordSizeLimitCheckSeal A s n (s.extraLen A) = true

/-- Only a record under keys with a limit has anything to pass. -/
theorem passes_iff {n : Nat} :
    Passes A s n ↔ (s.isNullCipher A = false → s.writeRecordSizeLimit.val ≠ 0 →
      n + s.extraLen A ≤ s.writeRecordSizeLimit.val) := by
  simp only [Passes, sslRecordSizeLimitCheckSeal, Bool.not_eq_true', Bool.and_eq_false_iff,
    bne_eq_false_iff_eq, Bool.not_eq_false', decide_eq_false_iff_not, Nat.not_lt]
  constructor
  · rintro ((h | h) | h) hnull hlimit
    · exact absurd h hlimit
    · rw [h] at hnull
      cases hnull
    · exact h
  · intro h
    by_cases hlimit : s.writeRecordSizeLimit.val = 0
    · exact .inl (.inl hlimit)
    · cases hnull : s.isNullCipher A with
      | true => exact .inl (.inr rfl)
      | false => exact .inr (h hnull hlimit)

/-- A shorter record passes too. -/
theorem Passes.mono {m n : Nat} (h : Passes A s n) (hle : m ≤ n) : Passes A s m := by
  rw [passes_iff] at h ⊢
  intro hnull hlimit
  have := h hnull hlimit
  omega

/-- A fragment passes. -/
theorem passes_fragment {n : Nat} (h : n ≤ tlsMaxSendFragment A s) : Passes A s n :=
  checkSeal_of_le_fragment h

/-- An empty record passes: the limit is at least 64 bytes. -/
theorem passes_zero : Passes A s 0 := passes_fragment (Nat.zero_le _)

/-- The attempt passed its check, and kept its limit. -/
def SealAttemptWithin (a : SealAttempt) : Prop :=
  a.passed = true ∧ (a.nullCipher = false → a.limit ≠ 0 → a.inLen + a.extraLen ≤ a.limit)

/-- Every record sealed kept the limit then in force, and what is queued keeps the one in force
now. -/
structure Sound (A : Aead κ ρ) (s : SslImpl κ) : Prop where
  attempts : ∀ a ∈ s.attempts, SealAttemptWithin a
  queued : Passes A s s.hsData.length

/-- With nothing queued only the attempts count. -/
theorem sound_of_nothing_queued (hs : ∀ a ∈ s.attempts, SealAttemptWithin a) (h : s.hsData = []) :
    Sound A s := ⟨hs, h ▸ passes_zero⟩

/-- The limit is the same from `s` to `s'`, and so is what it depends on. -/
structure SameLimit (A : Aead κ ρ) (s s' : SslImpl κ) : Prop where
  limit : s'.writeRecordSizeLimit = s.writeRecordSizeLimit
  cipher : s'.cipher A = s.cipher A
  version : s'.protocolVersion = s.protocolVersion

namespace SameLimit

/-- Nothing was done. -/
theorem refl (s : SslImpl κ) : SameLimit A s s := ⟨rfl, rfl, rfl⟩

/-- Nor after it. -/
theorem trans (h₁ : SameLimit A s s₁) (h₂ : SameLimit A s₁ s') : SameLimit A s s' :=
  ⟨h₂.limit.trans h₁.limit, h₂.cipher.trans h₁.cipher, h₂.version.trans h₁.version⟩

/-- Sealing does not change the limit. -/
theorem of_frame (h : SealFrame A s s') : SameLimit A s s' := by
  have hcipher := h.cipher
  obtain ⟨_, _, _, _, -, rfl⟩ := h
  exact ⟨rfl, hcipher, rfl⟩

/-- Nor the cipher. -/
theorem isNullCipher (h : SameLimit A s s') : s'.isNullCipher A = s.isNullCipher A := by
  simp only [SslImpl.isNullCipher, h.cipher]

/-- So the same lengths pass. -/
theorem passes (h : SameLimit A s s') {n : Nat} : Passes A s' n ↔ Passes A s n := by
  have hextra : s'.extraLen A = s.extraLen A := by
    simp only [SslImpl.extraLen, h.cipher, h.version]
  rw [passes_iff, passes_iff, h.isNullCipher, hextra, h.limit]

end SameLimit

/-! ### Sealing and flushing -/

/-- What passes is sealed within the limit. -/
theorem seal_within {pre inLen suf : Nat} {body : List Iovec} {type : UInt8} {r : Option Bytes}
    (hs : ∀ a ∈ s.attempts, SealAttemptWithin a) (hpass : Passes A s inLen)
    (h : doSealRecordIov A s pre body inLen suf type = (r, s')) :
    (∀ a ∈ s'.attempts, SealAttemptWithin a) ∧ SameLimit A s s' := by
  refine ⟨?_, .of_frame (doSealRecordIov_frame h)⟩
  rcases doSealRecordIov_attempts h with hsame | hnew
  · rwa [hsame]
  · rw [hnew]
    intro a ha
    rcases List.mem_append.mp ha with ha | ha
    · exact hs a ha
    · rw [List.mem_singleton.mp ha]
      exact ⟨hpass, passes_iff.mp hpass⟩

/-- What a flush leaves is sealed, and nothing is queued. -/
theorem flush_sound {U : Upstream A} {b : Bool} (hs : Sound A s)
    (h : U.flushPendingHsData s = (b, s')) :
    Sound A s' ∧ SameLimit A s s' ∧ s'.hsData = [] := by
  suffices hkeep : (∀ a ∈ s'.attempts, SealAttemptWithin a) ∧ SameLimit A s s' ∧ s'.hsData = []
    from ⟨sound_of_nothing_queued hkeep.1 hkeep.2.2, hkeep.2⟩
  cases hquic : s.isQuic with
  | true =>
      obtain ⟨_, rfl⟩ := U.flush_quic s b s' hquic h
      exact ⟨hs.attempts, ⟨rfl, rfl, rfl⟩, rfl⟩
  | false =>
      by_cases hnil : s.hsData = []
      · rw [U.flush_nothing s hquic hnil] at h
        obtain ⟨-, rfl⟩ := Prod.mk.inj h
        exact ⟨hs.attempts, .refl s, hnil⟩
      cases b with
      | true =>
          obtain ⟨_, _, _, _, _, s₁, hseal, rfl⟩ := U.flush_ok s s' hquic hnil h
          obtain ⟨hwithin, hsame⟩ := seal_within hs.attempts hs.queued hseal
          exact ⟨hwithin, hsame.trans ⟨rfl, rfl, rfl⟩, rfl⟩
      | false =>
          obtain ⟨s₁, _, _, rfl | ⟨_, _, _, _, hseal⟩, rfl⟩ := U.flush_failed s s' hquic hnil h
          · exact ⟨hs.attempts, ⟨rfl, rfl, rfl⟩, rfl⟩
          · obtain ⟨hwithin, hsame⟩ := seal_within hs.attempts hs.queued hseal
            exact ⟨hwithin, hsame.trans ⟨rfl, rfl, rfl⟩, rfl⟩

/-- What the fields outside the limit do not matter to. -/
theorem Sound.congr (hs : Sound A s) (hattempts : s'.attempts = s.attempts)
    (hsame : SameLimit A s s') (hqueued : s'.hsData = s.hsData) : Sound A s' :=
  ⟨hattempts ▸ hs.attempts, hqueued ▸ hsame.passes.mpr hs.queued⟩

/-- **A record that passes is sealed within the limit.** -/
theorem Sound.seal {pre inLen suf : Nat} {body : List Iovec} {type : UInt8} {r : Option Bytes}
    (hs : Sound A s) (hpass : Passes A s inLen)
    (h : doSealRecordIov A s pre body inLen suf type = (r, s')) : Sound A s' ∧ SameLimit A s s' := by
  obtain ⟨hwithin, hsame⟩ := seal_within hs.attempts hpass h
  exact ⟨⟨hwithin, (doSealRecordIov_frame h).hsData ▸ hsame.passes.mpr hs.queued⟩, hsame⟩

/-! ### `tls_add_message` -/

/-- The null cipher has no limit, and a fragment takes at least a byte. -/
theorem addRecords_sound {frag fuel : Nat} {rest : Bytes} {r : AddStatus} (hfrag : 0 < frag)
    (hnull : s.isNullCipher A = true) (hs : Sound A s) (hfuel : rest.length ≤ fuel)
    (h : addRecords W frag fuel s rest = (r, s')) : Sound A s' ∧ (r = .ok ∨ r = .failed) := by
  induction fuel generalizing s rest with
  | zero =>
      obtain rfl : rest = [] := List.length_eq_zero_iff.mp (by omega)
      unfold addRecords at h
      obtain ⟨rfl, rfl⟩ := Prod.mk.inj h
      exact ⟨hs, .inl rfl⟩
  | succ fuel ih =>
      cases rest with
      | nil =>
          unfold addRecords at h
          obtain ⟨rfl, rfl⟩ := Prod.mk.inj h
          exact ⟨hs, .inl rfl⟩
      | cons b rest =>
          unfold addRecords at h
          have hlen : ((b :: rest).take (min frag (b :: rest).length)).length ≠ 0 := by
            rw [List.length_take, List.length_cons]
            omega
          generalize hchunk : (b :: rest).take (min frag (b :: rest).length) = chunk at h hlen
          rcases hadd : W.addRecordToFlight s rtHandshake chunk with ⟨ok, s₁⟩
          have hs₁ : Sound A s₁ ∧ s₁.isNullCipher A = true := by
            obtain ⟨s₂, _, _, rfl | ⟨_, _, _, _, _, hseal⟩, rfl⟩ := W.addRecord_spec _ _ _ _ _ hadd
            · exact ⟨hs.congr rfl ⟨rfl, rfl, rfl⟩ rfl, hnull⟩
            · have hpass : Passes A s chunk.length := by
                rw [passes_iff, hnull]
                nofun
              obtain ⟨hs₂, hsame⟩ := hs.seal hpass hseal
              exact ⟨hs₂.congr rfl ⟨rfl, rfl, rfl⟩ rfl, hsame.isNullCipher.trans hnull⟩
          simp only [hadd] at h
          cases ok with
          | false =>
              obtain ⟨rfl, rfl⟩ := Prod.mk.inj h
              exact ⟨hs₁.1, .inr rfl⟩
          | true =>
              refine ih hs₁.2 hs₁.1 ?_ h
              rw [List.length_drop]
              omega

/-- Past the flush there is room in the queue. -/
theorem flushIfFull_sound {frag : Nat} {b : Bool} (hfrag : 0 < frag) (hs : Sound A s)
    (h : flushIfFull W frag s = (b, s')) :
    Sound A s' ∧ SameLimit A s s' ∧ (b = true → s'.hsData.length < frag) := by
  unfold flushIfFull at h
  split at h
  · obtain ⟨hs', hsame, hnil⟩ := flush_sound hs h
    exact ⟨hs', hsame, fun _ => by rw [hnil]; exact hfrag⟩
  · rename_i hroom
    obtain ⟨-, rfl⟩ := Prod.mk.inj h
    refine ⟨hs, .refl s, fun _ => ?_⟩
    cases hq : s.pendingHsData with
    | none =>
        rw [SslImpl.hsData, hq]
        exact hfrag
    | some data =>
        rw [hq] at hroom
        exact Nat.lt_of_not_le fun hle => hroom ⟨rfl, hle⟩

/-- The queue never holds more than a fragment of new data, so it keeps the limit; the subtraction
is from a queue that is not full, and leaves at least a byte. -/
theorem queueMessage_sound {frag fuel : Nat} {rest : Bytes} {r : AddStatus} (hfrag : 0 < frag)
    (hpass : Passes A s frag) (hs : Sound A s) (hfuel : rest.length ≤ fuel)
    (h : queueMessage W frag fuel s rest = (r, s')) : Sound A s' ∧ (r = .ok ∨ r = .failed) := by
  -- On the fuel; after the flush there is room, so a round takes at least a byte.
  induction fuel generalizing s rest with
  | zero =>
      obtain rfl : rest = [] := List.length_eq_zero_iff.mp (by omega)
      unfold queueMessage at h
      obtain ⟨rfl, rfl⟩ := Prod.mk.inj h
      exact ⟨hs, .inl rfl⟩
  | succ fuel ih =>
      cases rest with
      | nil =>
          unfold queueMessage at h
          obtain ⟨rfl, rfl⟩ := Prod.mk.inj h
          exact ⟨hs, .inl rfl⟩
      | cons b rest =>
          unfold queueMessage at h
          rcases hflush : flushIfFull W frag s with ⟨ok, s₁⟩
          obtain ⟨hs₁, hsame, hroom⟩ := flushIfFull_sound hfrag hs hflush
          simp only [hflush] at h
          cases ok with
          | false =>
              obtain ⟨rfl, rfl⟩ := Prod.mk.inj h
              exact ⟨hs₁, .inr rfl⟩
          | true =>
              have hlt := hroom rfl
              dsimp only at h
              rw [if_neg (by omega)] at h
              have hlen : ((b :: rest).take (min (frag - s₁.hsData.length) (b :: rest).length)).length
                  = min (frag - s₁.hsData.length) (b :: rest).length := by
                rw [List.length_take]
                omega
              generalize hqueue : { s₁ with pendingHsData := some (s₁.hsData
                ++ (b :: rest).take (min (frag - s₁.hsData.length) (b :: rest).length)) } = s₂ at h
              have hsame₂ : SameLimit A s s₂ := by
                rw [← hqueue]
                exact hsame.trans ⟨rfl, rfl, rfl⟩
              have hs₂ : Sound A s₂ := by
                refine ⟨by rw [← hqueue]; exact hs₁.attempts, ?_⟩
                refine (hsame₂.passes.mpr hpass).mono ?_
                rw [← hqueue]
                show (s₁.hsData ++ _).length ≤ frag
                rw [List.length_append, hlen]
                omega
              rw [List.length_cons] at hfuel
              refine ih (hsame₂.passes.mpr hpass) hs₂ ?_ h
              rw [List.length_drop, hlen, List.length_cons]
              omega

/-- A handshake message is queued in fragments that pass. -/
theorem tlsAddMessage_sound {fuel : Nat} {msg : Bytes} {r : AddStatus} (hs : Sound A s)
    (hfuel : msg.length ≤ fuel) (h : tlsAddMessage W fuel s msg = (r, s')) :
    Sound A s' ∧ (r = .ok ∨ r = .failed) := by
  have hfrag := (tlsMaxSendFragment_bounds A s).1
  unfold tlsAddMessage at h
  split at h
  · rename_i hnull
    exact addRecords_sound hfrag (by simp_all) hs hfuel h
  · exact queueMessage_sound hfrag (passes_fragment (Nat.le_refl _)) hs hfuel h

/-! ### `tls_write_app_data` -/

/-- So with a record of the write path. -/
theorem sealsRecord_sound {inp : Bytes} (hs : Sound A s) (hpass : Passes A s inp.length)
    (h : SealsRecord A s inp s') : Sound A s' ∧ SameLimit A s s' := by
  cases h with
  | nothing => exact ⟨hs, .refl s⟩
  | one h => exact hs.seal hpass h
  | split h₁ h₂ =>
      obtain ⟨hs₁, hsame₁⟩ := hs.seal (hpass.mono (List.length_take_le' 1 inp)) h₁
      obtain ⟨hs', hsame⟩ := hs₁.seal
        ((hsame₁.passes.mpr hpass).mono (by rw [List.length_drop]; omega)) h₂
      exact ⟨hs', hsame₁.trans hsame⟩

/-- A fresh record must pass; a pending one has been sealed already. -/
theorem doTlsWrite_sound {inp : Bytes} {r : Option Nat} (hs : Sound A s)
    (hpass : s.pendingWrite = [] → Passes A s inp.length) (h : W.doTlsWrite s inp = (r, s')) :
    Sound A s' ∧ ∀ n, r = some n → inp ≠ [] → 0 < n := by
  by_cases hpending : s.pendingWrite = []
  · obtain ⟨hwrote, s₁, s₂, _, _, _, _, _, hflush, hseal, rfl⟩ :=
      W.doTlsWrite_fresh s inp r s' hpending h
    have hs₁ : Sound A s₁ ∧ SameLimit A s s₁ := by
      rcases hflush with rfl | ⟨buffer, b, hflush⟩
      · exact ⟨hs, .refl _⟩
      · have hsame₀ : SameLimit A s { s with writeBuffer := buffer } := ⟨rfl, rfl, rfl⟩
        have hs₀ : Sound A { s with writeBuffer := buffer } := hs.congr rfl hsame₀ rfl
        obtain ⟨hs₁, hsame, -⟩ := flush_sound hs₀ hflush
        exact ⟨hs₁, hsame₀.trans hsame⟩
    obtain ⟨hs₂, -⟩ := sealsRecord_sound hs₁.1 (hs₁.2.passes.mpr (hpass hpending)) hseal
    refine ⟨hs₂.congr rfl ⟨rfl, rfl, rfl⟩ rfl, fun n hn hne => ?_⟩
    rw [hwrote n hn]
    exact List.length_pos_iff.mpr hne
  · obtain ⟨hwrote, _, _, _, rfl⟩ := W.doTlsWrite_pending s inp r s' hpending h
    refine ⟨hs.congr rfl ⟨rfl, rfl, rfl⟩ rfl, fun n hn _ => ?_⟩
    rw [(hwrote n hn).1]
    exact List.length_pos_iff.mpr hpending

/-- A round takes at least a byte of what is left, and a fresh record no more than a fragment. -/
theorem toWrite_spec {early : Option Nat} {inp : Bytes} {n : Nat}
    (h : toWrite (A := A) s early inp = some n) :
    (inp ≠ [] → 0 < n) ∧ n ≤ inp.length
      ∧ (s.pendingWrite = [] → n ≤ tlsAppDataFragment A s) := by
  have hfrag : 0 < tlsAppDataFragment A s := (tlsMaxSendFragment_bounds A s).1
  have hcut : ∀ frag, 0 < frag → frag ≤ tlsAppDataFragment A s →
      some (if s.pendingWrite ≠ [] then
          max (min frag inp.length) (min s.pendingWrite.length inp.length)
        else min frag inp.length) = some n →
      (inp ≠ [] → 0 < n) ∧ n ≤ inp.length
        ∧ (s.pendingWrite = [] → n ≤ tlsAppDataFragment A s) := by
    intro frag hpos hle hn
    obtain rfl := Option.some.inj hn
    refine ⟨fun hne => ?_, ?_, fun hnil => ?_⟩
    · have hlen := List.length_pos_iff.mpr hne
      split <;> omega
    · split <;> omega
    · rw [if_neg (by simp [hnil])]
      omega
  unfold toWrite at h
  match early with
  | none => exact hcut _ hfrag (Nat.le_refl _) h
  | some 0 => cases h
  | some (b + 1) => exact hcut (min (tlsAppDataFragment A s) (b + 1)) (by omega) (by omega) h

/-- **`tls_write_app_data` never seals past the limit**, and comes to an end. -/
theorem tlsWriteAppData_sound {partialWrite : Bool} {fuel : Nat} {early : Option Nat} {inp : Bytes}
    {r : WriteStatus} (hs : Sound A s) (hfuel : inp.length < fuel)
    (h : tlsWriteAppData W partialWrite fuel s early inp = (r, s')) :
    Sound A s' ∧ r ≠ .unfinished := by
  induction fuel generalizing s early inp with
  | zero => exact absurd hfuel (Nat.not_lt_zero _)
  | succ fuel ih =>
      unfold tlsWriteAppData at h
      rcases hn : toWrite (A := A) s early inp with _ | n <;> simp only [hn] at h
      · obtain ⟨rfl, rfl⟩ := Prod.mk.inj h
        exact ⟨hs, nofun⟩
      obtain ⟨hpos, hle, hfrag⟩ := toWrite_spec hn
      have htake : (inp.take n).length = n := by
        rw [List.length_take]
        omega
      rcases hw : W.doTlsWrite s (inp.take n) with ⟨_ | written, s₁⟩ <;> simp only [hw] at h <;>
        obtain ⟨hs₁, hwrote⟩ := doTlsWrite_sound hs
          (fun hnil => by rw [htake]; exact passes_fragment (hfrag hnil)) hw
      · obtain ⟨rfl, rfl⟩ := Prod.mk.inj h
        exact ⟨hs₁, nofun⟩
      split at h
      · obtain ⟨rfl, rfl⟩ := Prod.mk.inj h
        exact ⟨hs₁, nofun⟩
      · rename_i hmore
        refine ih hs₁ ?_ h
        have hne : inp ≠ [] := by
          rintro rfl
          exact hmore (.inl List.drop_nil)
        have hwritten := hwrote written rfl
          (List.length_pos_iff.mp (by rw [htake]; exact hpos hne))
        have hlen := List.length_pos_iff.mpr hne
        rw [List.length_drop]
        omega

/-! ### `tls_seal_app_data` -/

/-- The loop wants no more than a fragment. -/
theorem nextWant_le {p : LoopParams} {input : SealInput} {pos consumed want : Nat}
    (hv : input.Valid) (h : p.nextWant input pos consumed = some want) : want ≤ p.frag := by
  unfold LoopParams.nextWant at h
  simp only [available_eq hv] at h
  split at h
  · split at h
    · cases h
    · have hw := Option.some.inj h
      omega
  · have hw := Option.some.inj h
    omega

/-- So a record of the loop passes. -/
theorem sealRecord_sound {o want : Nat} {input input' : SealInput} {r : RecordResult}
    (hv : input.Valid) (hs : Sound A s) (hpass : Passes A s want)
    (h : sealRecord A s o input want = (r, input', s')) :
    Sound A s' ∧ SealFrame A s s' ∧ (∀ record n, r = .sealed record n → input'.Valid) := by
  obtain ⟨e, rfl, rfl, -⟩ | ⟨-, hv', -, -, -, -, hsealed⟩ := sealRecord_cases hv h
  · exact ⟨hs.congr rfl ⟨rfl, rfl, rfl⟩ rfl, ⟨_, _, _, _, rfl, rfl⟩, nofun⟩
  rcases hsealed with ⟨-, rfl, rfl⟩ | ⟨-, iovecs, record, -, hseal, rfl⟩
  · exact ⟨hs, .refl _, fun _ _ _ => hv'⟩
  obtain ⟨hs', -⟩ := hs.seal (hpass.mono (List.length_take_le _ _)) hseal
  exact ⟨hs', doSealRecordIov_frame hseal, fun _ _ _ => hv'⟩

/-- And so do all of them. -/
theorem sealLoop_sound {p : LoopParams} {fuel pos consumed : Nat} {input : SealInput}
    (hp : p.For A s) (hv : input.Valid) (hs : Sound A s) :
    Sound A (sealLoop A p fuel input pos consumed s).ssl := by
  induction fuel generalizing input pos consumed s with
  | zero => exact hs
  | succ fuel ih =>
      unfold sealLoop
      split
      case isFalse => exact hs
      rcases hw : p.nextWant input pos consumed with _ | want
      · exact hs
      have hpass : Passes A s want := passes_fragment (by
        have hle := nextWant_le hv hw
        rwa [hp.frag] at hle)
      rw [hp.prefixLen, hp.budget]
      rcases hr : sealRecord A s (p.out.addr + pos) input want with
        ⟨⟨record, n⟩ | _ | _, input', s₁⟩ <;>
        obtain ⟨hs₁, hframe, hv'⟩ := sealRecord_sound hv hs hpass hr <;>
        unfold sealRecord at hr <;> simp only [hr]
      · split
        · exact hs₁
        · exact ih (hp.frame hframe) (hv' record n rfl) hs₁
      · exact hs₁
      · exact hs₁

/-- **Nor does `tls_seal_app_data`.** -/
theorem tlsSealAppData_sound {U : Upstream A} {out : OutSpan} {slicesAddr maxIn : Nat}
    {slices : List Slice} {r : SealReturn} (hs : Sound A s)
    (h : tlsSealAppData A U s out slicesAddr slices maxIn = (r, s')) : Sound A s' := by
  rcases tlsSealAppData_cases h with ⟨-, -, rfl⟩ | ⟨-, -, -, rfl⟩ | ⟨-, _, -, -, hrun⟩
  · exact hs.congr rfl ⟨rfl, rfl, rfl⟩ rfl
  · exact hs
  rcases hrun with ⟨hflush, -⟩ | ⟨s₁, _, s₂, frags, res, hflush, -, -, hloop, hres, hfin⟩
  · exact (flush_sound hs hflush).1
  have hsound : Sound A res.ssl := by
    rw [hres]
    exact sealLoop_sound (callParams_for A s₁ out maxIn) (valid_new slices maxIn out)
      (flush_sound hs hflush).1
  rcases finishSeal_cases hloop.checks hfin with ⟨-, -, -, rfl⟩ | ⟨-, -, _, rfl⟩
  · exact hsound
  · exact hsound.congr rfl ⟨rfl, rfl, rfl⟩ rfl

/-! ### Every run -/

/-- A step keeps the limits. -/
theorem Sound.step {l : Label κ} (hs : Sound A s) (h : Step W s l s') : Sound A s' := by
  cases h with
  | addMessage h => exact (tlsAddMessage_sound hs (Nat.le_refl _) h).1
  | writeAppData h => exact (tlsWriteAppData_sound hs (Nat.lt_succ_self _) h).1
  | sealAppData h => exact tlsSealAppData_sound hs h
  | setMaxSendFragment n => exact hs.congr rfl ⟨rfl, rfl, rfl⟩ rfl
  | setWriteState level pending version ctx h =>
      obtain ⟨hs₁, -, hnil⟩ := flush_sound hs h
      exact sound_of_nothing_queued hs₁.attempts hnil
  | encryptedExtensions pending h => exact sound_of_nothing_queued hs.attempts h
  | flush h => exact (flush_sound hs h).1

/-- **No record exceeds the limit.**  In every run from a connection with nothing queued, every
record passed the sealer's check, and under a cipher its plaintext with the type byte kept the
limit in force.  From the state reached, no message underflows the fragment, and every loop ends
within a round for each byte, since a round takes at least one. -/
theorem limit_kept {s₀ : SslImpl κ} {ls : List (Label κ)} (h : Run (Step W) s₀ ls s)
    (hattempts : s₀.attempts = []) (hqueued : s₀.hsData = []) :
    (∀ a ∈ s.attempts, SealAttemptWithin a)
      ∧ (∀ msg, (tlsAddMessage W msg.length s msg).1 ≠ .underflow
          ∧ (tlsAddMessage W msg.length s msg).1 ≠ .unfinished)
      ∧ (∀ partialWrite early inp,
          (tlsWriteAppData W partialWrite (inp.length + 1) s early inp).1 ≠ .unfinished)
      ∧ (∀ early inp n, inp ≠ [] → toWrite (A := A) s early inp = some n → 0 < n)
      ∧ ∀ (p : LoopParams) (input : SealInput) (pos k : Nat),
          sealLoop A p (p.maxIn + k) input pos 0 s = sealLoop A p p.maxIn input pos 0 s := by
  have hs : Sound A s := by
    refine h.invariant (fun _ _ _ hs hstep => hs.step hstep) (sound_of_nothing_queued ?_ hqueued)
    rw [hattempts]
    nofun
  refine ⟨hs.attempts, fun msg => ?_, fun partialWrite early inp => ?_, fun early inp n hne hn => ?_,
    fun p input pos k => sealLoop_fuel (Nat.sub_le _ _)⟩
  · rcases hadd : tlsAddMessage W msg.length s msg with ⟨r, s₁⟩
    rcases (tlsAddMessage_sound hs (Nat.le_refl _) hadd).2 with rfl | rfl <;> exact ⟨nofun, nofun⟩
  · rcases hw : tlsWriteAppData W partialWrite (inp.length + 1) s early inp with ⟨r, s₁⟩
    exact (tlsWriteAppData_sound hs (Nat.lt_succ_self _) hw).2
  · exact (toWrite_spec hn).1 hne

/-- A queued message longer than the limit of 64, and a write behind what is left of it. -/
theorem limit_kept_queued :
    let W := WriteUpstream.direct Aead.tagOnly
    let s₀ := { sampleSsl with pendingHsData := none }
    let s₁ := (tlsAddMessage W 70 s₀ (List.replicate 70 1)).2
    let s₂ := { s₁ with maxSendFragment := .clamp 512 }
    let s₃ := (tlsWriteAppData W false 101 s₂ none (List.replicate 100 2)).2
    s₃.attempts.map (·.inLen) = [63, 7, 63, 37] ∧ ∀ a ∈ s₃.attempts, SealAttemptWithin a := by
  intro W s₀ s₁ s₂ s₃
  have hadd : Step W s₀ (.addMessage (List.replicate 70 1)) s₁ := .addMessage (Prod.eta _).symm
  have hrun : Run (Step W) s₀ ([.addMessage (List.replicate 70 1)] ++ [.setMaxSendFragment 512]
      ++ [.writeAppData false none (List.replicate 100 2)]) s₃ :=
    .snoc (.snoc (.snoc (.nil s₀) hadd) (.setMaxSendFragment s₁ 512))
      (.writeAppData (Prod.eta _).symm)
  exact ⟨by decide +kernel, (limit_kept hrun rfl rfl).1⟩

end Sound

end Btls.Limit
