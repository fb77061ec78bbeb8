import Btls.Seal.Atomic
import Btls.Seal.Staging

/-!
# Seal — Wipe

No plaintext is left in the caller's output, however a call ends.  The memory of `Staging` says of
each byte what it is, so a byte that was copied there and neither encrypted nor cleared would be
seen.

The planner writes only where the record's body will be, and what it writes is what its entries are
read from (`Staged`).  A sealed record covers all of that; a record that is not sealed leaves the
start of a header or a nonce, and zeros from there on (`Spoiled`).  The loop leaves its records and
one such rest behind them (`Leaves`), and the flight in front is copied from outside.

* `planSealBodyMem_spec`: what a plan stages, and that a failed one has cleared it.
* `tlsSealAppDataRecordMem_spec`, `sealLoopMem_spec`: the same of one record and of the loop.
* `no_plaintext_left`: after `tls_seal_app_data` the output holds no plaintext that the call copied,
  what it hands over is records, and nothing else in memory has changed (`Wiped`); a record that is
  not sealed has its whole body cleared (`BodyCleared`).
-/

namespace Btls.Seal

open Btls.Support Btls.Support.Slices Btls.Tls

/-! ### What the planner stages -/

/-- An entry is read in place, from a run the call copied there, or from outside the output. -/
def ReadRight (out : OutSpan) (m : Memory Origin) (v : Iovec) : Prop :=
  (v.inp = v.out ∧ m.Holds .plaintext v.out v.bytes)
    ∨ buffersAlias v.inp v.bytes.length out.addr out.size = false

/-- From `m₀`, the planner has written only where the record's first `pos` bytes go; the open run is
there, and so is each closed one. -/
structure Staged (out : OutSpan) (body : Nat) (m₀ m : Memory Origin) (st : PlanState) : Prop where
  same : m₀.SameOutside m body (body + st.pos)
  runLe : st.run.length ≤ st.pos
  run : m.Holds .plaintext (body + (st.pos - st.run.length)) st.run
  iovecs : ∀ v ∈ st.iovecs, ReadRight out m v
  closed : ∀ v ∈ st.iovecs, v.out + v.bytes.length ≤ body + (st.pos - st.run.length)

/-- `[lo, lo + n)` was cleared after whatever was written there. -/
def Cleared (m₀ m : Memory Origin) (lo n : Nat) : Prop :=
  ∃ m₁, m₀.SameOutside m₁ lo (lo + n) ∧ m = clear m₁ lo n

section Plan

variable {out : OutSpan} {want limit budget body : Nat} {m₀ m : Memory Origin} {st : PlanState}

/-- What is written behind a range does not change it. -/
theorem ReadRight.frame {m₁ : Memory Origin} {v : Iovec} {lo hi : Nat} (h : ReadRight out m v)
    (hsame : m.SameOutside m₁ lo hi) (hle : v.out + v.bytes.length ≤ lo) :
    ReadRight out m₁ v :=
  h.imp_left fun hin => ⟨hin.1, hsame.holds hin.2 (.inl hle)⟩

/-- At first nothing is gathered. -/
theorem staged_start (out : OutSpan) (body : Nat) (m : Memory Origin) (index offset : Nat) :
    Staged out body m m ⟨index, offset, 0, [], []⟩ where
  same := .refl m _ _
  runLe := Nat.zero_le _
  run := fun _ _ h => by cases h
  iovecs := fun _ h => absurd h List.not_mem_nil
  closed := fun _ h => absurd h List.not_mem_nil

/-- Closing the open run. -/
theorem Staged.close (h : Staged out body m₀ m st) :
    (∀ v ∈ st.closeRun body, ReadRight out m v)
      ∧ ∀ v ∈ st.closeRun body, v.out + v.bytes.length ≤ body + st.pos := by
  have hle := h.runLe
  constructor
  · intro v hv
    rcases List.mem_append.mp hv with hv | hv
    · exact h.iovecs v hv
    · obtain rfl := List.mem_singleton.mp hv
      exact .inl ⟨rfl, h.run⟩
  · intro v hv
    rcases List.mem_append.mp hv with hv | hv
    · exact Nat.le_trans (h.closed v hv) (by omega)
    · obtain rfl := List.mem_singleton.mp hv
      simp only
      omega

/-- The same of the closed runs. -/
theorem Staged.closedRuns (h : Staged out body m₀ m st) :
    (∀ v ∈ st.closed body, ReadRight out m v)
      ∧ ∀ v ∈ st.closed body, v.out + v.bytes.length ≤ body + st.pos := by
  unfold PlanState.closed
  by_cases hrun : st.run = []
  · rw [if_pos hrun]
    exact ⟨h.iovecs, fun v hv => Nat.le_trans (h.closed v hv) (by omega)⟩
  · rw [if_neg hrun]
    exact h.close

/-- The body grows by what is added. -/
theorem add_pos {addr : Nat} {piece : Bytes} {st' : PlanState}
    (h : st.add want budget body addr piece = some st') : st'.pos = st.pos + piece.length := by
  rcases PlanState.add_cases h with ⟨-, rfl⟩ | ⟨-, rfl⟩ <;> rfl

/-- A piece is gathered, and nothing is written, or copied behind what is there. -/
theorem Staged.add {addr : Nat} {piece : Bytes} {st' : PlanState}
    (h : Staged out body m₀ m st) (hadd : st.add want budget body addr piece = some st')
    (hapart : buffersAlias addr piece.length out.addr out.size = false) :
    Staged out body m₀ (if st.Gathers want budget piece.length then m
      else sealCopy m (body + st.pos) piece) st' := by
  have hle := h.runLe
  rcases PlanState.add_cases hadd with ⟨hgather, rfl⟩ | ⟨hgather, rfl⟩
  · rw [if_pos hgather]
    obtain ⟨hread, hclosed⟩ := h.closedRuns
    refine ⟨h.same.mono (Nat.le_refl _) (by simp only; omega), Nat.zero_le _,
      (fun _ _ hb => by cases hb), ?_, ?_⟩
    · intro v hv
      rcases List.mem_append.mp hv with hv | hv
      · exact hread v hv
      · obtain rfl := List.mem_singleton.mp hv
        exact .inr hapart
    · intro v hv
      simp only [List.length_nil]
      rcases List.mem_append.mp hv with hv | hv
      · have := hclosed v hv
        omega
      · obtain rfl := List.mem_singleton.mp hv
        simp only
        omega
  · rw [if_neg hgather, sealCopy_eq]
    have hsame := Memory.write_sameOutside m .plaintext (body + st.pos) piece
    -- The run starts where it did: what is added to it is added to the position.
    have hstart : st.pos + piece.length - (st.run.length + piece.length)
        = st.pos - st.run.length := by omega
    refine ⟨(h.same.mono (Nat.le_refl _) ?_).trans (hsame.mono ?_ ?_), ?_, ?_, ?_, ?_⟩
    · simp only
      omega
    · omega
    · simp only
      omega
    · simp only [List.length_append]
      omega
    · simp only [List.length_append, hstart]
      have hrun := hsame.holds h.run (.inl (by omega))
      refine hrun.append ?_
      rw [show body + (st.pos - st.run.length) + st.run.length = body + st.pos by omega]
      exact Memory.write_holds m .plaintext _ piece
    · intro v hv
      have hclosed := h.closed v hv
      exact (h.iovecs v hv).frame hsame (by omega)
    · intro v hv
      simp only [List.length_append, hstart]
      exact h.closed v hv

/-- A failed plan has cleared all it staged. -/
theorem planLoopMem_spec (want budget : Nat) (d : List Slice) (hs : Staged out body m₀ m st)
    (hpos : st.pos ≤ limit) :
    match planLoopMem out want limit budget body d st m with
    | (.ok st', m') => Staged out body m₀ m' st' ∧ st'.pos ≤ limit
    | (.error (.reason _), m') => ∃ n ≤ limit, Cleared m₀ m' body n
    | (.error .checkFailed, _) => True := by
  induction d generalizing st m with
  | nil => exact ⟨hs, hpos⟩
  | cons slice rest ih =>
      unfold planLoopMem
      by_cases hfull : limit ≤ st.pos
      · rw [if_pos hfull]
        exact ⟨hs, hpos⟩
      rw [if_neg hfull]
      by_cases hempty : st.offset = slice.len
      · rw [if_pos hempty]
        exact ih ⟨hs.same, hs.runLe, hs.run, hs.iovecs, hs.closed⟩ hpos
      rw [if_neg hempty]
      rcases slice.addr with _ | addr
      · exact ⟨st.pos, hpos, m, hs.same, rfl⟩
      simp only
      set len := min (slice.len - st.offset) (limit - st.pos) with hlen
      set piece := (slice.bytes.drop st.offset).take len with hpiece
      have hpieceLen : piece.length = len := by
        have hslice : slice.len = slice.bytes.length := rfl
        rw [hpiece, List.length_take, List.length_drop]
        omega
      by_cases halias : buffersAlias (addr + st.offset) len out.addr out.size = true
      · rw [if_pos halias]
        exact ⟨st.pos, hpos, m, hs.same, rfl⟩
      rw [if_neg halias]
      rcases hadd : st.add want budget body (addr + st.offset) piece with _ | st'
      · trivial
      have hs' := hs.add hadd (by rw [hpieceLen]; simpa using halias)
      have hpos' : st'.pos ≤ limit := by
        rw [add_pos hadd, hpieceLen]
        omega
      simp only
      by_cases hends : st.offset + len = slice.len
      · rw [if_pos hends]
        exact ih ⟨hs'.same, hs'.runLe, hs'.run, hs'.iovecs, hs'.closed⟩ hpos'
      · rw [if_neg hends]
        exact ⟨⟨hs'.same, hs'.runLe, hs'.run, hs'.iovecs, hs'.closed⟩, hpos'⟩

/-- **What a plan stages.**  A plan has written nothing but the runs its entries are read from, in
place; a plan that failed leaves zeros for what it staged, however much that was. -/
theorem planSealBodyMem_spec (input : SealInput) (want body budget : Nat) (m : Memory Origin) :
    match planSealBodyMem input want body budget m with
    | (.ok (_, iovecs, len), m') => m.SameOutside m' body (body + len)
        ∧ ∀ v ∈ iovecs, ReadRight input.out m' v
    | (.error (.reason _), m') => ∃ n ≤ want, Cleared m m' body n
    | (.error .checkFailed, _) => True := by
  have hloop := planLoopMem_spec want budget (input.slices.drop input.index)
    (staged_start input.out body m input.index input.offset)
    (show 0 ≤ min want input.remaining from Nat.zero_le _)
  unfold planSealBodyMem
  rcases hp : planLoopMem input.out want (min want input.remaining) budget body
    (input.slices.drop input.index) ⟨input.index, input.offset, 0, [], []⟩ m with
    ⟨(e | _) | st, m'⟩ <;> rw [hp] at hloop
  · obtain ⟨n, hn, hcleared⟩ := hloop
    exact ⟨n, Nat.le_trans hn (Nat.min_le_left _ _), hcleared⟩
  · trivial
  obtain ⟨hs, -⟩ := hloop
  dsimp only
  by_cases hrun : st.run = []
  · rw [if_pos hrun]
    exact ⟨hs.same, hs.iovecs⟩
  rw [if_neg hrun]
  by_cases hslot : st.iovecs.length < budget
  · rw [if_pos hslot]
    exact ⟨hs.same, hs.close.1⟩
  · rw [if_neg hslot]
    trivial

end Plan

/-! ### What a record leaves -/

/-- Zeros are zeros. -/
theorem replicate_zero {n i : Nat} {b : UInt8} (h : (List.replicate n (0 : UInt8))[i]? = some b) :
    i < n ∧ b = 0 := by
  rw [List.getElem?_replicate] at h
  split at h
  · exact ⟨by assumption, (Option.some.inj h).symm⟩
  · cases h

/-- What a record that was not sealed leaves: parts of a record before `mid`, zeros from there on,
and everything else as it was. -/
def Spoiled (m m' : Memory Origin) (lo mid hi : Nat) : Prop :=
  ∀ a, m' a = m a ∨ (lo ≤ a ∧ a < mid ∧ (m' a).note = .record)
    ∨ (mid ≤ a ∧ a < hi ∧ m' a = ⟨.cleared, 0⟩)

namespace Spoiled

variable {m m₁ m' : Memory Origin} {lo mid hi : Nat}

/-- Nothing was spoiled. -/
theorem refl (m : Memory Origin) (lo mid hi : Nat) : Spoiled m m lo mid hi := fun _ => .inl rfl

/-- A wider range holds what is spoiled in it. -/
theorem mono {lo' hi' : Nat} (h : Spoiled m m' lo mid hi) (hlo : lo' ≤ lo) (hhi : hi ≤ hi') :
    Spoiled m m' lo' mid hi' := by
  intro a
  rcases h a with hkeep | ⟨h₁, h₂, hrecord⟩ | ⟨h₁, h₂, hzero⟩
  · exact .inl hkeep
  · exact .inr (.inl ⟨Nat.le_trans hlo h₁, h₂, hrecord⟩)
  · exact .inr (.inr ⟨h₁, Nat.lt_of_lt_of_le h₂ hhi, hzero⟩)

/-- Two parts, one after the other. -/
theorem trans (h₁ : Spoiled m m₁ lo mid hi) (h₂ : Spoiled m₁ m' lo mid hi) :
    Spoiled m m' lo mid hi := by
  intro a
  rcases h₂ a with hkeep | hnew
  · rw [hkeep]
    exact h₁ a
  · exact .inr hnew

/-- A record is written in front. -/
theorem record (h : Spoiled m m' lo mid hi) {addr : Nat} {xs : Bytes} (hlo : lo ≤ addr)
    (hmid : addr + xs.length ≤ mid) : Spoiled m (m'.write .record addr xs) lo mid hi := by
  intro a
  rcases Memory.write_cases m' .record addr xs a with ⟨hkeep, -⟩ | ⟨i, b, rfl, hb, hnew⟩
  · rw [hkeep]
    exact h a
  · obtain ⟨hi, -⟩ := List.getElem?_eq_some_iff.mp hb
    exact .inr (.inl ⟨by omega, by omega, by rw [hnew]⟩)

/-- What is cleared is zero. -/
theorem clear (h : Spoiled m m' lo mid hi) {addr n : Nat} (hmid : mid ≤ addr)
    (hhi : addr + n ≤ hi) : Spoiled m (clear m' addr n) lo mid hi := by
  intro a
  rcases Memory.write_cases m' .cleared addr (List.replicate n 0) a with
    ⟨hkeep, -⟩ | ⟨i, b, rfl, hb, hnew⟩
  · rw [Btls.Seal.clear, hkeep]
    exact h a
  · obtain ⟨hi, rfl⟩ := replicate_zero hb
    exact .inr (.inr ⟨by omega, by omega, hnew⟩)

/-- Clearing what was staged before. -/
theorem clear_staged {n : Nat} (hstaged : m.SameOutside m₁ mid (mid + n))
    (h : Spoiled m₁ m' lo mid hi) (hn : mid + n ≤ hi) :
    Spoiled m (Btls.Seal.clear m' mid n) lo mid hi := by
  intro a
  rcases Memory.write_cases m' .cleared mid (List.replicate n 0) a with
    ⟨hkeep, hout⟩ | ⟨i, b, rfl, hb, hnew⟩
  · rw [List.length_replicate] at hout
    rw [Btls.Seal.clear, hkeep, ← hstaged a hout]
    exact h a
  · obtain ⟨hi, rfl⟩ := replicate_zero hb
    exact .inr (.inr ⟨by omega, by omega, hnew⟩)

end Spoiled

section Record

variable {κ ρ : Type} {A : Aead κ ρ} {L : Layout A} {s s' : SslImpl κ} {o : Nat}
  {m m' : Memory Origin}

/-- What sealing writes: on success the parts of the record, one behind the other; on failure a part
of the nonce, and zeros. -/
theorem sealScattervMem_spec {ctx : κ} {nonce sufLen : Nat} {vs : List Iovec} {extra : Bytes}
    (ad : RecordAd) (hnull : (A.params ctx).isNullCipher = false)
    (htiles : Tiles (nonce + (A.params ctx).explicitNonceLen) vs)
    (hsuf : A.suffixLen (A.params ctx) (Iovec.join vs).length extra.length = some sufLen) :
    match sealScattervMem A L ctx nonce vs
      (nonce + (A.params ctx).explicitNonceLen + (Iovec.join vs).length) ad extra m with
    | ((.ok z, _), m') => m' = m.write .record nonce (z.nonce ++ z.body ++ z.suffix)
        ∧ z.nonce.length = (A.params ctx).explicitNonceLen
        ∧ z.body.length = (Iovec.join vs).length
    | ((.error _, _), m') => Spoiled m m' nonce (nonce + (A.params ctx).explicitNonceLen)
        (nonce + (A.params ctx).explicitNonceLen + (Iovec.join vs).length + sufLen) := by
  have hfail := Spoiled.refl m nonce (nonce + (A.params ctx).explicitNonceLen)
    (nonce + (A.params ctx).explicitNonceLen + (Iovec.join vs).length + sufLen)
  unfold sealScattervMem
  by_cases hmany : tooManyIovecs vs extra = true
  · rw [if_pos hmany]
    exact hfail
  rw [if_neg hmany]
  simp only [hsuf, hnull, Bool.false_eq_true, ↓reduceIte]
  by_cases halias : aliasesRecord nonce (A.params ctx).explicitNonceLen vs
      (nonce + (A.params ctx).explicitNonceLen + (Iovec.join vs).length) sufLen = true
  · rw [if_pos halias]
    exact hfail
  rw [if_neg halias]
  rcases hz : A.sealv ctx ad (Iovec.join vs) extra with ⟨es | z, ctx₁⟩
  · have hle := L.nonceLeft_le ctx ad
    simp only
    rw [scatter_tiles htiles (List.length_replicate ..)]
    exact ((hfail.record (Nat.le_refl _) (by omega)).clear (Nat.le_refl _) (by omega)).clear
      (by omega) (Nat.le_refl _)
  · obtain ⟨hn, hb, -⟩ := A.sealv_spec _ _ _ _ z (by rw [hz])
    simp only
    refine ⟨?_, hn, hb⟩
    rw [scatter_tiles htiles hb, ← hn, Memory.write_append, ← hb, Nat.add_assoc,
      ← List.length_append, Memory.write_append]

/-- What `do_seal_record` writes: the record it returns, or nothing of use. -/
theorem doSealRecordIovMem_spec {vs : List Iovec} {inLen : Nat} (type : UInt8)
    (hnull : s.isNullCipher A = false)
    (htiles : Tiles (o + (headerLength + explicitNonceLen A s)) vs)
    (hlen : (Iovec.join vs).length = inLen) :
    match doSealRecordIovMem A L s o vs inLen
      (o + (headerLength + explicitNonceLen A s) + inLen) type m with
    | ((some record, _), m') => m' = m.write .record o record
        ∧ headerLength + explicitNonceLen A s + inLen ≤ record.length
    | ((none, _), m') => Spoiled m m' o (o + (headerLength + explicitNonceLen A s))
        (o + (inLen + s.maxSealOverhead A)) := by
  have hfail := Spoiled.refl m o (o + (headerLength + explicitNonceLen A s))
    (o + (inLen + s.maxSealOverhead A))
  unfold doSealRecordIovMem
  rcases hctx : s.aeadWriteCtx with _ | ctx
  · exact hfail
  have hcipher : s.cipher A = some (A.params ctx) := by simp [SslImpl.cipher, hctx]
  have hnull' : (A.params ctx).isNullCipher = false := by
    simpa [SslImpl.isNullCipher, hcipher] using hnull
  have hnonce : explicitNonceLen A s = (A.params ctx).explicitNonceLen := by
    simp [explicitNonceLen, hcipher]
  have hover : s.maxSealOverhead A = A.maxSealOverhead (A.params ctx) s.protocolVersion := by
    simp [SslImpl.maxSealOverhead, hcipher]
  simp only
  set extra := (A.params ctx).extraIn s.protocolVersion type with hextra
  by_cases hpassed : (!sslRecordSizeLimitCheckSeal A s inLen extra.length) = true
  · rw [if_pos hpassed]
    exact hfail
  rw [if_neg hpassed]
  rcases hsuf : A.suffixLen (A.params ctx) inLen extra.length with _ | sufLen
  · exact hfail
  rcases A.ciphertextLen (A.params ctx) inLen extra.length with _ | cLen
  · exact hfail
  simp only
  set s₁ := s.attempt (A.params ctx) inLen (sslRecordSizeLimitCheckSeal A s inLen extra.length)
  set header := (if extra.length ≠ 0 then rtApplicationData else type) ::
    be16 s₁.recordVersion ++ be16 cLen with hheader
  have hheaderLen : header.length = headerLength := rfl
  have hfail' := hfail.record (Nat.le_refl o)
    (show o + header.length ≤ o + (headerLength + explicitNonceLen A s) by omega)
  by_cases hmax : s₁.writeSequence = usizeMax
  · rw [if_pos hmax]
    exact hfail'
  rw [if_neg hmax]
  rw [hnonce, ← Nat.add_assoc o] at htiles hfail' ⊢
  subst hlen
  have hov := A.overhead_spec _ s.protocolVersion _ _
    (AeadParams.length_extraIn _ _ type ▸ hsuf)
  have hspec := sealScattervMem_spec (L := L) (m := m.write .record o header)
    ⟨s₁.writeSequence, header⟩ hnull' htiles hsuf
  rcases hs : sealScattervMem A L ctx (o + headerLength) vs
    (o + headerLength + (A.params ctx).explicitNonceLen + (Iovec.join vs).length)
    ⟨s₁.writeSequence, header⟩ extra (m.write .record o header) with ⟨⟨es | z, ctx₁⟩, m₁⟩ <;>
    rw [hs] at hspec
  · exact hfail'.trans (hspec.mono (Nat.le_add_right _ _) (by omega))
  · obtain ⟨rfl, hn, hb⟩ := hspec
    simp only
    refine ⟨?_, ?_⟩
    · rw [← hheaderLen, Memory.write_append]
    · simp only [List.length_append, hn, hb, hheaderLen]
      omega

/-- The header and the nonce are counted in the overhead. -/
theorem prefix_le_overhead (L : Layout A) (s : SslImpl κ) :
    headerLength + explicitNonceLen A s ≤ s.maxSealOverhead A := by
  rcases hctx : s.aeadWriteCtx with _ | ctx
  · simp [explicitNonceLen, SslImpl.maxSealOverhead, SslImpl.cipher, hctx]
  · simpa [explicitNonceLen, SslImpl.maxSealOverhead, SslImpl.cipher, hctx] using
      L.prefix_le (A.params ctx) s.protocolVersion

/-- **What a record leaves in the output.**  A sealed record is all that was written; one that is not
sealed leaves the start of a header or a nonce, and zeros. -/
theorem tlsSealAppDataRecordMem_spec (L : Layout A) {input : SealInput} (o want : Nat)
    (m : Memory Origin) (hv : input.Valid) (hnull : s.isNullCipher A = false) :
    match tlsSealAppDataRecordMem A L s o input want (headerLength + explicitNonceLen A s)
      (tlsSealBodyIovecBudget A s) m with
    | ((.sealed record n, _, _), m') => m' = m.write .record o record ∧ (n = 0 → record = [])
    | ((.failed, _, _), m') => Spoiled m m' o (o + (headerLength + explicitNonceLen A s))
        (o + (want + s.maxSealOverhead A))
    | ((.checkFailed, _, _), _) => True := by
  have hover := prefix_le_overhead L s
  have hfail := Spoiled.refl m o (o + (headerLength + explicitNonceLen A s))
    (o + (want + s.maxSealOverhead A))
  have hplan := planSealBody_spec hv want (o + (headerLength + explicitNonceLen A s))
    (tlsSealBodyIovecBudget_bounds (A := A) s ⟨true, 0, true⟩ 0).1
  have hmem := planSealBodyMem_spec input want (o + (headerLength + explicitNonceLen A s))
    (tlsSealBodyIovecBudget A s) m
  rw [← planSealBodyMem_fst (m := m)] at hplan
  unfold tlsSealAppDataRecordMem
  by_cases hmax : s.writeSequence = usizeMax
  · rw [if_pos hmax]
    exact hfail
  rw [if_neg hmax]
  rcases hp : planSealBodyMem input want (o + (headerLength + explicitNonceLen A s))
    (tlsSealBodyIovecBudget A s) m with ⟨(e | _) | ⟨input₁, iovecs, bodyLen⟩, m₁⟩ <;>
    rw [hp] at hplan hmem
  · obtain ⟨n, hn, m₂, hsame, rfl⟩ := hmem
    exact Spoiled.clear_staged hsame (.refl m₂ _ _ _) (by omega)
  · trivial
  obtain ⟨hplaced, hlen, -⟩ := hplan
  obtain ⟨hsame, -⟩ := hmem
  simp only
  -- Nothing to seal means nothing staged, so the memory is as it was.
  by_cases hzero : bodyLen = 0
  · rw [if_pos hzero]
    rw [hzero] at hsame
    refine ⟨?_, fun _ => rfl⟩
    rw [Memory.write_nil]
    exact hsame.eq_of_empty
  rw [if_neg hzero]
  have hfit : (input.rest.take want).length ≤ want := List.length_take_le _ _
  have hspec := doSealRecordIovMem_spec (L := L) (m := m₁) rtApplicationData hnull hplaced.tiles
    (by rw [hplaced.joined, ← hlen])
  rcases hs : doSealRecordIovMem A L s o iovecs bodyLen
    (o + (headerLength + explicitNonceLen A s) + bodyLen) rtApplicationData m₁ with
    ⟨⟨_ | record, s₁⟩, m₂⟩ <;> rw [hs] at hspec
  · exact .clear_staged hsame (hspec.mono (Nat.le_refl _) (by omega)) (by omega)
  · obtain ⟨rfl, hcovers⟩ := hspec
    exact ⟨hsame.write_eq (Nat.le_add_right _ _) (by omega), fun h => absurd h hzero⟩

end Record

/-! ### What the loop and the call leave -/

section Call

variable {κ ρ : Type} {A : Aead κ ρ} {L : Layout A} {s : SslImpl κ} {p : LoopParams}

/-- From `pos` on the loop wrote its records, and behind them nothing but what a record that was not
sealed leaves. -/
def Leaves (p : LoopParams) (pos : Nat) (m : Memory Origin)
    (res : LoopResult κ × Memory Origin) : Prop :=
  ∃ mid, p.out.addr + (pos + res.1.records.length) ≤ mid ∧ mid ≤ p.out.addr + p.out.size
    ∧ Spoiled (m.write .record (p.out.addr + pos) res.1.records) res.2
      (p.out.addr + (pos + res.1.records.length)) mid (p.out.addr + p.out.size)

/-- A loop that seals nothing leaves nothing. -/
theorem leaves_nothing {pos : Nat} (hpos : pos ≤ p.out.size) (m : Memory Origin) (s : SslImpl κ) :
    Leaves p pos m (⟨.ended, [], 0, s⟩, m) := by
  refine ⟨_, Nat.le_refl _, ?_, ?_⟩
  · simp only [List.length_nil]
    omega
  simp only [Memory.write_nil]
  exact .refl m _ _ _

/-- A record in front, and what the rest leaves behind it. -/
theorem Leaves.cons {pos n : Nat} {m : Memory Origin} {record : Bytes}
    {res : LoopResult κ × Memory Origin}
    (h : Leaves p (pos + record.length) (m.write .record (p.out.addr + pos) record) res) :
    Leaves p pos m
      ({ res.1 with records := record ++ res.1.records, consumed := n + res.1.consumed }, res.2) := by
  obtain ⟨mid, hlo, hhi, hspoiled⟩ := h
  rw [← Nat.add_assoc, Memory.write_append] at hspoiled
  simp only [Leaves, List.length_append, ← Nat.add_assoc pos]
  exact ⟨mid, hlo, hhi, hspoiled⟩

/-- **What the loop leaves** is its records, with nothing of the input behind them. -/
theorem sealLoopMem_spec {fuel : Nat} {input : SealInput} {pos consumed : Nat}
    (m : Memory Origin) (hp : p.For A s) (hnull : s.isNullCipher A = false) (hv : input.Valid)
    (hout : input.out = p.out) (hpos : pos ≤ p.out.size) :
    Leaves p pos m (sealLoopMem A L p fuel input pos consumed s m) := by
  induction fuel generalizing input pos consumed s m with
  | zero => exact leaves_nothing hpos m s
  | succ fuel ih =>
      unfold sealLoopMem
      by_cases hmore : consumed < p.maxIn
      case neg =>
        rw [if_neg hmore]
        exact leaves_nothing hpos m s
      rw [if_pos hmore]
      rcases hw : p.nextWant input pos consumed with _ | want
      · exact leaves_nothing hpos m s
      have hroom := hp.room hout hpos hw
      simp only
      rw [hp.prefixLen, hp.budget]
      have hmem := tlsSealAppDataRecordMem_spec L (p.out.addr + pos) want m hv hnull
      have hfst := tlsSealAppDataRecordMem_fst L s (p.out.addr + pos) input want
        (headerLength + explicitNonceLen A s) (tlsSealBodyIovecBudget A s) m
      rcases hr : tlsSealAppDataRecordMem A L s (p.out.addr + pos) input want
        (headerLength + explicitNonceLen A s) (tlsSealBodyIovecBudget A s) m with
        ⟨⟨⟨record, n⟩ | _ | _, input', s₁⟩, m₁⟩ <;> rw [hr] at hmem hfst <;>
        have hspec := sealRecord_spec hv hroom hfst.symm
      · obtain ⟨hn, hv', -, hout', -, -, hzero, hsome⟩ := hspec
        obtain ⟨rfl, hempty⟩ := hmem
        simp only
        by_cases hn0 : n = 0
        · rw [if_pos hn0, hempty hn0, Memory.write_nil]
          exact leaves_nothing hpos m s₁
        rw [if_neg hn0]
        have hone := hsome hn0
        have hframe := doSealRecordIov_frame hone
        rw [hout] at hroom
        have hpos' := hroom.record_le hnull (List.length_take_le _ _) hone
        exact (ih _ (hp.frame hframe) (hframe.isNullCipher.trans hnull) hv' (hout'.trans hout)
          hpos').cons
      · have hover := prefix_le_overhead L s
        rw [hout] at hroom
        have hend := hroom.2
        refine ⟨p.out.addr + pos + (headerLength + explicitNonceLen A s), ?_, by omega, ?_⟩
        · simp only [List.length_nil]
          omega
        · simp only [Memory.write_nil, List.length_nil, Nat.add_zero]
          exact hmem.mono (Nat.le_refl _) hend
      · exact hspec.elim

/-- The output after a call: no byte of it is plaintext the call copied there, what is handed over is
records, and nothing else in memory changed. -/
structure Wiped (out : OutSpan) (content : Nat → UInt8) (r : SealReturn) (m : Memory Origin) :
    Prop where
  clean : ∀ a, (m a).note ≠ .plaintext
  handed : r.status = .success → m.Holds .record out.addr r.out
  outside : ∀ a, a < out.addr ∨ out.addr + out.size ≤ a → m a = ⟨.before, content a⟩

/-- An output that was not written to holds no plaintext. -/
theorem wiped_before {out : OutSpan} {content : Nat → UInt8} {r : SealReturn}
    (h : r.status ≠ .success) : Wiped out content r (memoryBefore content) where
  clean := fun _ => nofun
  handed := fun hok => absurd hok h
  outside := fun _ _ => rfl

/-- What the loop leaves, the flight in front of it or not, holds no plaintext. -/
theorem Leaves.finish {out : OutSpan} {content : Nat → UInt8} {flight : Bytes}
    {res : LoopResult κ × Memory Origin} (h : Leaves p flight.length (memoryBefore content) res)
    (hout : p.out = out) (hchecks : res.1.status ≠ .checkFailed) :
    Wiped out content (finishSealMem out flight res.1 res.2).1.1
      (finishSealMem out flight res.1 res.2).2 := by
  obtain ⟨mid, hlo, hhi, hspoiled⟩ := h
  rw [hout] at hlo hhi hspoiled
  have hrecords := Memory.write_sameOutside (memoryBefore content) .record
    (out.addr + flight.length) res.1.records
  have hclean (a : Nat) : (res.2 a).note ≠ .plaintext := by
    rcases hspoiled a with hkeep | ⟨-, -, hrecord⟩ | ⟨-, -, hzero⟩
    · rw [hkeep]
      rcases Memory.write_cases (memoryBefore content) .record (out.addr + flight.length)
        res.1.records a with ⟨hbefore, -⟩ | ⟨_, _, -, -, hnew⟩
      · rw [hbefore]
        exact nofun
      · rw [hnew]
        exact nofun
    · rw [hrecord]
      exact nofun
    · rw [hzero]
      exact nofun
  have houtside (a : Nat) (ha : a < out.addr ∨ out.addr + out.size ≤ a) :
      res.2 a = ⟨.before, content a⟩ := by
    rcases hspoiled a with hkeep | ⟨hge, hlt, -⟩ | ⟨hge, hlt, -⟩
    · rw [hkeep, hrecords a (by omega)]
      rfl
    · omega
    · omega
  unfold finishSealMem
  rcases hfin : finishSeal flight res.1 with ⟨r, s'⟩
  rcases finishSeal_cases hchecks hfin.symm with ⟨-, -, rfl, -⟩ | ⟨-, rfl, -⟩
  · exact ⟨hclean, nofun, houtside⟩
  simp only
  refine ⟨fun a => ?_, fun _ => (Memory.write_holds _ _ _ _).append ?_, fun a ha => ?_⟩
  · rcases Memory.write_cases res.2 .record out.addr flight a with ⟨hkeep, -⟩ | ⟨_, _, -, -, hnew⟩
    · simp only [if_true, hkeep]
      exact hclean a
    · simp only [if_true, hnew]
      exact nofun
  · refine (Memory.write_sameOutside res.2 .record out.addr flight).holds ?_ (.inr (Nat.le_refl _))
    intro i b hb
    obtain ⟨hi, -⟩ := List.getElem?_eq_some_iff.mp hb
    rcases hspoiled (out.addr + flight.length + i) with hkeep | ⟨hge, -, -⟩ | ⟨hge, -, -⟩
    · rw [hkeep]
      exact Memory.write_inside _ _ _ hb
    · omega
    · omega
  · simp only [if_true]
    rw [Memory.write_outside _ _ _ _ (by omega)]
    exact houtside a ha

/-- A record that is not sealed leaves nothing in its body: each byte from there on is what it was
before the record, or cleared, however many pieces the plan had copied or gathered. -/
def BodyCleared (L : Layout A) (s : SslImpl κ) : Prop :=
  ∀ o input want m input' s' m', input.Valid →
    tlsSealAppDataRecordMem A L s o input want (headerLength + explicitNonceLen A s)
      (tlsSealBodyIovecBudget A s) m = ((.failed, input', s'), m') →
    ∀ a, o + (headerLength + explicitNonceLen A s) ≤ a → m' a = m a ∨ m' a = ⟨.cleared, 0⟩

/-- A record that fails is cleared. -/
theorem bodyCleared (L : Layout A) (hnull : s.isNullCipher A = false) : BodyCleared L s := by
  intro o input want m input' s' m' hv h a ha
  have hspec := tlsSealAppDataRecordMem_spec L o want m hv hnull
  rw [h] at hspec
  rcases hspec a with hkeep | ⟨-, hlt, -⟩ | ⟨-, -, hzero⟩
  · exact .inl hkeep
  · exact absurd hlt (Nat.not_lt_of_le ha)
  · exact .inr hzero

/-- **No plaintext is left in the caller's output.**  Whatever the slices are and however the call
ends, no byte holds plaintext the call copied; and a record that is not sealed leaves nothing in its
body. -/
theorem no_plaintext_left (L : Layout A) (U : Upstream A) (s : SslImpl κ) (out : OutSpan)
    (slicesAddr : Nat) (slices : List Slice) (maxIn : Nat) (content : Nat → UInt8) :
    let call := tlsSealAppDataMem A L U s out slicesAddr slices maxIn (memoryBefore content)
    call.1 = tlsSealAppData A U s out slicesAddr slices maxIn
      ∧ Wiped out content call.1.1 call.2
      ∧ ∀ s₁ : SslImpl κ, s₁.isNullCipher A = false → BodyCleared L s₁ := by
  refine ⟨tlsSealAppDataMem_fst L U s out slicesAddr slices maxIn _, ?_, fun s₁ => bodyCleared L⟩
  have herror : SealStatus.error ≠ .success := by decide
  have hdeclined : SealStatus.declined ≠ .success := by decide
  unfold tlsSealAppDataMem
  by_cases halias : buffersAlias slicesAddr (slices.length * ivecSize) out.addr out.size = true
  · rw [if_pos halias]
    exact wiped_before herror
  rw [if_neg halias]
  rcases hpend : sealPending A s with _ | pending
  · exact wiped_before hdeclined
  simp only
  by_cases hfits : (!firstRecordFits (SealInput.new slices maxIn out) maxIn (tlsAppDataFragment A s)
      pending (s.maxSealOverhead A)) = true
  · rw [if_pos hfits]
    exact wiped_before hdeclined
  rw [if_neg hfits]
  obtain ⟨hcan, hlen⟩ := sealPending_spec hpend
  obtain ⟨hquic, hnull⟩ := tlsCanSealAppData_spec hcan
  rcases hflush : U.flushPendingHsData s with ⟨_ | _, s₁⟩
  · exact wiped_before herror
  obtain ⟨sealed, hf⟩ := flush_spec hquic hnull hflush
  have hflight := hf.flight_le hlen
  simp only
  rw [if_neg (Nat.not_lt_of_le hflight), hf.callParams_eq out maxIn]
  have hpos : s₁.pendingFlight.rest.length ≤ out.size :=
    Nat.le_trans hflight (pending_le_of_fits (by simpa using hfits))
  have hnull₁ := hf.isNullCipher.trans hnull
  have hrest : (SealInput.new slices maxIn out).rest.length ≤ maxIn - 0 := by
    rw [rest_new]
    exact List.length_take_le _ _
  obtain ⟨s₂, frags, hloop⟩ := sealLoop_spec (callParams_for A s₁ out maxIn) hnull₁
    (valid_new slices maxIn out) rfl (unread_new slices maxIn out) hpos hrest (Nat.sub_le maxIn 0)
  rw [← sealLoopMem_fst L _ _ _ _ _ _ (memoryBefore content)] at hloop
  exact (sealLoopMem_spec (memoryBefore content) (callParams_for A s₁ out maxIn) hnull₁
    (valid_new slices maxIn out) rfl hpos).finish rfl hloop.checks

end Call

/-- `Aead.tagOnly` has no explicit nonce. -/
def tagOnlyLayout : Layout Aead.tagOnly where
  nonceLeft _ _ := []
  nonceLeft_le := fun _ _ => Nat.le_refl _
  prefix_le := fun _ _ => Nat.le_add_right _ _

/-- A piece to copy, and then a slice that cannot be read. -/
def spoiledSlices : List Slice := [⟨some 2000, List.replicate 40 9⟩, ⟨none, [1]⟩]

/-- The plan alone, without its second slice, stages plaintext. -/
example : (planSealBodyMem (.new (spoiledSlices.take 1) 64 ⟨1000, 200⟩) 63 1005 15
    (memoryBefore fun _ => 7)).2 1044 = ⟨.plaintext, 9⟩ := by decide +kernel

def spoiledCall : (SealReturn × SslImpl Unit) × Memory Origin :=
  tlsSealAppDataMem Aead.tagOnly tagOnlyLayout (.behindFlight _) sampleSsl ⟨1000, 200⟩ 0
    spoiledSlices 64 (memoryBefore fun _ => 7)

/-- The first record fails with its first piece staged, and what was staged is zero. -/
theorem no_plaintext_left_spoiled :
    spoiledCall.1.1.status = .error
      ∧ spoiledCall.2 1069 = ⟨.cleared, 0⟩ ∧ spoiledCall.2 1070 = ⟨.before, 7⟩
      ∧ Wiped ⟨1000, 200⟩ (fun _ => 7) spoiledCall.1.1 spoiledCall.2
      ∧ BodyCleared tagOnlyLayout sampleSsl := by
  have h := no_plaintext_left tagOnlyLayout (.behindFlight _) sampleSsl ⟨1000, 200⟩ 0
    spoiledSlices 64 (fun _ => 7)
  exact ⟨by decide +kernel, by decide +kernel, by decide +kernel, h.2.1, h.2.2 sampleSsl rfl⟩

end Btls.Seal
