import Btls.Seal.Fidelity
import Btls.Stream.Write

/-!
# Seal — Budget

`SealLimits::sealed_len` against the loop that fills the output: with the room it asks for, a call
never declines and stops only at the end of its budget or at a record it cannot seal
(`limits_honoured`).

A loop over `n` bytes writes no more than the records of `n` bytes take (`LoopSpec.length_records`),
and with room for them it does not end before its input (`LoopSpec.consumed_eq`): the next record is
no larger than one that was counted.  `RecordFailed` says that a record of this very call could not
be sealed: that of the queued handshake data, or the one behind those that were handed over.

The two sides meet in `BoringSsl`: a library that seals with `tls_seal_app_data` (`SealsWith`) has
the contract the stream was proved over, and `WriteBuffer::seal` seals its whole budget on it
(`sealInto_budget`).
-/

namespace Btls.Seal

open Btls.Support Btls.Tls Btls.Stream

/-! ### Counting records -/

/-- The fragments of `frags` are as few as they can be. -/
theorem Full.length_le {frag : Nat} {frags : List Bytes} (h : Full frag frags) (hfrag : 0 < frag) :
    frags.length ≤ divCeil frags.flatten.length frag := by
  rw [divCeil, Nat.le_div_iff_mul_le hfrag]
  induction frags with
  | nil => simp
  | cons f fs ih =>
      have hpos := (h.1 f List.mem_cons_self).1
      have hrest : Full frag fs := by
        refine ⟨fun g hg => h.1 g (List.mem_cons_of_mem _ hg), fun g hg => h.2 g ?_⟩
        cases fs with
        | nil => cases hg
        | cons _ _ => exact List.mem_cons_of_mem _ hg
      rw [List.length_cons, List.flatten_cons, List.length_append, Nat.add_mul, Nat.one_mul]
      cases fs with
      | nil => simp; omega
      | cons g gs =>
          have hf : f.length = frag := h.2 f List.mem_cons_self
          have := ih hrest
          omega

theorem length_flatten_of_forall {n : Nat} {frags : List Bytes} (h : ∀ f ∈ frags, f.length = n) :
    frags.flatten.length = frags.length * n := by
  induction frags with
  | nil => simp
  | cons f fs ih =>
      obtain ⟨hf, hfs⟩ := List.forall_mem_cons.mp h
      rw [List.flatten_cons, List.length_append, List.length_cons, ih hfs, hf, Nat.add_mul,
        Nat.one_mul, Nat.add_comm]

/-! ### A loop with room for its budget -/

section Loop

variable {κ ρ : Type} {A : Aead κ ρ} {p : LoopParams} {slices : List Slice} {pos n : Nat} {rest : Bytes}
  {s s' : SslImpl κ} {r : LoopResult κ} {frags : List Bytes}

/-- A loop over at most `n` bytes writes no more than their records take. -/
theorem LoopSpec.length_records (h : LoopSpec A p slices 0 pos rest s r s' frags) (hp : p.For A s)
    (hfrag : 0 < p.frag) (hn : rest.length ≤ n) :
    r.records.length ≤ frags.length * p.overhead + r.consumed ∧ frags.length ≤ divCeil n p.frag := by
  obtain ⟨-, -, -, hlen, -⟩ := h.sealed
  have hbytes := congrArg List.length h.bytes
  rw [List.length_take, Nat.min_eq_left h.le] at hbytes
  have hle := h.le
  have hcount := h.full.length_le hfrag
  rw [hbytes] at hlen hcount
  exact ⟨by rw [hp.overhead]; omega, Nat.le_trans hcount (divCeil_mono (by omega))⟩

/-- With room for them it does not end before its input. -/
theorem LoopSpec.consumed_eq (h : LoopSpec A p slices 0 pos rest s r s' frags) (hp : p.For A s)
    (hfrag : 0 < p.frag) (hn : rest.length ≤ n)
    (hroom : pos + (divCeil n p.frag * p.overhead + n) ≤ p.out.size) (hst : r.status = .ended) :
    r.consumed = rest.length := by
  by_contra hne
  have hle := h.le
  have hlt : r.consumed < rest.length := by omega
  have hstop := h.stop
  rw [hst] at hstop
  have htight := hstop.2 hlt
  obtain ⟨hlen, -⟩ := h.length_records hp hfrag hn
  have hbytes := congrArg List.length h.bytes
  rw [List.length_take, Nat.min_eq_left hle, length_flatten_of_forall (h.more hlt)] at hbytes
  have hnext : frags.length < divCeil n p.frag := lt_divCeil hfrag (by omega)
  have hmul := Nat.mul_le_mul_right p.overhead hnext
  rw [Nat.succ_mul] at hmul
  unfold LoopParams.Tight at htight
  omega

end Loop

/-! ### The limits -/

section Limits

variable {κ ρ : Type} (A : Aead κ ρ)

/-- `SSL_seal_app_data_limits`: the fragment, the overhead and the pending length. -/
def sslSealAppDataLimits (s : SslImpl κ) : Option (Nat × Nat × Nat) :=
  (sealPending A s).map fun pending => (tlsAppDataFragment A s, s.maxSealOverhead A, pending)

/-- `SslRef::seal_app_data_limits`. -/
def sealAppDataLimits (s : SslImpl κ) : Option SealLimits :=
  match sslSealAppDataLimits A s with
  | some (maxFragment, recordOverhead, pendingLen) =>
      if h : 0 < maxFragment then some ⟨maxFragment, recordOverhead, pendingLen, h⟩ else none
  | none => none

/-- `ssl_reset_error_state`. -/
def resetErrorState (s : SslImpl κ) : SslImpl κ := { s with errors := [] }

variable {A}

/-- `SSL_seal_app_data`. -/
def sslSealAppData (U : Upstream A) (s : SslImpl κ) (out : OutSpan) (slicesAddr : Nat)
    (slices : List Slice) (maxIn : Nat) : SealReturn × SslImpl κ :=
  tlsSealAppData A U (resetErrorState s) out slicesAddr slices maxIn

theorem sealedLen_spec {limits : SealLimits} {n m : Nat} (h : limits.sealedLen n = some m) :
    m = divCeil n limits.maxFragment * limits.recordOverhead + n + limits.pendingLen := by
  unfold SealLimits.sealedLen at h
  simp only [Option.bind_eq_bind, Option.bind_eq_some_iff, checkedMul_eq_some,
    checkedAdd_eq_some] at h
  obtain ⟨_, ⟨-, rfl⟩, _, ⟨-, rfl⟩, -, rfl⟩ := h
  rfl

theorem sealAppDataLimits_spec {s : SslImpl κ} {limits : SealLimits}
    (h : sealAppDataLimits A s = some limits) :
    sealPending A s = some limits.pendingLen ∧ limits.maxFragment = tlsAppDataFragment A s
      ∧ limits.recordOverhead = s.maxSealOverhead A := by
  unfold sealAppDataLimits sslSealAppDataLimits at h
  rcases hp : sealPending A s with _ | pending <;> simp only [hp, Option.map_none, Option.map_some] at h
  · cases h
  split at h
  · obtain rfl := Option.some.inj h
    exact ⟨rfl, rfl, rfl⟩
  · cases h

/-! ### A call with the room its limits ask for -/

/-- Sealing a record of the call failed: that of the queued handshake data, or, after the records that the
call handed over, the next one, whose sequence number is not used. -/
def RecordFailed (U : Upstream A) (s : SslImpl κ) (out : OutSpan) (slices : List Slice) (maxIn : Nat)
    (r : SealReturn) (s' : SslImpl κ) : Prop :=
  U.flushPendingHsData (resetErrorState s) = (false, s')
    ∨ ∃ s₁ records frags s₂, U.flushPendingHsData (resetErrorState s) = (true, s₁)
        ∧ FailedAfter A s₁ out slices maxIn r.consumed records frags s₂
        ∧ s'.writeSequence = s₂.writeSequence
        ∧ (r.status = .success → r.out = s₁.pendingFlight.rest ++ records)

theorem sslSealAppData_budget {U : Upstream A} {s s' : SslImpl κ} {limits : SealLimits}
    {n m slicesAddr : Nat} {out : OutSpan} {slices : List Slice} {r : SealReturn}
    (hl : sealAppDataLimits A s = some limits) (hm : limits.sealedLen n = some m)
    (hroom : m ≤ out.size)
    (harray : buffersAlias slicesAddr (slices.length * ivecSize) out.addr out.size = false)
    (h : sslSealAppData U s out slicesAddr slices n = (r, s')) :
    let input := (slices.map Slice.bytes).flatten
    r.status ≠ .declined ∧ r.out.length ≤ m
      ∧ ((r.status = .success ∧ r.consumed = min n input.length)
        ∨ RecordFailed U s out slices n r s') := by
  intro input
  obtain ⟨hpend, hfrag, hover⟩ := sealAppDataLimits_spec hl
  obtain rfl := sealedLen_spec hm
  have hfragPos := limits.maxFragment_pos
  have hdata : (input.take n).length = min n input.length := List.length_take
  have hover' : (resetErrorState s).maxSealOverhead A = limits.recordOverhead := hover.symm
  have hfrag' : tlsAppDataFragment A (resetErrorState s) = limits.maxFragment := hfrag.symm
  have hfirst : FirstFits A (resetErrorState s) out (input.take n) limits.pendingLen := by
    rw [FirstFits, sealFits_iff, hover', hfrag']
    refine ⟨by omega, ?_⟩
    split
    · exact Nat.zero_le _
    · have hone : 0 < divCeil n limits.maxFragment := lt_divCeil hfragPos (by omega)
      have hmul := Nat.le_mul_of_pos_left limits.recordOverhead hone
      omega
  rcases tlsSealAppData_cases h with ⟨halias, -⟩ | ⟨-, hno, -⟩ | ⟨-, pending, hp, -, hrun⟩
  · rw [harray] at halias
    cases halias
  · exact absurd hfirst (hno _ hpend)
  obtain rfl : pending = limits.pendingLen := Option.some.inj (hp.symm.trans hpend)
  rcases hrun with ⟨hflush, rfl⟩ | ⟨s₁, sealed, s₂, frags, res, hflush, hf, hflight, hloop, -, hfin⟩
  · exact ⟨nofun, Nat.zero_le _, .inr (.inl hflush)⟩
  have hpfrag : (callParams A s₁ out n).frag = limits.maxFragment := hf.fragment.trans hfrag'
  have hpover : (callParams A s₁ out n).overhead = limits.recordOverhead :=
    hf.maxSealOverhead.trans hover'
  have hpositive : 0 < (callParams A s₁ out n).frag := hpfrag ▸ hfragPos
  have hle : (input.take n).length ≤ n := by omega
  obtain ⟨hlen, hcount⟩ := hloop.length_records (callParams_for A s₁ out n) hpositive hle
  have hend := hloop.consumed_eq (callParams_for A s₁ out n) hpositive hle
  rw [hpfrag] at hcount hend
  rw [hpover] at hlen hend
  have hrecords := Nat.mul_le_mul_right limits.recordOverhead hcount
  have hconsumed : res.consumed ≤ n := Nat.le_trans hloop.le hle
  have hwritten : s₁.pendingFlight.rest.length + res.records.length
      ≤ divCeil n limits.maxFragment * limits.recordOverhead + n + limits.pendingLen := by
    omega
  have hseq := hloop.kept.1
  rcases finishSeal_cases hloop.checks hfin with ⟨hfailed, hzero, rfl, rfl⟩ | ⟨-, rfl, k, rfl⟩
  · have hafter := hloop.failedAfter hfailed
    rw [hzero] at hafter
    exact ⟨nofun, Nat.zero_le _, .inr (.inr ⟨s₁, _, _, s₂, hflush, hafter, hseq, nofun⟩)⟩
  · refine ⟨nofun, by rw [List.length_append]; exact hwritten, ?_⟩
    rcases hst : res.status
    · exact .inl ⟨rfl, (hend (Nat.le_trans (by omega) hroom) hst).trans hdata⟩
    · exact .inr (.inr ⟨s₁, _, _, s₂, hflush, hloop.failedAfter hst, hseq, fun _ => rfl⟩)
    · exact absurd hst hloop.checks

/-! ### The stream's side -/

/-- What BoringSSL returned is what the crate sees. -/
def Reports : SealReturn → SealResult → Prop
  | ⟨.success, out, consumed⟩, .success out' consumed' => out' = out ∧ consumed' = consumed
  | ⟨.declined, _, _⟩, .declined => True
  | ⟨.error, _, _⟩, .error _ => True
  | _, _ => False

/-- `B` seals with `tls_seal_app_data`, on the connection `view` finds in its state: the caller's
slices are usable, wherever they are. -/
structure SealsWith {σ : Type} (B : BoringSsl σ) (U : Upstream A) (view : σ → SslImpl κ) :
    Prop where
  limits : ∀ s, B.sealAppDataLimits s = sealAppDataLimits A (view s)
  sealing : ∀ s bufs maxIn room, ∃ out slicesAddr slices,
    slices.map Slice.bytes = bufs ∧ out.size = room ∧ Usable out slicesAddr slices
      ∧ Reports (sslSealAppData U (view s) out slicesAddr slices maxIn).1
          (B.sealAppData s bufs maxIn room).1
      ∧ view (B.sealAppData s bufs maxIn room).2
          = (sslSealAppData U (view s) out slicesAddr slices maxIn).2

theorem sealBudget_le (fragment overhead pending buffered total : Nat) :
    sealBudget fragment overhead pending buffered total ≤ total := by
  unfold sealBudget maxRecord
  dsimp only
  split <;> omega

theorem sealChecked_snd {σ : Type} (B : BoringSsl σ) (ssl : σ) (bufs : List Bytes)
    (maxIn room : Nat) :
    (B.sealChecked ssl bufs maxIn room).2 = (B.sealAppData ssl bufs maxIn room).2 := by
  unfold BoringSsl.sealChecked
  rcases B.sealAppData ssl bufs maxIn room with ⟨_ | _ | _, ssl₁⟩
  · dsimp only
    split <;> rfl
  · rfl
  · rfl

/-- The call of the sealer for these bytes, in room for `m`, failed at a record. -/
def SealingFailed (U : Upstream A) (s s' : SslImpl κ) (bufs : List Bytes) (n m : Nat) (r : SealResult) :
    Prop :=
  ∃ out slicesAddr slices, slices.map Slice.bytes = bufs ∧ out.size = m ∧ Usable out slicesAddr slices
    ∧ ∃ ret, sslSealAppData U s out slicesAddr slices n = (ret, s') ∧ Reports ret r
      ∧ RecordFailed U s out slices n ret s'

/-- `WriteBuffer::seal` seals its whole budget. -/
theorem sealInto_budget {σ : Type} {B : BoringSsl σ} {U : Upstream A} {view : σ → SslImpl κ}
    (hB : SealsWith B U view) {ssl ssl' : σ} {limits : SealLimits} {n m : Nat}
    (hl : sealAppDataLimits A (view ssl) = some limits) (hm : limits.sealedLen n = some m)
    {b b' : WriteBuffer} {a : Allocator} {bufs : List Bytes} {total : Nat} {records : Bytes}
    {r : Except IoError (Option Nat)}
    (hn : sealBudget limits.maxFragment limits.recordOverhead limits.pendingLen b.len total = n)
    (htotal : total ≤ bufs.flatten.length)
    (h : b.sealInto B a ssl limits bufs total = (r, records, b', ssl')) :
    r = .ok (some n)
      ∨ SealingFailed U (view ssl) (view ssl') bufs n m (B.sealAppData ssl bufs n m).1 := by
  have hle := sealBudget_le limits.maxFragment limits.recordOverhead limits.pendingLen b.len total
  obtain ⟨out, slicesAddr, slices, hbytes, hsize, husable, hrep, hview⟩ :=
    hB.sealing ssl bufs n m
  rcases hcall : sslSealAppData U (view ssl) out slicesAddr slices n with ⟨ret, s'⟩
  rw [hcall] at hrep hview
  obtain ⟨hdecl, hlen, hres⟩ :=
    sslSealAppData_budget hl hm (Nat.le_of_eq hsize.symm) husable.array hcall
  rw [hbytes] at hres
  unfold WriteBuffer.sealInto at h
  simp only [hn, hm] at h
  rcases hs : B.sealAppData ssl bufs n m with ⟨res, ssl₁⟩
  rw [hs] at hrep hview
  rcases hres with ⟨hok, hconsumed⟩ | hfailed
  · refine .inl ?_
    obtain ⟨status, bytes, consumed⟩ := ret
    obtain rfl : status = .success := hok
    rcases res with ⟨bytes', consumed'⟩ | _ | _
    · obtain ⟨rfl, rfl⟩ := hrep
      have hc : consumed' = n := by
        rw [show consumed' = min n bufs.flatten.length from hconsumed]
        omega
      have hfit : bytes'.length ≤ m ∧ consumed' ≤ n := ⟨hlen, by omega⟩
      simp only [BoringSsl.sealChecked, hs, dif_pos hfit] at h
      obtain ⟨rfl, -⟩ := Prod.mk.inj h
      rw [hc]
    · exact hrep.elim
    · exact hrep.elim
  · have hssl : ssl' = ssl₁ := by
      have hsnd := sealChecked_snd B ssl bufs n m
      rw [hs] at hsnd
      rcases hc : B.sealChecked ssl bufs n m with ⟨queue | _ | sealed, ssl₂⟩ <;>
        rw [hc] at hsnd <;> simp only [hc] at h <;>
        exact (Prod.mk.inj (Prod.mk.inj (Prod.mk.inj h).2).2).2.symm.trans hsnd
    rw [hssl, show view ssl₁ = s' from hview]
    exact .inr ⟨out, slicesAddr, slices, hbytes, hsize, husable, ret, hcall, hrep, hfailed⟩

/-! ### A library that seals -/

/-- The slices one after another, from `addr` on. -/
def layout : (addr : Nat) → List Bytes → List Slice
  | _, [] => []
  | addr, b :: bs => ⟨some addr, b⟩ :: layout (addr + b.length) bs

theorem layout_bytes (addr : Nat) (bufs : List Bytes) :
    (layout addr bufs).map Slice.bytes = bufs := by
  induction bufs generalizing addr with
  | nil => rfl
  | cons b bs ih => rw [layout, List.map_cons, ih]

/-- Behind the output, the slices and their array are usable. -/
theorem layout_usable (room addr : Nat) (bufs : List Bytes) (h : room ≤ addr) :
    Usable ⟨0, room⟩ addr (layout room bufs) where
  array := by
    simp only [buffersAlias, Bool.and_eq_false_iff, decide_eq_false_iff_not]
    omega
  slices := by
    have hbehind : ∀ s ∈ layout room bufs, ∃ a, s.addr = some a ∧ room ≤ a := by
      suffices hgen : ∀ from_, room ≤ from_ → ∀ s ∈ layout from_ bufs, ∃ a, s.addr = some a ∧ room ≤ a
        from hgen room (Nat.le_refl _)
      induction bufs with
      | nil => exact fun _ _ s hs => by cases hs
      | cons b bs ih =>
          intro from_ hfrom
          exact List.forall_mem_cons.mpr ⟨⟨from_, rfl, hfrom⟩, ih _ (by omega)⟩
    intro s hs _
    obtain ⟨a, ha, hle⟩ := hbehind s hs
    refine ⟨a, ha, ?_⟩
    simp only [buffersAlias, Bool.and_eq_false_iff, decide_eq_false_iff_not]
    omega

/-- BoringSSL reduced to sealing; every other call fails. -/
def sealOnly (U : Upstream A) : BoringSsl (SslImpl κ × Bytes) where
  sealAppDataLimits s := sealAppDataLimits A s.1
  sealAppData s bufs maxIn room :=
    match sslSealAppData U s.1 ⟨0, room⟩ room (layout room bufs) maxIn with
    | (⟨.success, out, consumed⟩, ssl) =>
        (.success out consumed, ssl, s.2 ++ bufs.flatten.take consumed)
    | (⟨.declined, _, _⟩, ssl) => (.declined, ssl, s.2)
    | (_, ssl) => (.error [], ssl, s.2)
  sslRead s _ := .ret (.error ⟨.ssl, []⟩, s)
  sslWrite s _ := .ret (.error ⟨.ssl, []⟩, s)
  sslShutdown s := .ret (.error ⟨.ssl, []⟩, s)
  sslDoHandshake s := .ret (.error ⟨.ssl, []⟩, s)
  plaintext s := s.2
  sealAppData_success := by
    intro s bufs maxIn room out consumed h
    rcases hcall : sslSealAppData U s.1 ⟨0, room⟩ room (layout room bufs) maxIn with
      ⟨⟨_ | _ | _ | _, out', consumed'⟩, ssl⟩ <;> simp only [hcall] at h ⊢ <;> try cases h
    have hsealed := sealed_of_success hcall rfl
    rw [layout_bytes] at hsealed
    exact ⟨hsealed.room, hsealed.le, hsealed.pos, rfl⟩
  sealAppData_declined := by
    intro s bufs maxIn room h
    rcases hcall : sslSealAppData U s.1 ⟨0, room⟩ room (layout room bufs) maxIn with
      ⟨⟨_ | _ | _ | _, out', consumed'⟩, ssl⟩ <;> simp only [hcall] at h ⊢
    cases h
  sealAppData_error := by
    intro s bufs maxIn room queue h
    rcases hcall : sslSealAppData U s.1 ⟨0, room⟩ room (layout room bufs) maxIn with
      ⟨⟨_ | _ | _ | _, out', consumed'⟩, ssl⟩ <;> simp only [hcall] at h ⊢
    cases h
  sslWrite_spec := fun _ _ _ => rfl
  sslRead_spec := fun _ _ _ => ⟨rfl, nofun⟩
  sslShutdown_spec := fun _ => rfl
  sslDoHandshake_spec := fun _ => rfl

/-- **The sealer has the contract the stream is proved over.** -/
theorem sealOnly_sealsWith (U : Upstream A) : SealsWith (sealOnly U) U Prod.fst where
  limits _ := rfl
  sealing s bufs maxIn room := by
    refine ⟨⟨0, room⟩, room, layout room bufs, layout_bytes room bufs, rfl,
      layout_usable room room bufs (Nat.le_refl _), ?_⟩
    rcases hcall : sslSealAppData U s.1 ⟨0, room⟩ room (layout room bufs) maxIn with
      ⟨⟨_ | _ | _ | _, out', consumed'⟩, ssl⟩ <;> simp only [sealOnly, hcall, Reports]
    · exact ⟨⟨trivial, trivial⟩, trivial⟩
    · exact ⟨trivial, trivial⟩
    · exact ⟨trivial, trivial⟩
    · exact absurd rfl (status_ne_checkFailed hcall)

/-- **The limits are honoured.**  With the room `sealed_len` asks for, the call that follows does
not decline, writes no more than that, and seals its whole budget unless a record cannot be sealed;
and so does `WriteBuffer::seal`. -/
theorem limits_honoured {U : Upstream A} {s : SslImpl κ} {limits : SealLimits} {n m : Nat}
    (hl : sealAppDataLimits A s = some limits) (hm : limits.sealedLen n = some m) :
    (∀ out slicesAddr slices, m ≤ out.size →
        buffersAlias slicesAddr (slices.length * ivecSize) out.addr out.size = false →
        let input := (slices.map Slice.bytes).flatten
        let call := sslSealAppData U s out slicesAddr slices n
        call.1.status ≠ .declined ∧ call.1.out.length ≤ m
          ∧ ((call.1.status = .success ∧ call.1.consumed = min n input.length)
            ∨ RecordFailed U s out slices n call.1 call.2))
      ∧ ∀ (σ : Type) (B : BoringSsl σ) (view : σ → SslImpl κ) (ssl : σ), SealsWith B U view →
          view ssl = s → ∀ (a : Allocator) (b : WriteBuffer) (bufs : List Bytes) (total : Nat),
          sealBudget limits.maxFragment limits.recordOverhead limits.pendingLen b.len total = n →
          total ≤ bufs.flatten.length →
          let res := b.sealInto B a ssl limits bufs total
          res.1 = .ok (some n)
            ∨ SealingFailed U s (view res.2.2.2) bufs n m (B.sealAppData ssl bufs n m).1 := by
  refine ⟨fun out slicesAddr slices hroom harray => ?_, ?_⟩
  · exact sslSealAppData_budget hl hm hroom harray rfl
  · rintro σ B view ssl hB rfl a b bufs total hn htotal
    exact sealInto_budget hB hl hm hn htotal rfl

end Limits

/-- A hundred bytes in fragments of 63 behind the queued message, in just the room they need. -/
theorem limits_honoured_two_records :
    let call := sslSealAppData (.behindFlight Aead.tagOnly) sampleSsl ⟨1000, 169⟩ 0
      [⟨some 2000, List.replicate 100 7⟩] 100
    call.1.status ≠ .declined ∧ call.1.out.length ≤ 169 ∧ call.1.consumed = 100 := by
  intro call
  have hlimits : sealAppDataLimits Aead.tagOnly sampleSsl = some ⟨63, 22, 25, by decide⟩ := rfl
  have hneed : (⟨63, 22, 25, by decide⟩ : SealLimits).sealedLen 100 = some 169 := by decide
  obtain ⟨hdecl, hlen, -⟩ := (limits_honoured (U := .behindFlight Aead.tagOnly) hlimits
    hneed).1 ⟨1000, 169⟩ 0 [⟨some 2000, List.replicate 100 7⟩]
    (by decide) rfl
  exact ⟨hdecl, hlen, by decide +kernel⟩

end Btls.Seal
