import Btls.Seal.Planner
import Mathlib.Data.List.Basic

/-!
# Seal — Tiling

What the pieces of a plan are.  They tile the record's body, in order and without a gap
(`plan_tiles`); a piece that is read from a slice is long enough to be worth a slot of its own, or
is the whole record; and everything else is a copy, which is encrypted in place.

A plan has no more pieces than the sealer's array has slots, one of which stays free for the inner
content type.  So the planner gathers a piece only where the pieces behind it can still be copied
into one run.
-/

namespace Btls.Seal

open Btls.Support Btls.Support.Slices Btls.Tls

/-! ### Pieces from the slices -/

/-- `len` bytes at `inp` are part of a slice. -/
def ReadFrom (slices : List Slice) (inp len : Nat) : Prop :=
  ∃ s ∈ slices, ∃ addr off, s.addr = some addr ∧ off + len ≤ s.len ∧ inp = addr + off

/-- What a piece stands for is part of a slice, and it is read from there. -/
def FromSlice (slices : List Slice) (v : Iovec) : Prop :=
  ∃ s ∈ slices, ∃ addr off, s.addr = some addr ∧ off + v.bytes.length ≤ s.len ∧ v.inp = addr + off
    ∧ v.bytes = (s.bytes.drop off).take v.bytes.length

/-- Each piece is copied and read in place, or it is read from a slice, and then it is all that is wanted or is
worth gathering. -/
def Picked (slices : List Slice) (want : Nat) (vs : List Iovec) : Prop :=
  ∀ v ∈ vs, v.bytes ≠ []
    ∧ (v.inp = v.out ∨ (FromSlice slices v ∧ (v.bytes.length = want ∨ kSealGatherMin ≤ v.bytes.length)))

section Pieces

variable {out : OutSpan} {slices : List Slice} {want limit budget body addr : Nat} {st st' : PlanState}
  {piece : Bytes} {vs : List Iovec}

theorem Picked.snoc (h : Picked slices want vs) {v : Iovec} (hne : v.bytes ≠ [])
    (hv : v.inp = v.out ∨ (FromSlice slices v ∧ (v.bytes.length = want ∨ kSealGatherMin ≤ v.bytes.length))) :
    Picked slices want (vs ++ [v]) := by
  intro v' hv'
  rcases List.mem_append.mp hv' with hv' | hv'
  · exact h v' hv'
  · rw [List.mem_singleton.mp hv']
    exact ⟨hne, hv⟩

theorem Picked.close (h : Picked slices want st.iovecs) (hrun : st.run ≠ []) :
    Picked slices want (st.closeRun body) := h.snoc hrun (.inl rfl)

theorem Picked.closed (h : Picked slices want st.iovecs) : Picked slices want (st.closed body) := by
  unfold PlanState.closed
  by_cases hrun : st.run = []
  · rw [if_pos hrun]
    exact h
  · rw [if_neg hrun]
    exact h.close hrun

theorem Picked.add (h : Picked slices want st.iovecs) (hpiece : piece ≠ [])
    (hfrom : ∀ dst, FromSlice slices ⟨dst, addr, piece⟩) (hadd : st.add want budget body addr piece = some st') :
    Picked slices want st'.iovecs := by
  rcases PlanState.add_cases hadd with ⟨hgather, rfl⟩ | ⟨-, rfl⟩
  · exact h.closed.snoc hpiece (.inr ⟨hfrom _, hgather.imp And.right And.left⟩)
  · exact h

theorem planLoop_picked {d : List Slice} (hd : d ⊆ slices) (hoffset : ∀ s, d.head? = some s → st.offset ≤ s.len)
    (h : Picked slices want st.iovecs) (hloop : planLoop out want limit budget body d st = .ok st') :
    Picked slices want st'.iovecs := by
  induction d generalizing st with
  | nil =>
      cases hloop
      exact h
  | cons slice rest ih =>
      have hrest : rest ⊆ slices := fun s hs => hd (List.mem_cons_of_mem _ hs)
      have hle : st.offset ≤ slice.len := hoffset slice rfl
      unfold planLoop at hloop
      split at hloop
      · cases hloop
        exact h
      split at hloop
      · refine ih hrest (fun _ _ => ?_) ?_ hloop
        · exact Nat.zero_le _
        · exact h
      rename_i hfull hempty
      rcases haddr : slice.addr with _ | addr <;> rw [haddr] at hloop
      · cases hloop
      dsimp only at hloop
      split at hloop
      · cases hloop
      set len := min (slice.len - st.offset) (limit - st.pos) with hlen
      set piece := (slice.bytes.drop st.offset).take len with hpiece
      have hpieceLen : piece.length = len := by
        have hslice : slice.len = slice.bytes.length := rfl
        rw [hpiece, List.length_take, List.length_drop]
        omega
      rcases hadd : st.add want budget body (addr + st.offset) piece with _ | st₁ <;> rw [hadd] at hloop
      · cases hloop
      have hfrom (dst : Nat) : FromSlice slices ⟨dst, addr + st.offset, piece⟩ := by
        refine ⟨slice, hd List.mem_cons_self, addr, st.offset, haddr, ?_, rfl, ?_⟩
        · dsimp only
          omega
        · dsimp only
          rw [hpieceLen]
      have h₁ := h.add (List.length_pos_iff.mp (by omega)) hfrom hadd
      dsimp only at hloop
      split at hloop
      · refine ih hrest (fun _ _ => ?_) ?_ hloop
        · exact Nat.zero_le _
        · exact h₁
      · cases hloop
        exact h₁

theorem planSealBody_picked {input input' : SealInput} (hv : input.Valid) {len : Nat}
    (hplan : planSealBody input want body budget = .ok (input', vs, len)) : Picked input.slices want vs := by
  unfold planSealBody at hplan
  split at hplan
  · cases hplan
  rename_i st hloop
  have h := planLoop_picked (List.drop_subset _ _) (fun s hs => within_head hv hs)
    (fun _ hv => absurd hv List.not_mem_nil) hloop
  split at hplan
  · cases hplan
    exact h
  rename_i hrun
  split at hplan
  · cases hplan
    exact h.close hrun
  · cases hplan

end Pieces

/-! ### The plan -/

/-- The entries' outputs are `len` bytes from `body` on, one after the other and none of them empty. -/
def Covers : (body len : Nat) → List RawIovec → Prop
  | _, len, [] => len = 0
  | body, len, v :: vs => v.out = body ∧ 0 < v.len ∧ v.len ≤ len ∧ Covers (body + v.len) (len - v.len) vs

theorem covers_of_tiles {body : Nat} {vs : List Iovec} (h : Tiles body vs) (hne : ∀ v ∈ vs, v.bytes ≠ []) :
    Covers body (Iovec.join vs).length (vs.map RawIovec.of) := by
  induction vs generalizing body with
  | nil => rfl
  | cons v vs ih =>
      have hrest := ih h.2 fun v' hv' => hne v' (List.mem_cons_of_mem _ hv')
      rw [join_cons, List.length_append]
      refine ⟨h.1, List.length_pos_iff.mpr (hne v List.mem_cons_self), Nat.le_add_right _ _, ?_⟩
      change Covers _ (v.bytes.length + (Iovec.join vs).length - v.bytes.length) _
      rwa [Nat.add_sub_cancel_left]

/-- An entry as long as the whole is the only one. -/
theorem Covers.eq_singleton {body len : Nat} {vs : List RawIovec} (h : Covers body len vs) {v : RawIovec}
    (hv : v ∈ vs) (hle : len ≤ v.len) : vs = [v] := by
  induction vs generalizing body len with
  | nil => cases hv
  | cons w ws ih =>
      obtain ⟨-, hpos, hlen, hrest⟩ := h
      rcases List.mem_cons.mp hv with rfl | hv
      · rw [Nat.sub_eq_zero_of_le hle] at hrest
        cases ws with
        | nil => rfl
        | cons w' ws =>
            obtain ⟨-, hpos', hlen', -⟩ := hrest
            omega
      · have hone := ih hrest hv (by omega)
        rw [hone] at hrest
        obtain ⟨-, -, hlen', -⟩ := hrest
        omega

/-- What a plan leaves: in `m` its entries stand for the next `len` bytes of the input, and `input'` goes on
behind them. -/
structure Tiling (input input' : SealInput) (want body budget len : Nat) (iovecs : List RawIovec)
    (m : Memory Origin) : Prop where
  length : len = min want (min input.remaining input.unread.length)
  available : input.available want = len
  slots : iovecs.length ≤ budget
  some : 0 < len → iovecs ≠ []
  covers : Covers body len iovecs
  bytes : (iovecs.flatMap fun v => m.read v.inp v.len) = input.unread.take len
  pieces : ∀ v ∈ iovecs, v.inp = v.out ∨ (ReadFrom input.slices v.inp v.len
    ∧ ((iovecs = [v] ∧ v.len = want) ∨ kSealGatherMin ≤ v.len))
  cursor : input'.unread = input.unread.drop len
  remaining : input'.remaining = input.remaining - len
  slices : input'.slices = input.slices
  out : input'.out = input.out
  valid : input'.Valid

section Tiling

variable {input input' : SealInput} {want body budget len : Nat} {vs : List Iovec} {m m' : Memory Origin}

/-- In the end each entry reads what it stands for. -/
theorem read_piece (hroom : input.out.HasRoom body want) (hmem : ∀ s ∈ input.slices, s.InMemory m)
    (hsame : m.SameOutside m' body (body + len)) (hlen : len ≤ want) {v : Iovec}
    (hright : ReadRight input.out m' v) (hne : v.bytes ≠ [])
    (hwithin : body ≤ v.out ∧ v.out + v.bytes.length ≤ body + len)
    (hpicked : v.inp = v.out ∨ FromSlice input.slices v) : m'.read v.inp v.bytes.length = v.bytes := by
  obtain ⟨hlo, hhi⟩ := hroom
  have hpos := List.length_pos_iff.mpr hne
  rcases hright with ⟨hplace, hholds⟩ | hapart
  · rw [hplace]
    exact hholds.read
  simp only [buffersAlias, Bool.and_eq_false_iff, decide_eq_false_iff_not] at hapart
  rcases hpicked with hplace | ⟨s, hs, addr, off, haddr, hle, hinp, hbytes⟩
  · omega
  · rw [hsame.read (by omega), hinp, ← Memory.take_drop_read m addr hle, hmem s hs addr haddr]
    exact hbytes.symm

theorem available_unread (hv : input.Valid) :
    input.available want = min want (min input.remaining input.unread.length) := by
  rw [available_eq hv, SealInput.rest, List.length_take]

/-- **A plan tiles the record's body** with the next bytes of the input, in entries within the budget: those
read from a slice are long or the whole record, the others are copies in place.  It fails only at a slice that
is null or overlaps the output, and no `BSSL_CHECK` in it fails; `seal_copy` is a plain copy. -/
theorem plan_tiles (hv : input.Valid) (want : Nat) {body : Nat} (hbudget : 0 < budget)
    (hroom : input.out.HasRoom body want) (hmem : ∀ s ∈ input.slices, s.InMemory m) :
    (match planSealBodyRaw input want body budget m with
      | (.ok (input', iovecs, len), m') => Tiling input input' want body budget len iovecs m'
      | (.error e, _) => e ≠ .checkFailed ∧ ∃ s ∈ input.slices, ¬ s.Readable input.out)
    ∧ ∀ dst src len, src + len ≤ dst ∨ dst + len ≤ src →
        sealCopyFrom m dst src len = m.copy .plaintext dst src len := by
  refine ⟨?_, fun dst src len hsep => sealCopyFrom_eq_copy hsep⟩
  have hcursor := planSealBody_cursor hv want body hbudget
  have hstaged := planSealBodyMem_spec input want body budget m
  have hfst : (planSealBodyMem input want body budget m).1 = planSealBody input want body budget :=
    planSealBodyMem_fst input m
  rw [planSealBodyRaw_eq hv hroom hmem]
  rcases hplan : planSealBodyMem input want body budget m with ⟨e | ⟨input', vs, len⟩, m'⟩ <;>
    rw [hplan] at hfst hstaged <;> rw [← hfst] at hcursor
  · obtain ⟨s, hs, hnot⟩ := hcursor.2.exists
    exact ⟨hcursor.1, s, List.mem_of_mem_drop hs, hnot⟩
  obtain ⟨hplaced, hlen, hv', hslices, hout, hunread, hremaining⟩ := hcursor
  obtain ⟨hsame, hright⟩ := hstaged
  have hpicked := planSealBody_picked hv hfst.symm
  have htotal : (Iovec.join vs).length = len := by
    rw [hplaced.joined, List.length_take, Nat.min_eq_left (hlen ▸ Nat.min_le_right _ _)]
  have hwant : len ≤ want := hlen ▸ Nat.le_trans (Nat.min_le_left _ _) (Nat.min_le_left _ _)
  have hcovers := covers_of_tiles hplaced.tiles fun v hv => (hpicked v hv).1
  rw [htotal] at hcovers
  -- A copy is in its place, and what is read from a slice was apart from every write.
  have hread : ∀ v ∈ vs, m'.read v.inp v.bytes.length = v.bytes := by
    intro v hv
    have hwithin := hplaced.tiles.within hv
    rw [htotal] at hwithin
    exact read_piece hroom hmem hsame hwant (hright v hv) (hpicked v hv).1 hwithin
      ((hpicked v hv).2.imp_right And.left)
  have hlen' : len = min want (min input.remaining input.unread.length) := by rw [hlen, Nat.min_assoc]
  exact {
    length := hlen'
    available := (available_unread hv).trans hlen'.symm
    slots := by
      rw [List.length_map]
      exact hplaced.slots
    some := fun hpos hnil => by
      rw [hnil] at hcovers
      exact Nat.ne_of_gt hpos hcovers
    covers := hcovers
    bytes := by
      rw [List.flatMap_map, ← hplaced.joined]
      exact List.flatMap_congr hread
    pieces := fun v hv => by
      obtain ⟨v', hv', rfl⟩ := List.mem_map.mp hv
      refine (hpicked v' hv').2.imp_right ?_
      rintro ⟨⟨s, hs, addr, off, haddr, hle, hinp, -⟩, hlong⟩
      refine ⟨⟨s, hs, addr, off, haddr, hle, hinp⟩, hlong.imp_left fun hwhole => ⟨?_, hwhole⟩⟩
      exact hcovers.eq_singleton hv (Nat.le_trans hwant (Nat.le_of_eq hwhole.symm))
    cursor := hunread
    remaining := hremaining
    slices := hslices
    out := hout
    valid := hv' }

end Tiling

/-- Two slices of data and an empty one, at addresses behind the output. -/
def tiledSlices : List Slice := [⟨some 5000, [1, 2]⟩, ⟨none, []⟩, ⟨some 6000, [3, 4, 5]⟩]

/-- Memory with the slices' data. -/
def tiledMemory : Memory Origin :=
  ((memoryBefore fun _ => 0).write .before 5000 [1, 2]).write .before 6000 [3, 4, 5]

theorem plan_tiles_copied : ∃ input' m', planSealBodyRaw (.new tiledSlices 100 ⟨100, 50⟩) 4 105 1 tiledMemory
      = (.ok (input', [⟨105, 105, 4⟩], 4), m')
    ∧ Tiling (.new tiledSlices 100 ⟨100, 50⟩) input' 4 105 1 4 [⟨105, 105, 4⟩] m' := by
  have hv : (SealInput.new tiledSlices 100 ⟨100, 50⟩).Valid := within_zero
  have hmem : ∀ s ∈ tiledSlices, s.InMemory tiledMemory := by
    intro s hs addr haddr
    simp only [tiledSlices, List.mem_cons, List.not_mem_nil, or_false] at hs
    rcases hs with rfl | rfl | rfl <;> cases haddr <;> rfl
  have htiles := plan_tiles hv 4 (show 0 < 1 from Nat.one_pos) (show OutSpan.HasRoom ⟨100, 50⟩ 105 4 from
    ⟨by decide, by decide⟩) hmem
  exact ⟨_, _, rfl, htiles.1⟩

end Btls.Seal
