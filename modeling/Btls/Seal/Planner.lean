import Btls.Seal.Wipe

/-!
# Seal — Planner

`tls_plan_seal_body` and `seal_copy` as the code has them: slices and pieces are addresses and
lengths, and the bytes are in memory, where the planner copies some of them.

The planner with the bytes in its state (`planSealBodyMem`) computes the same
(`planSealBodyRaw_eq`), as long as the slices are in memory and the body is in the output, which
every piece is checked to be apart from.  Each piece is read after others were copied, so what
carries the induction is that a piece apart from the output is still where it was
(`piece_in_memory`).

`sealCopyFrom_eq_copy`: `seal_copy` copies a short piece in moves that overlap, each of which reads
memory as the ones before it have left it; it is a plain copy of any length.
-/

namespace Btls.Seal

open Btls.Support Btls.Support.Slices Btls.Tls

/-! ### The code -/

/-- `seal_copy`; each move reads memory as the ones before it have left it. -/
def sealCopyFrom (m : Memory Origin) (dst src len : Nat) : Memory Origin :=
  let move (m : Memory Origin) (i n : Nat) := m.copy .plaintext (dst + i) (src + i) n
  if 32 < len then move m 0 len
  else if 16 ≤ len then move (move m 0 16) (len - 16) 16
  else if 8 ≤ len then move (move m 0 8) (len - 8) 8
  else if 4 ≤ len then move (move m 0 4) (len - 4) 4
  else if 0 < len then move (move (move m 0 1) (len / 2) 1) (len - 1) 1
  else m

/-- `CRYPTO_IOVEC`. -/
structure RawIovec where
  out : Nat
  inp : Nat
  len : Nat
  deriving DecidableEq

/-- The locals of `tls_plan_seal_body`: the cursor, `n` entries written, and the open copied run
`body[run, pos)`. -/
structure Planning where
  index : Nat
  offset : Nat
  pos : Nat
  run : Nat
  iovecs : List RawIovec

namespace Planning

/-- `BSSL_CHECK(n < budget); out_iovecs[n++] = v`. -/
def push (st : Planning) (budget : Nat) (v : RawIovec) : Option Planning :=
  if st.iovecs.length < budget then some { st with iovecs := st.iovecs ++ [v] } else none

/-- Adds the open run, if there is one. -/
def closeRun (st : Planning) (budget body : Nat) : Option Planning :=
  if st.run < st.pos then st.push budget ⟨body + st.run, body + st.run, st.pos - st.run⟩ else some st

/-- Gathers or copies a piece. -/
def place (st : Planning) (want budget body piece len : Nat) (m : Memory Origin) :
    Option (Planning × Memory Origin) :=
  let whole := st.pos = 0 ∧ len = want
  let last := st.pos + len = want
  let opened := if st.run < st.pos then 1 else 0
  if whole ∨ (kSealGatherMin ≤ len
      ∧ st.iovecs.length + opened + 1 + (if last then 0 else 1) ≤ budget) then do
    let st ← st.closeRun budget body
    let st ← st.push budget ⟨body + st.pos, piece, len⟩
    return ({ st with pos := st.pos + len, run := st.pos + len }, m)
  else some ({ st with pos := st.pos + len }, sealCopyFrom m (body + st.pos) piece len)

end Planning

/-- The loop of `tls_plan_seal_body`; of a slice it reads the address and the length. -/
def planLoopRaw (out : OutSpan) (want limit budget body : Nat) :
    List Slice → Planning → Memory Origin → Except PlanError Planning × Memory Origin
  | [], st, m => (.ok st, m)
  | slice :: rest, st, m =>
      if limit ≤ st.pos then (.ok st, m)
      else if st.offset = slice.len then
        planLoopRaw out want limit budget body rest { st with index := st.index + 1, offset := 0 } m
      else
        match slice.addr with
        | none => (.error (.reason .passedNullParameter), clear m body st.pos)
        | some addr =>
            let len := min (slice.len - st.offset) (limit - st.pos)
            let piece := addr + st.offset
            if buffersAlias piece len out.addr out.size then
              (.error (.reason .outputAliasesInput), clear m body st.pos)
            else
              match st.place want budget body piece len m with
              | none => (.error .checkFailed, m)
              | some (st', m) =>
                  if st.offset + len = slice.len then
                    planLoopRaw out want limit budget body rest { st' with index := st.index + 1, offset := 0 } m
                  -- The record is full, so the loop's next test ends it.
                  else (.ok { st' with offset := st.offset + len }, m)

/-- `tls_plan_seal_body`. -/
def planSealBodyRaw (input : SealInput) (want body budget : Nat) (m : Memory Origin) :
    Except PlanError (SealInput × List RawIovec × Nat) × Memory Origin :=
  match planLoopRaw input.out want (min want input.remaining) budget body
      (input.slices.drop input.index) ⟨input.index, input.offset, 0, 0, []⟩ m with
  | (.error e, m) => (.error e, m)
  | (.ok st, m) =>
      match st.closeRun budget body with
      | none => (.error .checkFailed, m)
      | some st =>
          let input := { input with
            index := st.index, offset := st.offset, remaining := input.remaining - st.pos }
          (.ok (input, st.iovecs, st.pos), m)

/-! ### Copies -/

section Copy

variable {m m' : Memory Origin} {dst src len : Nat}

/-- A move of part of a piece whose source is as it was. -/
theorem copy_part (hsame : m.SameOutside m' dst (dst + len)) (hsep : src + len ≤ dst ∨ dst + len ≤ src)
    {i n : Nat} (h : i + n ≤ len) :
    m'.copy .plaintext (dst + i) (src + i) n
        = m'.write .plaintext (dst + i) (((m.read src len).drop i).take n)
      ∧ m.SameOutside (m'.copy .plaintext (dst + i) (src + i) n) dst (dst + len) := by
  constructor
  · unfold Memory.copy
    rw [hsame.read (by omega), Memory.take_drop_read m src h]
  · exact hsame.trans ((Memory.copy_sameOutside m' .plaintext (dst + i) (src + i) n).mono
      (Nat.le_add_right _ _) (by omega))

/-- `seal_copy` reads what is at its source before it. -/
theorem sealCopyFrom_eq_sealCopy (hsep : src + len ≤ dst ∨ dst + len ≤ src) :
    sealCopyFrom m dst src len = sealCopy m dst (m.read src len) := by
  have hsame := Memory.SameOutside.refl m dst (dst + len)
  have hone {n : Nat} (hn : n ≤ len) := copy_part hsame hsep (show 0 + n ≤ len by omega)
  have htwo {n i k : Nat} (hn : n ≤ len) (hk : i + k ≤ len) := copy_part (hone hn).2 hsep hk
  unfold sealCopyFrom sealCopy
  simp only [Memory.read_length]
  by_cases h32 : 32 < len
  · rw [if_pos h32, if_pos h32, (hone (Nat.le_refl len)).1]
  rw [if_neg h32, if_neg h32]
  by_cases h16 : 16 ≤ len
  · rw [if_pos h16, if_pos h16, (htwo h16 (show len - 16 + 16 ≤ len by omega)).1, (hone h16).1]
  rw [if_neg h16, if_neg h16]
  by_cases h8 : 8 ≤ len
  · rw [if_pos h8, if_pos h8, (htwo h8 (show len - 8 + 8 ≤ len by omega)).1, (hone h8).1]
  rw [if_neg h8, if_neg h8]
  by_cases h4 : 4 ≤ len
  · rw [if_pos h4, if_pos h4, (htwo h4 (show len - 4 + 4 ≤ len by omega)).1, (hone h4).1]
  rw [if_neg h4, if_neg h4]
  by_cases h1 : 0 < len
  · have hmid := htwo h1 (show len / 2 + 1 ≤ len by omega)
    have hlast := copy_part hmid.2 hsep (show len - 1 + 1 ≤ len by omega)
    rw [if_pos h1, if_pos h1, hlast.1, hmid.1, (hone h1).1]
  · rw [if_neg h1, if_neg h1]

/-- **`seal_copy` is a plain copy** of any length. -/
theorem sealCopyFrom_eq_copy (hsep : src + len ≤ dst ∨ dst + len ≤ src) :
    sealCopyFrom m dst src len = m.copy .plaintext dst src len := by
  rw [sealCopyFrom_eq_sealCopy hsep, sealCopy_eq]
  rfl

end Copy

/-! ### The plan in memory -/

/-- An entry without the bytes that it stands for. -/
def RawIovec.of (v : Iovec) : RawIovec := ⟨v.out, v.inp, v.bytes.length⟩

/-- The locals of a plan whose state has the bytes. -/
def PlanState.raw (st : PlanState) : Planning :=
  ⟨st.index, st.offset, st.pos, st.pos - st.run.length, st.iovecs.map RawIovec.of⟩

/-- What a slice holds is in memory. -/
def Slice.InMemory (m : Memory Origin) (s : Slice) : Prop :=
  ∀ addr, s.addr = some addr → m.read addr s.len = s.bytes

/-- The body that is asked for is in the output, as the callers see to before they plan it. -/
def OutSpan.HasRoom (out : OutSpan) (body want : Nat) : Prop :=
  out.addr ≤ body ∧ body + want ≤ out.addr + out.size

section Refine

variable {out : OutSpan} {want limit budget body addr : Nat} {m₀ m : Memory Origin} {st : PlanState}
  {piece : Bytes}

theorem PlanState.raw_open (h : st.run.length ≤ st.pos) : st.raw.run < st.raw.pos ↔ st.run ≠ [] := by
  rw [← List.length_pos_iff]
  show st.pos - st.run.length < st.pos ↔ _
  omega

theorem PlanState.raw_opened (h : st.run.length ≤ st.pos) :
    (if st.raw.run < st.raw.pos then 1 else 0) = if st.run = [] then 0 else 1 := by
  by_cases hrun : st.run = []
  · rw [if_pos hrun, if_neg fun hopen => (PlanState.raw_open h).mp hopen hrun]
  · rw [if_neg hrun, if_pos ((PlanState.raw_open h).mpr hrun)]

/-- Closing the open run. -/
theorem PlanState.raw_closeRun (h : st.run.length ≤ st.pos) (hrun : st.run ≠ []) :
    st.raw.closeRun budget body = if st.iovecs.length < budget then
      some { st.raw with iovecs := (st.closeRun body).map RawIovec.of } else none := by
  have hlen : st.pos - (st.pos - st.run.length) = st.run.length := by omega
  unfold Planning.closeRun
  rw [if_pos ((PlanState.raw_open h).mpr hrun)]
  unfold Planning.push PlanState.closeRun
  simp only [PlanState.raw, List.length_map, List.map_append, List.map_singleton, RawIovec.of, hlen]

theorem PlanState.raw_closeRun_nil (h : st.run.length ≤ st.pos) (hrun : st.run = []) :
    st.raw.closeRun budget body = some st.raw :=
  if_neg fun hopen => (PlanState.raw_open h).mp hopen hrun

/-- A piece is placed alike. -/
theorem place_raw {len : Nat} (h : st.run.length ≤ st.pos) (hlen : piece.length = len)
    (hpiece : m.read addr len = piece)
    (hsep : addr + len ≤ body + st.pos ∨ body + st.pos + len ≤ addr) :
    st.raw.place want budget body addr len m
      = (st.add want budget body addr piece).map fun st' => (st'.raw,
        if st.Gathers want budget piece.length then m else sealCopy m (body + st.pos) piece) := by
  subst hlen
  have hcond : (st.raw.pos = 0 ∧ piece.length = want ∨ kSealGatherMin ≤ piece.length
      ∧ st.raw.iovecs.length + (if st.raw.run < st.raw.pos then 1 else 0) + 1
          + (if st.raw.pos + piece.length = want then 0 else 1) ≤ budget)
        ↔ st.Gathers want budget piece.length := by
    rw [PlanState.raw_opened h]
    simp only [PlanState.raw, List.length_map]
    rfl
  unfold Planning.place PlanState.add
  by_cases hgather : st.Gathers want budget piece.length
  · simp only [if_pos hgather]
    rw [if_pos (hcond.mpr hgather)]
    by_cases hrun : st.run = []
    · rw [if_pos hrun, PlanState.raw_closeRun_nil h hrun]
      by_cases hslot : st.iovecs.length < budget
      · simp [Planning.push, PlanState.raw, RawIovec.of, hslot, hrun]
      · simp [Planning.push, PlanState.raw, hslot]
    · rw [if_neg hrun, PlanState.raw_closeRun h hrun]
      have hlength : (st.closeRun body).length = st.iovecs.length + 1 := by
        simp [PlanState.closeRun]
      by_cases hslots : st.iovecs.length + 1 < budget
      · have hslot : st.iovecs.length < budget := Nat.lt_of_succ_lt hslots
        simp [Planning.push, PlanState.raw, RawIovec.of, hslot, hslots, hlength]
      · by_cases hslot : st.iovecs.length < budget
        · simp [Planning.push, hslot, hslots, hlength]
        · simp [hslot, hslots]
  · simp only [if_neg hgather]
    have hcopy : sealCopyFrom m (body + st.raw.pos) addr piece.length = sealCopy m (body + st.pos) piece :=
      (sealCopyFrom_eq_sealCopy hsep).trans (by rw [hpiece])
    have hrun : st.pos + piece.length - (st.run ++ piece).length = st.pos - st.run.length := by
      rw [List.length_append, Nat.add_sub_add_right]
    rw [if_neg (mt hcond.mp hgather), hcopy, Option.map_some]
    simp only [PlanState.raw, hrun]

/-- A piece that is apart from the output is still where it was, and apart from the body. -/
theorem piece_in_memory {slice : Slice} {offset len : Nat} (hroom : out.HasRoom body limit)
    (hs : Staged out body m₀ m st) (hmem : slice.InMemory m₀) (haddr : slice.addr = some addr)
    (hle : offset + len ≤ slice.len) (hlen : 0 < len) (hpos : st.pos + len ≤ limit)
    (hapart : buffersAlias (addr + offset) len out.addr out.size = false) :
    m.read (addr + offset) len = (slice.bytes.drop offset).take len
      ∧ (addr + offset + len ≤ body + st.pos ∨ body + st.pos + len ≤ addr + offset) := by
  obtain ⟨hlo, hhi⟩ := hroom
  simp only [buffersAlias, Bool.and_eq_false_iff, decide_eq_false_iff_not] at hapart
  constructor
  · rw [hs.same.read (by omega), ← hmem addr haddr, Memory.take_drop_read m₀ addr hle]
  · omega

/-- The loop does the same without the bytes. -/
theorem planLoopRaw_eq (want budget : Nat) (d : List Slice) (hroom : out.HasRoom body limit)
    (hmem : ∀ s ∈ d, s.InMemory m₀) (hoffset : ∀ s, d.head? = some s → st.offset ≤ s.len)
    (hs : Staged out body m₀ m st) (hpos : st.pos ≤ limit) :
    planLoopRaw out want limit budget body d st.raw m
      = ((planLoopMem out want limit budget body d st m).1.map PlanState.raw,
        (planLoopMem out want limit budget body d st m).2) := by
  induction d generalizing st m with
  | nil => rfl
  | cons slice rest ih =>
      have hrest : ∀ s ∈ rest, s.InMemory m₀ := fun s hmem' => hmem s (List.mem_cons_of_mem _ hmem')
      have hle : st.offset ≤ slice.len := hoffset slice rfl
      unfold planLoopRaw planLoopMem
      change (if limit ≤ st.pos then _ else _) = _
      by_cases hfull : limit ≤ st.pos
      · rw [if_pos hfull, if_pos hfull]
        rfl
      rw [if_neg hfull, if_neg hfull]
      change (if st.offset = slice.len then _ else _) = _
      by_cases hempty : st.offset = slice.len
      · rw [if_pos hempty, if_pos hempty]
        change planLoopRaw out want limit budget body rest
          (PlanState.raw { st with index := st.index + 1, offset := 0 }) m = _
        exact ih hrest (fun _ _ => Nat.zero_le _) ⟨hs.same, hs.runLe, hs.run, hs.iovecs, hs.closed⟩ hpos
      rw [if_neg hempty, if_neg hempty]
      rcases haddr : slice.addr with _ | addr
      · rfl
      change (if buffersAlias (addr + st.offset) (min (slice.len - st.offset) (limit - st.pos)) _ _ then _
        else match st.raw.place want budget body (addr + st.offset)
          (min (slice.len - st.offset) (limit - st.pos)) m with
        | none => _
        | some (st', m) => if st.offset + min (slice.len - st.offset) (limit - st.pos) = slice.len then _
            else _) = _
      set len := min (slice.len - st.offset) (limit - st.pos) with hlen
      by_cases halias : buffersAlias (addr + st.offset) len out.addr out.size = true
      · rw [if_pos halias]
        dsimp only
        rw [if_pos halias]
        rfl
      rw [if_neg halias]
      dsimp only
      rw [if_neg halias]
      obtain ⟨hread, hsep⟩ := piece_in_memory hroom hs (hmem slice List.mem_cons_self) haddr
        (show st.offset + len ≤ slice.len by omega) (by omega) (by omega) (Bool.eq_false_iff.mpr halias)
      set piece := (slice.bytes.drop st.offset).take len with hpiece
      have hpieceLen : piece.length = len := by rw [← hread, Memory.read_length]
      rw [place_raw hs.runLe hpieceLen hread hsep]
      rcases hadd : st.add want budget body (addr + st.offset) piece with _ | st'
      · rfl
      have hs' := hs.add hadd (by rw [hpieceLen]; exact Bool.eq_false_iff.mpr halias)
      have hpos' : st'.pos ≤ limit := by
        rw [add_pos hadd, hpieceLen]
        omega
      dsimp only [Option.map_some]
      by_cases hends : st.offset + len = slice.len
      · rw [if_pos hends, if_pos hends]
        change planLoopRaw out want limit budget body rest
          (PlanState.raw { st' with index := st.index + 1, offset := 0 }) _ = _
        exact ih hrest (fun _ _ => Nat.zero_le _) ⟨hs'.same, hs'.runLe, hs'.run, hs'.iovecs, hs'.closed⟩ hpos'
      · rw [if_neg hends, if_neg hends]
        rfl

/-- **The planner with the bytes in its state is the planner.** -/
theorem planSealBodyRaw_eq {input : SealInput} (hv : input.Valid) (hroom : input.out.HasRoom body want)
    (hmem : ∀ s ∈ input.slices, s.InMemory m) :
    planSealBodyRaw input want body budget m
      = ((planSealBodyMem input want body budget m).1.map fun (input, iovecs, len) =>
          (input, iovecs.map RawIovec.of, len), (planSealBodyMem input want body budget m).2) := by
  have hlimit : input.out.HasRoom body (min want input.remaining) :=
    ⟨hroom.1, Nat.le_trans (Nat.add_le_add_left (Nat.min_le_left _ _) _) hroom.2⟩
  have hloop := planLoopRaw_eq want budget (input.slices.drop input.index) hlimit
    (fun s hs => hmem s (List.mem_of_mem_drop hs)) (fun s hs => within_head hv hs)
    (staged_start input.out body m input.index input.offset) (Nat.zero_le _)
  have hstaged := planLoopMem_spec want budget (input.slices.drop input.index)
    (staged_start input.out body m input.index input.offset)
    (show 0 ≤ min want input.remaining from Nat.zero_le _)
  unfold planSealBodyRaw planSealBodyMem
  change (match planLoopRaw input.out want (min want input.remaining) budget body _
    (PlanState.raw ⟨input.index, input.offset, 0, [], []⟩) m with
    | (.error e, m) => _
    | (.ok st, m) => _) = _
  rw [hloop]
  rcases hp : planLoopMem input.out want (min want input.remaining) budget body
    (input.slices.drop input.index) ⟨input.index, input.offset, 0, [], []⟩ m with ⟨e | st, m'⟩
  · rfl
  rw [hp] at hstaged
  have hle := hstaged.1.runLe
  dsimp only [Except.map]
  by_cases hrun : st.run = []
  · rw [PlanState.raw_closeRun_nil hle hrun, if_pos hrun]
    rfl
  rw [PlanState.raw_closeRun hle hrun, if_neg hrun]
  by_cases hslot : st.iovecs.length < budget
  · rw [if_pos hslot, if_pos hslot]
    rfl
  · rw [if_neg hslot, if_neg hslot]

end Refine

end Btls.Seal
