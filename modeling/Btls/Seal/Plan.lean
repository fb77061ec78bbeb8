import Btls.Support.Slices
import Btls.Tls.Record

/-!
# Seal — Plan

How the body of one record is laid out from the caller's slices: which pieces are copied into the
record and encrypted there, and which are gathered and encrypted from where they are.

`planLoop` is the loop of `tls_plan_seal_body`.  A piece is gathered if it is the whole record, or
long enough and there are slots for it and for the copied run that it ends (`Gathers`); else it goes
onto the open run.  `Laid` is the invariant: what is in the closed entries and in the open run is
what has been taken of the input, a slot is kept for that run and, until the record is full, one for
what may follow.  Adding a piece keeps it either way (`Laid.add`), so no `BSSL_CHECK` fails.  `LoopAt`
adds where the loop stands in the slices, and is what a pass keeps (`LoopAt.add`, `LoopAt.next`).

`planSealBody_spec`: a plan is exactly the next bytes of the input, whatever it copies and gathers,
in pieces that tile the record, fit the sealer's array and are apart from the output or encrypted in
place (`Placed`); it fails only for bytes that cannot be read (`Unreadable`), of a null slice or one
in the output.
-/

namespace Btls.Seal

open Btls.Support Btls.Support.Slices Btls.Tls

/-- `kSealGatherMin`. -/
def kSealGatherMin : Nat := 4096

/-- `CRYPTO_IVEC`; `addr` is `none` for a null pointer. -/
structure Slice where
  addr : Option Nat
  bytes : Bytes

def Slice.len (s : Slice) : Nat := s.bytes.length

/-- The caller's output. -/
structure OutSpan where
  addr : Nat
  size : Nat

/-- Reads the caller's slices, at most `remaining` bytes more. -/
structure SealInput where
  slices : List Slice
  index : Nat
  offset : Nat
  remaining : Nat
  out : OutSpan

namespace SealInput

def new (slices : List Slice) (maxIn : Nat) (out : OutSpan) : SealInput := ⟨slices, 0, 0, maxIn, out⟩

def availableLoop (limit : Nat) : List Slice → Nat → Nat → Nat
  | [], _, n => n
  | s :: rest, off, n =>
      if n < limit then availableLoop limit rest 0 (n + min (s.len - off) (limit - n)) else n

/-- How many of the next `limit` bytes exist. -/
def available (input : SealInput) (limit : Nat) : Nat :=
  availableLoop (min limit input.remaining) (input.slices.drop input.index) input.offset 0

/-- All bytes of the slices not read yet. -/
def unread (input : SealInput) : Bytes :=
  Slices.unread (input.slices.map Slice.bytes) input.index input.offset

/-- The bytes still to read. -/
def rest (input : SealInput) : Bytes := input.unread.take input.remaining

/-- The cursor is within its slice. -/
def Valid (input : SealInput) : Prop :=
  Within (input.slices.map Slice.bytes) input.index input.offset

end SealInput

/-- Why a plan fails; `checkFailed` is a failed `BSSL_CHECK`, which ends the process. -/
inductive PlanError where
  | reason (r : SslReason)
  | checkFailed
  deriving DecidableEq

/-- The local state of `tls_plan_seal_body`.  `run` holds `body[run, pos)`, the open copied run. -/
structure PlanState where
  index : Nat
  offset : Nat
  pos : Nat
  run : Bytes
  iovecs : List Iovec

namespace PlanState

/-- Ends the open copied run. -/
def closeRun (st : PlanState) (body : Nat) : List Iovec :=
  st.iovecs ++ [⟨body + (st.pos - st.run.length), body + (st.pos - st.run.length), st.run⟩]

/-- Whether a piece of `len` bytes is gathered.  Gathering spends a slot on the open run, one on the
piece and, unless the record ends here, keeps one for whatever follows. -/
def Gathers (st : PlanState) (want budget len : Nat) : Prop :=
  (st.pos = 0 ∧ len = want) ∨
    (kSealGatherMin ≤ len
      ∧ st.iovecs.length + (if st.run = [] then 0 else 1) + 1
          + (if st.pos + len = want then 0 else 1) ≤ budget)

instance (st : PlanState) (want budget len : Nat) : Decidable (st.Gathers want budget len) :=
  inferInstanceAs (Decidable (_ ∨ _))

/-- Adds a piece, gathered or copied; `none` where a `BSSL_CHECK` fails. -/
def add (st : PlanState) (want budget body addr : Nat) (piece : Bytes) : Option PlanState :=
  if st.Gathers want budget piece.length then
    if st.run = [] then
      if st.iovecs.length < budget then
        some { st with
          iovecs := st.iovecs ++ [⟨body + st.pos, addr, piece⟩]
          pos := st.pos + piece.length }
      else none
    else if st.iovecs.length + 1 < budget then
      some { st with
        iovecs := st.closeRun body ++ [⟨body + st.pos, addr, piece⟩]
        pos := st.pos + piece.length
        run := [] }
    else none
  else some { st with run := st.run ++ piece, pos := st.pos + piece.length }

end PlanState

/-- The loop of `tls_plan_seal_body`. -/
def planLoop (out : OutSpan) (want limit budget body : Nat) :
    List Slice → PlanState → Except PlanError PlanState
  | [], st => .ok st
  | slice :: rest, st =>
      if limit ≤ st.pos then .ok st
      else if st.offset = slice.len then
        -- An empty slice; its pointer is not read.
        planLoop out want limit budget body rest { st with index := st.index + 1, offset := 0 }
      else
        match slice.addr with
        | none => .error (.reason .passedNullParameter)
        | some addr =>
            let len := min (slice.len - st.offset) (limit - st.pos)
            if buffersAlias (addr + st.offset) len out.addr out.size then
              .error (.reason .outputAliasesInput)
            else
              match st.add want budget body (addr + st.offset)
                  ((slice.bytes.drop st.offset).take len) with
              | none => .error .checkFailed
              | some st' =>
                  if st.offset + len = slice.len then
                    planLoop out want limit budget body rest
                      { st' with index := st.index + 1, offset := 0 }
                  -- The slice outlasts the record, so the loop's next test ends it.
                  else .ok { st' with offset := st.offset + len }

/-- The input once `st` has been planned. -/
def SealInput.advanceTo (input : SealInput) (st : PlanState) : SealInput :=
  { input with
    index := st.index
    offset := st.offset
    remaining := input.remaining - st.pos }

/-- Lays out the next record body of at most `want` bytes at `body`, in at most `budget` pieces. -/
def planSealBody (input : SealInput) (want body budget : Nat) :
    Except PlanError (SealInput × List Iovec × Nat) :=
  match planLoop input.out want (min want input.remaining) budget body
      (input.slices.drop input.index) ⟨input.index, input.offset, 0, [], []⟩ with
  | .error e => .error e
  | .ok st =>
      if st.run = [] then .ok (input.advanceTo st, st.iovecs, st.pos)
      else if st.iovecs.length < budget then .ok (input.advanceTo st, st.closeRun body, st.pos)
      else .error .checkFailed

/-! ### The bytes of a plan -/

theorem availableLoop_eq {limit n off : Nat} {d : List Slice} (hn : n ≤ limit)
    (hoff : ∀ s, d.head? = some s → off ≤ s.len) :
    SealInput.availableLoop limit d off n
      = min limit (n + ((d.map Slice.bytes).flatten.length - off)) := by
  induction d generalizing n off with
  | nil => simp [SealInput.availableLoop]; omega
  | cons s rest ih =>
      have hs : off ≤ s.len := hoff s rfl
      have hlen : s.len = s.bytes.length := rfl
      simp only [SealInput.availableLoop, List.map_cons, List.flatten_cons, List.length_append]
      split
      · rw [ih (by omega) (fun _ _ => Nat.zero_le _)]
        omega
      · omega

theorem within_head {input : SealInput} (hv : input.Valid) {s : Slice}
    (h : (input.slices.drop input.index).head? = some s) : input.offset ≤ s.len := by
  refine hv s.bytes ?_
  rw [List.head?_drop] at h
  simp [h]

/-- `Available` counts what is there. -/
theorem available_eq {input : SealInput} (hv : input.Valid) (limit : Nat) :
    input.available limit = min limit input.rest.length := by
  have hlen : input.unread.length
      = ((input.slices.drop input.index).map Slice.bytes).flatten.length - input.offset := by
    rw [SealInput.unread, Slices.unread, List.length_drop, List.map_drop]
  rw [SealInput.available, availableLoop_eq (Nat.zero_le _) (fun s hs => within_head hv hs),
    SealInput.rest, List.length_take, hlen]
  omega

/-! ### Where the pieces are -/

/-- A slice the planner reads: not null, and apart from the output.  An empty one is not read. -/
def Slice.Readable (out : OutSpan) (s : Slice) : Prop :=
  s.bytes ≠ [] → ∃ addr, s.addr = some addr ∧ buffersAlias addr s.len out.addr out.size = false

/-- Of the `n` bytes after the first `k`, some are of a null slice, or in the output. -/
def Unreadable (out : OutSpan) : List Slice → (k n : Nat) → Prop
  | [], _, _ => False
  | s :: rest, k, n =>
      let len := min (s.len - k) n
      (0 < len ∧ ∀ addr, s.addr = some addr → buffersAlias (addr + k) len out.addr out.size = true)
        ∨ Unreadable out rest (k - s.len) (n - len)

/-- What a plan of at most `want` bytes cannot read. -/
def SealInput.Unreadable (input : SealInput) (want : Nat) : Prop :=
  Seal.Unreadable input.out (input.slices.drop input.index) input.offset (min want input.remaining)

section Reading

variable {out : OutSpan} {slices : List Slice}

/-- There is nothing behind the last slice. -/
theorem not_unreadable_end {k n : Nat} (h : (slices.map Slice.bytes).flatten.length ≤ k) :
    ¬ Unreadable out slices k n := by
  induction slices generalizing k n with
  | nil => exact id
  | cons s rest ih =>
      rw [List.map_cons, List.flatten_cons, List.length_append, ← Slice.len] at h
      rintro (⟨hpos, -⟩ | h')
      · omega
      · exact ih (by omega) h'

/-- Only bytes that there are count. -/
theorem unreadable_min (k n : Nat) :
    Unreadable out slices k (min n ((slices.map Slice.bytes).flatten.length - k))
      ↔ Unreadable out slices k n := by
  induction slices generalizing k n with
  | nil => exact Iff.rfl
  | cons s rest ih =>
      rw [List.map_cons, List.flatten_cons, List.length_append, ← Slice.len]
      have hhead : min (s.len - k) (min n (s.len + (rest.map Slice.bytes).flatten.length - k))
          = min (s.len - k) n := by omega
      have htail : min n (s.len + (rest.map Slice.bytes).flatten.length - k) - min (s.len - k) n
          = min (n - min (s.len - k) n) ((rest.map Slice.bytes).flatten.length - (k - s.len)) := by
        omega
      rw [Unreadable, Unreadable, hhead, htail, ih]

theorem unreadable_drop (i off n : Nat) :
    Unreadable out slices (((slices.take i).map Slice.bytes).flatten.length + off) n
      ↔ Unreadable out (slices.drop i) off n := by
  induction i generalizing slices with
  | zero => rw [List.take_zero, List.map_nil, List.flatten_nil, List.length_nil, Nat.zero_add, List.drop_zero]
  | succ i ih =>
      cases slices with
      | nil => exact Iff.rfl
      | cons s rest =>
          have hlen : ((List.take (i + 1) (s :: rest)).map Slice.bytes).flatten.length
              = s.len + ((rest.take i).map Slice.bytes).flatten.length := by
            rw [List.take_succ_cons, List.map_cons, List.flatten_cons, List.length_append, ← Slice.len]
          have hnone : min (s.len - (s.len + ((rest.take i).map Slice.bytes).flatten.length + off)) n
              = 0 := by omega
          have hrest : s.len + ((rest.take i).map Slice.bytes).flatten.length + off - s.len
              = ((rest.take i).map Slice.bytes).flatten.length + off := by omega
          rw [hlen, Unreadable, hnone, hrest, Nat.sub_zero, ih, List.drop_succ_cons]
          exact ⟨fun h => h.resolve_left fun h => Nat.lt_irrefl 0 h.1, .inr⟩

/-- The cursor stands behind the first `k` bytes, so these are what it cannot read. -/
theorem SealInput.unreadable_iff {input : SealInput} {k : Nat}
    (h : input.unread = (input.slices.map Slice.bytes).flatten.drop k) (want : Nat) :
    input.Unreadable want
      ↔ Seal.Unreadable input.out input.slices k (input.rest.take want).length := by
  set total := (input.slices.map Slice.bytes).flatten with htotal
  have hn : (input.rest.take want).length = min (min want input.remaining) (total.length - k) := by
    rw [rest, h, List.length_take, List.length_take, List.length_drop]
    omega
  rw [hn, unreadable_min, SealInput.Unreadable, ← unreadable_drop]
  set p := ((input.slices.take input.index).map Slice.bytes).flatten.length + input.offset with hp
  have hsplit : total.drop p = input.unread := by
    have hjoin : total = ((input.slices.take input.index).map Slice.bytes).flatten
        ++ ((input.slices.drop input.index).map Slice.bytes).flatten := by
      rw [htotal, ← List.flatten_append, ← List.map_append, List.take_append_drop]
    rw [hjoin, hp, ← List.drop_drop, List.drop_left, unread, Slices.unread, List.map_drop]
  have hlen := congrArg List.length (hsplit.trans h)
  rw [List.length_drop, List.length_drop] at hlen
  by_cases hend : total.length ≤ k
  · exact iff_of_false (not_unreadable_end (by rw [← htotal]; omega))
      (not_unreadable_end (by rw [← htotal]; exact hend))
  · rw [show p = k by omega]

/-- A part of a slice overlaps nothing the slice does not. -/
theorem Slice.Readable.part {out : OutSpan} {s : Slice} (h : s.Readable out) {addr off len : Nat}
    (haddr : s.addr = some addr) (hpos : 0 < len) (hle : off + len ≤ s.len) :
    buffersAlias (addr + off) len out.addr out.size = false := by
  have hlen : s.len = s.bytes.length := rfl
  obtain ⟨addr', haddr', hno⟩ := h (List.length_pos_iff.mp (by omega))
  obtain rfl : addr' = addr := by simpa [haddr'] using haddr
  simp only [buffersAlias, Bool.and_eq_false_iff, decide_eq_false_iff_not] at hno ⊢
  omega

/-- What cannot be read is of a slice that cannot. -/
theorem Unreadable.exists {k n : Nat} (h : Unreadable out slices k n) :
    ∃ s ∈ slices, ¬ s.Readable out := by
  induction slices generalizing k n with
  | nil => exact h.elim
  | cons s rest ih =>
      rcases h with ⟨hpos, halias⟩ | h
      · refine ⟨s, List.mem_cons_self, fun hread => ?_⟩
        have hlen : s.len = s.bytes.length := rfl
        obtain ⟨addr, haddr, -⟩ := hread (List.length_pos_iff.mp (by omega))
        have hno : buffersAlias (addr + k) (min (s.len - k) n) out.addr out.size = false :=
          hread.part haddr hpos (by omega)
        rw [halias addr haddr] at hno
        cases hno
      · obtain ⟨s', hs', hnot⟩ := ih h
        exact ⟨s', List.mem_cons_of_mem _ hs', hnot⟩

end Reading

/-- A piece is encrypted in place, or read from outside the output. -/
def Apart (out : OutSpan) (v : Iovec) : Prop :=
  v.inp = v.out ∨ buffersAlias v.inp v.bytes.length out.addr out.size = false

/-- The pieces' outputs are one region from `body` on, in order. -/
def Tiles : (body : Nat) → List Iovec → Prop
  | _, [] => True
  | body, v :: vs => v.out = body ∧ Tiles (body + v.bytes.length) vs

@[simp] theorem join_nil : Iovec.join [] = [] := rfl

@[simp] theorem join_cons (v : Iovec) (vs : List Iovec) :
    Iovec.join (v :: vs) = v.bytes ++ Iovec.join vs := rfl

@[simp] theorem join_singleton (v : Iovec) : Iovec.join [v] = v.bytes := by simp

@[simp] theorem join_append (vs ws : List Iovec) :
    Iovec.join (vs ++ ws) = Iovec.join vs ++ Iovec.join ws := by
  simp [Iovec.join]

theorem tiles_append {body : Nat} {vs ws : List Iovec} (hv : Tiles body vs)
    (hw : Tiles (body + (Iovec.join vs).length) ws) : Tiles body (vs ++ ws) := by
  induction vs generalizing body with
  | nil => exact hw
  | cons v vs ih =>
      refine ⟨hv.1, ih hv.2 ?_⟩
      rwa [join_cons, List.length_append, ← Nat.add_assoc] at hw

/-- A piece of a tiled body is within the body. -/
theorem Tiles.within {body : Nat} {vs : List Iovec} (h : Tiles body vs) {v : Iovec} (hv : v ∈ vs) :
    body ≤ v.out ∧ v.out + v.bytes.length ≤ body + (Iovec.join vs).length := by
  induction vs generalizing body with
  | nil => cases hv
  | cons w ws ih =>
      rw [join_cons, List.length_append]
      rcases List.mem_cons.mp hv with rfl | hv
      · have := h.1
        omega
      · have := ih h.2 hv
        omega

/-- `body` is a plan for the bytes `taken`, in at most `budget` pieces. -/
structure Placed (out : OutSpan) (body budget : Nat) (taken : Bytes) (vs : List Iovec) : Prop where
  joined : Iovec.join vs = taken
  tiles : Tiles body vs
  apart : ∀ v ∈ vs, Apart out v
  slots : vs.length ≤ budget

/-- Adding a piece at the end. -/
theorem Placed.snoc {out : OutSpan} {body budget addr : Nat} {taken piece : Bytes}
    {vs : List Iovec} (h : Placed out body budget taken vs) (hslot : vs.length < budget)
    (hapart : Apart out ⟨body + taken.length, addr, piece⟩) :
    Placed out body budget (taken ++ piece)
      (vs ++ [⟨body + taken.length, addr, piece⟩]) where
  joined := by simp [h.joined]
  tiles := tiles_append h.tiles ⟨by rw [h.joined], trivial⟩
  apart := by
    intro v hv
    rcases List.mem_append.mp hv with hv | hv
    · exact h.apart v hv
    · obtain rfl := List.mem_singleton.mp hv
      exact hapart
  slots := by
    rw [List.length_append, List.length_singleton]
    exact hslot

/-! ### What a plan is -/

/-- The planner's state once it has laid out `taken`: `closed` in finished pieces, the rest in the
open run, with a slot kept for that run and, before the record is full, for what follows. -/
structure Laid (out : OutSpan) (want body budget : Nat) (taken : Bytes) (st : PlanState) :
    Prop where
  pos : st.pos = taken.length
  closed : ∃ closed, taken = closed ++ st.run ∧ Placed out body budget closed st.iovecs
  run : st.run ≠ [] → st.iovecs.length < budget
  spare : st.pos < want → st.iovecs.length < budget

section Plan

variable {out : OutSpan} {want limit body budget : Nat} {taken : Bytes} {st : PlanState}

theorem laid_nil (out : OutSpan) (want body index offset : Nat) (h : 0 < budget) :
    Laid out want body budget [] ⟨index, offset, 0, [], []⟩ where
  pos := rfl
  closed := ⟨[], rfl, ⟨rfl, trivial, fun _ hv => absurd hv List.not_mem_nil, Nat.zero_le _⟩⟩
  run := fun h => absurd rfl h
  spare := fun _ => h

/-- Closing the open run. -/
theorem Laid.close (h : Laid out want body budget taken st) (hrun : st.run ≠ []) :
    Placed out body budget taken (st.closeRun body) := by
  obtain ⟨closed, htaken, hp⟩ := h.closed
  have hpos : st.pos - st.run.length = closed.length := by
    rw [h.pos, htaken, List.length_append]
    omega
  rw [PlanState.closeRun, hpos, htaken]
  exact hp.snoc (h.run hrun) (.inl rfl)

/-- The entries with the open run, if there is one, closed behind them. -/
def PlanState.closed (st : PlanState) (body : Nat) : List Iovec :=
  if st.run = [] then st.iovecs else st.closeRun body

/-- What adding a piece can do: gather it behind the closed runs, or copy it onto the open one. -/
theorem PlanState.add_cases {st' : PlanState} {addr : Nat} {piece : Bytes}
    (h : st.add want budget body addr piece = some st') :
    (st.Gathers want budget piece.length
      ∧ st' = { st with
          iovecs := st.closed body ++ [⟨body + st.pos, addr, piece⟩]
          pos := st.pos + piece.length
          run := [] })
    ∨ (¬ st.Gathers want budget piece.length
      ∧ st' = { st with run := st.run ++ piece, pos := st.pos + piece.length }) := by
  unfold PlanState.add at h
  by_cases hgather : st.Gathers want budget piece.length
  · rw [if_pos hgather] at h
    refine .inl ⟨hgather, ?_⟩
    by_cases hrun : st.run = []
    · rw [if_pos hrun] at h
      obtain ⟨-, h⟩ := Option.ite_none_right_eq_some.mp h
      rw [PlanState.closed, if_pos hrun, ← Option.some.inj h, hrun]
    · rw [if_neg hrun] at h
      obtain ⟨-, h⟩ := Option.ite_none_right_eq_some.mp h
      rw [PlanState.closed, if_neg hrun, ← Option.some.inj h]
  · rw [if_neg hgather] at h
    exact .inr ⟨hgather, (Option.some.inj h).symm⟩

/-- Where the loop is does not show in what it has laid out. -/
theorem Laid.moveTo (h : Laid out want body budget taken st) (index offset : Nat) :
    Laid out want body budget taken { st with index, offset } := ⟨h.pos, h.closed, h.run, h.spare⟩

/-- A piece is gathered or copied; either way no `BSSL_CHECK` fails. -/
theorem Laid.add (h : Laid out want body budget taken st) {addr : Nat} {piece : Bytes}
    (hpiece : piece ≠ []) (hwant : st.pos < want)
    (hapart : buffersAlias addr piece.length out.addr out.size = false) :
    ∃ st', st.add want budget body addr piece = some st'
      ∧ st'.index = st.index ∧ Laid out want body budget (taken ++ piece) st' := by
  have hlen := List.length_pos_iff.mpr hpiece
  have hspare := h.spare hwant
  have hgathered : Apart out ⟨body + taken.length, addr, piece⟩ := .inr hapart
  obtain ⟨closed, htaken, hp⟩ := h.closed
  unfold PlanState.add
  by_cases hgather : st.Gathers want budget piece.length
  case neg =>
    rw [if_neg hgather]
    refine ⟨_, rfl, rfl, ⟨?_, ⟨closed, ?_, hp⟩, fun _ => hspare, fun _ => hspare⟩⟩
    · simp [h.pos]
    · simp [htaken]
  rw [if_pos hgather]
  -- With a run open the piece takes two slots, and the condition for gathering counts both.
  by_cases hrun : st.run = []
  · rw [if_pos hrun, if_pos hspare]
    obtain rfl : closed = taken := by simp [htaken, hrun]
    have hp' := hp.snoc hspare hgathered
    rw [← h.pos] at hp'
    refine ⟨_, rfl, rfl, ⟨by simp [h.pos], ⟨_, by simp [hrun], hp'⟩, ?_, ?_⟩⟩
    · exact fun hne => absurd hrun hne
    · simp only [List.length_append, List.length_singleton]
      intro hmore
      rcases hgather with ⟨-, hfull⟩ | ⟨-, hslots⟩
      · omega
      · rw [if_pos hrun, if_neg (by omega)] at hslots
        omega
  · have hslots : st.iovecs.length + 2 + (if st.pos + piece.length = want then 0 else 1)
        ≤ budget := by
      rcases hgather with ⟨hzero, -⟩ | ⟨-, hslots⟩
      · rw [h.pos, htaken, List.length_append] at hzero
        exact absurd (List.length_eq_zero_iff.mp (by omega)) hrun
      · rw [if_neg hrun] at hslots
        omega
    rw [if_neg hrun, if_pos (by omega)]
    have hlength : (st.closeRun body).length = st.iovecs.length + 1 := by
      simp [PlanState.closeRun]
    have hp' := (h.close hrun).snoc (by omega) hgathered
    rw [← h.pos] at hp'
    refine ⟨_, rfl, rfl, ⟨by simp [h.pos], ⟨_, by simp, hp'⟩, ?_, ?_⟩⟩
    · exact fun hne => absurd rfl hne
    · simp only [List.length_append, List.length_singleton, hlength]
      intro hmore
      rw [if_neg (by omega)] at hslots
      omega

variable (out want body budget) in
/-- Where the loop is: the slices from its cursor on are `d`, and what it has laid out and what is unread join
to `total`. -/
structure LoopAt (limit : Nat) (slices : List Slice) (total : Bytes) (d : List Slice) (taken : Bytes)
    (st : PlanState) : Prop where
  left : slices.drop st.index = d
  within : Within (slices.map Slice.bytes) st.index st.offset
  laid : Laid out want body budget taken st
  le : taken.length ≤ limit
  joins : taken ++ unread (slices.map Slice.bytes) st.index st.offset = total

namespace LoopAt

variable {slices rest d : List Slice} {slice : Slice} {total : Bytes}

theorem drop_bytes (h : LoopAt out want body budget limit slices total (slice :: rest) taken st) :
    (slices.map Slice.bytes).drop st.index = slice.bytes :: rest.map Slice.bytes := by
  rw [← List.map_drop, h.left, List.map_cons]

theorem le_total (h : LoopAt out want body budget limit slices total d taken st) :
    taken.length ≤ total.length := by
  rw [← h.joins, List.length_append]
  exact Nat.le_add_right _ _

theorem offset_le (h : LoopAt out want body budget limit slices total (slice :: rest) taken st) :
    st.offset ≤ slice.len :=
  h.within.le_of_drop h.drop_bytes

/-- Behind a slice that is read to its end. -/
theorem next (h : LoopAt out want body budget limit slices total (slice :: rest) taken st)
    (hends : st.offset = slice.len) {i : Nat} (hi : st.index = i) :
    LoopAt out want body budget limit slices total rest taken { st with index := i + 1, offset := 0 } := by
  subst hi
  refine ⟨drop_succ_of_drop h.left, within_zero, h.laid.moveTo _ _, h.le, ?_⟩
  rw [← h.joins]
  exact congrArg (taken ++ ·) (unread_succ h.drop_bytes hends)

/-- Behind a piece of a slice that can be read. -/
theorem add (h : LoopAt out want body budget limit slices total (slice :: rest) taken st)
    (hlimit : limit ≤ want) {addr len : Nat} (hpos : 0 < len) (hslice : st.offset + len ≤ slice.len)
    (hroom : st.pos + len ≤ limit) (hapart : buffersAlias addr len out.addr out.size = false) :
    ∃ st', st.add want budget body addr ((slice.bytes.drop st.offset).take len) = some st'
      ∧ st'.index = st.index ∧ st'.pos = st.pos + len
      ∧ LoopAt out want body budget limit slices total (slice :: rest)
        (taken ++ (slice.bytes.drop st.offset).take len) { st' with offset := st.offset + len } := by
  have hlen : ((slice.bytes.drop st.offset).take len).length = len := by
    rw [List.length_take, List.length_drop]
    exact Nat.min_eq_left (Nat.le_sub_of_add_le' hslice)
  obtain ⟨st', hadd, hindex, hl⟩ := h.laid.add (List.length_pos_iff.mp (hlen.symm ▸ hpos)) (by omega)
    (hlen.symm ▸ hapart)
  have hpos' : st'.pos = st.pos + len := by rw [hl.pos, List.length_append, h.laid.pos, hlen]
  refine ⟨st', hadd, hindex, hpos', ⟨?_, ?_, hl.moveTo _ _, ?_, ?_⟩⟩
  · rw [← h.left]
    exact congrArg (slices.drop ·) hindex
  · intro b hb
    have hb' : (slices.map Slice.bytes)[st.index]? = some b := by
      rw [← hindex]
      exact hb
    rw [getElem?_of_drop h.drop_bytes] at hb'
    exact Option.some.inj hb' ▸ hslice
  · rw [← hl.pos, hpos']
    exact hroom
  · rw [← h.joins, unread_add h.drop_bytes hslice, List.append_assoc]
    simp only [hindex]

end LoopAt

/-- A slice that can be read up to its end is not what cannot be read. -/
theorem Unreadable.next {slice : Slice} {rest : List Slice} {offset room : Nat} (hoff : offset ≤ slice.len)
    (h : Unreadable out rest 0 (room - (slice.len - offset))) : Unreadable out (slice :: rest) offset room := by
  refine .inr ?_
  rw [Nat.sub_eq_zero_of_le hoff,
    show room - min (slice.len - offset) room = room - (slice.len - offset) by omega]
  exact h

/-- The loop lays out the input in order until the record is full or the input ends, and fails where
there are bytes that it cannot read. -/
theorem planLoop_spec {slices d : List Slice} {total : Bytes} (hlimit : limit ≤ want)
    (h : LoopAt out want body budget limit slices total d taken st) :
    match planLoop out want limit budget body d st with
    | .ok st' => ∃ taken', Laid out want body budget taken' st'
        ∧ taken' ++ unread (slices.map Slice.bytes) st'.index st'.offset = total
        ∧ Within (slices.map Slice.bytes) st'.index st'.offset
        ∧ taken'.length = min limit total.length
    | .error e => e ≠ .checkFailed ∧ Unreadable out d st.offset (limit - st.pos) := by
  -- A state in which the record is full, or the input has ended, is the last.
  have hdone : ∀ {d : List Slice} {taken : Bytes} {st : PlanState},
      LoopAt out want body budget limit slices total d taken st → taken.length = min limit total.length →
      ∃ taken', Laid out want body budget taken' st
        ∧ taken' ++ unread (slices.map Slice.bytes) st.index st.offset = total
        ∧ Within (slices.map Slice.bytes) st.index st.offset ∧ taken'.length = min limit total.length :=
    fun h hlen => ⟨_, h.laid, h.joins, h.within, hlen⟩
  induction d generalizing st taken with
  | nil =>
      have hnil : unread (slices.map Slice.bytes) st.index st.offset = [] :=
        unread_of_drop_nil (by rw [← List.map_drop, h.left, List.map_nil])
      refine hdone h ?_
      have hlimit := h.le
      rw [← h.joins, hnil, List.append_nil]
      omega
  | cons slice rest ih =>
      have hoff := h.offset_le
      have hpos := h.laid.pos
      have htotal := h.le_total
      unfold planLoop
      by_cases hfull : limit ≤ st.pos
      · rw [if_pos hfull]
        exact hdone h (by have := h.le; omega)
      rw [if_neg hfull]
      by_cases hempty : st.offset = slice.len
      · rw [if_pos hempty]
        have hih := ih (h.next hempty rfl)
        rcases hp : planLoop out want limit budget body rest { st with index := st.index + 1, offset := 0 }
          with e | st' <;> rw [hp] at hih
        · exact ⟨hih.1, .next hoff (by rw [hempty, Nat.sub_self, Nat.sub_zero]; exact hih.2)⟩
        · exact hih
      rw [if_neg hempty]
      rcases haddr : slice.addr with _ | addr
      · exact ⟨nofun, .inl ⟨by omega, fun addr hsome => absurd (haddr.symm.trans hsome) nofun⟩⟩
      simp only
      set len := min (slice.len - st.offset) (limit - st.pos) with hlenDef
      by_cases halias : buffersAlias (addr + st.offset) len out.addr out.size = true
      · rw [if_pos halias]
        refine ⟨nofun, .inl ⟨by omega, fun addr' hsome => ?_⟩⟩
        obtain rfl := Option.some.inj (haddr.symm.trans hsome)
        exact halias
      rw [if_neg halias]
      obtain ⟨st', hadd, hindex, hpos', h'⟩ := h.add hlimit (by omega) (by omega) (by omega)
        (Bool.not_eq_true _ ▸ halias)
      rw [hadd]
      simp only
      have hlen : (taken ++ (slice.bytes.drop st.offset).take len).length = st.pos + len :=
        h'.laid.pos.symm.trans hpos'
      have htotal' := h'.le_total
      -- The slice ends and the loop goes on, or the record is full.
      by_cases hends : st.offset + len = slice.len
      · rw [if_pos hends]
        have hih := ih (h'.next hends hindex)
        dsimp only at hih
        rcases hp : planLoop out want limit budget body rest { st' with index := st.index + 1, offset := 0 }
          with e | st'' <;> rw [hp] at hih
        · refine ⟨hih.1, .next hoff ?_⟩
          rw [Nat.sub_sub, show st.pos + (slice.len - st.offset) = st'.pos by omega]
          exact hih.2
        · exact hih
      · rw [if_neg hends]
        exact hdone h' (by omega)

end Plan

/-- What a plan takes of the slices, and where it leaves the cursor. -/
theorem planSealBody_cursor {input : SealInput} (hv : input.Valid) (want body : Nat) {budget : Nat}
    (hbudget : 0 < budget) :
    match planSealBody input want body budget with
    | .ok (input', iovecs, len) =>
        Placed input.out body budget (input.unread.take len) iovecs
          ∧ len = min (min want input.remaining) input.unread.length
          ∧ input'.Valid ∧ input'.slices = input.slices ∧ input'.out = input.out
          ∧ input'.unread = input.unread.drop len ∧ input'.remaining = input.remaining - len
    | .error e => e ≠ .checkFailed ∧ input.Unreadable want := by
  unfold planSealBody
  have hstart : LoopAt input.out want body budget (min want input.remaining) input.slices input.unread
      (input.slices.drop input.index) [] ⟨input.index, input.offset, 0, [], []⟩ :=
    ⟨rfl, hv, laid_nil input.out want body input.index input.offset hbudget, Nat.zero_le _, rfl⟩
  have hloop := planLoop_spec (Nat.min_le_left want input.remaining) hstart
  rcases hp : planLoop input.out want (min want input.remaining) budget body
    (input.slices.drop input.index) ⟨input.index, input.offset, 0, [], []⟩ with e | st <;>
    rw [hp] at hloop
  · exact hloop
  obtain ⟨taken, hl, htotal, hw, hlen⟩ := hloop
  change taken ++ _ = input.unread at htotal
  have htaken : input.unread.take st.pos = taken := by rw [hl.pos, ← htotal, List.take_left]
  have hleft : input.unread.drop st.pos
      = unread (input.slices.map Slice.bytes) st.index st.offset := by
    rw [hl.pos, ← htotal, List.drop_left]
  by_cases hrun : st.run = []
  · obtain ⟨closed, hclosed, hplaced⟩ := hl.closed
    obtain rfl : closed = taken := by simp [hclosed, hrun]
    dsimp only
    rw [if_pos hrun]
    exact ⟨htaken.symm ▸ hplaced, hl.pos.trans hlen, hw, rfl, rfl, hleft.symm, rfl⟩
  · dsimp only
    rw [if_neg hrun, if_pos (hl.run hrun)]
    exact ⟨htaken.symm ▸ hl.close hrun, hl.pos.trans hlen, hw, rfl, rfl, hleft.symm, rfl⟩

/-- **A plan is the next bytes of the input.**  It lays out as many as the record wants and the
input has, in pieces within its budget and apart from the output, and moves the cursor past them.
It fails only where there are bytes that it cannot read, and no `BSSL_CHECK` in it fails. -/
theorem planSealBody_spec {input : SealInput} (hv : input.Valid) (want body : Nat) {budget : Nat}
    (hbudget : 0 < budget) :
    match planSealBody input want body budget with
    | .ok (input', iovecs, len) =>
        Placed input.out body budget (input.rest.take want) iovecs
          ∧ len = (input.rest.take want).length
          ∧ input'.Valid ∧ input'.slices = input.slices ∧ input'.out = input.out
          ∧ input'.unread = input.unread.drop len ∧ input'.rest = input.rest.drop len
    | .error e => e ≠ .checkFailed ∧ input.Unreadable want := by
  have hcursor := planSealBody_cursor hv want body hbudget
  rcases hp : planSealBody input want body budget with e | ⟨input', iovecs, len⟩ <;> rw [hp] at hcursor
  · exact hcursor
  obtain ⟨hplaced, hlen, hv', hslices, hout, hunread, hremaining⟩ := hcursor
  have htaken : input.unread.take len = input.rest.take want := by
    rw [hlen, SealInput.rest, List.take_take, List.take_eq_take_iff, Nat.min_assoc, Nat.min_self]
  refine ⟨htaken ▸ hplaced, ?_, hv', hslices, hout, hunread, ?_⟩
  · rw [← htaken, List.length_take, Nat.min_eq_left (hlen ▸ Nat.min_le_right _ _)]
  · rw [SealInput.rest, SealInput.rest, hunread, hremaining, List.drop_take]

end Btls.Seal
