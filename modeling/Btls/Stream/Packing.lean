import Btls.Support.Panic
import Btls.Support.Runs
import Btls.Stream.Packer
import Mathlib.Data.List.Chain

/-!
# Stream — Packing

A packer over a whole write.  `packing_exact` is about every way its records can be consumed, with
the limit falling between them; `packing_dense` is about records consumed whole at one limit, no two
of which in a row would have fitted in one.

The packer is written once more over slices that panic (`nextRecordOrPanic`, `advanceOrPanic`),
index by index as the code has it, and shown to be the packer.

* `nextRecordOrPanic_eq`, `advanceOrPanic_eq`: no index is out of bounds.
* `packing_exact`: what was consumed and what is left are the input, and each record is non-empty
  and within the limit of its turn.
* `packing_dense`: so many bytes take at most `2 * total / limit + 1` records, since two neighbours
  exceed the limit together (`length_le_of_overfull`).
-/

namespace Btls.Stream

open Btls.Support Btls.Support.Slices

namespace Packer

/-! ### With every index checked -/

/-- The loop of `next_record` over the slices from `i` on: the head and where it is.  `none` is a
panic, or more than `fuel` turns. -/
def findHeadOrPanic (bufs : List Bytes) : (fuel i off : Nat) → Option (Option (Bytes × Nat × Nat))
  | 0, _, _ => none
  | fuel + 1, i, off =>
      match bufs[i]? with
      | none => some none
      | some b => do
          let head ← sliceFrom b off
          if head.isEmpty then findHeadOrPanic bufs fuel (i + 1) 0 else some (some (head, i, off))

/-- The loop of `pack`. -/
def packLoopOrPanic (bufs : List Bytes) (limit headLen : Nat) :
    (fuel len stop : Nat) → Option (Nat × Nat × Nat)
  | 0, _, _ => none
  | fuel + 1, len, stop =>
      if stop < bufs.length ∧ len < limit then do
        let next ← bufs[stop]?
        if len + next.length ≤ limit then
          packLoopOrPanic bufs limit headLen fuel (len + next.length) (stop + 1)
        else if next.length ≤ limit / 2 then
          let more ← if headLen < len then some true
            else (sliceFrom bufs (stop + 1)).map fun rest => rest.any (!·.isEmpty)
          if more then do
            let tail ← exactSub limit len
            some (limit, stop, tail)
          else some (len, stop, 0)
        else some (len, stop, 0)
      else some (len, stop, 0)

def packOrPanic (p : Packer) : Option (Nat × Nat × Nat) := do
  let b ← p.bufs[p.i]?
  let rest ← exactSub b.length p.off
  let headLen := min rest p.limit
  packLoopOrPanic p.bufs p.limit headLen (p.bufs.length + 1) headLen (p.i + 1)

def gatherOrPanic (p : Packer) (head : Bytes) (stop tail : Nat) : Option Bytes := do
  let whole ← sliceRange p.bufs (p.i + 1) stop
  if 0 < tail then do
    let b ← p.bufs[stop]?
    let part ← sliceTo b tail
    some (head ++ whole.flatten ++ part)
  else some (head ++ whole.flatten)

def nextRecordOrPanic (p : Packer) : Option (Option (Bytes × Packer)) := do
  let found ← findHeadOrPanic p.bufs (p.bufs.length + 1) p.i p.off
  match found with
  | none => some none
  | some (head, i, off) =>
      let p := { p with i, off }
      let (len, stop, tail) ← p.packOrPanic
      let record ← if len = min head.length p.limit then sliceTo head len
        else p.gatherOrPanic head stop tail
      some (some (record, p))

/-- The loop of `advance`. -/
def seekOrPanic (bufs : List Bytes) : (fuel i off n : Nat) → Option (Nat × Nat)
  | 0, _, _, _ => none
  | fuel + 1, i, off, n =>
      if 0 < n then do
        let b ← bufs[i]?
        let left ← exactSub b.length off
        if n < left then some (i, off + n)
        else do
          let n ← exactSub n left
          seekOrPanic bufs fuel (i + 1) 0 n
      else some (i, off)

def advanceOrPanic (p : Packer) (n : Nat) : Option Packer := do
  let (i, off) ← seekOrPanic p.bufs (p.bufs.length + 1) p.i p.off n
  some { p with i, off }

variable {bufs : List Bytes} {p p' : Packer} {record : Bytes} {i off n fuel : Nat}

/-- Behind the last slice there is none. -/
theorem getElem?_of_drop_nil (h : bufs.drop i = []) : bufs[i]? = none :=
  List.getElem?_eq_none (List.drop_eq_nil_iff.mp h)

/-- The slice that comes next is one of them. -/
theorem lt_of_drop {b : Bytes} {bs : List Bytes} (h : bufs.drop i = b :: bs) : i < bufs.length := by
  by_contra hle
  rw [List.drop_eq_nil_of_le (by omega)] at h
  cases h

/-- The head is where `skip` stops. -/
theorem findHeadOrPanic_eq (hw : Within bufs i off) (hfuel : bufs.length < i + fuel)
    (hfuel' : 0 < fuel) :
    findHeadOrPanic bufs fuel i off = some ((skip (bufs.drop i) i off).map fun c =>
      (((bufs.drop c.1).headD []).drop c.2, c.1, c.2)) := by
  induction fuel generalizing i off with
  | zero => cases hfuel'
  | succ fuel ih =>
      unfold findHeadOrPanic
      cases hd : bufs.drop i with
      | nil =>
          rw [getElem?_of_drop_nil hd]
          rfl
      | cons b bs =>
          have hoff := hw.le_of_drop hd
          rw [getElem?_of_drop hd]
          simp only [sliceFrom_of_le hoff, Option.bind_eq_bind, Option.bind_some, skip]
          by_cases h : off < b.length
          · rw [if_neg (by simpa using h), if_pos h]
            simp only [Option.map_some, hd, List.headD_cons]
          · have hlt := lt_of_drop hd
            rw [if_pos (by simpa using h), if_neg h,
              ih within_zero (by omega) (by omega), drop_succ_of_drop hd]

/-- No index of the packing loop is out of bounds. -/
theorem packLoopOrPanic_eq {limit headLen len stop : Nat} (hfuel : bufs.length < stop + fuel)
    (hfuel' : 0 < fuel) :
    packLoopOrPanic bufs limit headLen fuel len stop
      = some (packLoop limit headLen (bufs.drop stop) len stop) := by
  induction fuel generalizing len stop with
  | zero => cases hfuel'
  | succ fuel ih =>
      unfold packLoopOrPanic
      cases hd : bufs.drop stop with
      | nil =>
          have hle := List.drop_eq_nil_iff.mp hd
          rw [if_neg (by omega)]
          rfl
      | cons b bs =>
          have hlt := lt_of_drop hd
          unfold packLoop
          by_cases hroom : len < limit
          case neg => rw [if_neg (by simp [hroom]), if_neg hroom]
          rw [if_pos ⟨hlt, hroom⟩, if_pos hroom, getElem?_of_drop hd]
          simp only [Option.bind_eq_bind, Option.bind_some]
          by_cases hfit : len + b.length ≤ limit
          · rw [if_pos hfit, if_pos hfit, ih (by omega) (by omega), drop_succ_of_drop hd]
          rw [if_neg hfit, if_neg hfit, sliceFrom_of_le (by omega), drop_succ_of_drop hd,
            exactSub_of_le (by omega)]
          by_cases hhalf : b.length ≤ limit / 2
          · by_cases hmore : headLen < len
            · simp [hhalf, hmore]
            · by_cases hany : bs.any (!·.isEmpty) = true <;> simp [hhalf, hmore, hany]
          · simp [hhalf]

/-- Nor of the loop that moves the cursor. -/
theorem seekOrPanic_eq (hw : Within bufs i off) (hn : n ≤ (unread bufs i off).length)
    (hfuel : bufs.length < i + fuel) (hfuel' : 0 < fuel) :
    seekOrPanic bufs fuel i off n = some (seek (bufs.drop i) i off n) := by
  induction fuel generalizing i off n with
  | zero => cases hfuel'
  | succ fuel ih =>
      unfold seekOrPanic
      cases hd : bufs.drop i with
      | nil =>
          rw [unread_of_drop_nil hd, List.length_nil] at hn
          rw [if_neg (by omega)]
          rfl
      | cons b bs =>
          have hoff := hw.le_of_drop hd
          have hlt := lt_of_drop hd
          unfold seek
          by_cases h0 : n = 0
          · rw [if_neg (by omega), if_pos h0]
          rw [if_pos (by omega), if_neg h0, getElem?_of_drop hd]
          simp only [Option.bind_eq_bind, Option.bind_some, exactSub_of_le hoff]
          by_cases h : n < b.length - off
          · rw [if_pos h, if_pos h]
          · rw [unread_of_drop hd hoff, List.length_append, List.length_drop] at hn
            rw [if_neg h, if_neg h, exactSub_of_le (by omega), Option.bind_some,
              ih within_zero (by rw [unread, List.drop_zero, drop_succ_of_drop hd]; omega)
                (by omega) (by omega), drop_succ_of_drop hd]

/-- Where `packLoop` stops is within the slices it is given, and its prefix within the one there. -/
theorem packLoop_bounds {limit headLen len' stop' tail : Nat} {d : List Bytes} {len stop : Nat}
    (h : packLoop limit headLen d len stop = (len', stop', tail)) :
    stop' ≤ stop + d.length ∧ (0 < tail → ∃ b, d[stop' - stop]? = some b ∧ tail ≤ b.length) := by
  induction d generalizing len stop with
  | nil =>
      obtain ⟨rfl, rfl, rfl⟩ : _ ∧ _ ∧ _ := by simpa [packLoop] using h
      exact ⟨Nat.le_refl _, fun h => absurd h (Nat.lt_irrefl 0)⟩
  | cons b bs ih =>
      have stay (h : (len, stop, 0) = (len', stop', tail)) : stop' ≤ stop + (b :: bs).length
          ∧ (0 < tail → ∃ c, (b :: bs)[stop' - stop]? = some c ∧ tail ≤ c.length) := by
        obtain ⟨rfl, rfl, rfl⟩ : _ ∧ _ ∧ _ := by simpa using h
        exact ⟨Nat.le_add_right _ _, fun h => absurd h (Nat.lt_irrefl 0)⟩
      unfold packLoop at h
      split at h
      case isFalse => exact stay h
      split at h
      · obtain ⟨hstop, htail⟩ := ih h
        refine ⟨by rw [List.length_cons]; omega, fun hpos => ?_⟩
        obtain ⟨c, hc, hle⟩ := htail hpos
        have hnext : stop + 1 ≤ stop' := by
          by_contra hlt
          obtain ⟨-, -, -, hle, -, -⟩ := packLoop_spec (by assumption) h
          omega
        refine ⟨c, ?_, hle⟩
        rw [show stop' - stop = stop' - (stop + 1) + 1 by omega, List.getElem?_cons_succ]
        exact hc
      split at h
      · obtain ⟨rfl, rfl, rfl⟩ : _ ∧ _ ∧ _ := by simpa using h
        refine ⟨Nat.le_add_right _ _, fun _ => ⟨b, by simp, by omega⟩⟩
      · exact stay h

/-- Nor where the slices of a record are gathered. -/
theorem gatherOrPanic_eq {head : Bytes} {stop tail : Nat} (h : p.i + 1 ≤ stop)
    (hstop : stop ≤ p.bufs.length)
    (htail : 0 < tail → ∃ b, p.bufs[stop]? = some b ∧ tail ≤ b.length) :
    p.gatherOrPanic head stop tail = some (p.gather head stop tail) := by
  unfold gatherOrPanic gather
  rw [sliceRange_of_le h hstop]
  simp only [Option.bind_eq_bind, Option.bind_some]
  by_cases hpos : 0 < tail
  · obtain ⟨b, hb, hle⟩ := htail hpos
    have hd : (p.bufs.drop stop).headD [] = b := by
      rw [List.headD_eq_head?_getD, List.head?_drop, hb, Option.getD_some]
    rw [if_pos hpos, hb, hd, Option.bind_some, sliceTo_of_le hle, Option.bind_some]
  · obtain rfl : tail = 0 := by omega
    rw [if_neg hpos, List.take_zero, List.append_nil]

/-- The head of the next record, once the cursor is past the empty slices. -/
def head (p : Packer) : Bytes := ((p.bufs.drop p.i).headD []).drop p.off

/-- **The packer never panics.** -/
theorem nextRecordOrPanic_eq (hp : p.Valid) : p.nextRecordOrPanic = some p.nextRecord := by
  have hskip := skip_spec hp.within
  unfold nextRecordOrPanic nextRecord
  rw [findHeadOrPanic_eq hp.within (by omega) (by omega)]
  rcases hs : skip (p.bufs.drop p.i) p.i p.off with _ | ⟨i, off⟩
  · rfl
  rw [hs] at hskip
  obtain ⟨-, b, bs, hd, hoff⟩ := hskip
  have hlt := lt_of_drop hd
  simp only [Option.map_some, Option.bind_eq_bind, Option.bind_some, hd, List.headD_cons]
  have hpack : ({ p with i, off } : Packer).packOrPanic
      = some (({ p with i, off } : Packer).pack (b.drop off)) := by
    unfold packOrPanic pack
    simp only [getElem?_of_drop hd, Option.bind_eq_bind, Option.bind_some,
      exactSub_of_le (Nat.le_of_lt hoff), List.length_drop]
    exact packLoopOrPanic_eq (by omega) (by omega)
  rcases hr : ({ p with i, off } : Packer).pack (b.drop off) with ⟨len, stop, tail⟩
  rw [hpack, hr]
  simp only [Option.bind_some]
  by_cases hlen : len = min (b.drop off).length p.limit
  · rw [if_pos hlen, if_pos hlen, sliceTo_of_le (by omega), Option.bind_some]
  · obtain ⟨-, -, -, hle, -, -⟩ := packLoop_spec (Nat.min_le_right _ _) hr
    obtain ⟨hstop, htail⟩ := packLoop_bounds hr
    have hstop' : stop ≤ p.bufs.length := by
      rw [List.length_drop] at hstop
      dsimp only at hstop
      omega
    rw [if_neg hlen, if_neg hlen, gatherOrPanic_eq hle hstop' ?_, Option.bind_some]
    intro hpos
    obtain ⟨c, hc, hle'⟩ := htail hpos
    refine ⟨c, ?_, hle'⟩
    rw [List.getElem?_drop] at hc
    rw [← hc]
    congr 1
    omega

/-- So moving past a record does not panic. -/
theorem advanceOrPanic_eq (hp : p.Valid) (hn : n ≤ p.unsealed.length) :
    p.advanceOrPanic n = some (p.advance n) := by
  unfold advanceOrPanic advance
  rw [seekOrPanic_eq hp.within hn (by omega) (by omega)]
  rfl

/-- A packer has a next record until all is sealed. -/
theorem nextRecord_eq_none (hp : p.Valid) : p.nextRecord = none ↔ p.unsealed = [] := by
  refine ⟨nextRecord_none hp, fun hnil => ?_⟩
  cases h : p.nextRecord with
  | none => rfl
  | some r =>
      obtain ⟨-, -, -, hpos, -, htake⟩ := nextRecord_some hp h
      rw [htake, hnil, List.take_nil] at hpos
      cases hpos

/-- The record is as long as `pack` chose, also where it is gathered. -/
theorem nextRecord_length (hp : p.Valid) (h : p.nextRecord = some (record, p')) :
    record.length = (p'.pack p'.head).1 := by
  obtain ⟨i, off, b, bs, rfl, -, hd, -, -, -, hlen⟩ := nextRecord_pack hp h
  rw [hlen, head, hd, List.headD_cons]

/-! ### What is left, slice by slice -/

/-- The slices not sealed yet, the first of them cut at the cursor and non-empty. -/
def rest (p : Packer) : List Bytes := advanceSlices (p.bufs.drop p.i) p.off

/-- Advancing twice is advancing by the sum. -/
theorem advanceSlices_add (d : List Bytes) (m n : Nat) :
    advanceSlices d (m + n) = advanceSlices (advanceSlices d m) n := by
  induction d generalizing m with
  | nil => rfl
  | cons b bs ih =>
      by_cases hm : b.length ≤ m
      · rw [advanceSlices, if_pos (by omega), advanceSlices, if_pos hm, ← ih]
        congr 1
        omega
      · have hcut : advanceSlices (b :: bs) m = b.drop m :: bs := by rw [advanceSlices, if_neg hm]
        rw [hcut, advanceSlices, advanceSlices, List.length_drop]
        by_cases hn : b.length ≤ m + n
        · rw [if_pos hn, if_pos (by omega)]
          congr 1
          omega
        · rw [if_neg hn, if_neg (by omega), List.drop_drop]

/-- Advancing leaves no more slices. -/
theorem length_advanceSlices (d : List Bytes) (n : Nat) : (advanceSlices d n).length ≤ d.length := by
  induction d generalizing n with
  | nil => exact Nat.le_refl _
  | cons b bs ih =>
      rw [advanceSlices]
      split
      · exact Nat.le_succ_of_le (ih _)
      · exact Nat.le_refl _

/-- Slices past their total length leave none. -/
theorem advanceSlices_append (done d : List Bytes) (n : Nat) :
    advanceSlices (done ++ d) (done.flatten.length + n) = advanceSlices d n := by
  induction done with
  | nil => simp
  | cons b bs ih =>
      rw [List.cons_append, advanceSlices, List.flatten_cons, List.length_append,
        if_pos (by omega), ← ih]
      congr 1
      omega

/-- Skipping empty slices is no advance. -/
theorem advanceSlices_skip (hw : Within bufs i off) :
    match skip (bufs.drop i) i off with
    | none => advanceSlices (bufs.drop i) off = []
    | some (i', off') => ∀ b bs, bufs.drop i' = b :: bs →
        advanceSlices (bufs.drop i) off = b.drop off' :: bs := by
  generalize hd : bufs.drop i = d
  induction d generalizing i off with
  | nil => rfl
  | cons b bs ih =>
      unfold skip
      have hoff := hw.le_of_drop hd
      by_cases h : off < b.length
      · rw [if_pos h]
        intro c cs hc
        obtain ⟨rfl, rfl⟩ := List.cons.inj (hd.symm.trans hc)
        rw [advanceSlices, if_neg (by omega)]
      · rw [if_neg h, advanceSlices, if_pos (by omega), show off - b.length = 0 by omega]
        exact ih within_zero (drop_succ_of_drop hd)

/-- Moving the cursor is the advance. -/
theorem advanceSlices_seek (hw : Within bufs i off) (hn : n ≤ (unread bufs i off).length) :
    let c := seek (bufs.drop i) i off n
    advanceSlices (bufs.drop c.1) c.2 = advanceSlices (advanceSlices (bufs.drop i) off) n := by
  rw [← advanceSlices_add]
  generalize hd : bufs.drop i = d
  induction d generalizing i off n with
  | nil => simp [seek, hd, advanceSlices]
  | cons b bs ih =>
      have hoff := hw.le_of_drop hd
      unfold seek
      by_cases h0 : n = 0
      · simp [h0, hd]
      by_cases h : n < b.length - off
      · simp [h0, h, hd]
      · simp only [if_neg h0, if_neg h]
        rw [unread_of_drop hd hoff, List.length_append, List.length_drop] at hn
        rw [ih within_zero (by rw [unread, List.drop_zero, drop_succ_of_drop hd]; omega)
          (drop_succ_of_drop hd), advanceSlices, if_pos (by omega)]
        congr 1
        omega

/-- What is left to seal is the bytes of the slices that are left. -/
theorem rest_flatten : p.rest.flatten = p.unsealed := by
  rw [rest, advanceSlices_flatten]
  rfl

/-- A packer advances as the slices do. -/
theorem rest_advance (hp : p.Valid) (hn : n ≤ p.unsealed.length) :
    (p.advance n).rest = advanceSlices p.rest n := advanceSlices_seek hp.within hn

/-- What `packLoop` leaves: nothing, a full record, or a slice that did not fit. -/
theorem packLoop_rest {limit headLen len' stop' tail : Nat} {d : List Bytes} {len stop : Nat}
    (hlen : len ≤ limit) (h : packLoop limit headLen d len stop = (len', stop', tail)) :
    len' = limit ∨ len' = len + d.flatten.length
      ∨ ∃ done b more, d = done ++ b :: more ∧ len' = len + done.flatten.length
        ∧ limit < len' + b.length := by
  induction d generalizing len stop with
  | nil =>
      obtain ⟨rfl, -, -⟩ : _ ∧ _ ∧ _ := by simpa [packLoop] using h
      exact .inr (.inl rfl)
  | cons b bs ih =>
      unfold packLoop at h
      split at h
      case isFalse hfull =>
        obtain ⟨rfl, -⟩ := Prod.mk.inj h
        exact .inl (by omega)
      split at h
      case isTrue hfit =>
        rcases ih hfit h with hl | hl | ⟨done, c, more, rfl, hl, hover⟩
        · exact .inl hl
        · refine .inr (.inl ?_)
          rw [hl, List.flatten_cons, List.length_append, Nat.add_assoc]
        · refine .inr (.inr ⟨b :: done, c, more, rfl, ?_, hover⟩)
          rw [hl, List.flatten_cons, List.length_append, Nat.add_assoc]
      case isFalse hover =>
        split at h <;> obtain ⟨rfl, -⟩ := Prod.mk.inj h
        · exact .inl rfl
        · exact .inr (.inr ⟨[], b, bs, rfl, rfl, by omega⟩)

/-- Skipping empty slices leaves the same. -/
theorem rest_nextRecord (hp : p.Valid) (h : p.nextRecord = some (record, p')) :
    p'.rest = p.rest := by
  obtain ⟨i, off, b, bs, rfl, hskip, hd, hoff, -⟩ := nextRecord_pack hp h
  have hrest := advanceSlices_skip hp.within
  rw [hskip] at hrest
  show advanceSlices (p.bufs.drop i) off = advanceSlices (p.bufs.drop p.i) p.off
  rw [hrest b bs hd, hd, advanceSlices, if_neg (by omega)]

/-- A record starts with the slice its packer has left, as far as it fits. -/
theorem nextRecord_head (hp : p.Valid) (h : p.nextRecord = some (record, p')) :
    ∃ b more, p.rest = b :: more ∧ min b.length p.limit ≤ record.length := by
  obtain ⟨i, off, b, bs, rfl, hskip, hd, -, -, -, hlen⟩ := nextRecord_pack hp h
  have hrest := advanceSlices_skip hp.within
  rw [hskip] at hrest
  refine ⟨_, _, hrest b bs hd, ?_⟩
  rcases hpack : pack { p with i, off } (b.drop off) with ⟨len, stop, tail⟩
  obtain ⟨hle, -⟩ := packLoop_spec (Nat.min_le_right _ _) hpack
  rw [hlen, hpack]
  exact hle

/-- After a whole record: it was full, or nothing is left, or the next slice did not fit in it. -/
theorem rest_of_record (hp : p.Valid) (h : p.nextRecord = some (record, p')) :
    p.limit = record.length ∨ (p'.advance record.length).rest = []
      ∨ ∃ b more, (p'.advance record.length).rest = b :: more
        ∧ p.limit < record.length + b.length := by
  obtain ⟨hp', hun, -, hpos, hfits, htake⟩ := nextRecord_some hp h
  obtain ⟨i, off, b, bs, rfl, -, hd, hoff, -, -, hlen⟩ := nextRecord_pack hp h
  have hrest : ({ p with i, off } : Packer).rest = b.drop off :: bs := by
    show advanceSlices (p.bufs.drop i) off = _
    rw [hd, advanceSlices, if_neg (by omega)]
  rw [rest_advance hp' (by rw [hun, htake, List.length_take]; omega), hrest]
  rcases hpack : pack { p with i, off } (b.drop off) with ⟨len, stop, tail⟩
  rw [hpack] at hlen
  have hleft := packLoop_rest (Nat.min_le_right _ _) hpack
  simp only [drop_succ_of_drop hd] at hleft hlen
  rcases hleft with hl | hl | ⟨done, c, more, hbs, hl, hover⟩
  · exact .inl (by omega)
  · by_cases hhead : (b.drop off).length ≤ p.limit
    · refine .inr (.inl ?_)
      have hall : record.length = [b.drop off, bs.flatten].flatten.length + 0 := by
        simp only [List.flatten_cons, List.flatten_nil, List.length_append, List.length_nil]
        omega
      have hflat : record.length = (b.drop off :: bs).flatten.length + 0 := by
        rw [hall]
        simp
      have hnil := advanceSlices_append (b.drop off :: bs) [] 0
      rw [List.append_nil] at hnil
      rw [hflat, hnil]
      rfl
    · exact .inl (by omega)
  · by_cases hhead : (b.drop off).length ≤ p.limit
    · refine .inr (.inr ⟨c, more, ?_, by omega⟩)
      have hflat : record.length = (b.drop off :: done).flatten.length + 0 := by
        rw [List.flatten_cons, List.length_append]
        omega
      rw [hbs, hflat, ← List.cons_append, advanceSlices_append, advanceSlices, if_neg (by omega),
        List.drop_zero]
    · exact .inl (by omega)

/-- The records before and after a whole one do not fit in one. -/
theorem record_pair {next : Bytes} {p₂ : Packer} (hp : p.Valid)
    (h : p.nextRecord = some (record, p'))
    (h' : (p'.advance record.length).nextRecord = some (next, p₂)) :
    p.limit < record.length + next.length := by
  obtain ⟨hp', hun, hlimit, hpos, hfits, htake⟩ := nextRecord_some hp h
  obtain ⟨hp₁, -⟩ := advance_spec hp' (n := record.length)
    (by rw [hun, htake, List.length_take]; omega)
  obtain ⟨-, -, -, hnext, -⟩ := nextRecord_some hp₁ h'
  obtain ⟨b, more, hrest, hhead⟩ := nextRecord_head hp₁ h'
  have hsame : (p'.advance record.length).limit = p.limit := hlimit
  rw [hsame] at hhead
  rcases rest_of_record hp h with hfull | hnil | ⟨c, cs, hrest', hover⟩
  · omega
  · rw [hnil] at hrest
    cases hrest
  · obtain ⟨rfl, -⟩ := List.cons.inj (hrest.symm.trans hrest')
    omega

end Packer

/-! ### Every run of a packer -/

/-- One turn of a loop over a packer: the record it packed, and how much of it was sealed. -/
structure Packed where
  record : Bytes
  n : Nat

/-- What was sealed. -/
def Packed.taken (t : Packed) : Bytes := t.record.take t.n

/-- A turn that seals `n` bytes of the record, after which the limit may fall. -/
inductive PackStep : Packer → Packed → Packer → Prop where
  | mk {p p' : Packer} {record : Bytes} {n limit : Nat} (h : p.nextRecord = some (record, p'))
      (hn : 0 < n) (hle : n ≤ record.length) (hpos : 0 < limit) (hlimit : limit ≤ p.limit) :
      PackStep p ⟨record, n⟩ ({ p' with limit }.advance n)

section Runs

open Packer

variable {bufs : List Bytes} {p p' : Packer} {t : Packed} {ts : List Packed} {limit : Nat}

/-- **A step takes from the front of what is unsealed**, and takes something. -/
theorem PackStep.spec (hp : p.Valid) (h : PackStep p t p') :
    p'.Valid ∧ t.taken ++ p'.unsealed = p.unsealed ∧ 0 < t.taken.length := by
  cases h with
  | @mk p₁ record n limit h hn hle hpos hlimit =>
      obtain ⟨hp₁, hun, -, -, -, htake⟩ := nextRecord_some hp h
      have hvalid : Packer.Valid { p₁ with limit } := ⟨hp₁.within, hpos⟩
      have hlen : record.length ≤ p.unsealed.length := by
        rw [htake, List.length_take]
        omega
      obtain ⟨hv, hadv⟩ := advance_spec hvalid (n := n)
        (by show n ≤ p₁.unsealed.length; rw [hun]; omega)
      refine ⟨hv, ?_, ?_⟩
      · have hcut : record.take n = p.unsealed.take n := by
          rw [htake, List.take_take, Nat.min_eq_left hle]
        rw [hadv, Packed.taken, hcut, ← hun]
        exact List.take_append_drop n _
      · show 0 < (record.take n).length
        rw [List.length_take]
        omega

/-- So a run takes every byte once, in order, in as many steps at most. -/
theorem PackStep.run_spec (h : Run PackStep p ts p') (hp : p.Valid) :
    p'.Valid ∧ ts.flatMap Packed.taken ++ p'.unsealed = p.unsealed
      ∧ ts.length ≤ (ts.flatMap Packed.taken).length := by
  induction h with
  | nil => exact ⟨hp, rfl, Nat.le_refl _⟩
  | snoc _ hstep ih =>
      obtain ⟨hv, hun, hlen⟩ := ih
      obtain ⟨hv', hun', hpos⟩ := hstep.spec hv
      refine ⟨hv', ?_, ?_⟩
      · rw [List.flatMap_append, List.append_assoc, ← hun, ← hun']
        simp
      · rw [List.flatMap_append, List.length_append, List.length_append, List.flatMap_singleton,
          List.length_singleton]
        omega

/-- **The packer covers its input exactly.**  However its records are consumed, and however the
limit falls: what was consumed and what is left are the input, each record is a non-empty prefix of
what is left within the limit and as long as `pack` chose, there is none when nothing is left and
only then, nothing panics, and no run is longer than the input. -/
theorem packing_exact (h : Run PackStep { Packer.new bufs with limit } ts p) (hlimit : 0 < limit) :
    ts.flatMap Packed.taken ++ p.unsealed = bufs.flatten
      ∧ (p.nextRecord = none ↔ ts.flatMap Packed.taken = bufs.flatten)
      ∧ (∀ record p', p.nextRecord = some (record, p') →
          0 < record.length ∧ record.length ≤ p.limit
            ∧ record = (bufs.flatten.drop (ts.flatMap Packed.taken).length).take record.length
            ∧ record.length = (p'.pack p'.head).1)
      ∧ p.nextRecordOrPanic = some p.nextRecord
      ∧ (∀ (record : Bytes) (p' : Packer) (n l : Nat), p.nextRecord = some (record, p') →
          n ≤ record.length → 0 < l →
          ({ p' with limit := l } : Packer).advanceOrPanic n
            = some (({ p' with limit := l } : Packer).advance n))
      ∧ ts.length ≤ bufs.flatten.length := by
  obtain ⟨hp, hun, hlen⟩ := PackStep.run_spec h ⟨within_zero, hlimit⟩
  have hall : ts.flatMap Packed.taken ++ p.unsealed = bufs.flatten := hun.trans unread_zero
  refine ⟨hall, ?_, fun record p' hnext => ?_, nextRecordOrPanic_eq hp,
    fun record p' n l hnext hn hl => ?_, ?_⟩
  · rw [nextRecord_eq_none hp, ← hall, List.self_eq_append_right]
  · obtain ⟨-, -, -, hpos, hle, htake⟩ := nextRecord_some hp hnext
    refine ⟨hpos, hle, ?_, nextRecord_length hp hnext⟩
    rw [← hall, List.drop_left]
    exact htake
  · obtain ⟨hp', hun', -, -, -, htake⟩ := nextRecord_some hp hnext
    refine advanceOrPanic_eq ⟨hp'.within, hl⟩ ?_
    show n ≤ p'.unsealed.length
    rw [hun']
    rw [htake, List.length_take] at hn
    omega
  · have hlen' := congrArg List.length hall
    rw [List.length_append] at hlen'
    omega

/-- A short seal of a record that spans three slices, and the rest of it at a lower limit. -/
theorem packing_exact_short :
    ∃ p, Run PackStep { Packer.new [[1], [], [2], [3, 4, 5]] with limit := 3 }
        ([⟨[1, 2], 1⟩] ++ [⟨[2], 1⟩]) p
      ∧ [1, 2] ++ p.unsealed = [1, 2, 3, 4, 5] := by
  have hrun : ∃ p, Run PackStep { Packer.new [[1], [], [2], [3, 4, 5]] with limit := 3 }
      ([⟨[1, 2], 1⟩] ++ [⟨[2], 1⟩]) p :=
    ⟨_, .snoc (.snoc (.nil _)
      (.mk rfl (by decide) (by decide) (by decide) (show 2 ≤ 3 by decide)))
      (.mk rfl (by decide) (by decide) (by decide) (show 2 ≤ 2 from Nat.le_refl 2))⟩
  obtain ⟨p, hrun⟩ := hrun
  exact ⟨p, hrun, (packing_exact hrun (by decide)).1⟩

/-! ### How full the records are -/

/-- A turn that seals the whole record. -/
inductive WholeStep : Packer → Bytes → Packer → Prop where
  | mk {p p' : Packer} {record : Bytes} (h : p.nextRecord = some (record, p')) :
      WholeStep p record (p'.advance record.length)

/-- Two records in a row would not have fitted in one. -/
def Overfull (limit : Nat) (r r' : Bytes) : Prop := limit < r.length + r'.length

variable {records : List Bytes}

/-- The packer that packed a record whole moves past it. -/
theorem WholeStep.inv {record : Bytes} (h : WholeStep p record p') :
    ∃ p₁, p.nextRecord = some (record, p₁) ∧ p' = p₁.advance record.length := by
  cases h with
  | mk h => exact ⟨_, h, rfl⟩

/-- **Two neighbours never fit in one record.** -/
theorem WholeStep.run_spec (h : Run WholeStep p records p') (hp : p.Valid) :
    p'.Valid ∧ p'.limit = p.limit ∧ records.flatten ++ p'.unsealed = p.unsealed
      ∧ records.IsChain (Overfull p.limit)
      ∧ ∀ r ∈ records.getLast?, ∀ r' p₂, p'.nextRecord = some (r', p₂) → Overfull p.limit r r' := by
  induction h with
  | nil => exact ⟨hp, rfl, rfl, .nil, nofun⟩
  | snoc _ hstep ih =>
      obtain ⟨hv, hsame, hun, hchain, hlast⟩ := ih
      obtain ⟨p₁, h, rfl⟩ := hstep.inv
      obtain ⟨hp₁, hun₁, hlimit, -, -, htake⟩ := Packer.nextRecord_some hv h
      rename_i record _
      have hlen : record.length ≤ p₁.unsealed.length := by
        rw [hun₁, htake, List.length_take]
        exact Nat.min_le_right _ _
      obtain ⟨hp₂, hadv⟩ := Packer.advance_spec hp₁ hlen
      refine ⟨hp₂, hlimit.trans hsame, ?_, ?_, ?_⟩
      · rw [hadv, hun₁, List.flatten_append, List.append_assoc, List.flatten_singleton, ← hun]
        congr 1
        conv_lhs => enter [1]; rw [htake]
        exact List.take_append_drop _ _
      · refine List.isChain_append.mpr ⟨hchain, .singleton _, fun r hr r' hr' => ?_⟩
        obtain rfl := Option.some.inj hr'
        exact hlast r hr _ _ h
      · intro r hr r' p₂ hnext
        rw [List.getLast?_concat] at hr
        obtain rfl := Option.some.inj hr
        rw [← hsame]
        exact Packer.record_pair hv h hnext

/-- Pairs that exceed `limit` are few. -/
theorem length_le_of_overfull {limit : Nat} (h : records.IsChain (Overfull limit)) :
    limit * (records.length - 1) ≤ 2 * records.flatten.length := by
  induction records using List.twoStepInduction with
  | nil => exact Nat.zero_le _
  | singleton r => exact Nat.zero_le _
  | cons_cons r r' rs ih _ =>
      obtain ⟨hpair, hrest⟩ := List.isChain_cons_cons.mp h
      have hover : limit < r.length + r'.length := hpair
      have hih := ih hrest.of_cons
      simp only [List.length_cons, List.flatten_cons, List.length_append]
      cases rs with
      | nil => simp; omega
      | cons r₂ rs =>
          have hsplit : limit * (rs.length + 1 + 1 + 1 - 1) = limit * (rs.length + 1 - 1) + limit * 2 := by
            rw [← Nat.mul_add]
            congr 1
          simp only [List.length_cons] at hih ⊢
          omega

/-- **Records are dense.**  Consumed whole at one limit, no two records in a row would fit in one,
so a write takes at most `2 * total / limit + 1` of them. -/
theorem packing_dense (h : Run WholeStep { Packer.new bufs with limit } records p)
    (hlimit : 0 < limit) :
    records.IsChain (Overfull limit) ∧ records.length ≤ 2 * bufs.flatten.length / limit + 1 := by
  obtain ⟨-, -, hun, hchain, -⟩ := WholeStep.run_spec h ⟨within_zero, hlimit⟩
  refine ⟨hchain, ?_⟩
  have hfew : limit * (records.length - 1) ≤ 2 * records.flatten.length :=
    length_le_of_overfull hchain
  have hall : records.flatten ++ p.unsealed = bufs.flatten := hun.trans unread_zero
  have hlen := congrArg List.length hall
  rw [List.length_append] at hlen
  have hdiv : records.length - 1 ≤ 2 * bufs.flatten.length / limit := by
    rw [Nat.le_div_iff_mul_le hlimit, Nat.mul_comm]
    omega
  omega

/-- Four bytes in three slices, at a limit of three: the second slice does not fit. -/
theorem packing_dense_pair :
    ∃ p, Run WholeStep { Packer.new [[1], [], [2, 3, 4]] with limit := 3 } [[1], [2, 3, 4]] p
      ∧ [[1], [2, 3, 4]].IsChain (Overfull 3) := by
  have hrun : ∃ p, Run WholeStep { Packer.new [[1], [], [2, 3, 4]] with limit := 3 }
      ([[1]] ++ [[2, 3, 4]]) p := ⟨_, .snoc (.snoc (.nil _) (.mk rfl)) (.mk rfl)⟩
  obtain ⟨p, hrun⟩ := hrun
  exact ⟨p, hrun, (packing_dense hrun (by decide)).1⟩

end Runs

end Btls.Stream
