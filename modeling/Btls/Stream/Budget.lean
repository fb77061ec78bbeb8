import Btls.Stream.Machine
import Btls.Stream.Packing

/-!
# Stream — Budget

How much one write takes when the transport takes nothing, and how much it can leave buffered.

* `sealBudget_exact`: `seal_budget` is a closed form of what the loop with one `SSL_write` per
  record accepts.  The loop goes on until the buffer is full and no more than a tail of `MAX_RECORD`
  is left; in numbers it is `accepted`, and `accepted_eq` is the closed form.
* `buffering_bounded`: a write whose retry leaves a full buffer takes nothing, and one that is
  sealed in place or on the stack leaves no more than `bufferBound`, whatever it was given.

The two meet in `recordsToFill`, the number of records of one size that fill the buffer.  The loop
accepts so many fragments, and the bytes of so many records are what the buffer is bounded by; the
tail comes in once, as the records of `MAX_RECORD` bytes.
-/

namespace Btls.Stream

open Btls.Support Btls.Support.Slices

/-! ### The loop in numbers -/

/-- How many records of `size` bytes fill a buffer of `buffered` bytes, and at least one. -/
def recordsToFill (size buffered : Nat) : Nat := max (divCeil (writeBufCapacity - buffered) size) 1

/-- What the loop accepts of `left` bytes, sealing a fragment at a time into a buffer that only
grows: it stops at a full buffer with more than `MAX_RECORD` bytes left. -/
def accepted (fragment overhead : Nat) : (fuel buffered left : Nat) → Nat
  | 0, _, _ => 0
  | fuel + 1, buffered, left =>
      let n := min left fragment
      let buffered := buffered + n + overhead
      if left = 0 then 0
      else if writeBufCapacity ≤ buffered ∧ maxRecord < left - n then n
      else n + accepted fragment overhead fuel buffered (left - n)

/-- A record that does not fill the buffer brings it one nearer. -/
theorem recordsToFill_add {size buffered : Nat} (hsize : 0 < size)
    (h : buffered + size < writeBufCapacity) :
    recordsToFill size buffered = recordsToFill size (buffered + size) + 1 := by
  have hroom : writeBufCapacity - buffered = writeBufCapacity - (buffered + size) + size := by omega
  have hpos : 0 < divCeil (writeBufCapacity - (buffered + size)) size := lt_divCeil hsize (by omega)
  unfold recordsToFill
  rw [hroom, divCeil_add hsize]
  omega

/-- The last record fills it. -/
theorem recordsToFill_full {size buffered : Nat} (h : writeBufCapacity ≤ buffered + size) :
    recordsToFill size buffered = 1 := by
  have hle : divCeil (writeBufCapacity - buffered) size ≤ 1 := divCeil_le_one (by omega)
  unfold recordsToFill
  omega

/-- **The loop in closed form.** -/
theorem accepted_eq {fragment overhead fuel buffered left : Nat} (hf : 0 < fragment)
    (hmax : fragment ≤ maxRecord) (hfuel : left ≤ fuel) :
    accepted fragment overhead fuel buffered left
      = if left - recordsToFill (fragment + overhead) buffered * fragment ≤ maxRecord then left
        else recordsToFill (fragment + overhead) buffered * fragment := by
  induction fuel generalizing buffered left with
  | zero =>
      obtain rfl : left = 0 := by omega
      simp [accepted]
  | succ fuel ih =>
      unfold accepted
      simp only
      by_cases h0 : left = 0
      · simp [h0]
      rw [if_neg h0]
      generalize hk : recordsToFill (fragment + overhead) buffered = k
      have hone : 1 ≤ k := by rw [← hk]; exact Nat.le_max_right _ _
      by_cases hlast : left ≤ fragment
      · -- The last record: nothing is left after it.
        have hcap : left ≤ k * fragment :=
          Nat.le_trans hlast (Nat.le_mul_of_pos_left _ hone)
        rw [Nat.min_eq_left hlast, Nat.sub_self, if_neg (by omega), ih (Nat.zero_le _),
          Nat.zero_sub, if_pos (Nat.zero_le _), if_pos (by omega), Nat.add_zero]
      rw [Nat.min_eq_right (by omega), Nat.add_assoc]
      by_cases hfull : writeBufCapacity ≤ buffered + (fragment + overhead)
      · rw [recordsToFill_full hfull] at hk
        subst hk
        rw [Nat.one_mul]
        by_cases htail : maxRecord < left - fragment
        · rw [if_pos ⟨hfull, htail⟩, if_neg (by omega)]
        · -- A tail of at most `MAX_RECORD` is taken whole, buffer or not.
          rw [if_neg (fun h => htail h.2), ih (by omega), if_pos (by omega), if_pos (by omega)]
          omega
      · have hsplit := recordsToFill_add (show 0 < fragment + overhead by omega)
          (Nat.lt_of_not_le hfull)
        rw [hk] at hsplit
        rw [if_neg (fun h => hfull h.1), ih (by omega)]
        generalize recordsToFill (fragment + overhead) (buffered + (fragment + overhead)) = j at hsplit
        subst hsplit
        rw [Nat.add_mul, Nat.one_mul]
        by_cases htail : left - fragment - j * fragment ≤ maxRecord
        · rw [if_pos htail, if_pos (by omega)]
          omega
        · rw [if_neg htail, if_neg (by omega)]
          omega

/-- A record size that saturates fills the buffer with one record, as it does unsaturated. -/
theorem saturated_recordsToFill {fragment overhead pending buffered : Nat} (hf : 0 < fragment) :
    max (divCeil (writeBufCapacity - buffered - pending)
        (max (saturatingAdd fragment overhead) 1)) 1
      = recordsToFill (fragment + overhead) (buffered + pending) := by
  have hcap : writeBufCapacity ≤ usizeMax := by decide
  unfold recordsToFill
  rw [Nat.sub_sub]
  by_cases hsat : fragment + overhead ≤ usizeMax
  · rw [saturatingAdd, Nat.min_eq_left hsat, Nat.max_eq_left (by omega : 1 ≤ fragment + overhead)]
  · have h₁ : divCeil (writeBufCapacity - (buffered + pending)) usizeMax ≤ 1 :=
      divCeil_le_one (by omega)
    have h₂ : divCeil (writeBufCapacity - (buffered + pending)) (fragment + overhead) ≤ 1 :=
      divCeil_le_one (by omega)
    rw [saturatingAdd, Nat.min_eq_right (by omega), Nat.max_eq_left (show 1 ≤ usizeMax by decide)]
    omega

/-- `seal_budget` is the closed form: nothing in it saturates. -/
theorem sealBudget_eq {fragment overhead pending buffered total : Nat} (hf : 0 < fragment)
    (hmax : fragment ≤ maxRecord) :
    sealBudget fragment overhead pending buffered total
      = if total - recordsToFill (fragment + overhead) (buffered + pending) * fragment ≤ maxRecord
        then total else recordsToFill (fragment + overhead) (buffered + pending) * fragment := by
  have hbound : recordsToFill (fragment + overhead) (buffered + pending) ≤ writeBufCapacity + 1 := by
    have hpos : 0 < fragment + overhead := by omega
    have hlt := divCeil_mul_lt (a := writeBufCapacity - (buffered + pending)) hpos
    have hle : divCeil (writeBufCapacity - (buffered + pending)) (fragment + overhead) - 1
        ≤ (divCeil (writeBufCapacity - (buffered + pending)) (fragment + overhead) - 1)
          * (fragment + overhead) := Nat.le_mul_of_pos_right _ hpos
    rw [Nat.sub_mul, Nat.one_mul] at hle
    unfold recordsToFill
    omega
  unfold sealBudget
  simp only [saturated_recordsToFill hf]
  have hmul : recordsToFill (fragment + overhead) (buffered + pending) * fragment ≤ usizeMax := by
    refine Nat.le_trans (Nat.mul_le_mul hbound hmax) ?_
    decide
  rw [saturatingMul, Nat.min_eq_left hmul]

/-! ### The loop itself -/

/-- The program writes `n` bytes to the BIO, each write taken whole, and returns `r`; it asks nothing
else. -/
inductive Emits {α : Type} : Boring α → Nat → α → Prop where
  | ret (r : α) : Emits (.ret r) 0 r
  | write {buf : Bytes} {k : BioRes (.write buf) → Boring α} {n : Nat} {r : α}
      (h : Emits (k (.ok buf.length)) n r) : Emits (.call (.write buf) k) (buf.length + n) r

/-- In a state with `pending` bytes queued, `SSL_write` seals at most a fragment as one record of
`overhead` bytes more, behind the queued bytes. -/
def Fragments {σ : Type} (B : BoringSsl σ) (fragment overhead : Nat) (queued : Nat → σ → Prop) :
    Prop :=
  ∀ pending ssl, queued pending ssl → ∀ buf ≠ [], ∃ ssl',
    Emits (B.sslWrite ssl buf) (pending + (min buf.length fragment + overhead))
      (.ok (min buf.length fragment), ssl') ∧ queued 0 ssl'

/-- The transport takes nothing. -/
def Refuses {τ : Type} (io : AsyncStream τ) : Prop :=
  (∀ t buf, (io.pollWrite t buf).1.taken = 0) ∧ ∀ t bufs, (io.pollWriteVectored t bufs).1.taken = 0

section Loop

variable {σ τ : Type} {B : BoringSsl σ} {io : AsyncStream τ} {a : Allocator}

/-- What the transport refuses is buffered whole. -/
theorem WriteBuffer.writeLast_refused {b b' : WriteBuffer} {t t' : Transport τ} {record : Bytes}
    (hio : Refuses io) (h : b.writeLast a io t record = (b', t')) :
    b'.len = b.len + record.length := by
  unfold writeLast at h
  rcases hp : (if b.len = 0 then t.pollWrite io .writeLast record
    else if io.isWriteVectored t.stream then t.pollWriteVectored io .writeLast [b.buffered, record]
    else (.ready (.ok 0), t)) with ⟨res, t₁⟩
  have hnone : res.taken = 0 := by
    split at hp
    · rw [← (Prod.mk.inj hp).1]
      exact hio.1 _ _
    · split at hp
      · rw [← (Prod.mk.inj hp).1]
        exact hio.2 _ _
      · rw [← (Prod.mk.inj hp).1]
        rfl
  rw [hp] at h
  have hkeep : b'.buffered = b.buffered ++ record := by
    rcases res with (e | n) | _ <;> obtain ⟨rfl, rfl⟩ := Prod.mk.inj h
    · exact keepUnwritten_buffered _ _ _
    · obtain rfl : n = 0 := hnone
      exact keepUnwritten_buffered _ _ _
    · exact keepUnwritten_buffered _ _ _
  rw [← b'.length_buffered, hkeep, List.length_append, b.length_buffered]

/-- So is a record that BoringSSL writes. -/
theorem StreamWrapper.write_refused {w w' : StreamWrapper τ} {buf : Bytes} {r : Except IoError Nat}
    (hio : Refuses io) (h : w.write io a buf = (r, w')) :
    r = .ok buf.length ∧ w'.writeBuf.len = w.writeBuf.len + buf.length := by
  unfold write at h
  split at h
  · rcases hl : w.writeBuf.writeLast a io w.transport buf with ⟨b, t⟩
    rw [hl] at h
    obtain ⟨rfl, rfl⟩ := Prod.mk.inj h
    exact ⟨rfl, WriteBuffer.writeLast_refused hio hl⟩
  · obtain ⟨rfl, rfl⟩ := Prod.mk.inj h
    refine ⟨rfl, ?_⟩
    rw [← WriteBuffer.length_buffered, WriteBuffer.push_buffered, List.length_append,
      WriteBuffer.length_buffered]

/-- What a program emits is buffered. -/
theorem Emits.interp {α : Type} {p : Boring α} {n : Nat} {r : α} (hio : Refuses io)
    (h : Emits p n r) (b : Bio τ) :
    (p.interp (Bio.handle io a) b).1 = r
      ∧ (p.interp (Bio.handle io a) b).2.stream.writeBuf.len = b.stream.writeBuf.len + n := by
  induction h generalizing b with
  | ret r => exact ⟨rfl, rfl⟩
  | @write buf k n r _ ih =>
      rcases hw : b.stream.write io a buf with ⟨res, w⟩
      obtain ⟨rfl, hlen⟩ := StreamWrapper.write_refused hio hw
      have hop : Bio.handle io a (.write buf) b
          = (.ok buf.length, { b with stream := w.noteProduced buf }) := by
        rw [Bio.handle, hw]
        rfl
      rw [Prog.interp, hop]
      obtain ⟨hret, hmore⟩ := ih { b with stream := w.noteProduced buf }
      refine ⟨hret, hmore.trans ?_⟩
      show w.writeBuf.len + n = _
      omega

namespace SslStream

variable {s : SslStream σ τ} {fragment overhead pending : Nat} {queued : Nat → σ → Prop}

/-- A write seals one fragment, behind what was queued. -/
theorem write_fragment {fuel : Nat} {buf : Bytes} (hio : Refuses io)
    (hB : Fragments B fragment overhead queued) (hs : queued pending s.ssl) (hbuf : buf ≠ [])
    (hle : buf.length ≤ maxRecord) (hfuel : 0 < fuel) :
    ∃ s', s.write B io a fuel buf = some (.ok (min buf.length fragment), s')
      ∧ queued 0 s'.ssl ∧ s'.stream.writeBuf.len
          = s.stream.writeBuf.len + (pending + (min buf.length fragment + overhead)) := by
  obtain ⟨fuel, rfl⟩ : ∃ n, fuel = n + 1 := ⟨fuel - 1, by omega⟩
  obtain ⟨ssl', hemits, hq⟩ := hB pending s.ssl hs buf hbuf
  obtain ⟨hret, hlen⟩ := hemits.interp hio s.bio
  have hall : buf.take cIntMax = buf :=
    List.take_of_length_le (Nat.le_trans hle (by decide))
  rcases hi : (B.sslWrite s.ssl buf).interp (Bio.handle io a) s.bio with ⟨res, bio⟩
  rw [hi] at hret hlen
  obtain rfl : res = (.ok (min buf.length fragment), ssl') := hret
  refine ⟨{ s with ssl := ssl', bio }, ?_, hq, hlen⟩
  unfold write sslWrite call
  rw [if_neg (by simpa using hbuf), hall, hi]

/-- The packer is on its one slice, with `left` bytes of it unsealed, at a limit no lower than a
fragment. -/
structure OneSlice (fragment left : Nat) (p : Packer) : Prop where
  valid : p.Valid
  one : p.rest.length ≤ 1
  left : p.unsealed.length = left
  limit : fragment ≤ p.limit ∧ p.limit ≤ maxRecord

/-- A packer of one slice packs up to its limit. -/
theorem oneSlice_record {left : Nat} {p p' : Packer} {record : Bytes}
    (hp : OneSlice fragment left p) (h : p.nextRecord = some (record, p')) :
    record.length = min left p.limit := by
  obtain ⟨b, more, hrest, hhead⟩ := Packer.nextRecord_head hp.valid h
  obtain ⟨-, -, -, -, hlimit, htake⟩ := Packer.nextRecord_some hp.valid h
  have hone := hp.one
  rw [hrest, List.length_cons] at hone
  obtain rfl : more = [] := List.length_eq_zero_iff.mp (by omega)
  have hall : b.length = left := by
    rw [← hp.left, ← Packer.rest_flatten, hrest, List.flatten_singleton]
  have hle : record.length ≤ left := by
    rw [htake, List.length_take, hp.left]
    exact Nat.min_le_right _ _
  omega

/-- The packer moves past what was sealed, keeping a limit no lower than a fragment. -/
theorem oneSlice_advance {left n : Nat} {p p' : Packer} {record : Bytes}
    (hp : OneSlice fragment left p) (h : p.nextRecord = some (record, p'))
    (hn : n = min record.length fragment) (hf : 0 < fragment) :
    OneSlice fragment (left - n)
      ((if n < record.length then { p' with limit := n } else p').advance n) := by
  obtain ⟨hp', hun, hlimit, -, hle, htake⟩ := Packer.nextRecord_some hp.valid h
  have hlen := oneSlice_record hp h
  obtain ⟨hlow, hhigh⟩ := hp.limit
  generalize hq : (if n < record.length then { p' with limit := n } else p') = q
  have hspec : q.Valid ∧ q.unsealed = p.unsealed ∧ q.rest = p'.rest
      ∧ fragment ≤ q.limit ∧ q.limit ≤ maxRecord := by
    by_cases hshort : n < record.length
    · rw [if_pos hshort] at hq
      subst hq
      exact ⟨⟨hp'.within, by show 0 < n; omega⟩, hun, rfl, by show fragment ≤ n; omega,
        by show n ≤ maxRecord; omega⟩
    · rw [if_neg hshort] at hq
      subst hq
      exact ⟨hp', hun, rfl, by omega, by omega⟩
  obtain ⟨hv, hun', hrest, hlim⟩ := hspec
  have hin : n ≤ q.unsealed.length := by
    rw [hun', hp.left]
    omega
  obtain ⟨hv', hadv⟩ := Packer.advance_spec hv hin
  refine ⟨hv', ?_, ?_, hlim⟩
  · rw [Packer.rest_advance hv hin, hrest]
    refine Nat.le_trans (Packer.length_advanceSlices _ _) ?_
    rw [Packer.rest_nextRecord hp.valid h]
    exact hp.one
  · rw [hadv, hun', List.length_drop, hp.left]

/-- **The loop accepts what `accepted` says**, the transport taking nothing. -/
theorem sealLoop_accepts {total written left fuel k buffered : Nat} {packer : Packer}
    {through : Bool} (hio : Refuses io) (hB : Fragments B fragment overhead queued)
    (hf : 0 < fragment) (hs : queued pending s.ssl) (hp : OneSlice fragment left packer)
    (htotal : total = written + left) (hbuf : s.stream.writeBuf.len + pending = buffered)
    (hk : left ≤ k) (hfuel : left + 2 ≤ fuel) :
    ∃ s', sealLoop B io a total fuel s ⟨written, packer, through⟩
      = some (none, written + accepted fragment overhead k buffered left, s') := by
  induction k generalizing s written left fuel pending buffered packer through with
  | zero =>
      obtain rfl : left = 0 := by omega
      obtain ⟨fuel, rfl⟩ : ∃ n, fuel = n + 1 := ⟨fuel - 1, by omega⟩
      have hnone := (Packer.nextRecord_eq_none hp.valid).mpr (List.length_eq_zero_iff.mp hp.left)
      refine ⟨s, ?_⟩
      unfold sealLoop
      simp only [hnone]
      rfl
  | succ k ih =>
      obtain ⟨fuel, rfl⟩ : ∃ n, fuel = n + 1 := ⟨fuel - 1, by omega⟩
      unfold sealLoop accepted
      rcases hnext : packer.nextRecord with _ | ⟨record, packer₁⟩
      · have hnil := (Packer.nextRecord_eq_none hp.valid).mp hnext
        have hzero := hp.left
        rw [hnil, List.length_nil] at hzero
        exact ⟨s, by simp [← hzero]⟩
      obtain ⟨-, -, -, hpos, -⟩ := Packer.nextRecord_some hp.valid hnext
      have hlen := oneSlice_record hp hnext
      obtain ⟨hlow, hhigh⟩ := hp.limit
      have hn : min record.length fragment = min left fragment := by omega
      obtain ⟨s₁, hw, hq, hb⟩ := write_fragment (a := a)
        (s := s.setWriteThrough (through && decide (total ≤ saturatingAdd written record.length)))
        hio hB hs (List.ne_nil_of_length_pos hpos) (by omega) (show 0 < fuel by omega)
      have hp₁ := oneSlice_advance hp hnext rfl hf
      rw [hn] at hw hb hp₁
      simp only [hw]
      have hbuf₁ : s₁.stream.writeBuf.len + 0 = buffered + min left fragment + overhead := by
        rw [hb, ← hbuf]
        show s.stream.writeBuf.len + _ + 0 = _
        omega
      -- The loop asks for a full buffer and more than a record left, which `accepted` asks of the sums.
      have hfull : (s₁.stream.writeBuf.isFull && decide (maxRecord < total - (written + min left fragment)))
          = true ↔ writeBufCapacity ≤ buffered + min left fragment + overhead
            ∧ maxRecord < left - min left fragment := by
        rw [Bool.and_eq_true, decide_eq_true_eq, WriteBuffer.isFull, decide_eq_true_eq, ← hbuf₁,
          Nat.add_zero, htotal, Nat.add_sub_add_left]
      rw [if_neg (show left ≠ 0 by omega)]
      by_cases hstop : writeBufCapacity ≤ buffered + min left fragment + overhead
            ∧ maxRecord < left - min left fragment
      · rw [if_pos (hfull.mpr hstop), if_pos hstop]
        exact ⟨s₁, rfl⟩
      · rw [if_neg (fun h => hstop (hfull.mp h)), if_neg hstop, ← Nat.add_assoc]
        exact ih hq hp₁ (by omega) hbuf₁ (by omega) (by omega)

/-- **The budget is what the loop takes.**  From a state with `pending` bytes queued, over a
transport that takes nothing, `ssl_write_records` accepts exactly `sealBudget` bytes of one slice;
that is no more than there are, and at least one where there is one. -/
theorem sealBudget_exact {fuel : Nat} {data : Bytes} (hio : Refuses io)
    (hB : Fragments B fragment overhead queued) (hf : 0 < fragment) (hmax : fragment ≤ maxRecord)
    (hs : queued pending s.ssl) (hfuel : data.length + 2 ≤ fuel) :
    let budget := sealBudget fragment overhead pending s.stream.writeBuf.len data.length
    (∃ s', sslWriteRecords B io a fuel s [data] data.length = some (.ok budget, s'))
      ∧ budget ≤ data.length ∧ min data.length 1 ≤ budget := by
  intro budget
  have hbudget : budget
      = accepted fragment overhead data.length (s.stream.writeBuf.len + pending) data.length :=
    (sealBudget_eq hf hmax).trans (accepted_eq hf hmax (Nat.le_refl _)).symm
  have hone : 0 < recordsToFill (fragment + overhead) (s.stream.writeBuf.len + pending) * fragment :=
    Nat.mul_pos (Nat.lt_of_lt_of_le Nat.one_pos (Nat.le_max_right _ _)) hf
  refine ⟨?_, ?_, ?_⟩
  · have hslice : OneSlice fragment data.length (.new [data]) :=
      ⟨Packer.valid_new _, Packer.length_advanceSlices _ _, by simp, hmax, Nat.le_refl _⟩
    have hreserve : (s.setRecords (s.stream.writeBuf.reserve a data.length)
        s.stream.transport).stream.writeBuf.len = s.stream.writeBuf.len := by
      show (s.stream.writeBuf.reserve a data.length).len = _
      rw [← WriteBuffer.length_buffered, WriteBuffer.reserve_buffered, WriteBuffer.length_buffered]
    obtain ⟨s', hloop⟩ : ∃ s', sealLoop B io a data.length fuel
        (s.setRecords (s.stream.writeBuf.reserve a data.length) s.stream.transport)
        ⟨0, .new [data], true⟩ = some (none, 0 + accepted fragment overhead data.length
          (s.stream.writeBuf.len + pending) data.length, s') :=
      sealLoop_accepts hio hB hf hs hslice (Nat.zero_add _).symm (by rw [hreserve]) (Nat.le_refl _)
        hfuel
    unfold sslWriteRecords
    simp only [hloop, Nat.zero_add, ← hbudget]
    exact ⟨_, rfl⟩
  · rw [hbudget, accepted_eq hf hmax (Nat.le_refl _)]
    split <;> omega
  · rw [hbudget, accepted_eq hf hmax (Nat.le_refl _)]
    split <;> omega

/-- A transport that is never ready. -/
def stalled : AsyncStream Unit where
  pollWrite _ _ := (.pending, ())
  pollWriteVectored _ _ := (.pending, ())
  isWriteVectored _ := false
  pollFlush _ := (.pending, ())
  pollShutdown _ := (.pending, ())
  pollRead _ _ := (.pending, ())
  pollWrite_le _ _ _ h := nomatch h
  pollWriteVectored_le _ _ _ h := nomatch h
  pollRead_le _ _ _ h := nomatch h

/-- Three bytes the stalled transport has refused. -/
def refusedBytes : SslStream Bytes Unit :=
  (SslStream.new [] ()).setRecords (WriteBuffer.empty.push exactly [1, 2, 3]) ⟨(), [], [], []⟩

/-- The clear library with fragments of 100 bytes, and seven bytes of its handshake to send before
the first. -/
def smallSsl : BoringSsl Bytes :=
  { clearSsl with
    sslWrite := fun s buf =>
      .call (.write ((if s.isEmpty then List.replicate 7 22 else []) ++ clearRecord (buf.take 100)))
        fun
        | .ok _ => .ret (.ok (buf.take 100).length, s ++ buf.take 100)
        | .error _ => .ret (.error ⟨.wantWrite, []⟩, s)
    sslWrite_spec := fun s buf hbuf x hx => by
      obtain rfl : x = _ := hx
      have hlen := List.length_pos_iff.mpr hbuf
      refine ⟨?_, ?_, ?_⟩
      · rw [List.length_take]; omega
      · rw [List.length_take]; omega
      · simp [clearSsl] }

/-- A hundred thousand bytes after the refused ones: 625 records fill the buffer, and a tail of more
than `MAX_RECORD` is left. -/
theorem sealBudget_exact_stalled :
    ∃ s', sslWriteRecords smallSsl stalled exactly 100002 refusedBytes [List.replicate 100000 7] 100000
      = some (.ok 62500, s') := by
  have hsmall : Fragments smallSsl 100 5 (fun pending ssl => pending = if ssl.isEmpty then 7 else 0) := by
    rintro pending ssl rfl buf hbuf
    have hlen : (buf.take 100).length = min buf.length 100 := by
      rw [List.length_take, Nat.min_comm]
    have hsize : (if ssl.isEmpty then 7 else 0) + (min buf.length 100 + 5)
        = ((if ssl.isEmpty then List.replicate 7 22 else []) ++ clearRecord (buf.take 100)).length
          + 0 := by
      rw [← hlen, clearRecord, List.length_append, List.length_append]
      split <;> simp only [List.length_cons, List.length_nil, List.length_replicate] <;> omega
    refine ⟨ssl ++ buf.take 100, ?_, ?_⟩
    · rw [hsize, ← hlen]
      exact .write (.ret _)
    · simp [hbuf]
  have hbudget : sealBudget 100 5 7 3 100000 = 62500 := by decide +kernel
  have hlength : (List.replicate 100000 (7 : UInt8)).length = 100000 := List.length_replicate
  have hexact : ∃ s', sslWriteRecords smallSsl stalled exactly 100002 refusedBytes
      [List.replicate 100000 7] (List.replicate 100000 (7 : UInt8)).length
        = some (.ok (sealBudget 100 5 7 refusedBytes.stream.writeBuf.len
            (List.replicate 100000 (7 : UInt8)).length), s') :=
    (sealBudget_exact ⟨fun _ _ => rfl, fun _ _ => rfl⟩ hsmall (by decide) (by decide) rfl
      (by rw [hlength])).1
  rw [hlength, show refusedBytes.stream.writeBuf.len = 3 from rfl, hbudget] at hexact
  exact hexact

end SslStream

end Loop

/-! ### What a write leaves buffered -/

section Bounded

variable {σ τ : Type} (B : BoringSsl σ) (io : AsyncStream τ) (a : Allocator)

namespace SslStream

/-- With which stream, slices and total `write_records` reaches `write_buffered`, if it does. -/
def bufferedPart (s : SslStream σ τ) (bufs : List Bytes) :
    Option (SslStream σ τ × List Bytes × Nat) :=
  match s.stream.writeBuf.retry io s.stream.transport with
  | (.error _, _, _) => none
  | (.ok (), writeBuf, transport) =>
      let s := s.setRecords writeBuf transport
      let total := totalLen bufs
      if total = 0 then none
      else if total ≤ maxRecord ∧ s.stream.writeBuf.isEmpty then
        match s.sealOnStack B io a bufs total with
        | (.error _, _) => none
        | (.ok (some n), s) =>
            if n < total then some (s, advanceSlices bufs n, total - n) else none
        | (.ok none, s) => some (s, bufs, total)
      else some (s, bufs, total)

/-- The write seals every record it makes with `SSL_seal_app_data`: on the stack alone, or after the
buffered records under `limits`, whether that succeeds or fails.  A write with a part left to
`SSL_write`, where BoringSSL has no limits to report or declines, is not one of them. -/
def SealPath (s : SslStream σ τ) (bufs : List Bytes) (limits : SealLimits) : Prop :=
  (s.stream.writeBuf.retry io s.stream.transport).1 = .ok ()
    ∧ ∀ s₁ bufs₁ total, s.bufferedPart B io a bufs = some (s₁, bufs₁, total) →
        B.sealAppDataLimits s₁.ssl = some limits
          ∧ (s₁.stream.writeBuf.sealInto B a s₁.ssl limits bufs₁ total).1 ≠ .ok none

end SslStream

/-- The most a write leaves buffered. -/
def bufferBound (l : SealLimits) : Nat :=
  writeBufCapacity - 1 + l.pendingLen + (l.maxFragment + l.recordOverhead) + maxRecord
    + divCeil maxRecord l.maxFragment * l.recordOverhead

variable {B io a}

/-- The records overrun a buffer by less than one of them, or are one. -/
theorem le_recordsToFill_mul {size buffered : Nat} (hsize : 0 < size) :
    recordsToFill size buffered * size ≤ (writeBufCapacity - buffered) + size - 1
      ∨ recordsToFill size buffered = 1 := by
  have hlt := divCeil_mul_lt (a := writeBufCapacity - buffered) hsize
  unfold recordsToFill
  by_cases hone : divCeil (writeBufCapacity - buffered) size ≤ 1
  · exact .inr (by omega)
  · rw [Nat.max_eq_left (by omega)]
    exact .inl (by omega)

/-- The budget is within a tail of the records that fill the buffer. -/
theorem sealBudget_le {fragment overhead pending buffered total : Nat} (hf : 0 < fragment) :
    sealBudget fragment overhead pending buffered total
      ≤ recordsToFill (fragment + overhead) (buffered + pending) * fragment + maxRecord := by
  unfold sealBudget
  simp only [saturated_recordsToFill hf]
  have hcap : saturatingMul (recordsToFill (fragment + overhead) (buffered + pending)) fragment
      ≤ recordsToFill (fragment + overhead) (buffered + pending) * fragment := Nat.min_le_left _ _
  split <;> omega

/-- **A budget seals into a bounded buffer**, from one that is not full. -/
theorem sealedLen_budget_le {l : SealLimits} {buffered total maxOut : Nat}
    (hroom : buffered < writeBufCapacity)
    (h : l.sealedLen (sealBudget l.maxFragment l.recordOverhead l.pendingLen buffered total)
      = some maxOut) : buffered + maxOut ≤ bufferBound l := by
  obtain ⟨F, O, p, hf⟩ := l
  simp only at h
  have hbudget : sealBudget F O p buffered total
      ≤ recordsToFill (F + O) (buffered + p) * F + maxRecord := sealBudget_le hf
  generalize hb : sealBudget F O p buffered total = budget at h hbudget
  obtain ⟨a, ha, b, hb', hlast⟩ : ∃ a, checkedMul (divCeil budget F) O = some a
      ∧ ∃ b, checkedAdd a budget = some b ∧ checkedAdd b p = some maxOut := by
    simpa [SealLimits.sealedLen, Option.bind_eq_some_iff] using h
  obtain ⟨-, rfl⟩ := checkedMul_eq_some.mp ha
  obtain ⟨-, rfl⟩ := checkedAdd_eq_some.mp hb'
  obtain ⟨-, rfl⟩ := checkedAdd_eq_some.mp hlast
  generalize hk : recordsToFill (F + O) (buffered + p) = k at hbudget
  have hrecords : divCeil budget F ≤ k + divCeil maxRecord F := by
    rw [← divCeil_mul_add hf]
    exact divCeil_mono hbudget
  have hoverhead : divCeil budget F * O ≤ k * O + divCeil maxRecord F * O := by
    rw [← Nat.add_mul]
    exact Nat.mul_le_mul_right O hrecords
  have hfill : k * (F + O) ≤ (writeBufCapacity - (buffered + p)) + (F + O) - 1 ∨ k = 1 := by
    rw [← hk]
    exact le_recordsToFill_mul (by omega)
  have hsplit : k * (F + O) = k * F + k * O := Nat.mul_add k F O
  unfold bufferBound
  simp only
  rcases hfill with hfill | rfl
  · omega
  · rw [Nat.one_mul] at hbudget hoverhead hsplit
    omega

/-- The last drain adds nothing. -/
theorem WriteBuffer.drainUnlessBlocked_len {b b' : WriteBuffer} {t t' : Transport τ}
    (h : b.drainUnlessBlocked io t = (b', t')) : b'.len ≤ b.len := by
  unfold drainUnlessBlocked at h
  split at h
  · obtain ⟨rfl, -⟩ := Prod.mk.inj h
    exact Nat.le_refl _
  · rcases hd : b.drain io .finish t with ⟨r, b₁, t₁⟩
    obtain ⟨n, -, hrest, -⟩ := drain_buffered hd
    rw [hd] at h
    obtain ⟨rfl, -⟩ := Prod.mk.inj h
    rw [← length_buffered, ← length_buffered, hrest, List.length_drop]
    exact Nat.sub_le _ _

/-- A buffer that is not full is within the bound. -/
theorem le_bufferBound {l : SealLimits} {n : Nat} (h : n < writeBufCapacity) : n ≤ bufferBound l := by
  unfold bufferBound
  omega

/-- Sealing after the buffered records keeps within the bound; where it fails, nothing is added. -/
theorem WriteBuffer.sealInto_len {b b' : WriteBuffer} {ssl ssl' : σ} {limits : SealLimits}
    {bufs : List Bytes} {total : Nat} {r : Except IoError (Option Nat)} {records : Bytes}
    (hroom : b.len < writeBufCapacity)
    (h : b.sealInto B a ssl limits bufs total = (r, records, b', ssl')) :
    b'.len ≤ bufferBound limits := by
  unfold sealInto at h
  simp only at h
  split at h
  · obtain ⟨-, -, rfl, -⟩ : _ ∧ _ ∧ _ ∧ _ := by simpa using h
    exact le_bufferBound hroom
  rename_i maxOut hmax
  have hunsealed : (b.makeRoom a maxOut).len ≤ bufferBound limits := by
    rw [← length_buffered, makeRoom_buffered, length_buffered]
    exact le_bufferBound hroom
  rcases hs : B.sealChecked ssl bufs (sealBudget limits.maxFragment limits.recordOverhead
    limits.pendingLen b.len total) maxOut with ⟨queue | _ | sealed, ssl₁⟩ <;> simp only [hs] at h
  · obtain ⟨-, -, rfl, -⟩ : _ ∧ _ ∧ _ ∧ _ := by simpa using h
    exact hunsealed
  · obtain ⟨-, -, rfl, -⟩ : _ ∧ _ ∧ _ ∧ _ := by simpa using h
    exact hunsealed
  · obtain ⟨-, -, rfl, -⟩ : _ ∧ _ ∧ _ ∧ _ := by simpa using h
    have hle := sealed.records_le
    have hbound := sealedLen_budget_le hroom hmax
    rw [← length_buffered, fill_buffered, makeRoom_buffered, List.length_append, length_buffered]
    omega

/-- Whatever the transport takes of it, the last write adds at most its record. -/
theorem WriteBuffer.writeLast_len {b b' : WriteBuffer} {t t' : Transport τ} {record : Bytes}
    (h : b.writeLast a io t record = (b', t')) : b'.len ≤ b.len + record.length := by
  unfold writeLast at h
  rcases hp : (if b.len = 0 then t.pollWrite io .writeLast record
    else if io.isWriteVectored t.stream then t.pollWriteVectored io .writeLast [b.buffered, record]
    else (.ready (.ok 0), t)) with ⟨res, t₁⟩
  rw [hp] at h
  have hkeep : b'.buffered = (b.buffered ++ record).drop res.taken := by
    rcases res with (e | n) | _ <;> obtain ⟨rfl, rfl⟩ := Prod.mk.inj h <;>
      exact keepUnwritten_buffered _ _ _
  rw [← b'.length_buffered, hkeep, List.length_drop, List.length_append, b.length_buffered]
  exact Nat.sub_le _ _

/-- An empty buffer has no bytes. -/
theorem WriteBuffer.len_of_isEmpty {b : WriteBuffer} (h : b.isEmpty = true) : b.len = 0 := by
  rw [← b.length_buffered, b.buffered_eq_nil.mpr h]
  rfl

namespace SslStream

variable {s s' s₁ : SslStream σ τ} {bufs : List Bytes} {fuel : Nat}

/-- **Sealing on the stack never fills the buffer**: it held nothing, and what the transport leaves
of the records fits `SEAL_STACK_LEN`. -/
theorem sealOnStack_len {total : Nat} {r : Except IoError (Option Nat)}
    (hempty : s.stream.writeBuf.isEmpty = true) (h : s.sealOnStack B io a bufs total = (r, s')) :
    s'.stream.writeBuf.len < writeBufCapacity := by
  have hzero := WriteBuffer.len_of_isEmpty hempty
  have hkept : s.stream.writeBuf.len < writeBufCapacity := by
    rw [hzero]
    decide
  unfold sealOnStack at h
  rcases hs : B.sealChecked s.ssl bufs total sealStackLen with ⟨queue | _ | sealed, ssl₁⟩ <;>
    simp only [hs] at h
  · obtain ⟨rfl, rfl⟩ := Prod.mk.inj h
    exact hkept
  · obtain ⟨rfl, rfl⟩ := Prod.mk.inj h
    exact hkept
  · rcases hw : (if sealed.consumed < total then
        (s.stream.writeBuf.push a sealed.records, s.stream.transport)
      else s.stream.writeBuf.writeLast a io s.stream.transport sealed.records) with ⟨b, t⟩
    rw [hw] at h
    obtain ⟨rfl, rfl⟩ := Prod.mk.inj h
    have hadded : b.len ≤ s.stream.writeBuf.len + sealed.records.length := by
      by_cases hlt : sealed.consumed < total
      · rw [if_pos hlt] at hw
        obtain ⟨rfl, rfl⟩ := Prod.mk.inj hw
        rw [← WriteBuffer.length_buffered, WriteBuffer.push_buffered, List.length_append,
          WriteBuffer.length_buffered]
      · rw [if_neg hlt] at hw
        exact WriteBuffer.writeLast_len hw
    have hle := sealed.records_le
    have hstack : sealStackLen < writeBufCapacity := by decide
    show b.len < _
    omega

/-- Where a write reaches `write_buffered`, it ends there, from a buffer that is not full. -/
theorem writeRecords_bufferedPart {total : Nat} {bufs₁ : List Bytes} {r : Except IoError Nat}
    (h : s.writeRecords B io a fuel bufs = some (r, s'))
    (hpart : s.bufferedPart B io a bufs = some (s₁, bufs₁, total)) :
    s₁.stream.writeBuf.len < writeBufCapacity
      ∧ ∃ r₁, writeBuffered B io a fuel s₁ bufs₁ total = some (r₁, s') := by
  unfold writeRecords at h
  unfold bufferedPart at hpart
  rcases hretry : s.stream.writeBuf.retry io s.stream.transport with ⟨e | _, b, t⟩ <;>
    simp only [hretry] at h hpart
  · cases hpart
  have hroom := WriteBuffer.retry_not_full hretry rfl
  by_cases hzero : totalLen bufs = 0
  · rw [if_pos hzero] at hpart
    cases hpart
  rw [if_neg hzero] at h hpart
  unfold writeNonempty at h
  by_cases hstack : totalLen bufs ≤ maxRecord ∧ (s.setRecords b t).stream.writeBuf.isEmpty = true
  · rw [if_pos hstack] at h hpart
    rcases hs : (s.setRecords b t).sealOnStack B io a bufs (totalLen bufs) with ⟨e | _ | n, s₂⟩ <;>
      have hstacked := sealOnStack_len hstack.2 hs <;> simp only [hs] at h hpart
    · cases hpart
    · obtain ⟨rfl, rfl, rfl⟩ : _ ∧ _ ∧ _ := by simpa using hpart
      exact ⟨hstacked, r, h⟩
    · by_cases hlt : n < totalLen bufs
      · rw [if_pos hlt] at h hpart
        obtain ⟨rfl, rfl, rfl⟩ : _ ∧ _ ∧ _ := by simpa using hpart
        refine ⟨hstacked, ?_⟩
        rcases hw : writeBuffered B io a fuel s₂ (advanceSlices bufs n) (totalLen bufs - n)
          with _ | ⟨e | m, s₃⟩ <;> simp only [hw] at h
        · cases h
        · obtain ⟨-, rfl⟩ := Prod.mk.inj (Option.some.inj h)
          exact ⟨_, rfl⟩
        · obtain ⟨-, rfl⟩ := Prod.mk.inj (Option.some.inj h)
          exact ⟨_, rfl⟩
      · rw [if_neg hlt] at hpart
        cases hpart
  · rw [if_neg hstack] at h hpart
    obtain ⟨rfl, rfl, rfl⟩ : _ ∧ _ ∧ _ := by simpa using hpart
    exact ⟨hroom, r, h⟩

/-- A write that ends before `write_buffered`, past its retry, leaves a buffer that is not full. -/
theorem writeRecords_unbuffered {r : Except IoError Nat}
    (h : s.writeRecords B io a fuel bufs = some (r, s'))
    (hretry : (s.stream.writeBuf.retry io s.stream.transport).1 = .ok ())
    (hpart : s.bufferedPart B io a bufs = none) : s'.stream.writeBuf.len < writeBufCapacity := by
  unfold writeRecords at h
  unfold bufferedPart at hpart
  rcases hr : s.stream.writeBuf.retry io s.stream.transport with ⟨e | _, b, t⟩ <;>
    simp only [hr] at h hpart hretry
  · cases hretry
  by_cases hzero : totalLen bufs = 0
  · rw [if_pos hzero] at h
    obtain ⟨-, rfl⟩ := Prod.mk.inj (Option.some.inj h)
    exact WriteBuffer.retry_not_full hr rfl
  rw [if_neg hzero] at h hpart
  unfold writeNonempty at h
  by_cases hstack : totalLen bufs ≤ maxRecord ∧ (s.setRecords b t).stream.writeBuf.isEmpty = true
  · rw [if_pos hstack] at h hpart
    rcases hs : (s.setRecords b t).sealOnStack B io a bufs (totalLen bufs) with ⟨e | _ | n, s₂⟩ <;>
      have hstacked := sealOnStack_len hstack.2 hs <;> simp only [hs] at h hpart
    · obtain ⟨-, rfl⟩ := Prod.mk.inj (Option.some.inj h)
      exact hstacked
    · cases hpart
    · by_cases hlt : n < totalLen bufs
      · rw [if_pos hlt] at hpart
        cases hpart
      · rw [if_neg hlt] at h
        obtain ⟨-, rfl⟩ := Prod.mk.inj (Option.some.inj h)
        exact hstacked
  · rw [if_neg hstack] at hpart
    cases hpart

/-- What `write_buffered` leaves on the seal path, from a buffer that is not full. -/
theorem writeBuffered_len {total : Nat} {limits : SealLimits} {r : Except IoError Nat}
    (hroom : s.stream.writeBuf.len < writeBufCapacity)
    (hlimits : B.sealAppDataLimits s.ssl = some limits)
    (hsealed : (s.stream.writeBuf.sealInto B a s.ssl limits bufs total).1 ≠ .ok none)
    (h : writeBuffered B io a fuel s bufs total = some (r, s')) :
    s'.stream.writeBuf.len ≤ bufferBound limits := by
  unfold writeBuffered at h
  rcases hs : s.stream.writeBuf.sealInto B a s.ssl limits bufs total with ⟨e | _ | n, records, b, ssl⟩
    <;> have hlen := WriteBuffer.sealInto_len hroom hs <;> simp only [hlimits, hs] at h hsealed
  · obtain ⟨-, rfl⟩ := Prod.mk.inj (Option.some.inj h)
    exact hlen
  · exact absurd rfl hsealed
  · obtain ⟨-, rfl⟩ := Prod.mk.inj (Option.some.inj h)
    unfold drainUnlessBlocked
    rcases hd : WriteBuffer.drainUnlessBlocked io b s.stream.transport with ⟨b', t'⟩
    have hdrained : ({ s with ssl }.produce records b s.stream.transport).stream.writeBuf.drainUnlessBlocked
        io ({ s with ssl }.produce records b s.stream.transport).stream.transport = (b', t') := hd
    rw [hdrained]
    exact Nat.le_trans (WriteBuffer.drainUnlessBlocked_len hd) hlen

/-- **Buffering is bounded.**  A write whose retry leaves a full buffer takes nothing and returns
what the transport answered, `Pending` where it is blocked; and one on the seal path, on the stack
or after the buffered records, leaves no more than the bound, whatever it was given and whatever is
already buffered. -/
theorem buffering_bounded {r : Poll (Except IoError Nat)}
    (h : s.pollWriteVectored B io a fuel bufs = some (r, s')) :
    (∀ e b t, s.stream.writeBuf.drain io .retry s.stream.transport = (.error e, b, t) →
        writeBufCapacity ≤ b.len →
        s' = s.setRecords b t ∧ r = cvt (.error e) ∧ (e.kind = .wouldBlock → r = .pending))
      ∧ ∀ limits, s.SealPath B io a bufs limits →
          s'.stream.writeBuf.len ≤ bufferBound limits := by
  obtain ⟨⟨res, s₁⟩, hw, heq⟩ := Option.map_eq_some_iff.mp h
  obtain ⟨rfl, rfl⟩ := Prod.mk.inj heq
  refine ⟨fun e b t hd hfull => ?_, fun limits hseals => ?_⟩
  · have hretry : s.stream.writeBuf.retry io s.stream.transport = (.error e, b, t) := by
      unfold WriteBuffer.retry
      by_cases hempty : s.stream.writeBuf.isEmpty = true
      · obtain ⟨n, -, hrest, -⟩ := WriteBuffer.drain_buffered hd
        rw [s.stream.writeBuf.buffered_eq_nil.mpr hempty, List.drop_nil] at hrest
        rw [← b.length_buffered, hrest] at hfull
        cases hfull
      · have hisFull : b.isFull = true := decide_eq_true hfull
        rw [if_neg hempty, hd]
        simp [hisFull]
    unfold writeRecords at hw
    simp only [hretry] at hw
    obtain ⟨rfl, rfl⟩ := Prod.mk.inj (Option.some.inj hw)
    exact ⟨rfl, rfl, fun hk => by simp [cvt, hk]⟩
  · obtain ⟨hretry, hrest⟩ := hseals
    rcases hpart : s.bufferedPart B io a bufs with _ | ⟨s₂, bufs₂, total⟩
    · exact le_bufferBound (writeRecords_unbuffered hw hretry hpart)
    · obtain ⟨hlimits, hsealed⟩ := hrest s₂ bufs₂ total hpart
      obtain ⟨hroom, r₂, hrest⟩ := writeRecords_bufferedPart hw hpart
      exact writeBuffered_len hroom hlimits hsealed hrest

/-- A write of two bytes after them, and one of two bytes sealed on the stack. -/
theorem buffering_bounded_refused :
    (∃ s' : SslStream Bytes Unit, refusedBytes.pollWriteVectored clearSsl stalled exactly 1 [[7, 8]]
        = some (.ready (.ok 2), s')
      ∧ s'.stream.writeBuf.len = 10
      ∧ s'.stream.writeBuf.len ≤ bufferBound ⟨maxRecord, 5, 0, by decide⟩)
    ∧ ∃ s' : SslStream Bytes Unit,
        (SslStream.new [] ()).pollWriteVectored clearSsl stalled exactly 1 [[7, 8]]
          = some (.ready (.ok 2), s')
        ∧ s'.stream.writeBuf.len = 7
        ∧ s'.stream.writeBuf.len ≤ bufferBound ⟨maxRecord, 5, 0, by decide⟩ := by
  have hafter : ∃ s' : SslStream Bytes Unit,
      refusedBytes.pollWriteVectored clearSsl stalled exactly 1 [[7, 8]] = some (.ready (.ok 2), s')
        ∧ s'.stream.writeBuf.len = 10 := ⟨_, rfl, rfl⟩
  have hstack : ∃ s' : SslStream Bytes Unit,
      (SslStream.new [] ()).pollWriteVectored clearSsl stalled exactly 1 [[7, 8]]
          = some (.ready (.ok 2), s')
        ∧ s'.stream.writeBuf.len = 7 := ⟨_, rfl, rfl⟩
  have hpart : ∀ s₁ bufs₁ total, refusedBytes.bufferedPart clearSsl stalled exactly [[7, 8]]
      = some (s₁, bufs₁, total) → clearSsl.sealAppDataLimits s₁.ssl = some ⟨maxRecord, 5, 0, by decide⟩
        ∧ (s₁.stream.writeBuf.sealInto clearSsl exactly s₁.ssl ⟨maxRecord, 5, 0, by decide⟩ bufs₁
            total).1 ≠ .ok none := by
    rintro s₁ bufs₁ total h
    obtain ⟨rfl, rfl, rfl⟩ : _ ∧ _ ∧ _ := by simpa using Option.some.inj h.symm
    exact ⟨rfl, nofun⟩
  have hnone : ∀ s₁ bufs₁ total, (SslStream.new [] ()).bufferedPart clearSsl stalled exactly [[7, 8]]
      ≠ some (s₁, bufs₁, total) := fun _ _ _ h => nomatch (show none = some _ from h)
  obtain ⟨s', hs', hlen⟩ := hafter
  obtain ⟨s'', hs'', hlen'⟩ := hstack
  exact ⟨⟨s', hs', hlen, (buffering_bounded hs').2 _ ⟨rfl, hpart⟩⟩,
    s'', hs'', hlen', (buffering_bounded hs'').2 _ ⟨rfl, fun _ _ _ h => absurd h (hnone _ _ _)⟩⟩

end SslStream

end Bounded

end Btls.Stream
