import Btls.Seal.Call
import Btls.Support.Memory

/-!
# Seal — Staging

The caller's output while `tls_seal_app_data` runs.  The planner copies plaintext into it, the
sealer encrypts it there, and a record that is not sealed has its body cleared.

Each function here is the one it is named after with the memory it writes (`_fst` lemmas).  A byte
of memory carries what it is (`Origin`), so that a copied byte that nothing encrypted or cleared
shows.

`Layout` is what the cipher's documented lengths leave open: the part of an explicit nonce that a
failed seal has written, and that the overhead counts what is in front of the body.
`scatter_tiles`: sealing pieces that tile the body writes the body, whichever of them were in place.
-/

namespace Btls.Seal

open Btls.Support Btls.Support.Slices Btls.Tls

/-- What a byte of the output is. -/
inductive Origin where
  /-- What it was before the call. -/
  | before
  /-- Plaintext the call copied there. -/
  | plaintext
  /-- Zero, written to clear it. -/
  | cleared
  /-- A part of a record: its header, nonce, ciphertext or tag. -/
  | record
  deriving DecidableEq

/-- Memory before the call. -/
def memoryBefore (content : Nat → UInt8) : Memory Origin := fun a => ⟨.before, content a⟩

/-- `OPENSSL_memset(p, 0, len)`. -/
def clear (m : Memory Origin) (addr len : Nat) : Memory Origin :=
  m.write .cleared addr (List.replicate len 0)

/-- `seal_copy`.  Short pieces are copied with two fixed-size moves, which overlap, or by bytes. -/
def sealCopy (m : Memory Origin) (dst : Nat) (src : Bytes) : Memory Origin :=
  let move (m : Memory Origin) (i n : Nat) := m.write .plaintext (dst + i) ((src.drop i).take n)
  let len := src.length
  if 32 < len then move m 0 len
  else if 16 ≤ len then move (move m 0 16) (len - 16) 16
  else if 8 ≤ len then move (move m 0 8) (len - 8) 8
  else if 4 ≤ len then move (move m 0 4) (len - 4) 4
  else if 0 < len then move (move (move m 0 1) (len / 2) 1) (len - 1) 1
  else m

/-- The loop of `tls_plan_seal_body`. -/
def planLoopMem (out : OutSpan) (want limit budget body : Nat) :
    List Slice → PlanState → Memory Origin → Except PlanError PlanState × Memory Origin
  | [], st, m => (.ok st, m)
  | slice :: rest, st, m =>
      if limit ≤ st.pos then (.ok st, m)
      else if st.offset = slice.len then
        planLoopMem out want limit budget body rest
          { st with index := st.index + 1, offset := 0 } m
      else
        match slice.addr with
        | none => (.error (.reason .passedNullParameter), clear m body st.pos)
        | some addr =>
            let len := min (slice.len - st.offset) (limit - st.pos)
            if buffersAlias (addr + st.offset) len out.addr out.size then
              (.error (.reason .outputAliasesInput), clear m body st.pos)
            else
              let piece := (slice.bytes.drop st.offset).take len
              match st.add want budget body (addr + st.offset) piece with
              | none => (.error .checkFailed, m)
              | some st' =>
                  let m :=
                    if st.Gathers want budget piece.length then m
                    else sealCopy m (body + st.pos) piece
                  if st.offset + len = slice.len then
                    planLoopMem out want limit budget body rest
                      { st' with index := st.index + 1, offset := 0 } m
                  else (.ok { st' with offset := st.offset + len }, m)

def planSealBodyMem (input : SealInput) (want body budget : Nat) (m : Memory Origin) :
    Except PlanError (SealInput × List Iovec × Nat) × Memory Origin :=
  match planLoopMem input.out want (min want input.remaining) budget body
      (input.slices.drop input.index) ⟨input.index, input.offset, 0, [], []⟩ m with
  | (.error e, m) => (.error e, m)
  | (.ok st, m) =>
      if st.run = [] then (.ok (input.advanceTo st, st.iovecs, st.pos), m)
      else if st.iovecs.length < budget then
        (.ok (input.advanceTo st, st.closeRun body, st.pos), m)
      else (.error .checkFailed, m)

/-- Writes `bytes` to the entries' outputs, each as much as it holds. -/
def scatter (o : Origin) : List Iovec → Bytes → Memory Origin → Memory Origin
  | [], _, m => m
  | v :: vs, bytes, m =>
      scatter o vs (bytes.drop v.bytes.length) (m.write o v.out (bytes.take v.bytes.length))

section Model

variable {κ ρ : Type} (A : Aead κ ρ)

/-- What the memory shows of the cipher beside what it returns. -/
structure Layout where
  /-- The explicit nonce a failed seal leaves in the record, if it came that far. -/
  nonceLeft : κ → RecordAd → Bytes
  nonceLeft_le : ∀ ctx ad, (nonceLeft ctx ad).length ≤ (A.params ctx).explicitNonceLen
  /-- `SSL_max_seal_overhead` covers what goes in front of the body. -/
  prefix_le : ∀ p version, headerLength + p.explicitNonceLen ≤ A.maxSealOverhead p version

variable (L : Layout A)

def sealScattervMem (ctx : κ) (outPrefix : Nat) (body : List Iovec) (outSuffix : Nat)
    (ad : RecordAd) (extraIn : Bytes) (m : Memory Origin) :
    (Except (List SslReason) Sealing × κ) × Memory Origin :=
  if tooManyIovecs body extraIn then ((.error [.internalError], ctx), m)
  else
    match A.suffixLen (A.params ctx) (Iovec.join body).length extraIn.length with
    | none => ((.error [.recordTooLarge], ctx), m)
    | some suffixLen =>
        if aliasesRecord outPrefix (A.params ctx).explicitNonceLen body outSuffix suffixLen then
          ((.error [.outputAliasesInput], ctx), m)
        else if (A.params ctx).isNullCipher then
          -- The record is the plaintext itself.
          ((.ok ⟨[], Iovec.join body, extraIn⟩, ctx),
            (scatter .plaintext body (Iovec.join body) m).write .record outSuffix extraIn)
        else
          match A.sealv ctx ad (Iovec.join body) extraIn with
          | (.ok z, ctx') =>
              ((.ok z, ctx'), (scatter .record body z.body
                (m.write .record outPrefix z.nonce)).write .record outSuffix z.suffix)
          | (.error es, ctx') =>
              -- On failure, `EVP_AEAD_CTX_sealv` zeroes every output and the tag.
              ((.error es, ctx'), clear (scatter .cleared body
                (List.replicate (Iovec.join body).length 0)
                (m.write .record outPrefix (L.nonceLeft ctx ad))) outSuffix suffixLen)

def doSealRecordIovMem (s : SslImpl κ) (outPrefix : Nat) (body : List Iovec)
    (inLen outSuffix : Nat) (type : UInt8) (m : Memory Origin) :
    (Option Bytes × SslImpl κ) × Memory Origin :=
  match s.aeadWriteCtx with
  | none => ((none, s), m)
  | some ctx =>
      let p := A.params ctx
      let extraIn := p.extraIn s.protocolVersion type
      let passed := sslRecordSizeLimitCheckSeal A s inLen extraIn.length
      let s := s.attempt p inLen passed
      if !passed then
        ((none, s.putError .recordTooLarge), m)
      else
        match A.suffixLen p inLen extraIn.length, A.ciphertextLen p inLen extraIn.length with
        | some _, some ciphertextLen =>
            let outType := if extraIn.length ≠ 0 then rtApplicationData else type
            let header := outType :: be16 s.recordVersion ++ be16 ciphertextLen
            let m := m.write .record outPrefix header
            if s.writeSequence = usizeMax then ((none, s.putError .overflow), m)
            else
              match sealScattervMem A L ctx (outPrefix + headerLength) body outSuffix
                  ⟨s.writeSequence, header⟩ extraIn m with
              | ((.ok z, ctx), m) =>
                  ((some (header ++ (z.nonce ++ z.body ++ z.suffix)),
                    { s with
                      aeadWriteCtx := some ctx
                      writeSequence := s.writeSequence + 1 }), m)
              | ((.error es, ctx), m) =>
                  ((none, { s with aeadWriteCtx := some ctx, errors := s.errors ++ es }), m)
        | _, _ => ((none, s.putError .recordTooLarge), m)

def tlsSealAppDataRecordMem (s : SslImpl κ) (out : Nat) (input : SealInput)
    (want prefixLen budget : Nat) (m : Memory Origin) :
    (RecordResult × SealInput × SslImpl κ) × Memory Origin :=
  if s.writeSequence = usizeMax then ((.failed, input, s.putError .overflow), m)
  else
    match planSealBodyMem input want (out + prefixLen) budget m with
    | (.error (.reason e), m) => ((.failed, input, s.putError e), m)
    | (.error .checkFailed, m) => ((.checkFailed, input, s), m)
    | (.ok (input, iovecs, bodyLen), m) =>
        if bodyLen = 0 then ((.sealed [] 0, input, s), m)
        else
          match doSealRecordIovMem A L s out iovecs bodyLen (out + prefixLen + bodyLen)
              rtApplicationData m with
          | ((some record, s), m) => ((.sealed record bodyLen, input, s), m)
          -- The sealer zeroes its outputs, but a failure can come before it.
          | ((none, s), m) => ((.failed, input, s), clear m (out + prefixLen) bodyLen)

/-- The loop of `tls_seal_app_data`. -/
def sealLoopMem (p : LoopParams) :
    (fuel : Nat) → SealInput → (pos consumed : Nat) → SslImpl κ → Memory Origin →
      LoopResult κ × Memory Origin
  | 0, _, _, _, s, m => (⟨.ended, [], 0, s⟩, m)
  | fuel + 1, input, pos, consumed, s, m =>
      if consumed < p.maxIn then
        match p.nextWant input pos consumed with
        | none => (⟨.ended, [], 0, s⟩, m)
        | some want =>
            match tlsSealAppDataRecordMem A L s (p.out.addr + pos) input want p.prefixLen p.budget
                m with
            | ((.failed, _, s), m) => (⟨.failed, [], 0, s⟩, m)
            | ((.checkFailed, _, s), m) => (⟨.checkFailed, [], 0, s⟩, m)
            | ((.sealed record n, input, s), m) =>
                if n = 0 then (⟨.ended, [], 0, s⟩, m)
                else
                  let (r, m) := sealLoopMem p fuel input (pos + record.length) (consumed + n) s m
                  ({ r with records := record ++ r.records, consumed := n + r.consumed }, m)
      else (⟨.ended, [], 0, s⟩, m)

/-- What follows the loop: the flight is copied in front only if something is handed over. -/
def finishSealMem (out : OutSpan) (flight : Bytes) (r : LoopResult κ) (m : Memory Origin) :
    (SealReturn × SslImpl κ) × Memory Origin :=
  let ret := finishSeal flight r
  (ret, if ret.1.status = .success then m.write .record out.addr flight else m)

def tlsSealAppDataMem (U : Upstream A) (s : SslImpl κ) (out : OutSpan) (slicesAddr : Nat)
    (slices : List Slice) (maxIn : Nat) (m : Memory Origin) :
    (SealReturn × SslImpl κ) × Memory Origin :=
  if buffersAlias slicesAddr (slices.length * ivecSize) out.addr out.size then
    ((⟨.error, [], 0⟩, s.putError .outputAliasesInput), m)
  else
    match sealPending A s with
    | none => ((⟨.declined, [], 0⟩, s), m)
    | some pending =>
        let frag := tlsAppDataFragment A s
        let overhead := s.maxSealOverhead A
        let input := SealInput.new slices maxIn out
        if !firstRecordFits input maxIn frag pending overhead then ((⟨.declined, [], 0⟩, s), m)
        else
          match U.flushPendingHsData s with
          | (false, s) => ((⟨.error, [], 0⟩, s), m)
          | (true, s) =>
              let flight := s.pendingFlight.rest
              if pending < flight.length then ((⟨.error, [], 0⟩, s.putError .internalError), m)
              else
                let p : LoopParams :=
                  ⟨out, maxIn, frag, overhead, headerLength + explicitNonceLen A s,
                    tlsSealBodyIovecBudget A s⟩
                let (r, m) := sealLoopMem A L p maxIn input flight.length 0 s m
                finishSealMem out flight r m

end Model

/-! ### The memory changes nothing else -/

section Fst

variable {out : OutSpan} {want limit budget body : Nat}

theorem planLoopMem_fst (d : List Slice) (st : PlanState) (m : Memory Origin) :
    (planLoopMem out want limit budget body d st m).1
      = planLoop out want limit budget body d st := by
  induction d generalizing st m with
  | nil => rfl
  | cons slice rest ih =>
      unfold planLoopMem planLoop
      split
      · rfl
      split
      · exact ih _ _
      rcases slice.addr with _ | addr
      · rfl
      simp only
      split
      · rfl
      rcases st.add want budget body (addr + st.offset)
        ((slice.bytes.drop st.offset).take (min (slice.len - st.offset) (limit - st.pos))) with
        _ | st'
      · rfl
      simp only
      split
      · exact ih _ _
      · rfl

theorem planSealBodyMem_fst (input : SealInput) (m : Memory Origin) :
    (planSealBodyMem input want body budget m).1 = planSealBody input want body budget := by
  unfold planSealBodyMem planSealBody
  rw [← planLoopMem_fst (m := m)]
  rcases planLoopMem input.out want (min want input.remaining) budget body
    (input.slices.drop input.index) ⟨input.index, input.offset, 0, [], []⟩ m with ⟨_ | st, m'⟩
  · rfl
  simp only
  split
  · rfl
  split <;> rfl

variable {κ ρ : Type} {A : Aead κ ρ} (L : Layout A)

theorem sealScattervMem_fst (ctx : κ) (outPrefix : Nat) (vs : List Iovec) (outSuffix : Nat)
    (ad : RecordAd) (extraIn : Bytes) (m : Memory Origin) :
    (sealScattervMem A L ctx outPrefix vs outSuffix ad extraIn m).1
      = sealScatterv A ctx outPrefix vs outSuffix ad extraIn := by
  unfold sealScattervMem sealScatterv
  split
  · rfl
  rcases A.suffixLen (A.params ctx) (Iovec.join vs).length extraIn.length with _ | suffixLen
  · rfl
  simp only
  split
  · rfl
  split
  · rfl
  · rcases A.sealv ctx ad (Iovec.join vs) extraIn with ⟨_ | z, ctx'⟩ <;> rfl

theorem doSealRecordIovMem_fst (s : SslImpl κ) (outPrefix : Nat) (vs : List Iovec)
    (inLen outSuffix : Nat) (type : UInt8) (m : Memory Origin) :
    (doSealRecordIovMem A L s outPrefix vs inLen outSuffix type m).1
      = doSealRecordIov A s outPrefix vs inLen outSuffix type := by
  unfold doSealRecordIovMem doSealRecordIov
  rcases s.aeadWriteCtx with _ | ctx
  · rfl
  simp only
  split
  · rfl
  rcases A.suffixLen (A.params ctx) inLen
    ((A.params ctx).extraIn s.protocolVersion type).length with _ | suffixLen
  · rfl
  rcases A.ciphertextLen (A.params ctx) inLen
    ((A.params ctx).extraIn s.protocolVersion type).length with _ | ciphertextLen
  · rfl
  simp only
  split
  · rfl
  rw [← sealScattervMem_fst L]
  split <;> rename_i hs <;> rw [hs]

theorem tlsSealAppDataRecordMem_fst (s : SslImpl κ) (o : Nat) (input : SealInput)
    (want prefixLen budget : Nat) (m : Memory Origin) :
    (tlsSealAppDataRecordMem A L s o input want prefixLen budget m).1
      = tlsSealAppDataRecord A s o input want prefixLen budget := by
  unfold tlsSealAppDataRecordMem tlsSealAppDataRecord
  split
  · rfl
  rw [← planSealBodyMem_fst (m := m)]
  rcases planSealBodyMem input want (o + prefixLen) budget m with
    ⟨(e | _) | ⟨input₁, iovecs, bodyLen⟩, m₁⟩
  · rfl
  · rfl
  simp only
  split
  · rfl
  rw [← doSealRecordIovMem_fst L (m := m₁)]
  split <;> rename_i hs <;> simp only [hs]

theorem sealLoopMem_fst (p : LoopParams) (fuel : Nat) (input : SealInput) (pos consumed : Nat)
    (s : SslImpl κ) (m : Memory Origin) :
    (sealLoopMem A L p fuel input pos consumed s m).1
      = sealLoop A p fuel input pos consumed s := by
  induction fuel generalizing input pos consumed s m with
  | zero => rfl
  | succ fuel ih =>
      unfold sealLoopMem sealLoop
      split
      case isFalse => rfl
      rcases p.nextWant input pos consumed with _ | want
      · rfl
      simp only
      rw [← tlsSealAppDataRecordMem_fst L (m := m)]
      rcases tlsSealAppDataRecordMem A L s (p.out.addr + pos) input want p.prefixLen p.budget m with
        ⟨⟨_ | _ | _, input₁, s₁⟩, m₁⟩
      · simp only
        split
        · rfl
        · rw [← ih (m := m₁)]
      · rfl
      · rfl

/-- **The memory changes nothing else.**  What a call returns and leaves of the connection is what
`tlsSealAppData` says. -/
theorem tlsSealAppDataMem_fst (U : Upstream A) (s : SslImpl κ) (out : OutSpan) (slicesAddr : Nat)
    (slices : List Slice) (maxIn : Nat) (m : Memory Origin) :
    (tlsSealAppDataMem A L U s out slicesAddr slices maxIn m).1
      = tlsSealAppData A U s out slicesAddr slices maxIn := by
  unfold tlsSealAppDataMem tlsSealAppData
  split
  · rfl
  rcases sealPending A s with _ | pending
  · rfl
  simp only
  split
  · rfl
  rcases U.flushPendingHsData s with ⟨_ | _, s₁⟩
  · rfl
  simp only
  split
  · rfl
  · rw [← sealLoopMem_fst L (m := m)]
    rfl

end Fst

/-! ### What the copies and the sealer write -/

/-- `seal_copy` copies its piece, whichever moves it does it with. -/
theorem sealCopy_eq (m : Memory Origin) (dst : Nat) (src : Bytes) :
    sealCopy m dst src = m.write .plaintext dst src := by
  have hends (n : Nat) (hn : n ≤ src.length) (h2 : src.length ≤ 2 * n) :
      (m.write .plaintext (dst + 0) ((src.drop 0).take n)).write .plaintext
        (dst + (src.length - n)) ((src.drop (src.length - n)).take n)
          = m.write .plaintext dst src := by
    rw [List.drop_zero, Nat.add_zero, List.take_of_length_le (l := src.drop _)
      (by rw [List.length_drop]; omega)]
    exact Memory.write_ends m .plaintext dst (by omega) hn
  unfold sealCopy
  simp only
  by_cases h32 : 32 < src.length
  · rw [if_pos h32, List.drop_zero, List.take_length, Nat.add_zero]
  rw [if_neg h32]
  by_cases h16 : 16 ≤ src.length
  · rw [if_pos h16, hends 16 h16 (by omega)]
  rw [if_neg h16]
  by_cases h8 : 8 ≤ src.length
  · rw [if_pos h8, hends 8 h8 (by omega)]
  rw [if_neg h8]
  by_cases h4 : 4 ≤ src.length
  · rw [if_pos h4, hends 4 h4 (by omega)]
  rw [if_neg h4]
  by_cases h0 : src = []
  · simp [h0]
  rw [if_pos (List.length_pos_iff.mpr h0)]
  -- One byte, two or three: the middle one may be the first or the last again.
  match src, h4 with
  | [], _ => exact absurd rfl h0
  | [a], _ =>
      simp only [List.length_singleton, Nat.reduceDiv, Nat.sub_self, Nat.add_zero, List.drop_zero,
        List.take_succ_cons, List.take_zero]
      rw [Memory.write_again, Memory.write_again]
  | [a, b], _ =>
      simp only [List.length_cons, List.length_nil, Nat.zero_add, Nat.reduceAdd, Nat.reduceDiv,
        Nat.reduceSub, Nat.add_zero, List.drop_zero, List.drop_succ_cons, List.take_succ_cons,
        List.take_zero]
      rw [Memory.write_again]
      exact Memory.write_append m .plaintext dst [a] [b]
  | [a, b, c], _ =>
      simp only [List.length_cons, List.length_nil, Nat.zero_add, Nat.reduceAdd, Nat.reduceDiv,
        Nat.reduceSub, Nat.add_zero, List.drop_zero, List.drop_succ_cons, List.take_succ_cons,
        List.take_zero]
      have hab := Memory.write_append m .plaintext dst [a] [b]
      have habc := Memory.write_append m .plaintext dst [a, b] [c]
      simp only [List.length_cons, List.length_nil] at hab habc
      rw [hab]
      exact habc
  | _ :: _ :: _ :: _ :: _, h4 => exact absurd (by simp) h4

/-- Entries that tile a region are written as one. -/
theorem scatter_tiles {o : Origin} {body : Nat} {vs : List Iovec} {bytes : Bytes}
    {m : Memory Origin} (h : Tiles body vs) (hlen : bytes.length = (Iovec.join vs).length) :
    scatter o vs bytes m = m.write o body bytes := by
  induction vs generalizing body bytes m with
  | nil =>
      obtain rfl : bytes = [] := List.length_eq_zero_iff.mp hlen
      simp [scatter]
  | cons v vs ih =>
      rw [join_cons, List.length_append] at hlen
      have htake : (bytes.take v.bytes.length).length = v.bytes.length :=
        List.length_take_of_le (by omega)
      have happ := Memory.write_append m o body (bytes.take v.bytes.length)
        (bytes.drop v.bytes.length)
      rw [htake, List.take_append_drop] at happ
      unfold scatter
      rw [ih h.2 (by rw [List.length_drop]; omega), h.1, happ]

end Btls.Seal
