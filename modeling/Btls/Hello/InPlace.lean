import Btls.Hello.Finish
import Btls.Support.Except

/-!
# Hello — the deferred ECH extension is encoded in place

Two runs of the loop are kept in step: one passes the ECH row over and remembers where it was, the
other encodes it there (`InPlace`, `addExtensions_inPlace`).  Rotating the extension that is
appended after the first run gives the second (`InPlace.insert`), so padding and `pre_shared_key`
are the same (`deferred_inPlace`).

The order is any permutation of the rows, so it is split at the row of ECH
(`Handshake.order_split`): before it the two runs are the same, at it one appends and the other does
not, and after it every row does the same to both (`InPlace.addExtension`), whatever it writes.

The second half is about lengths: what the policy is told is the longest payload for which the block
still fits (`finish_lengths`), what padding comes to is decided by the window (`padding_of_window`,
`padding_of_not_window`), and none of the subtractions on sizes underflows (`never_underflow`).
-/

namespace Btls.Hello

open Btls.Support

variable {hs : Handshake} {st st' st₁ : Encoder} {outer ech written : Bytes} {index : Nat}

/-! ### Rotation -/

/-- Rotating the end of a block to an offset is the insertion there. -/
theorem rotate_append (before after ech : Bytes) :
    rotate (before ++ after ++ ech) before.length (before ++ after).length
      (before ++ after ++ ech).length = before ++ ech ++ after := by
  unfold rotate
  rw [List.take_length, List.drop_length, List.append_nil, List.drop_left, List.take_left,
    List.drop_left, List.append_assoc before after ech, List.take_left]

/-! ### One round -/

/-- A row that writes something records what it sent and whether it was empty. -/
theorem Encoder.append_eq (st : Encoder) (index : Nat) (written : Bytes) :
    st.append index written = .ok { st with
      extensions := st.extensions ++ written
      sent := if written.length ≠ 0 then st.sent ||| 1#32 <<< index else st.sent
      lastWasEmpty := written.length = 4 } := by
  show (sub (st.extensions ++ written).length st.extensions.length >>= _) = _
  rw [List.length_append, sub_add_left]
  rfl

section Rows

variable {i : Fin hs.table.rows.length} {customEch : Bool}

/-- A row other than ECH does not see the policy or `ech_client_outer`. -/
theorem addExtension_other (hs : Handshake) {i : Fin hs.table.rows.length}
    (hne : (hs.table.rows.get i).value ≠ kTypeEncryptedClientHello)
    (customEch : Bool) (st : Encoder) :
    hs.addExtension customEch st i =
      if (hs.table.rows.get i).value = kTypeRecordSizeLimit ∧ hs.recordSizeLimit = 0 then .ok st
      else st.add i (hs.table.rows.get i).value (hs.table.rows.get i).written := by
  simp only [Handshake.addExtension, Entry.addClienthello, hne, and_false, if_false]

/-- The ECH row is not the one that a limit of zero passes over. -/
theorem not_recordSizeLimit (h : (hs.table.rows.get i).value = kTypeEncryptedClientHello) :
    ¬ ((hs.table.rows.get i).value = kTypeRecordSizeLimit ∧ hs.recordSizeLimit = 0) := by
  rintro ⟨hlimit, -⟩
  rw [h] at hlimit
  exact absurd hlimit (by decide)

/-- With a policy pending the ECH row writes nothing, and its place is noted. -/
theorem addExtension_deferred (h : (hs.table.rows.get i).value = kTypeEncryptedClientHello)
    (st : Encoder) :
    hs.addExtension true st i = .ok { st with
      echOffset := st.extensions.length, echIndex := i, lastWasEmpty := false } := by
  unfold Handshake.addExtension
  rw [if_neg (not_recordSizeLimit h), if_pos ⟨rfl, h⟩]

/-- Without one it is written in place. -/
theorem addExtension_encoded (hs : Handshake) {i : Fin hs.table.rows.length}
    (h : (hs.table.rows.get i).value = kTypeEncryptedClientHello)
    (hech : extEchAddClienthello hs.echClientOuter = some ech) (st : Encoder) :
    hs.addExtension false st i = st.append i ech := by
  unfold Handshake.addExtension
  rw [if_neg (not_recordSizeLimit h), if_neg (fun hcustom => Bool.false_ne_true hcustom.1),
    Entry.addClienthello, if_pos h, hech]
  rfl

end Rows

/-! ### Two runs -/

/-- The handshake once `ech_client_outer` is set. -/
abbrev Handshake.withOuter (hs : Handshake) (outer : Bytes) : Handshake :=
  { hs with echClientOuter := outer }

/-- `st'` is `st` with the ECH extension in its slot. -/
structure InPlace (ech : Bytes) (st st' : Encoder) : Prop where
  extensions : ∃ before after, st.extensions = before ++ after ∧ before.length = st.echOffset
    ∧ st'.extensions = before ++ ech ++ after
  sent : st'.sent = st.sent ||| 1#32 <<< st.echIndex
  lastWasEmpty : st'.lastWasEmpty = st.lastWasEmpty

/-- Bytes behind both leave them one insertion apart. -/
theorem extensions_append {extensions extensions' : Bytes} {offset : Nat}
    (h : ∃ before after, extensions = before ++ after ∧ before.length = offset
      ∧ extensions' = before ++ ech ++ after) (tail : Bytes) :
    ∃ before after, extensions ++ tail = before ++ after ∧ before.length = offset
      ∧ extensions' ++ tail = before ++ ech ++ after := by
  obtain ⟨before, after, rfl, hoffset, rfl⟩ := h
  exact ⟨before, after ++ tail, List.append_assoc .., hoffset, List.append_assoc ..⟩

/-- Rows behind the place keep the two encodings one insertion apart. -/
theorem InPlace.append (h : InPlace ech st st') (hst : st.append index written = .ok st₁) :
    ∃ st₁', st'.append index written = .ok st₁' ∧ InPlace ech st₁ st₁' := by
  rw [Encoder.append_eq] at hst
  cases hst
  refine ⟨_, Encoder.append_eq _ _ _, extensions_append h.extensions written, ?_, rfl⟩
  show (if _ then st'.sent ||| _ else st'.sent) = (if _ then st.sent ||| _ else st.sent) ||| _
  rw [h.sent]
  split
  · rw [BitVec.or_assoc, BitVec.or_comm (1#32 <<< st.echIndex), BitVec.or_assoc]
  · rfl

/-- So do rows that write nothing. -/
theorem InPlace.add {value : Nat} {entry : Option Bytes} (h : InPlace ech st st')
    (hst : st.add index value entry = .ok st₁) :
    ∃ st₁', st'.add index value entry = .ok st₁' ∧ InPlace ech st₁ st₁' := by
  cases entry with
  | none => cases hst
  | some written => exact h.append hst

/-- The slot itself: one run remembers it, the other fills it. -/
theorem inPlace_slot {i : Fin hs.table.rows.length}
    (h : (hs.table.rows.get i).value = kTypeEncryptedClientHello)
    (hech : extEchAddClienthello outer = some ech) (hlen : 4 < ech.length)
    (hst : hs.addExtension true st i = .ok st₁) :
    ∃ st₁', (hs.withOuter outer).addExtension false st i = .ok st₁' ∧ InPlace ech st₁ st₁' := by
  rw [addExtension_deferred h] at hst
  cases hst
  refine ⟨_, (addExtension_encoded (hs.withOuter outer) h hech st).trans
    (Encoder.append_eq _ _ _), ⟨st.extensions, [], ?_, rfl, ?_⟩, ?_, ?_⟩
  · exact (List.append_nil _).symm
  · exact (List.append_nil _).symm
  · exact if_pos (by omega)
  · exact decide_eq_false (by omega)

/-- **One round, in both runs.** -/
theorem InPlace.addExtension {i : Fin hs.table.rows.length} (h : InPlace ech st st')
    (hne : (hs.table.rows.get i).value ≠ kTypeEncryptedClientHello) (outer : Bytes)
    (hst : hs.addExtension true st i = .ok st₁) :
    ∃ st₁', (hs.withOuter outer).addExtension false st' i = .ok st₁' ∧ InPlace ech st₁ st₁' := by
  rw [addExtension_other hs hne] at hst
  have heq := addExtension_other (hs.withOuter outer) hne false st'
  split at hst
  · rename_i hlimit
    cases hst
    exact ⟨st', heq.trans (if_pos hlimit), h⟩
  · rename_i hlimit
    obtain ⟨st₁', hst₁', hin⟩ := h.add hst
    exact ⟨st₁', (heq.trans (if_neg hlimit)).trans hst₁', hin⟩

/-- So does a whole loop over rows other than ECH. -/
theorem InPlace.foldlM {post : List (Fin hs.table.rows.length)} (h : InPlace ech st st')
    (hne : ∀ i ∈ post, (hs.table.rows.get i).value ≠ kTypeEncryptedClientHello) (outer : Bytes)
    (hst : post.foldlM (hs.addExtension true) st = .ok st₁) :
    ∃ st₁', post.foldlM ((hs.withOuter outer).addExtension false) st' = .ok st₁'
      ∧ InPlace ech st₁ st₁' := by
  induction post generalizing st st' with
  | nil =>
      cases hst
      exact ⟨st', rfl, h⟩
  | cons i post ih =>
      rw [List.foldlM_cons] at hst
      cases hi : hs.addExtension true st i with
      | error e =>
          rw [hi] at hst
          cases hst
      | ok st₂ =>
          rw [hi] at hst
          obtain ⟨st₂', hst₂', hin⟩ := h.addExtension (hne i List.mem_cons_self) outer hi
          obtain ⟨st₁', hst₁', hin₁⟩ := ih hin (fun j hj => hne j (List.mem_cons_of_mem i hj)) hst
          exact ⟨st₁', (congrArg (· >>= _) hst₂').trans hst₁', hin₁⟩

/-! ### The slot in the order -/

/-- The loop goes through every row once. -/
theorem Handshake.order_perm (hs : Handshake) : hs.order.Perm (List.finRange hs.table.rows.length) := by
  unfold Handshake.order
  cases hs.permutation with
  | none => exact .refl _
  | some p => exact p.perm

/-- No two rows are of one extension. -/
theorem Table.get_inj (table : Table) {i j : Fin table.rows.length}
    (h : (table.rows.get i).value = (table.rows.get j).value) : i = j := by
  have hrow := List.inj_on_of_nodup_map table.nodup (List.get_mem _ i) (List.get_mem _ j) h
  exact List.nodup_iff_injective_get.mp table.nodup.of_map hrow

/-- ECH has one slot in the order. -/
theorem Handshake.order_split (hs : Handshake) : ∃ pre slot post, hs.order = pre ++ slot :: post
    ∧ (hs.table.rows.get slot).value = kTypeEncryptedClientHello
    ∧ (∀ i ∈ pre, (hs.table.rows.get i).value ≠ kTypeEncryptedClientHello)
    ∧ ∀ i ∈ post, (hs.table.rows.get i).value ≠ kTypeEncryptedClientHello := by
  obtain ⟨row, hrow, hvalue⟩ := List.mem_map.mp hs.table.ech_mem
  obtain ⟨slot, rfl⟩ := List.get_of_mem hrow
  obtain ⟨pre, post, horder⟩ :=
    List.append_of_mem (hs.order_perm.mem_iff.mpr (List.mem_finRange slot))
  have hnodup : (pre ++ slot :: post).Nodup :=
    horder ▸ hs.order_perm.nodup_iff.mpr (List.nodup_finRange _)
  obtain ⟨-, hpost, hdisjoint⟩ := List.nodup_append.mp hnodup
  refine ⟨pre, slot, post, horder, hvalue, fun i hi h => ?_, fun i hi h => ?_⟩
  · exact hdisjoint i hi slot List.mem_cons_self (hs.table.get_inj (h.trans hvalue.symm))
  · exact (List.nodup_cons.mp hpost).1 (hs.table.get_inj (h.trans hvalue.symm) ▸ hi)

/-- The rows before the slot are encoded the same way. -/
theorem foldlM_pre (hs : Handshake) {pre : List (Fin hs.table.rows.length)}
    (hne : ∀ i ∈ pre, (hs.table.rows.get i).value ≠ kTypeEncryptedClientHello)
    (outer : Bytes) (st : Encoder) :
    pre.foldlM ((hs.withOuter outer).addExtension false) st = pre.foldlM (hs.addExtension true) st := by
  induction pre generalizing st with
  | nil => rfl
  | cons i pre ih =>
      have hi : (hs.withOuter outer).addExtension false st i = hs.addExtension true st i :=
        (addExtension_other (hs.withOuter outer) (hne i List.mem_cons_self) false st).trans
          (addExtension_other hs (hne i List.mem_cons_self) true st).symm
      rw [List.foldlM_cons]
      refine (congrArg (· >>= _) hi).trans ?_
      exact congrArg (hs.addExtension true st i >>= ·)
        (funext fun st' => ih (fun j hj => hne j (List.mem_cons_of_mem i hj)) st')

/-- So does the trailing GREASE extension. -/
theorem InPlace.addTrailingGrease (h : InPlace ech st st') (outer : Bytes) :
    InPlace ech (hs.addTrailingGrease st) ((hs.withOuter outer).addTrailingGrease st') := by
  unfold Handshake.addTrailingGrease
  dsimp only
  cases hs.grease with
  | none => exact h
  | some exts =>
      exact ⟨extensions_append h.extensions _, h.sent, rfl⟩

/-- **The two loops**, one that defers ECH and one that writes it, end one insertion apart. -/
theorem foldlM_inPlace (hech : extEchAddClienthello outer = some ech) (hlen : 4 < ech.length)
    (hst : hs.order.foldlM (hs.addExtension true) hs.start = .ok st) :
    ∃ st', hs.order.foldlM ((hs.withOuter outer).addExtension false) hs.start = .ok st'
      ∧ InPlace ech st st' := by
  obtain ⟨pre, slot, post, horder, hslot, hpre, hpost⟩ := hs.order_split
  rw [horder, List.foldlM_append] at hst
  obtain ⟨st₁, hst₁, hst⟩ := bind_eq_ok.mp hst
  rw [List.foldlM_cons] at hst
  obtain ⟨st₂, hst₂, hst⟩ := bind_eq_ok.mp hst
  obtain ⟨st₂', hst₂', hin⟩ := inPlace_slot hslot hech hlen hst₂
  obtain ⟨st', hst', hin⟩ := hin.foldlM hpost outer hst
  refine ⟨st', ?_, hin⟩
  rw [horder, List.foldlM_append, foldlM_pre hs hpre]
  exact bind_eq_ok.mpr ⟨st₁, hst₁, bind_eq_ok.mpr ⟨st₂', hst₂', hst'⟩⟩

/-- **The loop, in both runs.** -/
theorem addExtensions_inPlace (hech : extEchAddClienthello outer = some ech) (hlen : 4 < ech.length)
    (hst : hs.addExtensions true = .ok st) :
    ∃ st', (hs.withOuter outer).addExtensions false = .ok st' ∧ InPlace ech st st' := by
  obtain ⟨st₁, hst₁, hst⟩ := bind_eq_ok.mp hst
  obtain ⟨st₁', hst₁', hin⟩ := foldlM_inPlace hech hlen hst₁
  cases hst
  refine ⟨_, ?_, hin.addTrailingGrease outer⟩
  exact (congrArg (· >>= _) hst₁').trans rfl

/-- Rotation moves the extension to where the other run encoded it. -/
theorem InPlace.insert (h : InPlace ech st st') (hlen : 4 < ech.length) :
    (st.insert ech).extensions = st'.extensions ∧ (st.insert ech).sent = st'.sent
      ∧ (st.insert ech).lastWasEmpty = st'.lastWasEmpty := by
  obtain ⟨before, after, hext, hoffset, hext'⟩ := h.extensions
  have hne : (st.extensions ++ ech).length ≠ st.extensions.length := by
    rw [List.length_append]
    omega
  unfold Encoder.insert
  rw [if_pos hne]
  refine ⟨?_, h.sent.symm, h.lastWasEmpty.symm⟩
  show rotate _ _ _ _ = _
  rw [hext', ← hoffset, hext, rotate_append]

/-- The place is inside the block. -/
theorem InPlace.echOffset_le (h : InPlace ech st st') : st.echOffset ≤ st.extensions.length := by
  obtain ⟨before, after, hext, hoffset, -⟩ := h.extensions
  rw [hext, List.length_append, hoffset]
  exact Nat.le_add_right _ _

/-- The two blocks differ in length by the extension. -/
theorem InPlace.length_extensions (h : InPlace ech st st') :
    st'.extensions.length = st.extensions.length + ech.length := by
  obtain ⟨before, after, hext, -, hext'⟩ := h.extensions
  rw [hext, hext', List.length_append, List.length_append, List.length_append]
  omega

/-- Padding and `pre_shared_key` go by the encoder's three fields. -/
theorem finish_congr {st st' : Encoder} (hext : st.extensions = st'.extensions)
    (hsent : st.sent = st'.sent) (hlast : st.lastWasEmpty = st'.lastWasEmpty) (outer outer' : Bytes) :
    hs.finish st outer = (hs.withOuter outer').finish st' outer := by
  unfold Handshake.finish
  rw [hext, hsent, hlast]
  rfl

/-! ### What the policy may fill -/

/-- What is left of 65535 bytes after the rest of the block and the fields of the extension itself.
-/
theorem maxPayloadLength_eq (oldLen pskLen reserve : Nat) :
    maxPayloadLength oldLen pskLen reserve =
      if oldLen + pskLen + reserve ≤ 65489 then .ok (65489 - (oldLen + pskLen + reserve))
      else .error .badLength := by
  show (if 65489 < oldLen then _ else sub 65489 oldLen >>= fun room => if room < pskLen then _ else
    sub room pskLen >>= fun room => if room < reserve then _ else sub room reserve) = _
  by_cases hold : 65489 < oldLen
  · rw [if_pos hold, if_neg (by omega)]
  · rw [if_neg hold, sub_of_le (Nat.le_of_not_lt hold)]
    show (if 65489 - oldLen < pskLen then _ else sub (65489 - oldLen) pskLen >>= fun room =>
      if room < reserve then _ else sub room reserve) = _
    by_cases hpsk : 65489 - oldLen < pskLen
    · rw [if_pos hpsk, if_neg (by omega)]
    · rw [if_neg hpsk, sub_of_le (Nat.le_of_not_lt hpsk)]
      show (if 65489 - oldLen - pskLen < reserve then _ else sub (65489 - oldLen - pskLen) reserve) = _
      by_cases hreserve : 65489 - oldLen - pskLen < reserve
      · rw [if_pos hreserve, if_neg (by omega)]
      · rw [if_neg hreserve, sub_of_le (Nat.le_of_not_lt hreserve), if_pos (by omega), Nat.sub_sub,
          Nat.sub_sub, Nat.add_assoc]

/-- What a policy is told of the other extensions is not its maximum. -/
theorem SizeInfo.addExtension_lengths {info info' : SizeInfo} {type : Nat} {body : Bytes}
    (h : info.addExtension type body = some info') :
    info'.maxPayloadLength = info.maxPayloadLength ∧ info'.messageLength = info.messageLength := by
  unfold SizeInfo.addExtension at h
  split at h
  · obtain ⟨length, -, rfl⟩ := Option.map_eq_some_iff.mp h
    exact ⟨rfl, rfl⟩
  · cases h
    exact ⟨rfl, rfl⟩

/-- However many there are. -/
theorem SizeInfo.addExtensions_lengths {fuel : Nat} {info info' : SizeInfo} {bs : Bytes}
    (h : info.addExtensions fuel bs = some info') :
    info'.maxPayloadLength = info.maxPayloadLength ∧ info'.messageLength = info.messageLength := by
  induction fuel generalizing info bs with
  | zero =>
      cases bs with
      | nil =>
          cases h
          exact ⟨rfl, rfl⟩
      | cons b bs => cases h
  | succ fuel ih =>
      cases bs with
      | nil =>
          cases h
          exact ⟨rfl, rfl⟩
      | cons b bs =>
          obtain ⟨⟨type, remaining⟩, -, h⟩ := Option.bind_eq_some_iff.mp h
          obtain ⟨⟨body, remaining⟩, -, h⟩ := Option.bind_eq_some_iff.mp h
          obtain ⟨info₁, hinfo₁, h⟩ := Option.bind_eq_some_iff.mp h
          obtain ⟨hmax, hmessage⟩ := ih h
          obtain ⟨hmax₁, hmessage₁⟩ := SizeInfo.addExtension_lengths hinfo₁
          exact ⟨hmax.trans hmax₁, hmessage.trans hmessage₁⟩

/-- The two lengths that the policy is told. -/
theorem sizeInfo_lengths {d : Draw} {isDtls isQuic : Bool} {extensions preamble : Bytes}
    {pskLen reserve : Nat} {info : SizeInfo}
    (h : sizeInfo d isDtls isQuic extensions preamble pskLen reserve = .ok info) :
    info.maxPayloadLength + (extensions.length + pskLen + reserve) = 65489
      ∧ info.messageLength = preamble.length + 48 + (extensions.length + pskLen + reserve) := by
  obtain ⟨maxPayload, hmaxPayload, h⟩ := bind_eq_ok.mp h
  obtain ⟨pskExtension, -, h⟩ := bind_eq_ok.mp h
  rw [maxPayloadLength_eq] at hmaxPayload
  split at hmaxPayload
  · rename_i hle
    cases hmaxPayload
    dsimp only at h
    split at h
    · cases h
    · split at h
      · cases h
      · rename_i hinfo
        cases h
        obtain ⟨hmax, hmessage⟩ := SizeInfo.addExtensions_lengths hinfo
        rw [hmax, hmessage]
        refine ⟨Nat.sub_add_cancel hle, ?_⟩
        show preamble.length + 2 + extensions.length + 4 + 42 + pskLen + reserve = _
        omega
  · cases hmaxPayload

/-! ### The extension that is inserted -/

/-- The fields of a GREASE ECH are 41 bytes, and the payload as long as was asked. -/
theorem Draw.length_echClientOuter (d : Draw) (p : Parameters) :
    (d.echClientOuter p).length = 41 + p.payloadLength := by
  have henc : (if p.randomEnc then d.randomEnc else d.enc).length = 32 := by
    split
    · exact d.length_randomEnc
    · exact d.length_enc
  rw [Draw.echClientOuter, List.length_append, List.length_append, List.length_append,
    List.length_append, length_putUint, length_putUint, length_putPrefixed, length_putPrefixed, henc,
    d.length_payload, List.length_singleton]
  omega

/-- An extension is made of any fields that its length prefixes can count. -/
theorem extEchAddClienthello_eq (hpos : outer ≠ []) (hle : outer.length < 0xffff) :
    ∃ ech, extEchAddClienthello outer = some ech ∧ ech.length = 5 + outer.length := by
  refine ⟨putUint 2 kTypeEncryptedClientHello ++ putPrefixed 2 (0 :: outer), ?_, ?_⟩
  · unfold extEchAddClienthello
    rw [if_neg (by simpa using hpos), if_neg (by omega)]
  · rw [List.length_append, length_putUint, length_putPrefixed, List.length_cons]
    omega

/-- An answer within its bounds is taken. -/
theorem sslSetupEchGrease_eq {callback : EchGreaseCb} {info : SizeInfo} {p : Parameters}
    (hcallback : hs.callback = some callback) (hinfo : hs.echGreaseInfo st = .ok info)
    (hp : callback info = some p)
    (haead : p.aeadId = kHpkeAes128Gcm ∨ p.aeadId = kHpkeChacha20Poly1305)
    (hpos : 1 ≤ p.payloadLength) (hmax : p.payloadLength ≤ info.maxPayloadLength) :
    hs.sslSetupEchGrease st = .ok (hs.draw.echClientOuter p) := by
  have hsetup : setupEchGrease hs.draw callback info = .ok (hs.draw.echClientOuter p) := by
    unfold setupEchGrease
    rw [hp]
    dsimp only
    rw [if_neg (fun h => haead.elim h.1 h.2), if_neg (by omega)]
  unfold Handshake.sslSetupEchGrease
  rw [hcallback]
  exact bind_eq_ok.mpr ⟨info, hinfo, hsetup⟩

/-- What is built is what some parameters make it. -/
theorem sslSetupEchGrease_ok (h : hs.sslSetupEchGrease st = .ok outer) :
    ∃ p, outer = hs.draw.echClientOuter p := by
  unfold Handshake.sslSetupEchGrease at h
  cases hcallback : hs.callback with
  | none =>
      rw [hcallback] at h
      cases h
      exact ⟨_, rfl⟩
  | some callback =>
      rw [hcallback] at h
      obtain ⟨info, -, h⟩ := bind_eq_ok.mp h
      unfold setupEchGrease at h
      cases hp : callback info with
      | none =>
          rw [hp] at h
          cases h
      | some p =>
          rw [hp] at h
          dsimp only at h
          split at h
          · cases h
          · split at h
            · cases h
            · cases h
              exact ⟨p, rfl⟩

/-- With a payload of any length the extension is not empty. -/
theorem lt_length_ech {n : Nat} (houter : outer.length = 41 + n)
    (hech : extEchAddClienthello outer = some ech) : 4 < ech.length := by
  have hne : outer ≠ [] := List.ne_nil_of_length_pos (by omega)
  by_cases hle : outer.length < 0xffff
  · obtain ⟨ech', hech', hlen⟩ := extEchAddClienthello_eq hne hle
    cases hech'.symm.trans hech
    omega
  · unfold extEchAddClienthello at hech
    rw [if_neg (by simpa using hne), if_pos (by omega)] at hech
    cases hech

/-- What was inserted is the extension of the fields that were drawn. -/
theorem insertEchGrease_ok {inserted : Encoder × Bytes} (h : hs.insertEchGrease st = .ok inserted) :
    ∃ p ech, extEchAddClienthello (hs.draw.echClientOuter p) = some ech
      ∧ inserted = (st.insert ech, hs.draw.echClientOuter p) := by
  unfold Handshake.insertEchGrease at h
  split at h
  · cases h
  · obtain ⟨outer, hsetup, h⟩ := bind_eq_ok.mp h
    obtain ⟨p, rfl⟩ := sslSetupEchGrease_ok hsetup
    cases hech : extEchAddClienthello (hs.draw.echClientOuter p) with
    | none =>
        rw [hech] at h
        cases h
    | some ech =>
        rw [hech] at h
        cases h
        exact ⟨p, ech, hech, rfl⟩

/-! ### No subtraction underflows -/

/-- No subtraction is made by appending. -/
theorem never_sub_append (st : Encoder) (index : Nat) (written : Bytes) :
    Never .underflow (st.append index written) := by
  rw [Encoder.append_eq]
  exact never_ok _

/-- Nor by any row. -/
theorem never_addExtension (customEch : Bool) (st : Encoder) (i : Fin hs.table.rows.length) :
    Never .underflow (hs.addExtension customEch st i) := by
  unfold Handshake.addExtension
  dsimp only
  split
  · exact never_ok _
  · split
    · exact never_ok _
    · cases (hs.table.rows.get i).addClienthello hs.echClientOuter with
      | none => exact never_error (fun h => by cases h)
      | some written => exact never_sub_append st i written

/-- Nor by the loop. -/
theorem never_addExtensions (customEch : Bool) : Never .underflow (hs.addExtensions customEch) :=
  (Never.foldlM (never_addExtension customEch) _ _).bind fun _ => never_ok _

/-- The length of `pre_shared_key` is a sum. -/
theorem never_pskExtensionLength : Never .underflow (pskExtensionLength hs.pskLen) := by
  unfold pskExtensionLength
  split
  · exact never_ok _
  · rename_i h
    rw [sub_of_le (by have := hs.pskLen_eq; omega)]
    exact never_ok _

/-- What the policy is told subtracts only the parts of a sum from it. -/
theorem never_echGreaseInfo (st : Encoder) : Never .underflow (hs.echGreaseInfo st) := by
  refine Never.bind ?_ fun maxPayload => never_pskExtensionLength.bind fun pskExtension => ?_
  · rw [maxPayloadLength_eq]
    split
    · exact never_ok _
    · exact never_error (fun h => by cases h)
  · dsimp only
    split
    · exact never_error (fun h => by cases h)
    · split
      · exact never_error (fun h => by cases h)
      · exact never_ok _

/-- The answer is checked before it is used. -/
theorem never_setupEchGrease (d : Draw) (callback : EchGreaseCb) (info : SizeInfo) :
    Never .underflow (setupEchGrease d callback info) := by
  unfold setupEchGrease
  split
  · exact never_error (fun h => by cases h)
  · split
    · exact never_error (fun h => by cases h)
    · split
      · exact never_error (fun h => by cases h)
      · exact never_ok _

/-- The place was noted in a block no longer than the one at the end. -/
theorem never_insertEchGrease (st : Encoder) : Never .underflow (hs.insertEchGrease st) := by
  unfold Handshake.insertEchGrease
  split
  · exact never_error (fun h => by cases h)
  · refine Never.bind ?_ fun outer => ?_
    · unfold Handshake.sslSetupEchGrease
      split
      · exact never_ok _
      · exact (never_echGreaseInfo st).bind fun info => never_setupEchGrease _ _ info
    · split
      · exact never_error (fun h => by cases h)
      · exact never_ok _

/-- Padding subtracts from 512 only what is less. -/
theorem never_finish (st : Encoder) (outer : Bytes) : Never .underflow (hs.finish st outer) := by
  rw [hs.finish_eq]
  split
  · exact never_error (fun h => by cases h)
  · exact never_ok _

/-- No subtraction on the way underflows, with or without a policy. -/
theorem never_underflow (hs : Handshake) : Never .underflow hs.addClienthelloTlsext := by
  refine (never_addExtensions _).bind fun st => ?_
  dsimp only
  split
  · exact (never_insertEchGrease st).bind fun p => never_finish p.1 p.2
  · exact never_finish st _

/-! ### The two encodings -/

/-- The reserve is what the WebSphere workaround adds. -/
theorem Handshake.paddingReserve_eq (hs : Handshake) (st : Encoder) :
    hs.paddingReserve st =
      if hs.tlsOverTcp then paddingSize (emptyLastPaddingLen st.lastWasEmpty hs.pskLen) else 0 := by
  unfold Handshake.paddingReserve emptyLastPaddingLen
  cases hs.tlsOverTcp with
  | false => simp
  | true => by_cases h : st.lastWasEmpty = true ∧ hs.pskLen = 0 <;> simp [h, paddingSize]

/-- The first message over TCP, with the reserve, is in the window. -/
def Handshake.InWindow (hs : Handshake) (msgLen : Nat) : Prop := hs.tlsOverTcp ∧ F5Window msgLen

/-- In the window padding brings the message to 512 bytes, or adds the least extension. -/
theorem padding_of_window (h : hs.InWindow (hs.msgLen st + hs.paddingReserve st)) :
    hs.msgLen st + paddingSize (hs.padding st) = max (hs.msgLen st + 5) 0x200 := by
  obtain ⟨htcp, hwindow⟩ := h
  rw [hs.paddingReserve_eq, if_pos htcp] at hwindow
  rw [Handshake.padding, if_pos htcp, paddingFor, if_pos hwindow,
    add_paddingSize_f5 (Nat.lt_of_le_of_lt (Nat.le_add_right _ _) hwindow.2)]

/-- Outside it nothing is added but what the reserve counts. -/
theorem padding_of_not_window (h : ¬ hs.InWindow (hs.msgLen st + hs.paddingReserve st)) :
    paddingSize (hs.padding st) = hs.paddingReserve st := by
  rw [Handshake.InWindow, hs.paddingReserve_eq] at h
  rw [hs.paddingReserve_eq, Handshake.padding]
  split
  · rename_i htcp
    rw [if_pos htcp] at h
    rw [paddingFor, if_neg (fun hwindow => h ⟨htcp, hwindow⟩)]
  · rfl

/-- The lengths of a message whose encoder leaves `offer - payload` bytes of the block, its reserve
counted. -/
theorem finish_lengths {offer message payload : Nat} (hpayload : payload ≤ offer)
    (hmsgLen : hs.msgLen st + hs.paddingReserve st = 4 + (message + payload))
    (hfull : st.extensions.length + hs.paddingReserve st + hs.pskLen + (offer - payload) = 0xffff)
    (outer : Bytes) :
    ∃ block, hs.finish st outer = .ok block ∧ block.extensions.length ≤ 0xffff
      ∧ (block.extensions.length = 0xffff ↔ payload = offer)
      ∧ (¬ hs.InWindow (4 + (message + payload)) → (hs.body block).length = message + payload)
      ∧ (hs.InWindow (4 + (message + payload)) → 0x200 ≤ 4 + (hs.body block).length) := by
  rw [← hmsgLen]
  by_cases hwindow : hs.InWindow (hs.msgLen st + hs.paddingReserve st)
  · have hpadding := padding_of_window hwindow
    have hsmall := hwindow.2.2
    have hle : st.extensions.length + hs.pskLen + 6 ≤ hs.msgLen st := by
      rw [Handshake.msgLen]
      omega
    have hfits : st.extensions.length + paddingSize (hs.padding st) + hs.pskLen < 0xffff := by omega
    obtain ⟨block, hblock⟩ := hs.finish_fits outer (Nat.le_of_lt hfits)
    rw [← hs.length_block hblock] at hfits
    refine ⟨block, hblock, Nat.le_of_lt hfits, ?_, fun hout => absurd hwindow hout, fun _ => ?_⟩
    · omega
    · rw [hs.length_message hblock, hpadding]
      exact Nat.le_max_right _ _
  · have hpadding := padding_of_not_window hwindow
    have hfits : st.extensions.length + paddingSize (hs.padding st) + hs.pskLen ≤ 0xffff := by omega
    obtain ⟨block, hblock⟩ := hs.finish_fits outer hfits
    have hlengthBlock := hs.length_block hblock
    have hlengthMessage := hs.length_message hblock
    refine ⟨block, hblock, ?_, ?_, fun _ => ?_, fun hin => absurd hin hwindow⟩
    · omega
    · omega
    · omega

/-- `addClienthelloTlsext` once the policy has answered. -/
theorem addClienthelloTlsext_deferred (hpending : hs.echGreasePending)
    (hst : hs.addExtensions true = .ok st) (hoffset : st.echOffset ≤ st.extensions.length)
    (hsetup : hs.sslSetupEchGrease st = .ok outer) (hech : extEchAddClienthello outer = some ech) :
    hs.addClienthelloTlsext = hs.finish (st.insert ech) outer := by
  have hinsert : hs.insertEchGrease st = .ok (st.insert ech, outer) := by
    unfold Handshake.insertEchGrease
    rw [if_neg (Nat.not_lt_of_le hoffset)]
    refine bind_eq_ok.mpr ⟨outer, hsetup, ?_⟩
    rw [hech]
    rfl
  unfold Handshake.addClienthelloTlsext
  rw [hpending]
  dsimp only
  rw [hst]
  show (hs.insertEchGrease st >>= _) = _
  rw [hinsert]
  rfl

/-- A handshake with its fields set encodes them in place. -/
theorem addClienthelloTlsext_inPlace (hne : outer ≠ [])
    (hst : (hs.withOuter outer).addExtensions false = .ok st) :
    (hs.withOuter outer).addClienthelloTlsext = (hs.withOuter outer).finish st outer := by
  have hpending : (hs.withOuter outer).echGreasePending = false := by
    simp [Handshake.echGreasePending, hne]
  unfold Handshake.addClienthelloTlsext
  rw [hpending]
  dsimp only
  rw [hst]
  rfl

/-- What the policy is told in this handshake. -/
def Handshake.echGreaseOffer (hs : Handshake) : Except TlsextError SizeInfo := do
  let st ← hs.addExtensions true
  hs.echGreaseInfo st

/-- **Deferred sizing is in-place encoding.**  Whatever payload the policy picks out of what it was
offered, the block is the one encoded in order with that payload, it fits, and it is full exactly when
the policy took all it was offered. -/
theorem deferred_inPlace (hs : Handshake) (hpending : hs.echGreasePending) :
    Never .underflow hs.addClienthelloTlsext ∧ Never .underflow hs.echGreaseOffer
      ∧ ∀ callback info p, hs.callback = some callback → hs.echGreaseOffer = .ok info →
        callback info = some p → (p.aeadId = kHpkeAes128Gcm ∨ p.aeadId = kHpkeChacha20Poly1305) →
        1 ≤ p.payloadLength → p.payloadLength ≤ info.maxPayloadLength →
        ∃ block, hs.addClienthelloTlsext = .ok block
          ∧ block.echClientOuter = hs.draw.echClientOuter p
          ∧ (hs.withOuter (hs.draw.echClientOuter p)).addClienthelloTlsext = .ok block
          ∧ block.extensions.length ≤ 0xffff
          ∧ (block.extensions.length = 0xffff ↔ p.payloadLength = info.maxPayloadLength)
          ∧ (¬ hs.InWindow (4 + (info.messageLength + p.payloadLength)) →
              (hs.body block).length = info.messageLength + p.payloadLength)
          ∧ (hs.InWindow (4 + (info.messageLength + p.payloadLength)) →
              0x200 ≤ 4 + (hs.body block).length) := by
  refine ⟨never_underflow hs, (never_addExtensions _).bind never_echGreaseInfo, ?_⟩
  intro callback info p hcallback hoffer hp haead hpos hmax
  obtain ⟨st, hst, hinfo⟩ := bind_eq_ok.mp hoffer
  obtain ⟨hroom, hmessage⟩ := sizeInfo_lengths hinfo
  have houter := hs.draw.length_echClientOuter p
  have hne : hs.draw.echClientOuter p ≠ [] := List.ne_nil_of_length_pos (by omega)
  obtain ⟨ech, hech, hlen⟩ := extEchAddClienthello_eq hne (by omega)
  obtain ⟨st', hst', hin⟩ := addExtensions_inPlace hech (by omega) hst
  obtain ⟨hext, hsent, hlast⟩ := hin.insert (by omega)
  have hsetup := sslSetupEchGrease_eq hcallback hinfo hp haead hpos hmax
  have hdeferred := addClienthelloTlsext_deferred hpending hst hin.echOffset_le hsetup hech
  have hinPlace := addClienthelloTlsext_inPlace hne hst'
  rw [← finish_congr hext hsent hlast] at hinPlace
  -- the lengths of the message with the extension in it
  have hreserve : hs.paddingReserve (st.insert ech) = hs.paddingReserve st := by
    unfold Handshake.paddingReserve
    rw [hlast, hin.lastWasEmpty]
  have hlength : (st.insert ech).extensions.length = st.extensions.length + ech.length :=
    (congrArg List.length hext).trans hin.length_extensions
  have hmsgLen : hs.msgLen (st.insert ech) + hs.paddingReserve (st.insert ech)
      = 4 + (info.messageLength + p.payloadLength) := by
    rw [Handshake.msgLen, hlength, hreserve]
    omega
  have hfull : (st.insert ech).extensions.length + hs.paddingReserve (st.insert ech) + hs.pskLen
      + (info.maxPayloadLength - p.payloadLength) = 0xffff := by
    rw [hlength, hreserve]
    omega
  obtain ⟨block, hblock, hlengths⟩ :=
    finish_lengths hmax hmsgLen hfull (hs.draw.echClientOuter p)
  refine ⟨block, hdeferred.trans hblock, ?_, hinPlace.trans hblock, hlengths⟩
  rw [hs.finish_ok hblock]

/-- A policy that asks for three bytes of payload. -/
theorem deferred_inPlace_short :
    ∃ block, Handshake.sample.addClienthelloTlsext = .ok block
      ∧ (Handshake.sample.body block).length = 98 + 3 := by
  obtain ⟨block, hblock, -, -, -, -, hlength, -⟩ :=
    (deferred_inPlace .sample rfl).2.2 (fun _ => some ⟨kHpkeAes128Gcm, 3, true⟩)
      ⟨41, [0x13, 1], [(23, 0)], false, 0, 0, false, false, 1, 16, 65480, 98⟩
      ⟨kHpkeAes128Gcm, 3, true⟩ rfl rfl rfl (.inl rfl) (by decide) (by decide)
  exact ⟨block, hblock, hlength fun hwindow => absurd hwindow.2.1 (by decide)⟩

end Btls.Hello
