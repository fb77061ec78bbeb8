import Btls.Hello.InPlace

/-!
# Hello — the last extension

Whether padding does what it is for.  A block is read as a server reads it (`readBodies`), and the
two rules are stated of what is read: the message is not of 256 to 511 bytes, and with no
`pre_shared_key` behind them the extensions do not end with an empty one (`Rules`).

The encoder goes by `last_was_empty`, which every row that the loop goes through sets to whether it
wrote four bytes: so a row that writes nothing clears it, and the encoder no longer knows of an
empty extension before that row.  `padded_iff` says that this is the only thing that goes wrong, and
`Missed` says when: no row that writes nothing may follow an empty extension that is the last.
-/

namespace Btls.Hello

open Btls.Support

variable {hs : Handshake} {st st₁ : Encoder} {block : Block}

/-! ### Reading a block -/

/-- The bodies of the extensions in a block; every round takes at least four bytes, so the number of
bytes is fuel enough. -/
def readBodies : Nat → Bytes → Option (List Bytes)
  | _, [] => some []
  | 0, _ :: _ => none
  | fuel + 1, b :: bs => do
      let (_, remaining) ← getUint 2 (b :: bs)
      let (body, remaining) ← getPrefixed 2 remaining
      let bodies ← readBodies fuel remaining
      return body :: bodies

/-- The last extension of the block is empty. -/
def EndsEmpty (extensions : Bytes) : Prop :=
  (readBodies extensions.length extensions).bind List.getLast? = some []

instance {extensions : Bytes} : Decidable (EndsEmpty extensions) :=
  inferInstanceAs (Decidable (_ = _))

/-- An extension, behind its type and its length. -/
def IsExtension (written : Bytes) : Prop :=
  ∃ value body, body.length < 0x10000 ∧ written = putUint 2 value ++ putPrefixed 2 body

/-- An extension is at least its header. -/
theorem IsExtension.length_ge {written : Bytes} (h : IsExtension written) : 4 ≤ written.length := by
  obtain ⟨value, body, -, rfl⟩ := h
  rw [List.length_append, length_putUint, length_putPrefixed]
  omega

/-- Padding is an extension. -/
theorem isExtension_padding (ext : Nat) {len : Nat} (h : len < 0x10000) :
    IsExtension (addPaddingExtension [] ext len) :=
  ⟨ext, List.replicate len 0, by rwa [List.length_replicate], rfl⟩

/-- An extension is read back in front of the others. -/
theorem readBodies_append {fuel : Nat} {written rest : Bytes} (h : IsExtension written) :
    readBodies (fuel + 1) (written ++ rest)
      = (readBodies fuel rest).map (written.drop 4 :: ·) := by
  have hlen := h.length_ge
  obtain ⟨value, body, hbody, rfl⟩ := h
  have hdrop : (putUint 2 value ++ putPrefixed 2 body).drop 4 = body := by
    rw [putPrefixed, ← List.append_assoc]
    refine List.drop_left' ?_
    rw [List.length_append, length_putUint, length_putUint]
  obtain ⟨b, bs, hcons⟩ := List.exists_cons_of_length_pos
    (l := putUint 2 value ++ putPrefixed 2 body ++ rest) (by rw [List.length_append]; omega)
  have htype : getUint 2 (b :: bs) = some (uintOf (putUint 2 value), putPrefixed 2 body ++ rest) := by
    rw [← hcons, List.append_assoc, getUint,
      getBytes_eq_some.mpr ⟨rfl, length_putUint 2 value⟩]
    rfl
  have hrest : getPrefixed 2 (putPrefixed 2 body ++ rest) = some (body, rest) :=
    getPrefixed_append hbody rest
  rw [hdrop, hcons, readBodies, htype]
  show (getPrefixed 2 (putPrefixed 2 body ++ rest)).bind _ = _
  rw [hrest]
  show (readBodies fuel rest).bind (fun bodies => some (body :: bodies)) = _
  cases readBodies fuel rest <;> rfl

/-- Chunks that are extensions or empty read as the bodies of those that are not empty. -/
theorem readBodies_flatten {chunks : List Bytes} (h : ∀ c ∈ chunks, c = [] ∨ IsExtension c)
    {fuel : Nat} (hfuel : chunks.flatten.length ≤ fuel) :
    readBodies fuel chunks.flatten = some ((chunks.filter (· ≠ [])).map (List.drop 4)) := by
  induction chunks generalizing fuel with
  | nil => cases fuel <;> rfl
  | cons c chunks ih =>
      obtain ⟨hc, hrest⟩ := List.forall_mem_cons.mp h
      rw [List.flatten_cons, List.length_append] at hfuel
      rw [List.flatten_cons]
      rcases hc with rfl | hc
      · rw [List.nil_append, ih hrest (by omega)]
        rfl
      · have hlen := hc.length_ge
        have hne : c ≠ [] := List.ne_nil_of_length_pos (by omega)
        obtain ⟨fuel, rfl⟩ : ∃ n, fuel = n + 1 := ⟨fuel - 1, by omega⟩
        rw [readBodies_append hc, ih hrest (by omega), List.filter_cons_of_pos (by simpa using hne)]
        rfl

/-- **An empty last extension is a last chunk of four bytes**, those that wrote nothing aside. -/
theorem endsEmpty_flatten {chunks : List Bytes} (h : ∀ c ∈ chunks, c = [] ∨ IsExtension c) :
    EndsEmpty chunks.flatten
      ↔ ∃ c, (chunks.filter (· ≠ [])).getLast? = some c ∧ c.length = 4 := by
  rw [EndsEmpty, readBodies_flatten h (Nat.le_refl _), Option.bind_some, List.getLast?_map,
    Option.map_eq_some_iff]
  refine exists_congr fun c => and_congr_right fun hc => ?_
  obtain ⟨hmem, hne⟩ := List.mem_filter.mp (List.mem_of_getLast? hc)
  have hlen := ((h c hmem).resolve_left (by simpa using hne)).length_ge
  rw [List.drop_eq_nil_iff]
  omega

/-! ### What the loop appends -/

/-- Every `add_clienthello` writes an extension, or nothing. -/
def Table.Encodes (table : Table) : Prop :=
  ∀ entry ∈ table.rows, ∀ written, entry.written = some written → written = [] ∨ IsExtension written

/-- The loop does not pass the row over. -/
def Handshake.encodes (hs : Handshake) (i : Fin hs.table.rows.length) : Bool :=
  decide ¬ ((hs.table.rows.get i).value = kTypeRecordSizeLimit ∧ hs.recordSizeLimit = 0)

/-- What the rows of an order write, row by row. -/
def Handshake.rowChunks (hs : Handshake) (order : List (Fin hs.table.rows.length)) : List Bytes :=
  (order.filter hs.encodes).map fun i =>
    ((hs.table.rows.get i).addClienthello hs.echClientOuter).getD []

/-- What everything before padding writes: the rows between the two GREASE extensions. -/
def Handshake.chunks (hs : Handshake) : List Bytes :=
  (hs.grease.map fun exts => addPaddingExtension [] exts.1 0).toList ++ hs.rowChunks hs.order
    ++ (hs.grease.map fun exts => addPaddingExtension []
        (if exts.1 = exts.2 then exts.2 ^^^ 0x1010 else exts.2) 1).toList

/-- `last_was_empty` after chunks. -/
def lastChunkEmpty (lastWasEmpty : Bool) (chunks : List Bytes) : Bool :=
  (chunks.map fun c => decide (c.length = 4)).getLastD lastWasEmpty

/-- Only the last row that the loop goes through decides the flag. -/
theorem lastChunkEmpty_concat (b : Bool) (chunks : List Bytes) (c : Bytes) :
    lastChunkEmpty b (chunks ++ [c]) = decide (c.length = 4) := by
  rw [lastChunkEmpty, List.map_append, List.map_singleton, List.getLastD_concat]

/-- ECH is written whole, or not at all. -/
theorem extEchAddClienthello_isExtension {outer ech : Bytes}
    (h : extEchAddClienthello outer = some ech) : ech = [] ∨ IsExtension ech := by
  unfold extEchAddClienthello at h
  split at h
  · exact .inl (Option.some.inj h).symm
  · split at h
    · cases h
    · rename_i hle
      obtain rfl := Option.some.inj h
      exact .inr ⟨_, 0 :: outer, by rw [List.length_cons]; omega, rfl⟩

/-- So is every row. -/
theorem rowChunks_isExtension (hrows : hs.table.Encodes) {order : List (Fin hs.table.rows.length)} :
    ∀ c ∈ hs.rowChunks order, c = [] ∨ IsExtension c := by
  intro c hc
  obtain ⟨i, -, rfl⟩ := List.mem_map.mp hc
  rcases hwritten : (hs.table.rows.get i).addClienthello hs.echClientOuter with _ | written
  · exact .inl rfl
  · unfold Entry.addClienthello at hwritten
    split at hwritten
    · exact extEchAddClienthello_isExtension hwritten
    · exact hrows _ (List.get_mem _ i) written hwritten

/-- And the GREASE extensions around them. -/
theorem chunks_isExtension (hrows : hs.table.Encodes) : ∀ c ∈ hs.chunks, c = [] ∨ IsExtension c := by
  intro c hc
  rcases List.mem_append.mp hc with hc | hc
  · rcases List.mem_append.mp hc with hc | hc
    · obtain ⟨exts, -, rfl⟩ := Option.map_eq_some_iff.mp (Option.mem_toList.mp hc)
      exact .inr (isExtension_padding _ (by decide))
    · exact rowChunks_isExtension hrows c hc
  · obtain ⟨exts, -, rfl⟩ := Option.map_eq_some_iff.mp (Option.mem_toList.mp hc)
    exact .inr (isExtension_padding _ (by decide))

/-- **The loop, chunk by chunk.** -/
theorem foldlM_rowChunks {order : List (Fin hs.table.rows.length)}
    (h : order.foldlM (hs.addExtension false) st = .ok st₁) :
    st₁.extensions = st.extensions ++ (hs.rowChunks order).flatten
      ∧ st₁.lastWasEmpty = lastChunkEmpty st.lastWasEmpty (hs.rowChunks order) := by
  induction order generalizing st with
  | nil =>
      cases h
      exact ⟨(List.append_nil _).symm, rfl⟩
  | cons i order ih =>
      rw [List.foldlM_cons] at h
      obtain ⟨st₂, hi, h⟩ := bind_eq_ok.mp h
      obtain ⟨hext, hlast⟩ := ih h
      unfold Handshake.addExtension at hi
      dsimp only at hi
      split at hi
      · rename_i hskip
        cases hi
        have hno : ¬ hs.encodes i = true := fun h => of_decide_eq_true h hskip
        rw [Handshake.rowChunks, List.filter_cons_of_neg hno]
        exact ⟨hext, hlast⟩
      · rename_i hrow
        have hyes : hs.encodes i = true := decide_eq_true hrow
        rw [if_neg (fun hcustom => Bool.false_ne_true hcustom.1)] at hi
        rcases hwritten : (hs.table.rows.get i).addClienthello hs.echClientOuter with _ | written <;>
          rw [hwritten] at hi
        · cases hi
        · have hi' : st.append i written = .ok st₂ := hi
          rw [Encoder.append_eq] at hi'
          cases hi'
          have hchunks : hs.rowChunks (i :: order) = written :: hs.rowChunks order := by
            rw [Handshake.rowChunks, List.filter_cons_of_pos hyes, List.map_cons, hwritten]
            rfl
          rw [hchunks]
          refine ⟨?_, ?_⟩
          · rw [hext, List.flatten_cons, ← List.append_assoc]
          · rw [hlast, lastChunkEmpty, lastChunkEmpty, List.map_cons, List.getLastD_cons]

/-- **The encoder writes the chunks, and goes by the last one.** -/
theorem addExtensions_chunks (h : hs.addExtensions false = .ok st) :
    st.extensions = hs.chunks.flatten ∧ st.lastWasEmpty = lastChunkEmpty false hs.chunks := by
  obtain ⟨st₁, hst₁, hst⟩ := bind_eq_ok.mp h
  cases hst
  obtain ⟨hext, hlast⟩ := foldlM_rowChunks hst₁
  unfold Handshake.start at hext hlast
  unfold Handshake.addTrailingGrease Handshake.chunks
  rcases hgrease : hs.grease with _ | ⟨ext1, ext2⟩ <;> simp only [hgrease] at hext hlast ⊢
  · refine ⟨?_, ?_⟩
    · rw [hext]
      simp
    · rw [hlast]
      simp
  -- The last chunk is the trailing extension, of five bytes.
  · refine ⟨?_, ?_⟩
    · rw [addPaddingExtension, hext]
      simp [addPaddingExtension]
    · rw [Option.map_some, Option.map_some, Option.toList_some, Option.toList_some,
        lastChunkEmpty_concat, length_addPaddingExtension]
      rfl

/-- **What `last_was_empty` says**: the block ends with an empty extension, and no row after it wrote
nothing. -/
theorem lastChunkEmpty_iff {chunks : List Bytes} (h : ∀ c ∈ chunks, c = [] ∨ IsExtension c) :
    lastChunkEmpty false chunks = true ↔ EndsEmpty chunks.flatten ∧ chunks.getLast? ≠ some [] := by
  rw [endsEmpty_flatten h]
  rcases List.eq_nil_or_concat chunks with rfl | ⟨init, c, rfl⟩
  · simp [lastChunkEmpty]
  rw [List.concat_eq_append, lastChunkEmpty_concat, List.getLast?_concat, List.filter_append]
  by_cases hc : c = []
  · simp [hc]
  · rw [List.filter_cons_of_pos (by simpa using hc), List.filter_nil, List.getLast?_concat]
    simp [hc]

/-! ### The handshake once the policy has answered -/

/-- `ech_client_outer` when the block is done: what the policy's answer makes it, where it is asked. -/
def Handshake.echOuter (hs : Handshake) : Bytes :=
  if hs.echGreasePending then
    (hs.addExtensions true >>= hs.sslSetupEchGrease).toOption.getD []
  else hs.echClientOuter

abbrev Handshake.settled (hs : Handshake) : Handshake := hs.withOuter hs.echOuter

/-- The block is the one of the settled handshake, encoded in order. -/
theorem addClienthelloTlsext_settled (h : hs.addClienthelloTlsext = .ok block) :
    ∃ st, hs.settled.addExtensions false = .ok st ∧ hs.settled.finish st hs.echOuter = .ok block := by
  unfold Handshake.addClienthelloTlsext at h
  obtain ⟨st, hst, h⟩ := bind_eq_ok.mp h
  by_cases hpending : hs.echGreasePending = true
  · rw [hpending] at hst
    rw [if_pos hpending] at h
    obtain ⟨inserted, hinsert, hfinish⟩ := bind_eq_ok.mp h
    have houter : hs.echOuter = inserted.2 := by
      unfold Handshake.insertEchGrease at hinsert
      split at hinsert
      · cases hinsert
      · obtain ⟨outer, hsetup, hinsert⟩ := bind_eq_ok.mp hinsert
        have hanswer : (hs.addExtensions true >>= hs.sslSetupEchGrease) = .ok outer :=
          bind_eq_ok.mpr ⟨st, hst, hsetup⟩
        rw [Handshake.echOuter, if_pos hpending, hanswer]
        split at hinsert
        · cases hinsert
        · cases hinsert
          rfl
    obtain ⟨p, ech, hech, rfl⟩ := insertEchGrease_ok hinsert
    have hlen : 4 < ech.length := lt_length_ech (hs.draw.length_echClientOuter p) hech
    obtain ⟨st', hst', hin⟩ := addExtensions_inPlace hech hlen hst
    obtain ⟨hext, hsent, hlast⟩ := hin.insert hlen
    rw [Handshake.settled, houter]
    exact ⟨st', hst', (finish_congr hext hsent hlast _ _).symm.trans hfinish⟩
  · have hnot : hs.echGreasePending = false := by simpa using hpending
    rw [hnot] at hst
    rw [if_neg hpending] at h
    have houter : hs.echOuter = hs.echClientOuter := if_neg hpending
    rw [Handshake.settled, houter]
    exact ⟨st, hst, h⟩

/-! ### The two rules -/

/-- What everything before padding writes, in the order of the block. -/
def Handshake.unpadded (hs : Handshake) : Bytes := hs.settled.chunks.flatten

/-- The length of a ClientHello with these extensions before `pre_shared_key`, its header counted. -/
def Handshake.messageLength (hs : Handshake) (extensions : Bytes) : Nat :=
  4 + hs.preamble.length + (2 + extensions.length + hs.pskLen)

/-- The two rules, for a ClientHello with these extensions before `pre_shared_key`. -/
structure Handshake.Rules (hs : Handshake) (extensions : Bytes) : Prop where
  out : ¬ F5Window (hs.messageLength extensions)
  nonempty : hs.offeredPsks = [] → ¬ EndsEmpty extensions

/-- What padding is for.  The block keeps both rules; it is changed only where one of them demands it,
and then by one padding extension, to the least length at which both hold; and `pre_shared_key` is as
long as it was counted. -/
structure Handshake.Padded (hs : Handshake) (block : Block) : Prop where
  out : ¬ F5Window (4 + (hs.body block).length)
  nonempty : hs.offeredPsks = [] → ¬ EndsEmpty block.extensions
  unchanged : hs.Rules hs.unpadded →
    block.extensions = hs.unpadded ++ hs.pskWriter.write hs.offeredPsks
  reached : ∃ len, block.extensions
    = withPadding hs.unpadded len ++ hs.pskWriter.write hs.offeredPsks
  least : ∀ len, hs.Rules (withPadding hs.unpadded len) →
    4 + (hs.body block).length ≤ hs.messageLength (withPadding hs.unpadded len)
  psk : (hs.pskWriter.write hs.offeredPsks).length = hs.pskLen

/-- The empty extension that padding misses: it is the last to be written, a later row that the loop
goes through writes nothing, no `pre_shared_key` follows, and the message is not in the window. -/
structure Handshake.Missed (hs : Handshake) : Prop where
  noPsk : hs.offeredPsks = []
  endsEmpty : EndsEmpty hs.unpadded
  cleared : hs.settled.chunks.getLast? = some []
  out : ¬ F5Window (hs.messageLength hs.unpadded)

/-- `pre_shared_key` takes no room only where none is offered. -/
theorem Handshake.pskLen_eq_zero (hs : Handshake) : hs.pskLen = 0 ↔ hs.offeredPsks = [] := by
  unfold Handshake.pskLen pskClienthelloLength
  rcases hs.offeredPsks with _ | ⟨psk, psks⟩
  · simp
  · rw [if_neg (by simp), foldl_pskLength hs.pskWriter]
    simp

/-- No padding is nothing added. -/
theorem withPadding_zero (extensions : Bytes) : withPadding extensions 0 = extensions := rfl

/-- A block with padding ends with it. -/
theorem not_endsEmpty_withPadding {chunks : List Bytes} (h : ∀ c ∈ chunks, c = [] ∨ IsExtension c)
    {len : Nat} (hne : len ≠ 0) (hlt : len < 0x10000) :
    ¬ EndsEmpty (withPadding chunks.flatten len) := by
  have hflatten : withPadding chunks.flatten len
      = (chunks ++ [addPaddingExtension [] kTypePadding len]).flatten := by
    rw [withPadding, if_pos hne, List.flatten_append, List.flatten_singleton, addPaddingExtension,
      addPaddingExtension, List.nil_append]
  have hpad := isExtension_padding kTypePadding hlt
  have hlen : (addPaddingExtension [] kTypePadding len).length = 4 + len := by
    rw [length_addPaddingExtension, List.length_nil, Nat.zero_add]
  have hall : ∀ c ∈ chunks ++ [addPaddingExtension [] kTypePadding len], c = [] ∨ IsExtension c := by
    intro c hc
    rcases List.mem_append.mp hc with hc | hc
    · exact h c hc
    · rw [List.mem_singleton.mp hc]
      exact .inr hpad
  have hnil : addPaddingExtension [] kTypePadding len ≠ [] :=
    List.ne_nil_of_length_pos (by omega)
  rw [hflatten, endsEmpty_flatten hall, List.filter_append,
    List.filter_cons_of_pos (by simpa using hnil), List.filter_nil, List.getLast?_concat]
  rintro ⟨c, hc, hfour⟩
  rw [← Option.some.inj hc] at hfour
  omega

/-- With padding the block ends empty only where none is added. -/
theorem endsEmpty_withPadding_iff {chunks : List Bytes} (h : ∀ c ∈ chunks, c = [] ∨ IsExtension c)
    {len : Nat} (hlt : len < 0x10000) :
    EndsEmpty (withPadding chunks.flatten len) ↔ len = 0 ∧ EndsEmpty chunks.flatten := by
  constructor
  · intro hempty
    have hnone : len = 0 := by
      by_contra hne
      exact not_endsEmpty_withPadding h hne hlt hempty
    rw [hnone, withPadding_zero] at hempty
    exact ⟨hnone, hempty⟩
  · rintro ⟨rfl, hempty⟩
    rw [withPadding_zero]
    exact hempty

/-- Padding adds its length to the message. -/
theorem length_messageLength (hs : Handshake) (extensions : Bytes) (len : Nat) :
    hs.messageLength (withPadding extensions len) = hs.messageLength extensions + paddingSize len := by
  rw [Handshake.messageLength, length_withPadding, Handshake.messageLength]
  omega

/-- What the encoder does with the settled handshake, and what `last_was_empty` tells it: that the
block ends with an empty extension, unless a later row has cleared it. -/
theorem addClienthelloTlsext_padding (hrows : hs.table.Encodes) (hfirst : hs.tlsOverTcp)
    (h : hs.addClienthelloTlsext = .ok block) :
    ∃ lastWasEmpty : Bool,
      (lastWasEmpty = true ↔ EndsEmpty hs.unpadded ∧ hs.settled.chunks.getLast? ≠ some [])
        ∧ ¬ F5Window (4 + (hs.body block).length)
        ∧ block.extensions = withPadding hs.unpadded block.paddingLen
            ++ hs.pskWriter.write hs.offeredPsks
        ∧ block.paddingLen = paddingFor (hs.messageLength hs.unpadded) lastWasEmpty hs.pskLen
        ∧ Allowed (hs.messageLength hs.unpadded) lastWasEmpty hs.pskLen block.paddingLen
        ∧ 4 + (hs.body block).length
            = hs.messageLength hs.unpadded + paddingSize block.paddingLen
        ∧ (∀ len, Allowed (hs.messageLength hs.unpadded) lastWasEmpty hs.pskLen len →
            4 + (hs.body block).length ≤ hs.messageLength hs.unpadded + paddingSize len) := by
  obtain ⟨st, hst, hfinish⟩ := addClienthelloTlsext_settled h
  obtain ⟨hext, hlast⟩ := addExtensions_chunks hst
  have hmsg : hs.settled.msgLen st = hs.messageLength hs.unpadded := by
    rw [Handshake.msgLen, hext]
    rfl
  have hleast := padded_least hs.settled st hs.echOuter block hfirst hfinish
  rw [hext, hmsg] at hleast
  refine ⟨st.lastWasEmpty, ?_, hleast⟩
  rw [hlast]
  exact lastChunkEmpty_iff (chunks_isExtension hrows)

/-- **Padding does what it is for, unless it misses an empty extension.**  For every first ClientHello
of TLS over TCP: the two rules hold of its block, at the least length and with nothing added for
nothing, if and only if the last extension is not one whose emptiness a later row has cleared. -/
theorem padded_iff (hs : Handshake) (block : Block) (hrows : hs.table.Encodes)
    (hfirst : hs.tlsOverTcp) (h : hs.addClienthelloTlsext = .ok block) :
    hs.Padded block ↔ ¬ hs.Missed := by
  obtain ⟨lastWasEmpty, hknown, hout, hblock, hpadding, hallowed, hlength, hleast⟩ :=
    addClienthelloTlsext_padding hrows hfirst h
  have hchunks : ∀ c ∈ hs.settled.chunks, c = [] ∨ IsExtension c := chunks_isExtension hrows
  have hlt : block.paddingLen < 0x10000 := by
    rw [hpadding]
    exact Nat.lt_trans (paddingFor_lt _ _ _) (by decide)
  -- Nothing is added exactly when the encoder sees neither rule broken.
  have hzero : block.paddingLen = 0
      ↔ ¬ F5Window (hs.messageLength hs.unpadded) ∧ ¬ (lastWasEmpty = true ∧ hs.pskLen = 0) := by
    rw [hpadding]
    exact paddingFor_eq_zero_iff
  have hends (hpsk : hs.offeredPsks = []) :
      EndsEmpty block.extensions ↔ block.paddingLen = 0 ∧ EndsEmpty hs.unpadded := by
    have hnil : hs.pskWriter.write hs.offeredPsks = [] := by rw [hpsk]; rfl
    rw [hblock, hnil, List.append_nil]
    exact endsEmpty_withPadding_iff hchunks hlt
  constructor
  · intro hpadded hmissed
    have hnone : block.paddingLen = 0 :=
      hzero.mpr ⟨hmissed.out, fun hempty => (hknown.mp hempty.1).2 hmissed.cleared⟩
    exact hpadded.nonempty hmissed.noPsk ((hends hmissed.noPsk).mpr ⟨hnone, hmissed.endsEmpty⟩)
  · intro hmissed
    refine ⟨hout, fun hpsk hempty => ?_, fun hrules => ?_, ⟨_, hblock⟩, fun len hrules => ?_,
      hs.length_pskExtension⟩
    · obtain ⟨hnone, hempty⟩ := (hends hpsk).mp hempty
      obtain ⟨hwindow, hclear⟩ := hzero.mp hnone
      refine hmissed ⟨hpsk, hempty, ?_, hwindow⟩
      by_contra hcleared
      exact hclear ⟨hknown.mpr ⟨hempty, hcleared⟩, hs.pskLen_eq_zero.mpr hpsk⟩
    · have hnone : block.paddingLen = 0 := by
        refine hzero.mpr ⟨hrules.out, fun hempty => ?_⟩
        exact hrules.nonempty (hs.pskLen_eq_zero.mp hempty.2) (hknown.mp hempty.1).1
      rw [hblock, hnone]
      rfl
    · rw [length_messageLength]
      refine hleast len ⟨?_, fun hempty hpsk hnone => ?_⟩
      · rw [← length_messageLength]
        exact hrules.out
      · rw [hnone, withPadding_zero] at hrules
        exact hrules.nonempty (hs.pskLen_eq_zero.mp hpsk) (hknown.mp hempty).1

/-! ### A TLS 1.2 client -/

/-- ECH, `signed_certificate_timestamp` and `key_share`, of which a TLS 1.2 client writes the second,
empty. -/
def Table.tls12 : Table :=
  ⟨[⟨kTypeEncryptedClientHello, none⟩, ⟨18, some [0, 18, 0, 0]⟩, ⟨51, some []⟩], by decide, by decide⟩

def Handshake.tls12 : Handshake :=
  { Handshake.sample with maxVersion := 0x0303, table := .tls12, permutation := none }

/-- `key_share` after `signed_certificate_timestamp`: no padding is added, and the block ends with the
empty extension. -/
theorem padding_missed :
    Handshake.tls12.tlsOverTcp = true ∧ Handshake.tls12.offeredPsks = []
      ∧ Handshake.tls12.addClienthelloTlsext = .ok ⟨[0, 18, 0, 0], 2, 0, []⟩
      ∧ EndsEmpty [0, 18, 0, 0]
      ∧ ¬ Handshake.tls12.Padded ⟨[0, 18, 0, 0], 2, 0, []⟩ := by
  have hempty : EndsEmpty [0, 18, 0, 0] := by decide
  exact ⟨rfl, rfl, rfl, hempty, fun hpadded => hpadded.nonempty rfl hempty⟩

/-- `signed_certificate_timestamp` after `key_share`: one byte of padding follows it. -/
def Handshake.tls12Permuted : Handshake :=
  { Handshake.tls12 with permutation := some (show Permutation 3 from ⟨[0, 2, 1], by decide⟩) }

/-- The rows of the example are extensions. -/
theorem table_tls12_encodes : Table.tls12.Encodes := by
  intro entry hentry written hwritten
  simp only [Table.tls12, List.mem_cons, List.not_mem_nil, or_false] at hentry
  rcases hentry with rfl | rfl | rfl
  · cases hwritten
  · cases hwritten
    exact .inr ⟨18, [], by decide, rfl⟩
  · cases hwritten
    exact .inl rfl

/-- In the other order padding does what it is for. -/
theorem padded_iff_tls12 :
    Handshake.tls12Permuted.Padded ⟨[0, 18, 0, 0, 0, 21, 0, 1, 0], 2, 1, []⟩ := by
  refine (padded_iff _ _ table_tls12_encodes rfl rfl).mpr fun hmissed => ?_
  have hlast : Handshake.tls12Permuted.settled.chunks.getLast? = some [0, 18, 0, 0] := rfl
  exact absurd (hlast.symm.trans hmissed.cleared) (by decide)

end Btls.Hello
