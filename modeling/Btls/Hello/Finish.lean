import Btls.Hello.Extensions

/-!
# Hello — the end of the block

What `finish` appends to the block that the loop has written.

`pre_shared_key` comes last and is as long as its length said beforehand (`length_write`), so the
padding in front of it can be computed before it is written.  `finish_eq` is the block in closed
form, and `length_message` its length with the header of the message.

`padded_least`: padding makes the shortest message that the two workarounds allow, going by what
`last_was_empty` says of the last extension.
-/

namespace Btls.Hello

open Btls.Support

variable {hs : Handshake} {st : Encoder} {outer : Bytes} {block : Block}

/-! ### `pre_shared_key` -/

theorem foldl_pskLength (w : PskWriter) (psks : List PreSharedKey) (n : Nat) :
    psks.foldl (fun ret psk => ret + (2 + psk.identity.length) + 4 + (1 + psk.hashSize)) n
      = n + (psks.flatMap w.putIdentity).length
        + (psks.flatMap fun psk => putPrefixed 1 (w.binder psk)).length := by
  induction psks generalizing n with
  | nil => rfl
  | cons psk psks ih =>
      rw [List.foldl_cons, ih, List.flatMap_cons, List.flatMap_cons, List.length_append,
        List.length_append, PskWriter.putIdentity, List.length_append, length_putPrefixed,
        length_putPrefixed, length_putUint, w.length_binder]
      omega

theorem PskWriter.length_write (w : PskWriter) (psks : List PreSharedKey) :
    (w.write psks).length = pskClienthelloLength psks := by
  unfold PskWriter.write pskClienthelloLength
  split
  · rfl
  · rw [foldl_pskLength w, List.length_append, length_putUint, length_putPrefixed,
      List.length_append, length_putPrefixed, length_putPrefixed]
    omega

theorem Handshake.length_pskExtension (hs : Handshake) :
    (hs.pskWriter.write hs.offeredPsks).length = hs.pskLen := hs.pskWriter.length_write _

/-- The extension, when there is one, has its four bytes of header. -/
theorem Handshake.pskLen_eq (hs : Handshake) : hs.pskLen = 0 ∨ 8 ≤ hs.pskLen := by
  unfold Handshake.pskLen pskClienthelloLength
  split
  · exact .inl rfl
  · right
    rw [foldl_pskLength hs.pskWriter, Nat.add_assoc]
    exact Nat.le_add_right _ _

/-! ### What `finish` appends -/

/-- The length of the message without padding. -/
def Handshake.msgLen (hs : Handshake) (st : Encoder) : Nat :=
  4 + hs.preamble.length + (2 + st.extensions.length + hs.pskLen)

def Handshake.padding (hs : Handshake) (st : Encoder) : Nat :=
  if hs.tlsOverTcp then paddingFor (hs.msgLen st) st.lastWasEmpty hs.pskLen else 0

def withPadding (extensions : Bytes) (len : Nat) : Bytes :=
  if len ≠ 0 then addPaddingExtension extensions kTypePadding len else extensions

theorem length_withPadding (extensions : Bytes) (len : Nat) :
    (withPadding extensions len).length = extensions.length + paddingSize len := by
  unfold withPadding paddingSize
  split
  · exact length_addPaddingExtension
  · rfl

theorem Handshake.finish_eq (hs : Handshake) (st : Encoder) (outer : Bytes) :
    hs.finish st outer =
      if 0xffff < st.extensions.length + paddingSize (hs.padding st) + hs.pskLen then .error .tooLong
      else .ok ⟨withPadding st.extensions (hs.padding st) ++ hs.pskWriter.write hs.offeredPsks,
        st.sent, hs.padding st, outer⟩ := by
  have hpadding : (if hs.tlsOverTcp then paddingLen (hs.msgLen st) st.lastWasEmpty hs.pskLen
      else .ok 0) = .ok (hs.padding st) := by
    unfold Handshake.padding
    split
    · exact paddingLen_eq _ _ _
    · rfl
  rw [← length_withPadding, ← hs.length_pskExtension, ← List.length_append]
  show (_ >>= _) = _
  unfold Handshake.msgLen at hpadding
  rw [hpadding]
  rfl

theorem Handshake.finish_ok (h : hs.finish st outer = .ok block) :
    block = ⟨withPadding st.extensions (hs.padding st) ++ hs.pskWriter.write hs.offeredPsks,
        st.sent, hs.padding st, outer⟩ := by
  rw [hs.finish_eq] at h
  split at h
  · cases h
  · exact (Except.ok.inj h).symm

theorem Handshake.finish_fits (outer : Bytes)
    (h : st.extensions.length + paddingSize (hs.padding st) + hs.pskLen ≤ 0xffff) :
    ∃ block, hs.finish st outer = .ok block := by
  rw [hs.finish_eq, if_neg (Nat.not_lt_of_le h)]
  exact ⟨_, rfl⟩

theorem Handshake.length_block (h : hs.finish st outer = .ok block) :
    block.extensions.length = st.extensions.length + paddingSize (hs.padding st) + hs.pskLen := by
  rw [hs.finish_ok h, List.length_append, length_withPadding, hs.length_pskExtension]

/-- The message with its header. -/
theorem Handshake.length_message (h : hs.finish st outer = .ok block) :
    4 + (hs.body block).length = hs.msgLen st + paddingSize (hs.padding st) := by
  rw [Handshake.body, List.length_append, length_putPrefixed, hs.length_block h, Handshake.msgLen]
  omega

def putExtensions (exts : List (Nat × Bytes)) : Bytes :=
  exts.flatMap fun ext => putUint 2 ext.1 ++ putPrefixed 2 ext.2

/-! ### The shortest padding -/

/-- **Padding is the least that both workarounds allow**, for every length of the message and every
value of `last_was_empty`. -/
theorem padded_least (hs : Handshake) (st : Encoder) (outer : Bytes) (block : Block)
    (hfirst : hs.tlsOverTcp) (h : hs.finish st outer = .ok block) :
    ¬ F5Window (4 + (hs.body block).length)
      ∧ block.extensions = withPadding st.extensions block.paddingLen
          ++ hs.pskWriter.write hs.offeredPsks
      ∧ block.paddingLen = paddingFor (hs.msgLen st) st.lastWasEmpty hs.pskLen
      ∧ Allowed (hs.msgLen st) st.lastWasEmpty hs.pskLen block.paddingLen
      ∧ 4 + (hs.body block).length = hs.msgLen st + paddingSize block.paddingLen
      ∧ (∀ len, Allowed (hs.msgLen st) st.lastWasEmpty hs.pskLen len →
          4 + (hs.body block).length ≤ hs.msgLen st + paddingSize len) := by
  have hpadding : hs.padding st = paddingFor (hs.msgLen st) st.lastWasEmpty hs.pskLen := if_pos hfirst
  have hallowed := allowed_paddingFor (hs.msgLen st) st.lastWasEmpty hs.pskLen
  have hlength := hs.length_message h
  rw [← hpadding] at hallowed
  have hblock := hs.finish_ok h
  have hlen : block.paddingLen = hs.padding st := by rw [hblock]
  rw [hlen]
  refine ⟨hlength ▸ hallowed.out, by rw [hblock], hpadding, hallowed, hlength, ?_⟩
  intro len hother
  rw [hlength, hpadding]
  exact paddingFor_least hother

/-- Two rows, of which the second is empty. -/
def Table.sample : Table :=
  ⟨[⟨kTypeEncryptedClientHello, none⟩, ⟨23, some [0, 23, 0, 0]⟩], by decide, by decide⟩

def Draw.sample : Draw :=
  ⟨kHpkeAes128Gcm, 16, 7, List.replicate 32 1, List.replicate 32 2, fun n => List.replicate n 3, 4,
    List.length_replicate, List.length_replicate, fun _ => List.length_replicate⟩

def Handshake.sample : Handshake where
  isDtls := false
  isQuic := false
  usedHelloRetryRequest := false
  receivedHelloVerifyRequest := false
  selectedEchConfig := false
  maxVersion := kTls13Version
  echGreaseEnabled := true
  configCallback := some fun _ => some ⟨kHpkeAes128Gcm, 3, true⟩
  ctxCallback := none
  echClientOuter := []
  grease := none
  table := .sample
  permutation := none
  recordSizeLimit := 0
  offeredPsks := []
  pskWriter := ⟨fun _ => 0, fun psk => List.replicate psk.hashSize 0, fun _ => List.length_replicate⟩
  draw := .sample
  preamble := [3, 3] ++ List.replicate 32 0 ++ [0, 0, 2, 0x13, 1, 1, 0]

end Btls.Hello
