import Btls.Support.Wire

/-!
# Hello — Padding

The padding extension of a ClientHello: one byte of it after an empty last extension (WebSphere),
and as much as keeps a message out of 256 to 511 bytes (F5).  Subtractions are those of `size_t`,
checked; `paddingLen_eq` is the length without them.

`Allowed` says what both workarounds ask of a length, going by `last_was_empty`.  `paddingFor` is
allowed (`allowed_paddingFor`), no allowed length makes a shorter message (`paddingFor_least`), and
it is zero exactly where neither workaround asks for anything (`paddingFor_eq_zero_iff`).  Whether
`last_was_empty` says what it is taken to say is for `LastExtension` to settle.
-/

namespace Btls.Hello

open Btls.Support

inductive TlsextError where
  /-- A `size_t` subtraction whose second operand is the larger. -/
  | underflow
  | errorAddingExtension (value : Nat)
  | badDataReturnedByCallback
  | unknownCipherType (aeadId : Nat)
  | badPayloadLength (payloadLength maxPayloadLength : Nat)
  | badLength
  | internalError
  /-- The extensions do not fit in their two-byte length. -/
  | tooLong
  deriving DecidableEq

/-- `a - b` in `size_t`. -/
def sub (a b : Nat) : Except TlsextError Nat := if b ≤ a then .ok (a - b) else .error .underflow

variable {a b : Nat}

theorem sub_of_le (h : b ≤ a) : sub a b = .ok (a - b) := if_pos h

@[simp] theorem sub_add_left (a b : Nat) : sub (a + b) a = .ok b := by
  rw [sub_of_le (Nat.le_add_right a b), Nat.add_sub_cancel_left]

/-! ### The code -/

def kTypePadding : Nat := 21

/-- `add_padding_extension`. -/
def addPaddingExtension (extensions : Bytes) (ext len : Nat) : Bytes :=
  extensions ++ (putUint 2 ext ++ putPrefixed 2 (List.replicate len 0))

/-- The branch of the F5 workaround.  `msgLen` counts a padding extension of `padding` bytes when there
is one. -/
def f5PaddingLen (msgLen padding : Nat) : Except TlsextError Nat := do
  let unpadded ← (if padding ≠ 0 then sub msgLen (4 + padding) else .ok msgLen)
  let room ← sub 0x200 unpadded
  if 4 + 1 ≤ room then sub room 4 else .ok 1

/-- The branch of the WebSphere workaround. -/
def emptyLastPaddingLen (lastWasEmpty : Bool) (pskLen : Nat) : Nat :=
  if lastWasEmpty ∧ pskLen = 0 then 1 else 0

/-- The body length of the padding extension, 0 for none.  `msgLen` counts the message header, the
extensions and `pre_shared_key`. -/
def paddingLen (msgLen : Nat) (lastWasEmpty : Bool) (pskLen : Nat) : Except TlsextError Nat :=
  let padding := emptyLastPaddingLen lastWasEmpty pskLen
  let msgLen := if padding ≠ 0 then msgLen + (4 + padding) else msgLen
  if 0xff < msgLen ∧ msgLen < 0x200 then f5PaddingLen msgLen padding else .ok padding

/-! ### What it adds -/

/-- The bytes that a padding extension with `len` bytes in it takes up. -/
def paddingSize (len : Nat) : Nat := if len ≠ 0 then 4 + len else 0

/-- The messages that the F5 workaround is for. -/
def F5Window (msgLen : Nat) : Prop := 0xff < msgLen ∧ msgLen < 0x200

instance : Decidable (F5Window msgLen) := inferInstanceAs (Decidable (_ ∧ _))

variable {msgLen padding pskLen len ext : Nat} {lastWasEmpty : Bool} {extensions : Bytes}

theorem length_addPaddingExtension :
    (addPaddingExtension extensions ext len).length = extensions.length + (4 + len) := by
  rw [addPaddingExtension, List.length_append, List.length_append, length_putUint,
    length_putPrefixed, List.length_replicate, ← Nat.add_assoc 2]

theorem add_paddingSize (msgLen padding : Nat) :
    (if padding ≠ 0 then msgLen + (4 + padding) else msgLen) = msgLen + paddingSize padding := by
  unfold paddingSize
  split <;> rfl

theorem f5PaddingLen_eq (h : msgLen < 0x200) :
    f5PaddingLen (msgLen + paddingSize padding) padding = .ok (max 1 (0x200 - msgLen - 4)) := by
  have hunpadded : (if padding ≠ 0 then sub (msgLen + paddingSize padding) (4 + padding)
      else .ok (msgLen + paddingSize padding)) = .ok msgLen := by
    unfold paddingSize
    split
    · rw [sub_of_le (Nat.le_add_left _ _), Nat.add_sub_cancel]
    · rfl
  show (_ >>= fun unpadded => sub 0x200 unpadded >>= fun room =>
    if 4 + 1 ≤ room then sub room 4 else .ok 1) = _
  rw [hunpadded]
  show (sub 0x200 msgLen >>= _) = _
  rw [sub_of_le (Nat.le_of_lt h)]
  show (if 4 + 1 ≤ 0x200 - msgLen then sub (0x200 - msgLen) 4 else .ok 1) = _
  split
  · rename_i hroom
    rw [sub_of_le (Nat.le_of_succ_le hroom), Nat.max_eq_right (Nat.le_sub_of_add_le' hroom)]
  · rename_i hroom
    rw [Nat.max_eq_left (by omega)]

/-- `paddingLen` without subtractions that could fail. -/
def paddingFor (msgLen : Nat) (lastWasEmpty : Bool) (pskLen : Nat) : Nat :=
  if F5Window (msgLen + paddingSize (emptyLastPaddingLen lastWasEmpty pskLen)) then
    max 1 (0x200 - msgLen - 4)
  else emptyLastPaddingLen lastWasEmpty pskLen

theorem paddingLen_eq (msgLen : Nat) (lastWasEmpty : Bool) (pskLen : Nat) :
    paddingLen msgLen lastWasEmpty pskLen = .ok (paddingFor msgLen lastWasEmpty pskLen) := by
  simp only [paddingLen, add_paddingSize, paddingFor]
  by_cases h : F5Window (msgLen + paddingSize (emptyLastPaddingLen lastWasEmpty pskLen))
  · rw [if_pos h, ← f5PaddingLen_eq (Nat.lt_of_le_of_lt (Nat.le_add_right _ _) h.2)]
    exact if_pos h
  · rw [if_neg h]
    exact if_neg h

/-! ### The two rules -/

/-- What the workarounds ask of a padding extension of `len` bytes, 0 for none: the message is out of
the window, and the last extension is not empty unless `pre_shared_key` follows. -/
structure Allowed (msgLen : Nat) (lastWasEmpty : Bool) (pskLen len : Nat) : Prop where
  out : ¬ F5Window (msgLen + paddingSize len)
  nonempty : lastWasEmpty = true → pskLen = 0 → len ≠ 0

theorem paddingSize_pos (h : len ≠ 0) : paddingSize len = 4 + len := if_pos h

theorem emptyLastPaddingLen_le (h : lastWasEmpty = true → pskLen = 0 → len ≠ 0) :
    paddingSize (emptyLastPaddingLen lastWasEmpty pskLen) ≤ paddingSize len := by
  unfold emptyLastPaddingLen
  split
  · rename_i hempty
    rw [paddingSize_pos (h hempty.1 hempty.2), paddingSize_pos Nat.one_ne_zero]
    have := Nat.pos_of_ne_zero (h hempty.1 hempty.2)
    omega
  · exact Nat.zero_le _

/-- In the branch of the F5 workaround the message grows to 512 bytes, or by the least extension there
is. -/
theorem add_paddingSize_f5 (h : msgLen < 0x200) :
    msgLen + paddingSize (max 1 (0x200 - msgLen - 4)) = max (msgLen + 5) 0x200 := by
  rw [paddingSize_pos (by omega)]
  omega

theorem allowed_paddingFor (msgLen : Nat) (lastWasEmpty : Bool) (pskLen : Nat) :
    Allowed msgLen lastWasEmpty pskLen (paddingFor msgLen lastWasEmpty pskLen) := by
  unfold paddingFor
  split
  · rename_i h
    have hlt : msgLen < 0x200 := Nat.lt_of_le_of_lt (Nat.le_add_right _ _) h.2
    refine ⟨?_, fun _ _ => by omega⟩
    rw [add_paddingSize_f5 hlt]
    exact fun hwindow => absurd hwindow.2 (Nat.not_lt_of_le (Nat.le_max_right _ _))
  · rename_i h
    refine ⟨h, fun hempty hpsk => ?_⟩
    rw [emptyLastPaddingLen, if_pos ⟨hempty, hpsk⟩]
    exact Nat.one_ne_zero

/-- No allowed padding makes a shorter message. -/
theorem paddingFor_least (h : Allowed msgLen lastWasEmpty pskLen len) :
    msgLen + paddingSize (paddingFor msgLen lastWasEmpty pskLen) ≤ msgLen + paddingSize len := by
  have hempty := emptyLastPaddingLen_le h.nonempty
  unfold paddingFor
  split
  · rename_i hwindow
    have hlt : msgLen < 0x200 := Nat.lt_of_le_of_lt (Nat.le_add_right _ _) hwindow.2
    have hbig : 0x200 ≤ msgLen + paddingSize len := by
      by_contra hsmall
      exact h.out ⟨Nat.lt_of_lt_of_le hwindow.1 (Nat.add_le_add_left hempty _), by omega⟩
    have hlen : len ≠ 0 := by
      rintro rfl
      exact absurd hbig (Nat.not_le_of_lt hlt)
    rw [add_paddingSize_f5 hlt]
    rw [paddingSize_pos hlen] at hbig ⊢
    omega
  · exact Nat.add_le_add_left hempty _

theorem paddingFor_lt (msgLen : Nat) (lastWasEmpty : Bool) (pskLen : Nat) :
    paddingFor msgLen lastWasEmpty pskLen < 0x200 := by
  unfold paddingFor
  split
  · omega
  · unfold emptyLastPaddingLen
    split <;> omega

/-- Nothing is added exactly where the message breaks neither rule. -/
theorem paddingFor_eq_zero_iff :
    paddingFor msgLen lastWasEmpty pskLen = 0
      ↔ ¬ F5Window msgLen ∧ ¬ (lastWasEmpty = true ∧ pskLen = 0) := by
  constructor
  · intro h
    have hallowed := allowed_paddingFor msgLen lastWasEmpty pskLen
    rw [h] at hallowed
    exact ⟨hallowed.out, fun hempty => hallowed.nonempty hempty.1 hempty.2 rfl⟩
  · rintro ⟨hwindow, hempty⟩
    rw [paddingFor, emptyLastPaddingLen, if_neg hempty]
    exact if_neg hwindow

end Btls.Hello
