import Btls.Hello.EchGrease
import Mathlib.Data.List.FinRange

/-!
# Hello — Extensions

`ssl_add_clienthello_tlsext`.  The rows of `kExtensions` are encoded in the handshake's order; with
a custom ECH GREASE policy the ECH row is passed over, and its extension is encoded after all the
others and rotated into place (`insertEchGrease`).  Padding and `pre_shared_key` close the block.

A row comes with what its `add_clienthello` appends in this handshake (`Entry`), and the loop goes
by the lengths of these alone, as the code's does: an extension was sent if something was appended,
and it was empty if that was four bytes.  The row of ECH is the one that also reads
`ech_client_outer`.  A subtraction that underflows is an error of the model's own, so that it can be
shown not to occur.
-/

namespace Btls.Hello

open Btls.Support

def kTypeEncryptedClientHello : Nat := 0xfe0d

def kTypeRecordSizeLimit : Nat := 28

def kTypePreSharedKey : Nat := 41

def kTls13Version : Nat := 0x0304

/-- A row of `kExtensions`, with what its `add_clienthello` appends in this handshake: `none` when it
fails.  Only the row of ECH reads `ech_client_outer`; its `written` is not used. -/
structure Entry where
  value : Nat
  written : Option Bytes

/-- `kExtensions`. -/
structure Table where
  rows : List Entry
  nodup : (rows.map Entry.value).Nodup
  ech_mem : kTypeEncryptedClientHello ∈ rows.map Entry.value

/-- `extension_permutation`, when there is one. -/
structure Permutation (n : Nat) where
  indices : List (Fin n)
  perm : indices.Perm (List.finRange n)

structure PreSharedKey where
  identity : Bytes
  hashSize : Nat

/-- What `ext_pre_shared_key_add_clienthello` writes beside the identities. -/
structure PskWriter where
  obfuscatedTicketAge : PreSharedKey → Nat
  binder : PreSharedKey → Bytes
  length_binder : ∀ psk, (binder psk).length = psk.hashSize

/-- What `ssl_add_clienthello_tlsext` reads.  `grease` is the pair of GREASE types, when the context
sends them, and `offeredPsks` is empty when `should_offer_psk` is false. -/
structure Handshake where
  isDtls : Bool
  isQuic : Bool
  usedHelloRetryRequest : Bool
  receivedHelloVerifyRequest : Bool
  selectedEchConfig : Bool
  maxVersion : Nat
  echGreaseEnabled : Bool
  configCallback : Option EchGreaseCb
  ctxCallback : Option EchGreaseCb
  echClientOuter : Bytes
  grease : Option (Nat × Nat)
  table : Table
  permutation : Option (Permutation table.rows.length)
  recordSizeLimit : Nat
  offeredPsks : List PreSharedKey
  pskWriter : PskWriter
  draw : Draw
  preamble : Bytes

variable (hs : Handshake)

/-! ### `pre_shared_key` -/

/-- `ext_pre_shared_key_clienthello_length`. -/
def pskClienthelloLength (psks : List PreSharedKey) : Nat :=
  if psks.isEmpty then 0
  else psks.foldl (fun ret psk => ret + (2 + psk.identity.length) + 4 + (1 + psk.hashSize)) (2 + 2 + 2 + 2)

def PskWriter.putIdentity (w : PskWriter) (psk : PreSharedKey) : Bytes :=
  putPrefixed 2 psk.identity ++ putUint 4 (w.obfuscatedTicketAge psk)

/-- `ext_pre_shared_key_add_clienthello`. -/
def PskWriter.write (w : PskWriter) (psks : List PreSharedKey) : Bytes :=
  if psks.isEmpty then []
  else putUint 2 kTypePreSharedKey ++ putPrefixed 2
    (putPrefixed 2 (psks.flatMap w.putIdentity)
      ++ putPrefixed 2 (psks.flatMap fun psk => putPrefixed 1 (w.binder psk)))

def Handshake.pskLen : Nat := pskClienthelloLength hs.offeredPsks

/-! ### The loop -/

/-- `ext_ech_add_clienthello`, outside the inner ClientHello. -/
def extEchAddClienthello (echClientOuter : Bytes) : Option Bytes :=
  if echClientOuter.isEmpty then some []
  else if 0xffff < echClientOuter.length + 1 then none
  else some (putUint 2 kTypeEncryptedClientHello ++ putPrefixed 2 (0 :: echClientOuter))

def Entry.addClienthello (entry : Entry) (echClientOuter : Bytes) : Option Bytes :=
  if entry.value = kTypeEncryptedClientHello then extEchAddClienthello echClientOuter
  else entry.written

/-- The encoder: `extensions`, `hs->extensions.sent`, and the locals of the loop. -/
structure Encoder where
  extensions : Bytes
  sent : BitVec 32
  lastWasEmpty : Bool
  echOffset : Nat
  echIndex : Nat
  deriving DecidableEq

def Handshake.order : List (Fin hs.table.rows.length) :=
  (hs.permutation.map Permutation.indices).getD (List.finRange hs.table.rows.length)

/-- `ssl_ech_grease_pending`. -/
def Handshake.echGreasePending : Bool :=
  !hs.usedHelloRetryRequest && !hs.receivedHelloVerifyRequest && !hs.selectedEchConfig
    && kTls13Version ≤ hs.maxVersion && hs.echGreaseEnabled && hs.echClientOuter.isEmpty
    && (hs.configCallback.isSome || hs.ctxCallback.isSome)

/-- An extension as it is appended: what was sent and whether it was empty go by its length. -/
def Encoder.append (st : Encoder) (index : Nat) (written : Bytes) : Except TlsextError Encoder := do
  let extensions := st.extensions ++ written
  let bytesWritten ← sub extensions.length st.extensions.length
  return { st with
    extensions
    sent := if bytesWritten ≠ 0 then st.sent ||| 1#32 <<< index else st.sent
    lastWasEmpty := bytesWritten = 4 }

/-- What a row's `add_clienthello` returned. -/
def Encoder.add (st : Encoder) (index value : Nat) : Option Bytes → Except TlsextError Encoder
  | none => .error (.errorAddingExtension value)
  | some written => st.append index written

/-- One round of the loop. -/
def Handshake.addExtension (customEch : Bool) (st : Encoder) (i : Fin hs.table.rows.length) :
    Except TlsextError Encoder :=
  let entry := hs.table.rows.get i
  if entry.value = kTypeRecordSizeLimit ∧ hs.recordSizeLimit = 0 then .ok st
  else if customEch ∧ entry.value = kTypeEncryptedClientHello then
    .ok { st with echOffset := st.extensions.length, echIndex := i, lastWasEmpty := false }
  else st.add i entry.value (entry.addClienthello hs.echClientOuter)

/-- The empty GREASE extension before the loop. -/
def Handshake.start : Encoder :=
  match hs.grease with
  | none => ⟨[], 0, false, 0, 0⟩
  | some (ext1, _) => ⟨addPaddingExtension [] ext1 0, 0, false, 0, 0⟩

/-- The GREASE extension after the loop, which is not empty. -/
def Handshake.addTrailingGrease (st : Encoder) : Encoder :=
  match hs.grease with
  | none => st
  | some (ext1, ext2) =>
      let ext2 := if ext1 = ext2 then ext2 ^^^ 0x1010 else ext2
      { st with extensions := addPaddingExtension st.extensions ext2 1, lastWasEmpty := false }

/-- Everything before padding and `pre_shared_key`. -/
def Handshake.addExtensions (customEch : Bool) : Except TlsextError Encoder := do
  let st ← hs.order.foldlM (hs.addExtension customEch) hs.start
  return hs.addTrailingGrease st

/-! ### The deferred ECH extension -/

/-- `std::rotate(data + first, data + middle, data + last)`. -/
def rotate (data : Bytes) (first middle last : Nat) : Bytes :=
  data.take first ++ (data.take last).drop middle ++ (data.take middle).drop first ++ data.drop last

def Handshake.tlsOverTcp : Bool := !hs.isDtls && !hs.isQuic && !hs.usedHelloRetryRequest

/-- Room for the WebSphere workaround; the F5 workaround is for small messages. -/
def Handshake.paddingReserve (st : Encoder) : Nat :=
  if st.lastWasEmpty && hs.pskLen = 0 && hs.tlsOverTcp then 5 else 0

/-- What the policy is told. -/
def Handshake.echGreaseInfo (st : Encoder) : Except TlsextError SizeInfo :=
  sizeInfo hs.draw hs.isDtls hs.isQuic st.extensions hs.preamble hs.pskLen (hs.paddingReserve st)

/-- The callback of the connection, or else of its context. -/
def Handshake.callback : Option EchGreaseCb := hs.configCallback.or hs.ctxCallback

/-- `ssl_setup_ech_grease`: the new `ech_client_outer`.  A pending policy has a callback. -/
def Handshake.sslSetupEchGrease (st : Encoder) : Except TlsextError Bytes :=
  match hs.callback with
  | none => .ok (hs.draw.echClientOuter hs.draw.defaultParameters)
  | some callback => do
      let info ← hs.echGreaseInfo st
      setupEchGrease hs.draw callback info

/-- The ECH extension appended after the others, then rotated into its slot. -/
def Encoder.insert (st : Encoder) (written : Bytes) : Encoder :=
  let oldLen := st.extensions.length
  let extensions := st.extensions ++ written
  if extensions.length ≠ oldLen then
    { st with
      extensions := rotate extensions st.echOffset oldLen extensions.length
      sent := st.sent ||| 1#32 <<< st.echIndex }
  else { st with extensions }

/-- The encoder and `ech_client_outer` once the extension is in its slot. -/
def Handshake.insertEchGrease (st : Encoder) : Except TlsextError (Encoder × Bytes) :=
  if st.extensions.length < st.echOffset then .error .internalError
  else do
    let outer ← hs.sslSetupEchGrease st
    match extEchAddClienthello outer with
    | none => .error .tooLong
    | some written => return (st.insert written, outer)

/-! ### The block -/

/-- The extensions block, and what the handshake keeps of it. -/
structure Block where
  extensions : Bytes
  sent : BitVec 32
  paddingLen : Nat
  echClientOuter : Bytes
  deriving DecidableEq

/-- Padding and `pre_shared_key`. -/
def Handshake.finish (st : Encoder) (echClientOuter : Bytes) : Except TlsextError Block := do
  let msgLen := 4 + hs.preamble.length + (2 + st.extensions.length + hs.pskLen)
  let padding ← (if hs.tlsOverTcp then paddingLen msgLen st.lastWasEmpty hs.pskLen else .ok 0)
  let extensions := if padding ≠ 0 then addPaddingExtension st.extensions kTypePadding padding
    else st.extensions
  let extensions := extensions ++ hs.pskWriter.write hs.offeredPsks
  if 0xffff < extensions.length then .error .tooLong
  else return ⟨extensions, st.sent, padding, echClientOuter⟩

/-- `ssl_add_clienthello_tlsext`. -/
def Handshake.addClienthelloTlsext : Except TlsextError Block := do
  let customEch := hs.echGreasePending
  let st ← hs.addExtensions customEch
  if customEch then
    let (st, outer) ← hs.insertEchGrease st
    hs.finish st outer
  else hs.finish st hs.echClientOuter

/-- The ClientHello's body: what came before the extensions, and the block behind its length. -/
def Handshake.body (block : Block) : Bytes := hs.preamble ++ putPrefixed 2 block.extensions

end Btls.Hello
