import Btls.Hello.Padding

/-!
# Hello — EchGrease

What a custom ECH GREASE policy is told and what is built from its answer: `ssl_setup_ech_grease`
and `setup_ech_grease`.  `Draw` is what the library draws at random or asks the machine for.

`sizeInfo` reads the ClientHello that has been encoded so far, extension by extension, and adds up
what the policy is told of it (`SizeInfo`); `maxPayloadLength` is the room that is left for its
payload.  The policy is a function of that (`EchGreaseCb`), so it may give any answer, and
`setupEchGrease` rejects one that does not fit.  A policy that fails ends the handshake; without one
the parameters are `Draw.defaultParameters`.
-/

namespace Btls.Hello

open Btls.Support

/-! ### The policy -/

/-- `SSL_ECH_GREASE_SIZE_INFO`, but for the connection itself. -/
structure SizeInfo where
  preambleLength : Nat
  cipherSuites : Bytes
  extensions : List (Nat × Nat) -- type and body length
  hasServerName : Bool
  serverNameLength : Nat
  pskExtensionLength : Nat
  isDtls : Bool
  isQuic : Bool
  defaultAeadId : Nat
  aeadOverhead : Nat
  maxPayloadLength : Nat
  messageLength : Nat
  deriving DecidableEq

/-- `SSL_ECH_GREASE_PARAMETERS`. -/
structure Parameters where
  aeadId : Nat
  payloadLength : Nat
  randomEnc : Bool
  deriving DecidableEq

/-- `SSL_ech_grease_cb`: `none` for a callback that returns 0. -/
abbrev EchGreaseCb := SizeInfo → Option Parameters

def kHpkeHkdfSha256 : Nat := 1

def kHpkeAes128Gcm : Nat := 1

def kHpkeChacha20Poly1305 : Nat := 3

/-- What does not depend on the policy: the suite that the machine prefers, the configuration's id, an
X25519 public value, the bytes that replace it when `random_enc` is set, and the payload. -/
structure Draw where
  defaultAeadId : Nat
  aeadOverhead : Nat
  configId : UInt8
  enc : Bytes
  randomEnc : Bytes
  payload : Nat → Bytes
  randomSize : Nat -- `random_size(128 / 32, 224 / 32)`
  length_enc : enc.length = 32
  length_randomEnc : randomEnc.length = 32
  length_payload : ∀ n, (payload n).length = n

variable (d : Draw)

/-- The end of `setup_ech_grease`: `ech_client_outer`. -/
def Draw.echClientOuter (p : Parameters) : Bytes :=
  putUint 2 kHpkeHkdfSha256 ++ putUint 2 p.aeadId ++ [d.configId]
    ++ putPrefixed 2 (if p.randomEnc then d.randomEnc else d.enc)
    ++ putPrefixed 2 (d.payload p.payloadLength)

/-- The parameters without a policy. -/
def Draw.defaultParameters : Parameters :=
  ⟨d.defaultAeadId, 32 * d.randomSize + d.aeadOverhead, false⟩

/-- `setup_ech_grease` with `info`. -/
def setupEchGrease (callback : EchGreaseCb) (info : SizeInfo) : Except TlsextError Bytes :=
  match callback info with
  | none => .error .badDataReturnedByCallback
  | some p =>
      if p.aeadId ≠ kHpkeAes128Gcm ∧ p.aeadId ≠ kHpkeChacha20Poly1305 then
        .error (.unknownCipherType p.aeadId)
      else if p.payloadLength = 0 ∨ info.maxPayloadLength < p.payloadLength then
        .error (.badPayloadLength p.payloadLength info.maxPayloadLength)
      else .ok (d.echClientOuter p)

/-! ### What the policy is told -/

def kGreaseFraming : Nat := 42

def kMaxExtensions : Nat := 0xffff

def kTypeServerName : Nat := 0

def kNametypeHostName : Nat := 0

/-- The cipher suites of a ClientHello without its extensions. -/
def cipherSuitesOf (isDtls : Bool) (preamble : Bytes) : Option Bytes := do
  let (_, header) ← getBytes (2 + 32) preamble
  let (_, header) ← getPrefixed 1 header
  let (_, header) ← (if isDtls then getPrefixed 1 header else some ([], header))
  let (ciphers, header) ← getPrefixed 2 header
  let (_, header) ← getPrefixed 1 header
  guard header.isEmpty
  return ciphers

/-- The length of the one host name in the body of `server_name`. -/
def hostNameLength (body : Bytes) : Option Nat := do
  let (names, body) ← getPrefixed 2 body
  let (nameType, names) ← getUint 1 names
  guard (nameType = kNametypeHostName)
  let (name, names) ← getPrefixed 2 names
  guard (names.isEmpty ∧ body.isEmpty)
  return name.length

/-- One round of the loop over the extensions.  The loop before it, which sizes the array, reads the
same bytes. -/
def SizeInfo.addExtension (info : SizeInfo) (type : Nat) (body : Bytes) : Option SizeInfo :=
  let info := { info with extensions := info.extensions ++ [(type, body.length)] }
  if type = kTypeServerName then
    (hostNameLength body).map fun length =>
      { info with hasServerName := true, serverNameLength := length }
  else some info

/-- The loop; every round takes at least four bytes, so the number of bytes is fuel enough. -/
def SizeInfo.addExtensions : Nat → SizeInfo → Bytes → Option SizeInfo
  | _, info, [] => some info
  | 0, _, _ :: _ => none
  | fuel + 1, info, b :: bs => do
      let (type, remaining) ← getUint 2 (b :: bs)
      let (body, remaining) ← getPrefixed 2 remaining
      let info ← info.addExtension type body
      info.addExtensions fuel remaining

/-- The room that the policy may fill. -/
def maxPayloadLength (oldLen pskLen paddingReserve : Nat) : Except TlsextError Nat := do
  let room ← sub kMaxExtensions 4
  let room ← sub room kGreaseFraming
  if room < oldLen then .error .badLength
  else
    let room ← sub room oldLen
    if room < pskLen then .error .badLength
    else
      let room ← sub room pskLen
      if room < paddingReserve then .error .badLength else sub room paddingReserve

/-- `info.psk_extension_length`: the body of `pre_shared_key`. -/
def pskExtensionLength (pskLen : Nat) : Except TlsextError Nat :=
  if pskLen = 0 then .ok 0 else sub pskLen 4

/-- `ssl_setup_ech_grease` up to the policy. -/
def sizeInfo (isDtls isQuic : Bool) (extensions preamble : Bytes) (pskLen paddingReserve : Nat) :
    Except TlsextError SizeInfo := do
  let maxPayload ← maxPayloadLength extensions.length pskLen paddingReserve
  let pskExtension ← pskExtensionLength pskLen
  let messageLength := preamble.length + 2 + extensions.length + 4 + kGreaseFraming + pskLen
    + paddingReserve
  match cipherSuitesOf isDtls preamble with
  | none => .error .internalError
  | some ciphers =>
      let info : SizeInfo := ⟨preamble.length, ciphers, [], false, 0, pskExtension, isDtls, isQuic,
        d.defaultAeadId, d.aeadOverhead, maxPayload, messageLength⟩
      match info.addExtensions extensions.length extensions with
      | none => .error .internalError
      | some info => .ok info

end Btls.Hello
