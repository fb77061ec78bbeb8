import Btls.Support.Bytes

/-!
# Session — ClientSession

`ClientSession` and `ConnectConfiguration::into_ssl`: what a session records of the connection that
received it, and what it is compared with before another connection offers it.

`rawClientSession` records the peer that the connection was made for, whether its certificate was
verified, the issuer of its context and the time at which the chain expires.
`ClientSession.resumes` compares all of it with the connection that is to offer the session; where
it does not hold, `into_ssl` goes on without.

`Library` is what `into_ssl` calls outside the repository.  A Rust string is its bytes.
-/

namespace Btls.Session

open Btls.Support

/-! ### Values -/

/-- `ClientSessionCallback`, with the value that it took from `NEXT_ISSUER`. -/
structure ClientSessionCallback where
  issuer : UInt64
  deriving DecidableEq, Repr

/-- `SslContext`.  `ptr` is its address, and `clientSession` the value at `CLIENT_SESSION_INDEX`. -/
structure SslContext where
  ptr : Nat
  hasX509Support : Bool
  clientSession : Option ClientSessionCallback
  deriving DecidableEq, Repr

/-- `X509`.  `ASN1_TIME_to_posix` of its `notAfter` may fail. -/
structure X509 where
  notAfter : Option Int
  deriving DecidableEq, Repr

structure SslSession where
  idContext : Bytes
  peerChain : Option (List X509)
  deriving DecidableEq, Repr

structure SessionPeer where
  domain : Bytes
  sni : Bool
  verifyHostname : Bool
  deriving DecidableEq, Repr

structure ClientSession where
  session : SslSession
  peer : SessionPeer
  verifyPeer : Bool
  notAfter : Option Int
  issuer : Option UInt64
  deriving DecidableEq, Repr

/-- What of `ssl->config` is read. -/
structure SslConfig where
  verifyMode : Nat
  sessionIdContext : Bytes
  deriving DecidableEq, Repr

/-- `X509_VERIFY_PARAM`. -/
structure VerifyParam where
  hostflags : Nat
  host : Option Bytes
  ip : Option Bytes
  deriving DecidableEq, Repr

/-- `Ssl`.  `config` is gone once it is shed; `sessionCtx` and `sessionPeer` are the values at
`SESSION_CTX_INDEX` and `SESSION_PEER_INDEX`. -/
structure Ssl where
  config : Option SslConfig
  sslContext : SslContext
  sessionCtx : Option SslContext
  sessionPeer : Option SessionPeer
  hostname : Option Bytes
  param : VerifyParam
  session : Option SslSession
  deriving DecidableEq, Repr

structure ConnectConfiguration where
  ssl : Ssl
  sni : Bool
  verifyHostname : Bool
  session : Option ClientSession

/-- What is called outside the repository.  A call that returns a `Bool` returns whether it
succeeded. -/
structure Library where
  parseIpAddr : Bytes → Option Bytes
  setTlsextHostName : Bytes → Bool
  setHost : Bytes → Bool
  setIp : Bytes → Bool
  setSession : SslSession → Bool

/-! ### What is recorded -/

/-- `SSL_get_verify_mode`. -/
def Ssl.verifyMode (ssl : Ssl) : Int :=
  match ssl.config with
  | some config => config.verifyMode
  | none => -1

/-- `SSL_VERIFY_PEER` is bit 0. -/
def verifiesPeer (ssl : Ssl) : Bool := 0 ≤ ssl.verifyMode && ssl.verifyMode.toNat.testBit 0

def SslContext.issuer (context : SslContext) : Option UInt64 :=
  context.clientSession.map ClientSessionCallback.issuer

/-- The least of a list, if there is one. -/
def minimum : List Int → Option Int
  | [] => none
  | t :: ts => some (ts.foldl min t)

def earliestNotAfter (certs : List X509) : Option Int := minimum (certs.filterMap X509.notAfter)

/-- `chain` is `SSL_get_peer_full_cert_chain`. -/
def chainNotAfter (ssl : Ssl) (chain : Option (List X509)) : Option Int :=
  if !ssl.sslContext.hasX509Support then none
  else
    match chain with
    | none => none
    | some certs => earliestNotAfter certs

def ClientSession.new (session : SslSession) (peer : SessionPeer) (ssl : Ssl) : ClientSession where
  session := session
  peer := peer
  verifyPeer := verifiesPeer ssl
  notAfter := chainNotAfter ssl session.peerChain
  issuer := ssl.sslContext.issuer

/-- What `raw_client_session` hands to the callback, if it calls it. -/
def rawClientSession (ssl : Ssl) (session : SslSession) : Option ClientSession :=
  match ssl.sessionPeer with
  | none => none
  | some peer =>
      match ssl.sessionCtx.bind SslContext.clientSession with
      | none => none
      | some _ => some (ClientSession.new session peer ssl)

/-! ### What it is compared with -/

def toAsciiLowercase (b : UInt8) : UInt8 := if 65 ≤ b ∧ b ≤ 90 then b + 32 else b

def eqIgnoreAsciiCase (a b : Bytes) : Bool := a.map toAsciiLowercase = b.map toAsciiLowercase

def Ssl.sessionIdContext (ssl : Ssl) : Option Bytes := ssl.config.map SslConfig.sessionIdContext

/-- `now` is `SystemTime::now()`, where it is a number of seconds after the epoch. -/
def ClientSession.chainExpired (self : ClientSession) (now : Option Int) : Bool :=
  match self.notAfter, now with
  | some notAfter, some now => notAfter ≤ now
  | _, _ => false

def ClientSession.resumes (self : ClientSession) (ssl : Ssl) (domain : Bytes)
    (sni verifyHostname : Bool) (now : Option Int) : Bool :=
  let scope := self.session.idContext
  let verifyPeer := verifiesPeer ssl
  decide (ssl.sessionIdContext = some scope)
    && (!scope.isEmpty || self.issuer.isSome && decide (self.issuer = ssl.sslContext.issuer))
    && eqIgnoreAsciiCase self.peer.domain domain
    && self.peer.sni == sni
    && (self.peer.verifyHostname || !verifyHostname)
    && (self.verifyPeer || !verifyPeer)
    && !(verifyPeer && self.chainExpired now)

/-! ### Configuring a connection -/

/-- `SslConnector::configure`. -/
def configure (ssl : Ssl) : ConnectConfiguration := ⟨ssl, true, true, none⟩

def ConnectConfiguration.setClientSession (self : ConnectConfiguration) (session : ClientSession) :
    ConnectConfiguration := { self with session := some session }

/-- `CString::new` refuses a NUL byte. -/
def Ssl.setHostname (lib : Library) (ssl : Ssl) (hostname : Bytes) : Option Ssl :=
  if hostname.contains 0 then none
  else if lib.setTlsextHostName hostname then some { ssl with hostname := some hostname }
  else none

/-- `X509_CHECK_FLAG_NO_PARTIAL_WILDCARDS`. -/
def noPartialWildcards : Nat := 4

def setupVerifyHostname (lib : Library) (ssl : Ssl) (domain : Bytes) : Option Ssl :=
  let param := { ssl.param with hostflags := noPartialWildcards }
  match lib.parseIpAddr domain with
  | some ip => if lib.setIp ip then some { ssl with param := { param with ip := some ip } } else none
  | none =>
      if lib.setHost domain then some { ssl with param := { param with host := some domain } } else none

def Ssl.setSession (lib : Library) (ssl : Ssl) (session : SslSession) : Option Ssl :=
  if lib.setSession session then some { ssl with session := some session } else none

/-- `reports_sessions`. -/
def reportsSessions (ssl : Ssl) : Bool := (ssl.sessionCtx.bind SslContext.clientSession).isSome

/-- Whether the name is sent. -/
def ConnectConfiguration.usesSni (self : ConnectConfiguration) (lib : Library) (domain : Bytes) :
    Bool := self.sni && (lib.parseIpAddr domain).isNone

/-- `into_ssl` up to the session: the name, the verification, and the recorded peer. -/
def ConnectConfiguration.prepare (self : ConnectConfiguration) (lib : Library) (domain : Bytes) :
    Option Ssl := do
  let sni := self.usesSni lib domain
  let ssl ← bif sni then self.ssl.setHostname lib domain else some self.ssl
  let ssl ← bif self.verifyHostname then setupVerifyHostname lib ssl domain else some ssl
  return if reportsSessions ssl then { ssl with sessionPeer := some ⟨domain, sni, self.verifyHostname⟩ }
    else ssl

/-- The session `into_ssl` keeps. -/
def ConnectConfiguration.keeps (self : ConnectConfiguration) (lib : Library) (ssl : Ssl)
    (domain : Bytes) (now : Option Int) : Option ClientSession :=
  self.session.filter fun session =>
    session.resumes ssl domain (self.usesSni lib domain) self.verifyHostname now

def ConnectConfiguration.intoSsl (self : ConnectConfiguration) (lib : Library) (domain : Bytes)
    (now : Option Int) : Option Ssl := do
  let ssl ← self.prepare lib domain
  match self.keeps lib ssl domain now with
  | some session => ssl.setSession lib session.session
  | none => some ssl

end Btls.Session
