import Btls.Support.Runs
import Mathlib.Logic.Function.Basic

/-!
# Bridge — Callbacks

The asynchronous callbacks: a future that application code makes is kept in the ex data of the `Ssl`
while it is pending, and the C callback asks BoringSSL to call again.  Every call that crosses from
BoringSSL to the bridge or from the bridge to application code is logged.  What application code is
handed besides the `Ssl` (a `ClientHello`, the input and output of a private key) the bridge only
passes on; it is not shown.  `none` is a panic, which ends the process.
-/

namespace Btls.Bridge

abbrev SslSession : Type := Nat
abbrev SslAlert : Type := Int
abbrev AsyncSelectCertError : Type := Unit
abbrev AsyncPrivateKeyMethodError : Type := Unit
abbrev GetSessionPendingError : Type := Unit

/-- `alert.0 as u8`. -/
def SslAlert.asU8 (alert : SslAlert) : Int := alert % 256

inductive SelectCertAction where
  | success
  | disableEch
  deriving DecidableEq

inductive SelectCertError where
  | error
  | retry

inductive PrivateKeyMethodError where
  | failure
  | retry

inductive SslVerifyError where
  | invalid (alert : SslAlert)
  | retry

inductive Poll (α : Type) where
  | ready (a : α)
  | pending

/-! ### Ex data -/

/-- The indices at which futures are kept. -/
inductive Index where
  | selectCert
  | selectCertAction
  | privateKeyMethod
  | getSession
  | customVerify
  deriving DecidableEq

/-- What fails when a future of the index, or making one, fails. -/
def Index.Error : Index → Type
  | .selectCert | .selectCertAction => AsyncSelectCertError
  | .privateKeyMethod => AsyncPrivateKeyMethodError
  | .getSession => Unit
  | .customVerify => SslAlert

/-- What the closure gives that a future of the index ends in. -/
def Index.Finished : Index → Type
  | .selectCert => Except AsyncSelectCertError Unit
  | .selectCertAction => Except AsyncSelectCertError SelectCertAction
  | .privateKeyMethod => Except AsyncPrivateKeyMethodError Nat
  | .getSession => Option SslSession
  | .customVerify => Except SslAlert Unit

/-- The callbacks that BoringSSL calls; `maxOut` is the room for a private key's output. -/
inductive Callback where
  | selectCert (echAccepted : Bool)
  | selectCertAction (echAccepted : Bool)
  | getSession
  | sign (maxOut : Nat)
  | decrypt (maxOut : Nat)
  | complete (maxOut : Nat)
  | customVerify
  deriving DecidableEq

def Callback.index : Callback → Index
  | .selectCert _ => .selectCert
  | .selectCertAction _ => .selectCertAction
  | .getSession => .getSession
  | .sign _ | .decrypt _ | .complete _ => .privateKeyMethod
  | .customVerify => .customVerify

/-- What a callback gives BoringSSL. -/
inductive Ret where
  | selectCertSuccess
  | selectCertDisableEch
  | selectCertError
  | selectCertRetry
  | session (session : Option SslSession)
  | pendingSession
  | privateKeySuccess (outLen : Nat)
  | privateKeyFailure
  | privateKeyRetry
  | verifyOk
  | verifyInvalid (outAlert : Int)
  | verifyRetry
  deriving DecidableEq

/-- Whether BoringSSL is asked to call again. -/
def Ret.isRetry : Ret → Bool
  | .selectCertRetry | .pendingSession | .privateKeyRetry | .verifyRetry => true
  | _ => false

/-- Application code that is handed the `Ssl`: it can set the task waker. -/
abbrev Code (W α : Type) : Type := Option W → Option (α × Option W)

/-- A call from BoringSSL: what it hands over, and what application code does in the meantime. -/
inductive Entry (W : Type) where
  | selectCert (echAccepted : Bool) (callback : Code W (Except AsyncSelectCertError Unit))
      (poll : W → Nat →
        Option (Poll (Except AsyncSelectCertError (Code W (Except AsyncSelectCertError Unit)))))
  | selectCertAction (echAccepted : Bool) (callback : Code W (Except AsyncSelectCertError Unit))
      (poll : W → Nat →
        Option (Poll (Except AsyncSelectCertError (Code W (Except AsyncSelectCertError SelectCertAction)))))
  | getSession (callback : Code W (Option Unit))
      (poll : W → Nat → Option (Poll (Option (Code W (Option SslSession)))))
  | sign (maxOut : Nat) (method : Code W (Except AsyncPrivateKeyMethodError Unit))
      (poll : W → Nat →
        Option (Poll (Except AsyncPrivateKeyMethodError (Code W (Except AsyncPrivateKeyMethodError Nat)))))
  | decrypt (maxOut : Nat) (method : Code W (Except AsyncPrivateKeyMethodError Unit))
      (poll : W → Nat →
        Option (Poll (Except AsyncPrivateKeyMethodError (Code W (Except AsyncPrivateKeyMethodError Nat)))))
  | complete (maxOut : Nat)
      (poll : W → Nat →
        Option (Poll (Except AsyncPrivateKeyMethodError (Code W (Except AsyncPrivateKeyMethodError Nat)))))
  | customVerify (callback : Code W (Except SslAlert Unit))
      (poll : W → Nat → Option (Poll (Except SslAlert (Code W (Except SslAlert Unit)))))

def Entry.callback {W : Type} : Entry W → Callback
  | .selectCert echAccepted _ _ => .selectCert echAccepted
  | .selectCertAction echAccepted _ _ => .selectCertAction echAccepted
  | .getSession _ _ => .getSession
  | .sign maxOut _ _ => .sign maxOut
  | .decrypt maxOut _ _ => .decrypt maxOut
  | .complete maxOut _ => .complete maxOut
  | .customVerify _ _ => .customVerify

/-- A call, or the end of one: an entry comes with the task waker that is set then.  A future is known by
its index and by how many of that index came before it. -/
inductive Event (W : Type) where
  | entered (entry : Entry W) (waker : Option W)
  | created (index : Index) (made : Except index.Error Nat)
  | polled (index : Index) (fut : Nat) (result : Poll (Except index.Error Unit))
  | finished (index : Index) (answer : index.Finished)
  | returned (cb : Callback) (ret : Ret)

def Event.index {W : Type} : Event W → Index
  | .entered entry _ => entry.callback.index
  | .created index _ => index
  | .polled index _ _ => index
  | .finished index _ => index
  | .returned cb _ => cb.index

/-- What the bridge uses of an `Ssl`: the task waker, and what is at each index, `none` for a null
pointer.  `made` counts the futures. -/
structure Ssl (W : Type) where
  taskWaker : Option W
  exData : Index → Option (Option Nat)
  made : Index → Nat
  log : List (Event W)

namespace Ssl

variable {W : Type} (ssl : Ssl W)

/-- `Ssl::new`. -/
def new : Ssl W := ⟨none, fun _ => none, fun _ => 0, []⟩

def logged (e : Event W) : Ssl W := { ssl with log := ssl.log ++ [e] }

/-- Overwrites the data at an index, as `SslRef::replace_ex_data` does. -/
def replaceExData (index : Index) (data : Option Nat) : Ssl W :=
  { ssl with exData := Function.update ssl.exData index (some data) }

/-- Calls application code. -/
def call {α : Type} (code : Code W α) : Option (α × Ssl W) :=
  (code ssl.taskWaker).map fun (a, waker) => (a, { ssl with taskWaker := waker })

/-- Calls `create_fut`; a future that it makes gets the next name. -/
def create (index : Index) (createFut : Code W (Except index.Error Unit)) :
    Option (Except index.Error Nat × Ssl W) :=
  (ssl.call createFut).map fun (made, ssl) =>
    match made with
    | .error e => (.error e, ssl.logged (.created index (.error e)))
    | .ok () =>
        let fut := ssl.made index
        (.ok fut, { ssl.logged (.created index (.ok fut)) with
          made := Function.update ssl.made index (fut + 1) })

/-- Polls a future; what it ends in goes through `into_result`. -/
def pollFuture {R T : Type} (index : Index) (waker : W) (poll : W → Nat → Option (Poll R))
    (intoResult : R → Except index.Error T) (fut : Nat) :
    Option (Poll (Except index.Error T) × Ssl W) :=
  (poll waker fut).map fun
    | .pending => (.pending, ssl.logged (.polled index fut .pending))
    | .ready r =>
        let result := intoResult r
        (.ready result, ssl.logged (.polled index fut (.ready (result.map fun _ => ()))))

/-- `with_ex_data_future`.  The waker has to be set. -/
def withExDataFuture {R T : Type} (index : Index) (createFut : Code W (Except index.Error Unit))
    (poll : W → Nat → Option (Poll R)) (intoResult : R → Except index.Error T) :
    Option (Poll (Except index.Error T) × Ssl W) := do
  let waker ← ssl.taskWaker
  match (ssl.exData index).join with
  | some fut =>
      match ← ssl.pollFuture index waker poll intoResult fut with
      | (.pending, ssl) => return (.pending, ssl)
      | (.ready futResult, ssl) => return (.ready futResult, ssl.replaceExData index none)
  | none =>
      match ← ssl.create index createFut with
      | (.error e, ssl) => return (.ready (.error e), ssl)
      | (.ok fut, ssl) =>
          match ← ssl.pollFuture index waker poll intoResult fut with
          | (.ready futResult, ssl) => return (.ready futResult, ssl)
          | (.pending, ssl) => return (.pending, ssl.replaceExData index (some fut))

/-- What the callbacks have in common: the future is driven, the closure that it ends in is called, and
`deliver` says what follows for the caller. -/
def drive {R ρ : Type} (index : Index) (createFut : Code W (Except index.Error Unit))
    (poll : W → Nat → Option (Poll R)) (intoResult : R → Except index.Error (Code W index.Finished))
    (deliver : Poll (Except index.Error index.Finished) → ρ) : Option (ρ × Ssl W) := do
  match ← ssl.withExDataFuture index createFut poll intoResult with
  | (.pending, ssl) => return (deliver .pending, ssl)
  | (.ready (.error e), ssl) => return (deliver (.ready (.error e)), ssl)
  | (.ready (.ok finish), ssl) =>
      let (answer, ssl) ← ssl.call finish
      return (deliver (.ready (.ok answer)), ssl.logged (.finished index answer))

/-! ### The callbacks -/

/-- How `async_select_certificate_callback` ends. -/
def selectCertResult {T : Type} (intoAction : T → SelectCertAction) :
    Poll (Except AsyncSelectCertError (Except AsyncSelectCertError T)) →
      Except SelectCertError SelectCertAction
  | .pending => .error .retry
  | .ready (.error _) => .error .error
  | .ready (.ok (.error _)) => .error .error
  | .ready (.ok (.ok t)) => .ok (intoAction t)

/-- `set_async_select_certificate_callback`. -/
def asyncSelectCertificate (callback : Code W (Except AsyncSelectCertError Unit))
    (poll : W → Nat → Option (Poll (Except AsyncSelectCertError (Code W (Except AsyncSelectCertError Unit))))) :
    Option (Except SelectCertError SelectCertAction × Ssl W) :=
  ssl.drive .selectCert callback poll id (selectCertResult fun () => .success)

/-- `set_async_select_certificate_callback_with_action`. -/
def asyncSelectCertificateWithAction (callback : Code W (Except AsyncSelectCertError Unit))
    (poll : W → Nat →
      Option (Poll (Except AsyncSelectCertError (Code W (Except AsyncSelectCertError SelectCertAction))))) :
    Option (Except SelectCertError SelectCertAction × Ssl W) :=
  ssl.drive .selectCertAction callback poll id (selectCertResult id)

/-- `set_async_get_session_callback`. -/
def asyncGetSession (callback : Code W (Option Unit))
    (poll : W → Nat → Option (Poll (Option (Code W (Option SslSession))))) :
    Option (Except GetSessionPendingError (Option SslSession) × Ssl W) :=
  ssl.drive .getSession (fun waker => (callback waker).map fun (made, waker) => (okOr made, waker)) poll okOr
    fun
      | .ready (.error ()) => .ok none
      | .ready (.ok session) => .ok session
      | .pending => .error ()
where
  okOr {α : Type} : Option α → Except Unit α
    | some a => .ok a
    | none => .error ()

/-- `with_private_key_method`. -/
def withPrivateKeyMethod (createFut : Code W (Except AsyncPrivateKeyMethodError Unit))
    (poll : W → Nat →
      Option (Poll (Except AsyncPrivateKeyMethodError (Code W (Except AsyncPrivateKeyMethodError Nat))))) :
    Option (Except PrivateKeyMethodError Nat × Ssl W) :=
  ssl.drive .privateKeyMethod createFut poll id fun
    | .pending => .error .retry
    | .ready (.error _) => .error .failure
    | .ready (.ok (.error _)) => .error .failure
    | .ready (.ok (.ok written)) => .ok written

/-- The `create_fut` of `complete`: a panic where assertions are on. -/
def completeWithoutPending (debugAssertions : Bool) : Code W (Except AsyncPrivateKeyMethodError Unit) :=
  fun waker => if debugAssertions then none else some (.error (), waker)

/-- `async_custom_verify_callback`. -/
def asyncCustomVerify (callback : Code W (Except SslAlert Unit))
    (poll : W → Nat → Option (Poll (Except SslAlert (Code W (Except SslAlert Unit))))) :
    Option (Except SslVerifyError Unit × Ssl W) :=
  ssl.drive .customVerify callback poll id fun
    | .ready (.error alert) => .error (.invalid alert)
    | .ready (.ok (.error alert)) => .error (.invalid alert)
    | .ready (.ok (.ok ())) => .ok ()
    | .pending => .error .retry

end Ssl

/-! ### What BoringSSL is given -/

/-- `raw_select_cert`. -/
def rawSelectCert (echAccepted : Bool) : Except SelectCertError SelectCertAction → Ret
  | .ok .success => .selectCertSuccess
  | .ok .disableEch => if echAccepted then .selectCertDisableEch else .selectCertError
  | .error .error => .selectCertError
  | .error .retry => .selectCertRetry

/-- `raw_get_session`. -/
def rawGetSession : Except GetSessionPendingError (Option SslSession) → Ret
  | .ok session => .session session
  | .error () => .pendingSession

/-- `raw_private_key_callback`. -/
def rawPrivateKey (maxOut : Nat) : Except PrivateKeyMethodError Nat → Option Ret
  | .ok written => if written ≤ maxOut then some (.privateKeySuccess written) else none
  | .error .failure => some .privateKeyFailure
  | .error .retry => some .privateKeyRetry

/-- `raw_custom_verify_callback`. -/
def rawCustomVerify : Except SslVerifyError Unit → Ret
  | .ok () => .verifyOk
  | .error (.invalid alert) => .verifyInvalid (SslAlert.asU8 alert)
  | .error .retry => .verifyRetry

variable {W : Type}

/-- The C callback. -/
def Entry.raw (debugAssertions : Bool) (ssl : Ssl W) : Entry W → Option (Ret × Ssl W)
  | .selectCert echAccepted callback poll => do
      let (result, ssl) ← ssl.asyncSelectCertificate callback poll
      return (rawSelectCert echAccepted result, ssl)
  | .selectCertAction echAccepted callback poll => do
      let (result, ssl) ← ssl.asyncSelectCertificateWithAction callback poll
      return (rawSelectCert echAccepted result, ssl)
  | .getSession callback poll => do
      let (result, ssl) ← ssl.asyncGetSession callback poll
      return (rawGetSession result, ssl)
  | .sign maxOut method poll | .decrypt maxOut method poll => do
      let (result, ssl) ← ssl.withPrivateKeyMethod method poll
      return (← rawPrivateKey maxOut result, ssl)
  | .complete maxOut poll => do
      let (result, ssl) ← ssl.withPrivateKeyMethod (Ssl.completeWithoutPending debugAssertions) poll
      return (← rawPrivateKey maxOut result, ssl)
  | .customVerify callback poll => do
      let (result, ssl) ← ssl.asyncCustomVerify callback poll
      return (rawCustomVerify result, ssl)

/-! ### BoringSSL -/

/-- Whether BoringSSL begins an operation with the callback. -/
def Callback.starts : Callback → Bool
  | .complete _ => false
  | _ => true

/-- Whether BoringSSL calls the callback again when it was asked to. -/
def Callback.resumes : Callback → Bool
  | .sign _ | .decrypt _ => false
  | _ => true

/-- A connection: the operations that asked to be called again are `waiting`. -/
structure Conn (W : Type) where
  ssl : Ssl W
  waiting : Index → Bool

inductive Action (W : Type) where
  | setTaskWaker (waker : Option W)
  | enter (entry : Entry W)

namespace Conn

def new : Conn W := ⟨.new, fun _ => false⟩

/-- BoringSSL calls again what asked for it before it begins another operation of the kind. -/
def mayEnter (conn : Conn W) (cb : Callback) : Bool :=
  if conn.waiting cb.index then cb.resumes else cb.starts

/-- A step of the connection; `none` when BoringSSL does not do it or the process ends. -/
def step (debugAssertions : Bool) (conn : Conn W) : Action W → Option (Conn W)
  | .setTaskWaker waker => some { conn with ssl := { conn.ssl with taskWaker := waker } }
  | .enter entry =>
      let cb := entry.callback
      if conn.mayEnter cb then do
        let (ret, ssl) ← entry.raw debugAssertions (conn.ssl.logged (.entered entry conn.ssl.taskWaker))
        return ⟨ssl.logged (.returned cb ret), Function.update conn.waiting cb.index ret.isRetry⟩
      else none

end Conn

end Btls.Bridge
