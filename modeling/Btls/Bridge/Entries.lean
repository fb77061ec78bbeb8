import Btls.Bridge.Callbacks

/-!
# Bridge — Entries

What one entry of a callback does: the future at its index, or a new one, is polled once, and
BoringSSL is told how the operation came out or that it is to call again (`Served`).

Each call that is logged is tied to the application code of the entry: a future is `created` only as
`Entry.create` makes it, what is `polled` is what `Entry.poll` answers for that future with the task
waker of the entry, and what is `finished` is the answer of the closure in which the future ended.
BoringSSL is told the code of that answer (`Callback.code`).
-/

namespace Btls.Bridge

/-- What BoringSSL is to be told of how an operation came out: a failure of the future or of making it,
or the answer of the closure. -/
def Callback.code : (cb : Callback) → Except cb.index.Error cb.index.Finished → Ret
  | .selectCert _, .ok (.ok ()) => .selectCertSuccess
  | .selectCert _, _ => .selectCertError
  | .selectCertAction _, .ok (.ok .success) => .selectCertSuccess
  | .selectCertAction true, .ok (.ok .disableEch) => .selectCertDisableEch
  | .selectCertAction _, _ => .selectCertError
  | .getSession, .ok session => .session session
  | .getSession, .error _ => .session none
  | .sign _, .ok (.ok written) | .decrypt _, .ok (.ok written) | .complete _, .ok (.ok written) =>
      .privateKeySuccess written
  | .sign _, _ | .decrypt _, _ | .complete _, _ => .privateKeyFailure
  | .customVerify, .ok (.ok ()) => .verifyOk
  | .customVerify, .ok (.error alert) => .verifyInvalid (SslAlert.asU8 alert)
  | .customVerify, .error alert => .verifyInvalid (SslAlert.asU8 alert)

/-- What an operation came to is never that BoringSSL is to call again. -/
theorem code_not_retry (cb : Callback) (x : Except cb.index.Error cb.index.Finished) :
    (cb.code x).isRetry = false := by
  unfold Callback.code
  split <;> rfl

variable {W : Type}

/-! ### What application code answers -/

/-- What application code answers that is asked for a future; `complete` asks none. -/
def Entry.create : (entry : Entry W) → Code W (Except entry.callback.index.Error Unit)
  | .selectCert _ callback _ | .selectCertAction _ callback _ => callback
  | .getSession callback _ =>
      fun waker => (callback waker).map fun (made, waker) => (made.elim (.error ()) .ok, waker)
  | .sign _ method _ | .decrypt _ method _ => method
  | .complete _ _ => fun waker => some (.error (), waker)
  | .customVerify callback _ => callback

def Poll.map {α β : Type} (f : α → β) : Poll α → Poll β
  | .ready a => .ready (f a)
  | .pending => .pending

/-- What a future answers that is polled: it is pending, it failed, or it ended in a closure. -/
def Entry.poll : (entry : Entry W) → W → Nat →
    Option (Poll (Except entry.callback.index.Error (Code W entry.callback.index.Finished)))
  | .selectCert _ _ poll | .selectCertAction _ _ poll => poll
  | .getSession _ poll =>
      fun waker fut => (poll waker fut).map (Poll.map fun ended => ended.elim (.error ()) .ok)
  | .sign _ _ poll | .decrypt _ _ poll | .complete _ poll => poll
  | .customVerify _ poll => poll

/-- From a future that is polled with `waker` to what BoringSSL is told when it is ready.  The closure that
it ends in is called when the task waker is `now`, and leaves `next`. -/
inductive Delivers (entry : Entry W) (waker : W) (fut : Nat) :
    Option W → List (Event W) → Ret → Option W → Prop where
  | failed {now : Option W} {e : entry.callback.index.Error}
      (hpoll : entry.poll waker fut = some (.ready (.error e))) :
      Delivers entry waker fut now [.polled entry.callback.index fut (.ready (.error e))]
        (entry.callback.code (.error e)) now
  | finished {now next : Option W} {finish : Code W entry.callback.index.Finished}
      {answer : entry.callback.index.Finished}
      (hpoll : entry.poll waker fut = some (.ready (.ok finish)))
      (hfinish : finish now = some (answer, next)) :
      Delivers entry waker fut now
        [.polled entry.callback.index fut (.ready (.ok ())), .finished entry.callback.index answer]
        (entry.callback.code (.ok answer)) next

/-- A future that is ready is never reported as one to call again for. -/
theorem Delivers.not_retry {entry : Entry W} {waker : W} {fut : Nat} {now next : Option W}
    {events : List (Event W)} {ret : Ret} (h : Delivers entry waker fut now events ret next) :
    ret.isRetry = false := by
  cases h with
  | failed => exact code_not_retry entry.callback _
  | finished => exact code_not_retry entry.callback _

/-- What an entry may do at its index when the task waker is `waker`: the pending future there and the
number of futures before it, the calls it makes and what it returns, and the task waker, the pending future
and the number after it. -/
inductive Served (entry : Entry W) (waker : W) :
    Option Nat → Nat → List (Event W) → Ret → Option W → Option Nat → Nat → Prop where
  | refused (n : Nat) {e : entry.callback.index.Error} {now : Option W}
      (hcreate : entry.create (some waker) = some (.error e, now)) :
      Served entry waker none n [.created entry.callback.index (.error e)]
        (entry.callback.code (.error e)) now none n
  | begun (n : Nat) {now : Option W} {ret : Ret}
      (hcreate : entry.create (some waker) = some (.ok (), now))
      (hpoll : entry.poll waker n = some .pending) (hret : ret.isRetry) :
      Served entry waker none n
        [.created entry.callback.index (.ok n), .polled entry.callback.index n .pending] ret now
        (some n) (n + 1)
  | atOnce (n : Nat) {now next : Option W} {events : List (Event W)} {ret : Ret}
      (hcreate : entry.create (some waker) = some (.ok (), now))
      (h : Delivers entry waker n now events ret next) :
      Served entry waker none n (.created entry.callback.index (.ok n) :: events) ret next none (n + 1)
  | again (fut n : Nat) {ret : Ret} (hpoll : entry.poll waker fut = some .pending) (hret : ret.isRetry) :
      Served entry waker (some fut) n [.polled entry.callback.index fut .pending] ret (some waker)
        (some fut) n
  | delivered (fut n : Nat) {next : Option W} {events : List (Event W)} {ret : Ret}
      (h : Delivers entry waker fut (some waker) events ret next) :
      Served entry waker (some fut) n events ret next none n

/-- The pending future at an index. -/
def Ssl.held (ssl : Ssl W) (index : Index) : Option Nat := (ssl.exData index).join

/-- The two states differ at one index and by the calls logged. -/
structure Ssl.Extends (ssl ssl' : Ssl W) (index : Index) (events : List (Event W)) : Prop where
  log : ssl'.log = ssl.log ++ events
  held : ∀ other, other ≠ index → ssl'.held other = ssl.held other
  made : ∀ other, other ≠ index → ssl'.made other = ssl.made other

/-! ### The parts of `with_ex_data_future` -/

section Parts

variable {ssl ssl' : Ssl W} {index : Index} {R T : Type}

/-- Application code that is handed the `Ssl` changes the task waker at most. -/
theorem call_eq {α : Type} {code : Code W α} {a : α} (h : ssl.call code = some (a, ssl')) :
    ∃ now, code ssl.taskWaker = some (a, now) ∧ ssl' = { ssl with taskWaker := now } := by
  obtain ⟨⟨b, now⟩, hcode, heq⟩ := Option.map_eq_some_iff.mp h
  cases heq
  exact ⟨now, hcode, rfl⟩

/-- Application code that makes no future leaves at most another task waker. -/
theorem create_error {createFut : Code W (Except index.Error Unit)} {e : index.Error}
    (h : ssl.create index createFut = some (.error e, ssl')) :
    ∃ now, createFut ssl.taskWaker = some (.error e, now)
      ∧ ssl' = { ssl with taskWaker := now, log := ssl.log ++ [.created index (.error e)] } := by
  obtain ⟨⟨made, ssl₁⟩, hcall, heq⟩ := Option.map_eq_some_iff.mp h
  obtain ⟨now, hcode, rfl⟩ := call_eq hcall
  cases made with
  | error e' =>
      cases heq
      exact ⟨now, hcode, rfl⟩
  | ok u => cases heq

/-- The future that it makes is the next one of the index. -/
theorem create_ok {createFut : Code W (Except index.Error Unit)} {fut : Nat}
    (h : ssl.create index createFut = some (.ok fut, ssl')) :
    fut = ssl.made index ∧ ∃ now, createFut ssl.taskWaker = some (.ok (), now) ∧ ssl' = { ssl with
      taskWaker := now
      made := Function.update ssl.made index (fut + 1)
      log := ssl.log ++ [.created index (.ok fut)] } := by
  obtain ⟨⟨made, ssl₁⟩, hcall, heq⟩ := Option.map_eq_some_iff.mp h
  obtain ⟨now, hcode, rfl⟩ := call_eq hcall
  cases made with
  | error e => cases heq
  | ok u =>
      cases heq
      exact ⟨rfl, now, hcode, rfl⟩

/-- A poll is logged as the future answers it, the closure that it may end in apart. -/
theorem poll_eq {waker : W} {poll : W → Nat → Option (Poll R)} {intoResult : R → Except index.Error T}
    {fut : Nat} {result : Poll (Except index.Error T)}
    (h : ssl.pollFuture index waker poll intoResult fut = some (result, ssl')) :
    (poll waker fut).map (Poll.map intoResult) = some result
      ∧ ssl' = ssl.logged (.polled index fut (result.map fun r => r.map fun _ => ())) := by
  obtain ⟨polled, hpolled, heq⟩ := Option.map_eq_some_iff.mp h
  rw [hpolled]
  cases polled with
  | pending =>
      cases heq
      exact ⟨rfl, rfl⟩
  | ready r =>
      cases heq
      exact ⟨rfl, rfl⟩

/-- What `with_ex_data_future` may do, as `Served` has it for a whole entry. -/
inductive Driven (index : Index) {T : Type} (create : Code W (Except index.Error Unit))
    (answers : W → Nat → Option (Poll (Except index.Error T))) (waker : W) :
    Option Nat → Nat → List (Event W) → Poll (Except index.Error T) → Option W → Option Nat → Nat
      → Prop where
  | refused (n : Nat) {e : index.Error} {now : Option W}
      (hcreate : create (some waker) = some (.error e, now)) :
      Driven index create answers waker none n [.created index (.error e)] (.ready (.error e)) now none n
  | begun (n : Nat) {now : Option W} (hcreate : create (some waker) = some (.ok (), now))
      (hpoll : answers waker n = some .pending) :
      Driven index create answers waker none n [.created index (.ok n), .polled index n .pending] .pending
        now (some n) (n + 1)
  | atOnce (n : Nat) {now : Option W} {r : Except index.Error T}
      (hcreate : create (some waker) = some (.ok (), now)) (hpoll : answers waker n = some (.ready r)) :
      Driven index create answers waker none n
        [.created index (.ok n), .polled index n (.ready (r.map fun _ => ()))] (.ready r) now none (n + 1)
  | again (fut n : Nat) (hpoll : answers waker fut = some .pending) :
      Driven index create answers waker (some fut) n [.polled index fut .pending] .pending (some waker)
        (some fut) n
  | ready (fut n : Nat) {r : Except index.Error T} (hpoll : answers waker fut = some (.ready r)) :
      Driven index create answers waker (some fut) n [.polled index fut (.ready (r.map fun _ => ()))]
        (.ready r) (some waker) none n

@[simp] theorem taskWaker_logged (ssl : Ssl W) (e : Event W) :
    (ssl.logged e).taskWaker = ssl.taskWaker := rfl

@[simp] theorem held_logged (ssl : Ssl W) (e : Event W) :
    (ssl.logged e).held index = ssl.held index := rfl

@[simp] theorem taskWaker_replaceExData (ssl : Ssl W) (index : Index) (data : Option Nat) :
    (ssl.replaceExData index data).taskWaker = ssl.taskWaker := rfl

/-- What is stored is held, -/
theorem held_replaceExData (ssl : Ssl W) (index : Index) (data : Option Nat) :
    (ssl.replaceExData index data).held index = data := by
  simp [Ssl.held, Ssl.replaceExData]

/-- and nothing else is touched. -/
theorem held_replaceExData_of_ne (ssl : Ssl W) {index other : Index} (h : other ≠ index)
    (data : Option Nat) : (ssl.replaceExData index data).held other = ssl.held other := by
  simp [Ssl.held, Ssl.replaceExData, h]

/-- What `with_ex_data_future` does to the `Ssl`. -/
def Drives (index : Index) (create : Code W (Except index.Error Unit))
    (answers : W → Nat → Option (Poll (Except index.Error T))) (ssl ssl' : Ssl W)
    (result : Poll (Except index.Error T)) : Prop :=
  ∃ waker events, ssl.taskWaker = some waker ∧ ssl.Extends ssl' index events
    ∧ Driven index create answers waker (ssl.held index) (ssl.made index) events result ssl'.taskWaker
      (ssl'.held index) (ssl'.made index)

variable {createFut : Code W (Except index.Error Unit)} {poll : W → Nat → Option (Poll R)}
  {intoResult : R → Except index.Error T} {result : Poll (Except index.Error T)}

/-- A future that is held is polled and, once it is ready, removed. -/
theorem withExDataFuture_held {fut : Nat} (hheld : ssl.held index = some fut)
    (h : ssl.withExDataFuture index createFut poll intoResult = some (result, ssl')) :
    Drives index createFut (fun waker fut => (poll waker fut).map (Poll.map intoResult)) ssl ssl' result := by
  obtain ⟨waker, hwaker, h⟩ := Option.bind_eq_some_iff.mp h
  have hdata : (ssl.exData index).join = some fut := hheld
  rw [hdata] at h
  obtain ⟨⟨polled, ssl₁⟩, hpoll, h⟩ := Option.bind_eq_some_iff.mp h
  obtain ⟨hanswer, rfl⟩ := poll_eq hpoll
  unfold Drives
  rw [hheld]
  cases polled with
  | pending =>
      cases h
      refine ⟨waker, _, hwaker, ⟨rfl, fun _ _ => rfl, fun _ _ => rfl⟩, ?_⟩
      rw [taskWaker_logged, held_logged, hwaker, hheld]
      exact .again fut _ hanswer
  | ready r =>
      cases h
      refine ⟨waker, _, hwaker, ⟨rfl, fun _ hne => held_replaceExData_of_ne _ hne _, fun _ _ => rfl⟩, ?_⟩
      rw [held_replaceExData, taskWaker_replaceExData, taskWaker_logged, hwaker]
      exact .ready fut _ hanswer

/-- Where none is held, one is made, polled, and stored if it is pending. -/
theorem withExDataFuture_none (hheld : ssl.held index = none)
    (h : ssl.withExDataFuture index createFut poll intoResult = some (result, ssl')) :
    Drives index createFut (fun waker fut => (poll waker fut).map (Poll.map intoResult)) ssl ssl' result := by
  obtain ⟨waker, hwaker, h⟩ := Option.bind_eq_some_iff.mp h
  have hdata : (ssl.exData index).join = none := hheld
  rw [hdata] at h
  obtain ⟨⟨made, ssl₁⟩, hcreate, h⟩ := Option.bind_eq_some_iff.mp h
  unfold Drives
  rw [hheld]
  cases made with
  | error e =>
      obtain ⟨now, hcode, rfl⟩ := create_error hcreate
      cases h
      refine ⟨waker, _, hwaker, ⟨rfl, fun _ _ => rfl, fun _ _ => rfl⟩, ?_⟩
      have hkept : ∀ log, Ssl.held ⟨now, ssl.exData, ssl.made, log⟩ index = none := fun _ => hheld
      rw [hkept]
      exact .refused _ (hwaker ▸ hcode)
  | ok fut =>
      obtain ⟨rfl, now, hcode, rfl⟩ := create_ok hcreate
      obtain ⟨⟨polled, ssl₁⟩, hpoll, h⟩ := Option.bind_eq_some_iff.mp h
      obtain ⟨hanswer, rfl⟩ := poll_eq hpoll
      rw [hwaker] at hcode
      have hmade := Function.update_self index (ssl.made index + 1) ssl.made
      cases polled with
      | pending =>
          cases h
          refine ⟨waker, _, hwaker, ⟨List.append_assoc _ _ _,
            fun _ hne => held_replaceExData_of_ne _ hne _,
            fun _ hne => Function.update_of_ne hne _ _⟩, ?_⟩
          rw [held_replaceExData]
          change Driven _ _ _ _ _ _ _ _ now _ (Function.update ssl.made index (ssl.made index + 1) index)
          rw [hmade]
          exact .begun _ hcode hanswer
      | ready r =>
          cases h
          have hkept : ∀ made log, Ssl.held ⟨now, ssl.exData, made, log⟩ index = none := fun _ _ => hheld
          refine ⟨waker, _, hwaker, ⟨List.append_assoc _ _ _, fun _ _ => rfl,
            fun _ hne => Function.update_of_ne hne _ _⟩, ?_⟩
          change Driven _ _ _ _ _ _ _ _ now _ (Function.update ssl.made index (ssl.made index + 1) index)
          rw [hmade, Ssl.logged, hkept]
          exact .atOnce _ hcode hanswer

/-- **`with_ex_data_future`.**  It polls the future at the index, or a new one when there is none, once. -/
theorem withExDataFuture_drives
    (h : ssl.withExDataFuture index createFut poll intoResult = some (result, ssl')) :
    Drives index createFut (fun waker fut => (poll waker fut).map (Poll.map intoResult)) ssl ssl' result := by
  cases hheld : ssl.held index with
  | some fut => exact withExDataFuture_held hheld h
  | none => exact withExDataFuture_none hheld h

end Parts

/-! ### One entry -/

section Entries

variable {ssl ssl' : Ssl W} {R ρ : Type}

/-- What one entry does to the `Ssl`. -/
def Serves (entry : Entry W) (ssl ssl' : Ssl W) (ret : Ret) : Prop :=
  ∃ waker events, ssl.taskWaker = some waker ∧ ssl.Extends ssl' entry.callback.index events
    ∧ Served entry waker (ssl.held entry.callback.index) (ssl.made entry.callback.index) events ret
      ssl'.taskWaker (ssl'.held entry.callback.index) (ssl'.made entry.callback.index)

/-- **Drive.**  `createFut`, `poll` and `intoResult` are to answer as the application code of the entry does;
`toRet` is what follows for BoringSSL, `none` where an assertion fails. -/
theorem drive_serves (entry : Entry W) {createFut : Code W (Except entry.callback.index.Error Unit)}
    {poll : W → Nat → Option (Poll R)}
    {intoResult : R → Except entry.callback.index.Error (Code W entry.callback.index.Finished)}
    {deliver : Poll (Except entry.callback.index.Error entry.callback.index.Finished) → ρ} {r : ρ} {ret : Ret}
    (toRet : ρ → Option Ret)
    (hcreate : ∀ waker made, createFut waker = some made → entry.create waker = some made)
    (hpoll : ∀ waker fut, (poll waker fut).map (Poll.map intoResult) = entry.poll waker fut)
    (hready : ∀ x ret, toRet (deliver (.ready x)) = some ret → ret = entry.callback.code x)
    (hpending : ∀ ret, toRet (deliver .pending) = some ret → ret.isRetry = true)
    (h : ssl.drive entry.callback.index createFut poll intoResult deliver = some (r, ssl'))
    (hret : toRet r = some ret) : Serves entry ssl ssl' ret := by
  obtain ⟨⟨result, ssl₁⟩, hfuture, h⟩ := Option.bind_eq_some_iff.mp h
  obtain ⟨waker, events, hwaker, hextends, hdriven⟩ := withExDataFuture_drives hfuture
  simp only [hpoll] at hdriven
  -- What is delivered decides which ways the future can have gone.
  cases result with
  | pending =>
      cases h
      have hretry := hpending _ hret
      refine ⟨waker, events, hwaker, hextends, ?_⟩
      generalize ssl.held entry.callback.index = held, ssl.made entry.callback.index = n,
        ssl'.taskWaker = now, ssl'.held entry.callback.index = held',
        ssl'.made entry.callback.index = n' at hdriven
      cases hdriven with
      | begun _ hcode hanswer => exact .begun _ (hcreate _ _ hcode) hanswer hretry
      | again _ _ hanswer => exact .again _ _ hanswer hretry
  | ready x =>
      cases x with
      | error e =>
          cases h
          cases hready _ _ hret
          refine ⟨waker, events, hwaker, hextends, ?_⟩
          generalize ssl.held entry.callback.index = held, ssl.made entry.callback.index = n,
            ssl'.taskWaker = now, ssl'.held entry.callback.index = held',
            ssl'.made entry.callback.index = n' at hdriven
          cases hdriven with
          | refused _ hcode => exact .refused _ (hcreate _ _ hcode)
          | atOnce _ hcode hanswer => exact .atOnce _ (hcreate _ _ hcode) (.failed hanswer)
          | ready _ _ hanswer => exact .delivered _ _ (.failed hanswer)
      | ok finish =>
          obtain ⟨⟨answer, ssl₂⟩, hcall, h⟩ := Option.bind_eq_some_iff.mp h
          obtain ⟨next, hfinish, rfl⟩ := call_eq hcall
          cases h
          cases hready _ _ hret
          refine ⟨waker, events ++ [.finished entry.callback.index answer], hwaker,
            ⟨by rw [← List.append_assoc, ← hextends.log]; rfl, hextends.held, hextends.made⟩, ?_⟩
          change Served entry waker _ _ _ _ next (ssl₁.held entry.callback.index)
            (ssl₁.made entry.callback.index)
          generalize ssl.held entry.callback.index = held, ssl.made entry.callback.index = n,
            ssl₁.taskWaker = now, ssl₁.held entry.callback.index = held',
            ssl₁.made entry.callback.index = n' at hdriven hfinish
          cases hdriven with
          | atOnce _ hcode hanswer => exact .atOnce _ (hcreate _ _ hcode) (.finished hanswer hfinish)
          | ready _ _ hanswer => exact .delivered _ _ (.finished hanswer hfinish)

/-- A length is passed on only where it is in bounds. -/
theorem rawPrivateKey_ok {maxOut written : Nat} {ret : Ret}
    (h : rawPrivateKey maxOut (.ok written) = some ret) : ret = .privateKeySuccess written := by
  obtain ⟨-, heq⟩ := Option.ite_none_right_eq_some.mp h
  exact (Option.some.inj heq).symm

/-- A poll that is not converted. -/
theorem map_id {α : Type} (polled : Option (Poll α)) : polled.map (Poll.map id) = polled := by
  rcases polled with _ | (_ | _) <;> rfl

/-- No session is an error to the driver. -/
theorem okOr_eq {α : Type} :
    (Ssl.asyncGetSession.okOr : Option α → Except Unit α) = fun a => a.elim (.error ()) .ok := by
  funext a
  cases a <;> rfl

/-- `complete` makes no future, with assertions or without. -/
theorem completeWithoutPending_eq {debugAssertions : Bool} {waker : Option W}
    {made : Except AsyncPrivateKeyMethodError Unit × Option W}
    (h : Ssl.completeWithoutPending debugAssertions waker = some made) : some (.error (), waker) = some made := by
  obtain ⟨-, heq⟩ := Option.ite_none_left_eq_some.mp h
  exact heq

/-- The three callbacks of a private key; `complete` comes with a closure of the bridge's own. -/
theorem privateKey_serves {entry : Entry W} {maxOut : Nat} {ret : Ret}
    {createFut : Code W (Except AsyncPrivateKeyMethodError Unit)}
    {poll : W → Nat →
      Option (Poll (Except AsyncPrivateKeyMethodError (Code W (Except AsyncPrivateKeyMethodError Nat))))}
    (hentry : entry = .sign maxOut createFut poll ∨ entry = .decrypt maxOut createFut poll
      ∨ entry = .complete maxOut poll ∧ ∃ debugAssertions, createFut = Ssl.completeWithoutPending debugAssertions)
    (h : (do
      let (result, ssl) ← ssl.withPrivateKeyMethod createFut poll
      return (← rawPrivateKey maxOut result, ssl)) = some (ret, ssl')) : Serves entry ssl ssl' ret := by
  obtain ⟨⟨result, ssl₁⟩, hdrive, h⟩ := Option.bind_eq_some_iff.mp h
  obtain ⟨ret', hret, h⟩ := Option.bind_eq_some_iff.mp h
  cases h
  rcases hentry with rfl | rfl | ⟨rfl, debugAssertions, rfl⟩
  · refine drive_serves (.sign maxOut createFut poll) (rawPrivateKey maxOut) (fun _ _ h => h)
      (fun _ _ => map_id _) ?_ ?_ hdrive hret
    · rintro (_ | _ | written) ret hret
      · exact (Option.some.inj hret).symm
      · exact (Option.some.inj hret).symm
      · exact rawPrivateKey_ok hret
    · rintro ret ⟨⟩
      rfl
  · refine drive_serves (.decrypt maxOut createFut poll) (rawPrivateKey maxOut) (fun _ _ h => h)
      (fun _ _ => map_id _) ?_ ?_ hdrive hret
    · rintro (_ | _ | written) ret hret
      · exact (Option.some.inj hret).symm
      · exact (Option.some.inj hret).symm
      · exact rawPrivateKey_ok hret
    · rintro ret ⟨⟩
      rfl
  · refine drive_serves (.complete maxOut poll) (rawPrivateKey maxOut)
      (fun _ _ => completeWithoutPending_eq) (fun _ _ => map_id _) ?_ ?_ hdrive hret
    · rintro (_ | _ | written) ret hret
      · exact (Option.some.inj hret).symm
      · exact (Option.some.inj hret).symm
      · exact rawPrivateKey_ok hret
    · rintro ret ⟨⟩
      rfl

/-- Each C callback tells BoringSSL how the operation came out, and else that it is to call again. -/
theorem raw_serves {debugAssertions : Bool} {entry : Entry W} {ret : Ret}
    (h : entry.raw debugAssertions ssl = some (ret, ssl')) : Serves entry ssl ssl' ret := by
  cases entry with
  | selectCert echAccepted callback poll =>
      obtain ⟨⟨result, ssl₁⟩, hdrive, h⟩ := Option.bind_eq_some_iff.mp h
      cases h
      refine drive_serves (.selectCert echAccepted callback poll)
        (fun result => some (rawSelectCert echAccepted result)) (fun _ _ h => h) (fun _ _ => map_id _) ?_ ?_
        hdrive rfl
      · rintro (_ | _ | _) ret ⟨⟩ <;> rfl
      · rintro ret ⟨⟩
        rfl
  | selectCertAction echAccepted callback poll =>
      obtain ⟨⟨result, ssl₁⟩, hdrive, h⟩ := Option.bind_eq_some_iff.mp h
      cases h
      refine drive_serves (.selectCertAction echAccepted callback poll)
        (fun result => some (rawSelectCert echAccepted result)) (fun _ _ h => h) (fun _ _ => map_id _) ?_ ?_
        hdrive rfl
      · rintro (_ | _ | _ | _) ret ⟨⟩ <;> cases echAccepted <;> rfl
      · rintro ret ⟨⟩
        rfl
  | getSession callback poll =>
      obtain ⟨⟨result, ssl₁⟩, hdrive, h⟩ := Option.bind_eq_some_iff.mp h
      cases h
      -- `None` is the failure of making a session's future, and of the future.
      refine drive_serves (.getSession callback poll) (fun result => some (rawGetSession result)) ?_ ?_ ?_ ?_
        hdrive rfl
      · intro waker made hmade
        rw [okOr_eq] at hmade
        exact hmade
      · intro waker fut
        rw [okOr_eq]
        rfl
      · rintro (_ | _) ret ⟨⟩ <;> rfl
      · rintro ret ⟨⟩
        rfl
  | sign maxOut method poll => exact privateKey_serves (.inl rfl) h
  | decrypt maxOut method poll => exact privateKey_serves (.inr (.inl rfl)) h
  | complete maxOut poll => exact privateKey_serves (.inr (.inr ⟨rfl, debugAssertions, rfl⟩)) h
  | customVerify callback poll =>
      obtain ⟨⟨result, ssl₁⟩, hdrive, h⟩ := Option.bind_eq_some_iff.mp h
      cases h
      refine drive_serves (.customVerify callback poll) (fun result => some (rawCustomVerify result))
        (fun _ _ h => h) (fun _ _ => map_id _) ?_ ?_ hdrive rfl
      · rintro (_ | _ | _) ret ⟨⟩ <;> rfl
      · rintro ret ⟨⟩
        rfl

end Entries

end Btls.Bridge
