import Btls.Bridge.Entries
import Btls.Support.History

/-!
# Bridge — Operations

The log of a run, seen at one index, is a sequence of finished operations (`Operations`) and at most
one that is `Pending`; the ex data holds that one's future and is empty otherwise (`InOrder`).

An operation begins with the entry in which application code makes its future (`Entry.create`), goes
on with entries in which the future is polled and answers that it is pending, and ends with the
entry in which the future is ready and BoringSSL is told what came of it (`Delivers`): the code of
the future's failure, or of what the closure answers that the future ended in.  So the result that
BoringSSL is told is the one that the application code of the operation gave, and it is told once.

`InTurn` says the same of single calls: no future is polled before it is created or after it was
ready.
-/

namespace Btls.Bridge

open Btls.Support

variable {W : Type}

/-! ### Operations -/

/-- The calls of an operation whose future is not ready yet. -/
inductive Pending (index : Index) (fut : Nat) : List (Event W) → Prop where
  | start {entry : Entry W} {waker : W} {now : Option W} {ret : Ret}
      (hindex : entry.callback.index = index) (hstarts : entry.callback.starts)
      (hcreate : entry.create (some waker) = some (.ok (), now))
      (hpoll : entry.poll waker fut = some .pending) (hret : ret.isRetry) :
      Pending index fut
        [.entered entry (some waker), .created entry.callback.index (.ok fut),
          .polled entry.callback.index fut .pending, .returned entry.callback ret]
  | again {before : List (Event W)} {entry : Entry W} {waker : W} {ret : Ret}
      (h : Pending index fut before) (hindex : entry.callback.index = index)
      (hresumes : entry.callback.resumes) (hpoll : entry.poll waker fut = some .pending)
      (hret : ret.isRetry) :
      Pending index fut
        (before ++ [.entered entry (some waker), .polled entry.callback.index fut .pending,
          .returned entry.callback ret])

/-- The calls of a whole operation. -/
inductive Operation (index : Index) (fut : Nat) : List (Event W) → Prop where
  | atOnce {entry : Entry W} {waker : W} {now next : Option W} {events : List (Event W)} {ret : Ret}
      (hindex : entry.callback.index = index) (hstarts : entry.callback.starts)
      (hcreate : entry.create (some waker) = some (.ok (), now))
      (h : Delivers entry waker fut now events ret next) :
      Operation index fut
        (.entered entry (some waker) :: .created entry.callback.index (.ok fut) :: events
          ++ [.returned entry.callback ret])
  | driven {before : List (Event W)} {entry : Entry W} {waker : W} {next : Option W}
      {events : List (Event W)} {ret : Ret} (hbefore : Pending index fut before)
      (hindex : entry.callback.index = index) (hresumes : entry.callback.resumes)
      (h : Delivers entry waker fut (some waker) events ret next) :
      Operation index fut
        (before ++ (.entered entry (some waker) :: events ++ [.returned entry.callback ret]))

/-- Finished operations, each with a future of its own: the one that is next.  Where no future could be
made, BoringSSL is told at once. -/
inductive Operations (index : Index) : List (Event W) → Nat → Prop where
  | nil : Operations index [] 0
  | refused {log : List (Event W)} {n : Nat} {entry : Entry W} {waker : W} {now : Option W}
      {e : entry.callback.index.Error} (h : Operations index log n)
      (hindex : entry.callback.index = index) (hstarts : entry.callback.starts)
      (hcreate : entry.create (some waker) = some (.error e, now)) :
      Operations index
        (log ++ [.entered entry (some waker), .created entry.callback.index (.error e),
          .returned entry.callback (entry.callback.code (.error e))]) n
  | made {log op : List (Event W)} {n : Nat} (h : Operations index log n) (hop : Operation index n op) :
      Operations index (log ++ op) (n + 1)

/-- What the log says of an index, what the ex data holds there, how many futures were made, and whether
BoringSSL is to call again. -/
inductive InOrder (index : Index) : List (Event W) → Option Nat → Nat → Bool → Prop where
  | idle {log : List (Event W)} {n : Nat} (h : Operations index log n) : InOrder index log none n false
  | waiting {log last : List (Event W)} {n : Nat} (h : Operations index log n)
      (hlast : Pending index n last) : InOrder index (log ++ last) (some n) (n + 1) true

/-- **An entry keeps the order.** -/
theorem InOrder.enter {entry : Entry W} {waker : W} {log events : List (Event W)} {held held' : Option Nat}
    {n n' : Nat} {waiting : Bool} {ret : Ret} {next : Option W}
    (h : InOrder entry.callback.index log held n waiting)
    (hmay : (if waiting then entry.callback.resumes else entry.callback.starts) = true)
    (hserved : Served entry waker held n events ret next held' n') :
    InOrder entry.callback.index
      (log ++ (.entered entry (some waker) :: events ++ [.returned entry.callback ret])) held' n'
      ret.isRetry := by
  cases h with
  | idle h =>
      cases hserved with
      | refused n hcreate =>
          rw [code_not_retry]
          exact .idle (.refused h rfl hmay hcreate)
      | begun n hcreate hpoll hret =>
          rw [hret]
          exact .waiting h (.start rfl hmay hcreate hpoll hret)
      | atOnce n hcreate hdelivers =>
          rw [hdelivers.not_retry]
          exact .idle (.made h (.atOnce rfl hmay hcreate hdelivers))
  | waiting h hlast =>
      cases hserved with
      | again fut n hpoll hret =>
          rw [hret, List.append_assoc]
          exact .waiting h (.again hlast rfl hmay hpoll hret)
      | delivered fut n hdelivers =>
          rw [hdelivers.not_retry, List.append_assoc]
          exact .idle (.made h (.driven hlast rfl hmay hdelivers))

/-! ### The log of one index -/

/-- The calls at an index. -/
def callsAt (index : Index) (log : List (Event W)) : List (Event W) := log.filter fun e => e.index = index

/-- The calls at an index of two logs. -/
theorem callsAt_append (index : Index) (log events : List (Event W)) :
    callsAt index (log ++ events) = callsAt index log ++ callsAt index events :=
  List.filter_append _ _

/-- Calls at one index are all at that index. -/
theorem callsAt_self {index : Index} {events : List (Event W)} (h : ∀ e ∈ events, e.index = index) :
    callsAt index events = events :=
  List.filter_eq_self.mpr fun e he => decide_eq_true (h e he)

/-- And none at another. -/
theorem callsAt_other {index other : Index} {events : List (Event W)} (h : ∀ e ∈ events, e.index = index)
    (hne : other ≠ index) : callsAt other events = [] :=
  List.filter_eq_nil_iff.mpr fun e he => by
    rw [h e he]
    exact fun heq => hne (of_decide_eq_true heq).symm

/-- What an entry does it does at its own index. -/
theorem Delivers.index_eq {entry : Entry W} {waker : W} {fut : Nat} {now next : Option W}
    {events : List (Event W)} {ret : Ret} (h : Delivers entry waker fut now events ret next) :
    ∀ e ∈ events, e.index = entry.callback.index := by
  cases h <;> simp [Event.index]

/-- What an entry does is about its own index. -/
theorem Served.index_eq {entry : Entry W} {waker : W} {held held' : Option Nat} {n n' : Nat}
    {events : List (Event W)} {ret : Ret} {next : Option W}
    (h : Served entry waker held n events ret next held' n') :
    ∀ e ∈ events, e.index = entry.callback.index := by
  cases h with
  | refused => simp [Event.index]
  | begun => simp [Event.index]
  | atOnce n _ hdelivers => simpa [Event.index] using hdelivers.index_eq
  | again => simp [Event.index]
  | delivered fut n hdelivers => exact hdelivers.index_eq

/-! ### Futures -/

/-- The calls that are in turn: a future is created once, and polled when it was created and was not ready
before. -/
def InTurn (before : List (Event W)) : Event W → Prop
  | .created index (.ok fut) => .created index (.ok fut) ∉ before
  | .polled index fut _ => .created index (.ok fut) ∈ before ∧ ∀ r, .polled index fut (.ready r) ∉ before
  | _ => True

/-- The future that a call is about. -/
def Event.fut : Event W → Option Nat
  | .created _ (.ok fut) => some fut
  | .polled _ fut _ => some fut
  | _ => none

/-- And with one future. -/
theorem Delivers.fut_eq {entry : Entry W} {waker : W} {fut : Nat} {now next : Option W} {events : List (Event W)}
    {ret : Ret} (h : Delivers entry waker fut now events ret next) : ∀ e ∈ events, ∀ f ∈ e.fut, f = fut := by
  cases h <;> simp [Event.fut]

/-- An operation has one future. -/
theorem Pending.fut_eq {index : Index} {fut : Nat} {events : List (Event W)} (h : Pending index fut events) :
    ∀ e ∈ events, ∀ f ∈ e.fut, f = fut := by
  induction h with
  | start => simp [Event.fut]
  | again h _ _ _ _ ih => exact List.forall_mem_append.mpr ⟨ih, by simp [Event.fut]⟩

/-- It was created. -/
theorem Pending.created {index : Index} {fut : Nat} {events : List (Event W)} (h : Pending index fut events) :
    .created index (.ok fut) ∈ events := by
  induction h with
  | start hindex _ _ _ _ =>
      cases hindex
      simp
  | again h _ _ _ _ ih => exact List.mem_append_left _ ih

/-- An operation that is pending has asked to be called again. -/
theorem Pending.snoc {index : Index} {fut : Nat} {events : List (Event W)} (h : Pending index fut events) :
    ∃ before cb ret, events = before ++ [.returned cb ret] ∧ ret.isRetry = true := by
  cases h with
  | start _ _ _ _ hret => exact ⟨[_, _, _], _, _, rfl, hret⟩
  | again _ _ _ _ hret => exact ⟨_ ++ [_, _], _, _, by rw [List.append_assoc]; rfl, hret⟩

/-- And is not ready yet. -/
theorem Pending.not_ready {index : Index} {fut : Nat} {events : List (Event W)} (h : Pending index fut events)
    (r : Except index.Error Unit) : .polled index fut (.ready r) ∉ events := by
  induction h with
  | start hindex _ _ _ _ =>
      cases hindex
      simp
  | again h hindex _ _ _ ih =>
      cases hindex
      simpa using ih

/-- A whole operation has one future too. -/
theorem Operation.fut_eq {index : Index} {fut : Nat} {events : List (Event W)} (h : Operation index fut events) :
    ∀ e ∈ events, ∀ f ∈ e.fut, f = fut := by
  cases h with
  | atOnce _ _ _ h => simpa [Event.fut, or_imp, forall_and] using h.fut_eq
  | driven hbefore _ _ h =>
      refine List.forall_mem_append.mpr ⟨hbefore.fut_eq, ?_⟩
      simpa [Event.fut, or_imp, forall_and] using h.fut_eq

/-- And finished operations those before the next. -/
theorem Operations.fut_lt {index : Index} {log : List (Event W)} {n : Nat} (h : Operations index log n) :
    ∀ e ∈ log, ∀ f ∈ e.fut, f < n := by
  induction h with
  | nil => simp
  | refused h _ _ _ ih => exact List.forall_mem_append.mpr ⟨ih, by simp [Event.fut]⟩
  | made h hop ih =>
      refine List.forall_mem_append.mpr ⟨?_, ?_⟩
      · intro e he f hf
        exact Nat.lt_succ_of_lt (ih e he f hf)
      · intro e he f hf
        exact Nat.lt_succ_of_le (Nat.le_of_eq (hop.fut_eq e he f hf))

/-- An entry does not change whose turn it is. -/
theorem inTurn_entered {before : List (Event W)} (entry : Entry W) (waker : Option W) {index : Index}
    {fut : Nat} {p : Poll (Except index.Error Unit)} (h : InTurn before (.polled index fut p)) :
    InTurn (before ++ [.entered entry waker]) (.polled index fut p) :=
  ⟨List.mem_append_left _ h.1, fun r => by simpa using h.2 r⟩

/-- A future with a name of its own is in turn when it is made, and when it is polled then. -/
theorem inTurn_created {before : List (Event W)} {entry : Entry W} {waker : Option W} {index : Index}
    {fut : Nat} {p : Poll (Except index.Error Unit)} (h : ∀ e ∈ before, ∀ f ∈ e.fut, f < fut) :
    InTurn (before ++ [.entered entry waker]) (.created index (.ok fut))
      ∧ InTurn (before ++ [.entered entry waker] ++ [.created index (.ok fut)]) (.polled index fut p) := by
  have hnew : ∀ e ∈ before, e.fut ≠ some fut := fun e he heq => Nat.lt_irrefl _ (h e he fut heq)
  refine ⟨?_, by simp, ?_⟩
  · intro hmem
    rcases List.mem_append.mp hmem with hmem | hmem
    · exact hnew _ hmem rfl
    · simp at hmem
  · intro r hmem
    simp only [List.mem_append, List.mem_singleton, reduceCtorEq, or_false] at hmem
    exact hnew _ hmem rfl

/-- The last poll is in turn, and the answer after it. -/
theorem Delivers.inTurn {before events : List (Event W)} {entry : Entry W} {waker : W} {fut : Nat}
    {now next : Option W} {ret : Ret} (h : Delivers entry waker fut now events ret next)
    (hbefore : History InTurn before) (hfut : InTurn before (.polled entry.callback.index fut .pending)) :
    History InTurn (before ++ (events ++ [.returned entry.callback ret])) := by
  cases h with
  | failed =>
      rw [← List.append_assoc]
      exact .snoc (.snoc hbefore hfut) trivial
  | finished =>
      rw [List.cons_append, List.append_cons, List.singleton_append, List.append_cons]
      exact .snoc (.snoc (.snoc hbefore hfut) trivial) trivial

/-- A future that is pending may be polled. -/
theorem Pending.inTurn {log last : List (Event W)} {index : Index} {n : Nat}
    (hlog : Operations index log n) (hlast : Pending index n last) :
    InTurn (log ++ last) (.polled index n .pending) := by
  refine ⟨List.mem_append_right _ hlast.created, fun r hmem => ?_⟩
  rcases List.mem_append.mp hmem with hmem | hmem
  · exact Nat.lt_irrefl _ (hlog.fut_lt _ hmem n rfl)
  · exact hlast.not_ready r hmem

/-- **An entry polls in turn.** -/
theorem InOrder.inTurn {entry : Entry W} {waker : W} {log events : List (Event W)}
    {held held' : Option Nat} {n n' : Nat} {waiting : Bool} {ret : Ret} {next : Option W}
    (h : InOrder entry.callback.index log held n waiting)
    (hserved : Served entry waker held n events ret next held' n') (hlog : History InTurn log) :
    History InTurn
      (log ++ (.entered entry (some waker) :: events ++ [.returned entry.callback ret])) := by
  have hentered : History InTurn (log ++ [.entered entry (some waker)]) := hlog.snoc trivial
  rw [List.cons_append, List.append_cons]
  cases h with
  | idle h =>
      cases hserved with
      | refused n =>
          rw [List.singleton_append, List.append_cons]
          exact .snoc (.snoc hentered trivial) trivial
      | begun n =>
          obtain ⟨hcreated, hpolled⟩ := inTurn_created h.fut_lt
          rw [List.cons_append, List.append_cons, List.singleton_append, List.append_cons]
          exact .snoc (.snoc (.snoc hentered hcreated) hpolled) trivial
      | atOnce n _ hdelivers =>
          obtain ⟨hcreated, hpolled⟩ := inTurn_created h.fut_lt
          rw [List.cons_append, List.append_cons]
          exact hdelivers.inTurn (.snoc hentered hcreated) hpolled
  | waiting h hlast =>
      have hpolled := inTurn_entered entry (some waker) (hlast.inTurn h)
      cases hserved with
      | again fut n =>
          rw [List.singleton_append, List.append_cons]
          exact .snoc (.snoc hentered hpolled) trivial
      | delivered fut n hdelivers => exact hdelivers.inTurn hentered hpolled

/-! ### What one operation amounts to -/

def Event.isEntered : Event W → Bool
  | .entered _ _ => true
  | _ => false

def Event.isCreated : Event W → Bool
  | .created _ _ => true
  | _ => false

def Event.isPolled : Event W → Bool
  | .polled _ _ _ => true
  | _ => false

def Event.isReady : Event W → Bool
  | .polled _ _ (.ready _) => true
  | _ => false

/-- BoringSSL is told the result. -/
def Event.isResult : Event W → Bool
  | .returned _ ret => ! ret.isRetry
  | _ => false

/-- One poll, which is ready. -/
theorem Delivers.counts {entry : Entry W} {waker : W} {fut : Nat} {now next : Option W} {events : List (Event W)}
    {ret : Ret} (h : Delivers entry waker fut now events ret next) :
    events.countP Event.isCreated = 0 ∧ events.countP Event.isEntered = 0
      ∧ events.countP Event.isPolled = 1 ∧ events.countP Event.isReady = 1
      ∧ events.countP Event.isResult = 0 := by
  cases h <;> exact ⟨rfl, rfl, rfl, rfl, rfl⟩

/-- One future, and a poll for each entry, none of them ready. -/
theorem Pending.counts {index : Index} {fut : Nat} {events : List (Event W)} (h : Pending index fut events) :
    events.countP Event.isCreated = 1
      ∧ events.countP Event.isPolled = events.countP Event.isEntered
      ∧ events.countP Event.isReady = 0 ∧ events.countP Event.isResult = 0 := by
  induction h with
  | start _ _ _ _ hret =>
      simp [List.countP_cons, Event.isCreated, Event.isPolled, Event.isEntered, Event.isReady,
        Event.isResult, hret]
  | again h _ _ _ hret ih =>
      simp [List.countP_append, List.countP_cons, Event.isCreated, Event.isPolled, Event.isEntered,
        Event.isReady, Event.isResult, hret, ih]

/-- **An operation** creates its future once, polls it once for each entry, has it ready once, and tells
BoringSSL the result once. -/
theorem Operation.counts {index : Index} {fut : Nat} {events : List (Event W)}
    (h : Operation index fut events) :
    events.countP Event.isCreated = 1
      ∧ events.countP Event.isPolled = events.countP Event.isEntered
      ∧ events.countP Event.isReady = 1 ∧ events.countP Event.isResult = 1 := by
  cases h with
  | atOnce _ _ _ h =>
      obtain ⟨hcreated, hentered, hpolled, hready, hresult⟩ := h.counts
      simp [List.countP_append, List.countP_cons, Event.isCreated, Event.isPolled, Event.isEntered,
        Event.isReady, Event.isResult, h.not_retry, hcreated, hentered, hpolled, hready, hresult]
  | driven hbefore _ _ h =>
      obtain ⟨hcreated, hentered, hpolled, hready, hresult⟩ := h.counts
      obtain ⟨hcreated', hpolled', hready', hresult'⟩ := hbefore.counts
      simp [List.countP_append, List.countP_cons, Event.isCreated, Event.isPolled, Event.isEntered,
        Event.isReady, Event.isResult, h.not_retry, hcreated, hentered, hpolled, hready, hresult,
        hcreated', hpolled', hready', hresult']

/-- **An operation** ends with the entry in which its future is ready, and BoringSSL is told what that entry
delivers. -/
theorem Operation.told {index : Index} {fut : Nat} {op : List (Event W)} (h : Operation index fut op) :
    ∃ before entry waker now events ret next, op = before ++ (events ++ [.returned entry.callback ret])
      ∧ .entered entry (some waker) ∈ before ∧ Delivers entry waker fut now events ret next := by
  cases h with
  | atOnce _ _ _ h =>
      refine ⟨[_, _], _, _, _, _, _, _, rfl, ?_, h⟩
      exact List.mem_cons_self
  | driven _ _ _ h =>
      refine ⟨_ ++ [_], _, _, _, _, _, _, (List.append_assoc _ [_] _).symm, ?_, h⟩
      exact List.mem_append_right _ List.mem_cons_self

/-! ### Runs -/

section Runs

/-- The entry that a call is. -/
def Event.entry : Event W → Option (Entry W)
  | .entered entry _ => some entry
  | _ => none

/-- The entry that BoringSSL makes in a step. -/
def Action.entry : Action W → Option (Entry W)
  | .enter entry => some entry
  | .setTaskWaker _ => none

/-- What the bridge logs itself is no entry. -/
theorem Served.entries {entry : Entry W} {waker : W} {held held' : Option Nat} {n n' : Nat}
    {events : List (Event W)} {ret : Ret} {next : Option W}
    (h : Served entry waker held n events ret next held' n') : events.filterMap Event.entry = [] := by
  cases h with
  | refused => rfl
  | begun => rfl
  | atOnce n _ hdelivers => cases hdelivers <;> rfl
  | again => rfl
  | delivered fut n hdelivers => cases hdelivers <;> rfl

/-- What an entry of a run logs: itself, what it does and what it returns. -/
theorem step_log {debugAssertions : Bool} {conn conn' : Conn W} {entry : Entry W}
    (hstep : conn.step debugAssertions (.enter entry) = some conn') :
    ∃ waker events ret, conn.mayEnter entry.callback = true
      ∧ conn'.ssl.log = conn.ssl.log
        ++ (.entered entry (some waker) :: events ++ [.returned entry.callback ret])
      ∧ Served entry waker (conn.ssl.held entry.callback.index) (conn.ssl.made entry.callback.index) events ret
        conn'.ssl.taskWaker (conn'.ssl.held entry.callback.index) (conn'.ssl.made entry.callback.index)
      ∧ (∀ other, other ≠ entry.callback.index → conn'.ssl.held other = conn.ssl.held other
        ∧ conn'.ssl.made other = conn.ssl.made other)
      ∧ conn'.waiting = Function.update conn.waiting entry.callback.index ret.isRetry := by
  obtain ⟨hmay, hstep⟩ := Option.ite_none_right_eq_some.mp hstep
  obtain ⟨⟨ret, ssl⟩, hraw, hstep⟩ := Option.bind_eq_some_iff.mp hstep
  cases hstep
  obtain ⟨waker, events, hwaker, hextends, hserved⟩ := raw_serves hraw
  have hset : conn.ssl.taskWaker = some waker := hwaker
  refine ⟨waker, events, ret, hmay, ?_, hserved,
    fun other hne => ⟨hextends.held other hne, hextends.made other hne⟩, rfl⟩
  rw [Ssl.logged, hextends.log]
  simp [Ssl.logged, hset]

/-- A connection whose log is in order at every index. -/
def Sound (conn : Conn W) : Prop :=
  ∀ index, InOrder index (callsAt index conn.ssl.log) (conn.ssl.held index) (conn.ssl.made index)
      (conn.waiting index)
    ∧ History InTurn (callsAt index conn.ssl.log)

/-- At first no call is logged. -/
theorem sound_new : Sound (Conn.new : Conn W) := by
  intro index
  exact ⟨.idle .nil, .nil⟩

/-- **Every step keeps the order at every index.** -/
theorem sound_step {debugAssertions : Bool} (conn : Conn W) (action : Action W) (conn' : Conn W)
    (h : Sound conn) (hstep : conn.step debugAssertions action = some conn') : Sound conn' := by
  cases action with
  | setTaskWaker waker =>
      cases hstep
      exact h
  | enter entry =>
      obtain ⟨waker, events, ret, hmay, hlog, hserved, hother, hwaiting⟩ := step_log hstep
      have hnew : ∀ e ∈ .entered entry (some waker) :: events ++ [.returned entry.callback ret],
          e.index = entry.callback.index := by
        simpa [Event.index, or_imp, forall_and] using hserved.index_eq
      intro index
      obtain ⟨horder, hturn⟩ := h index
      rw [hlog, callsAt_append, hwaiting]
      by_cases hindex : index = entry.callback.index
      · subst hindex
        rw [callsAt_self hnew, Function.update_self]
        exact ⟨horder.enter hmay hserved, horder.inTurn hserved hturn⟩
      · obtain ⟨hheld, hmade⟩ := hother index hindex
        rw [callsAt_other hnew hindex, List.append_nil, Function.update_of_ne hindex, hheld, hmade]
        exact ⟨horder, hturn⟩

/-- The entries in the log of a run are those that BoringSSL makes in it. -/
theorem run_entries {debugAssertions : Bool} {actions : List (Action W)} {conn : Conn W}
    (h : Run (fun conn action conn' => conn.step debugAssertions action = some conn') Conn.new actions conn) :
    conn.ssl.log.filterMap Event.entry = actions.filterMap Action.entry := by
  induction h with
  | nil => rfl
  | @snoc _ _ _ action _ hstep ih =>
      rw [List.filterMap_append, ← ih]
      cases action with
      | setTaskWaker waker =>
          cases hstep
          exact (List.append_nil _).symm
      | enter entry =>
          obtain ⟨waker, events, ret, -, hlog, hserved, -, -⟩ := step_log hstep
          rw [hlog, List.filterMap_append, List.filterMap_append, List.filterMap_cons, hserved.entries]
          rfl

/-- A log that ends with a result is that of an index where nothing is pending. -/
theorem InOrder.idle_of_result {index : Index} {log : List (Event W)} {held : Option Nat} {n : Nat}
    {waiting : Bool} {before : List (Event W)} {cb : Callback} {ret : Ret}
    (h : InOrder index log held n waiting) (hlog : log = before ++ [.returned cb ret])
    (hret : ret.isRetry = false) : held = none := by
  cases h with
  | idle => rfl
  | waiting h hlast =>
      obtain ⟨before', cb', ret', rfl, hretry⟩ := hlast.snoc
      rw [← List.append_assoc] at hlog
      obtain ⟨-, heq⟩ := List.append_inj' hlog rfl
      cases heq
      cases hret.symm.trans hretry

/-- Where BoringSSL is to call again, there is a future to poll. -/
theorem InOrder.held_of_waiting {index : Index} {log : List (Event W)} {held : Option Nat} {n : Nat}
    {waiting : Bool} (h : InOrder index log held n waiting) (hwaiting : waiting = true) :
    ∃ fut, held = some fut := by
  cases h with
  | idle => cases hwaiting
  | waiting => exact ⟨_, rfl⟩

/-- **The asynchronous callbacks.**  In every run, whatever application code does and however the
operations at different indices are interleaved:

* the entries in the log are the ones that BoringSSL makes, and the calls at an index are finished
  operations and at most one that is pending, each operation with a future of its own, made by application
  code, and the ex data holds the pending one's;
* an operation creates its future once, polls it once for each entry of its callback, has it ready once
  and tells BoringSSL the result once: the code of the failure that application code's own future ended in,
  or of what the closure answered that it ended in;
* no future is polled before it is created, or again when it was ready;
* after a result the ex data is empty, so that the next operation makes a new future, and where BoringSSL
  is to call again the ex data is not empty. -/
theorem async_operations (debugAssertions : Bool) {actions : List (Action W)} {conn : Conn W}
    (h : Run (fun conn action conn' => conn.step debugAssertions action = some conn') Conn.new actions conn) :
    conn.ssl.log.filterMap Event.entry = actions.filterMap Action.entry
      ∧ (∀ index, InOrder index (callsAt index conn.ssl.log) (conn.ssl.held index) (conn.ssl.made index)
        (conn.waiting index))
      ∧ (∀ (index : Index) (fut : Nat) (op : List (Event W)), Operation index fut op →
        op.countP Event.isCreated = 1 ∧ op.countP Event.isPolled = op.countP Event.isEntered
          ∧ op.countP Event.isReady = 1 ∧ op.countP Event.isResult = 1
          ∧ ∃ before entry waker now events ret next,
            op = before ++ (events ++ [.returned entry.callback ret])
              ∧ .entered entry (some waker) ∈ before ∧ Delivers entry waker fut now events ret next)
      ∧ (∀ index, History InTurn (callsAt index conn.ssl.log))
      ∧ (∀ before cb ret, conn.ssl.log = before ++ [.returned cb ret] → ret.isRetry = false →
        conn.ssl.held cb.index = none)
      ∧ ∀ index, conn.waiting index = true → ∃ fut, conn.ssl.held index = some fut := by
  have hsound := h.invariant sound_step sound_new
  refine ⟨run_entries h, fun index => (hsound index).1, ?_, fun index => (hsound index).2, ?_, ?_⟩
  · intro index fut op hop
    obtain ⟨hcreated, hpolled, hready, hresult⟩ := hop.counts
    exact ⟨hcreated, hpolled, hready, hresult, hop.told⟩
  · intro before cb ret hlog hret
    have hcalls : callsAt cb.index conn.ssl.log = callsAt cb.index before ++ [.returned cb ret] := by
      rw [hlog, callsAt_append]
      exact congrArg _ (callsAt_self (by simp [Event.index]))
    exact (hsound cb.index).1.idle_of_result hcalls hret
  · intro index hwaiting
    exact (hsound index).1.held_of_waiting hwaiting

end Runs

/-! ### An example -/

/-- Application code that gives a value. -/
def giving {α : Type} (a : α) : Code Unit α := fun waker => some (a, waker)

/-- A signature is pending while `DisableEch` is chosen and the certificate is selected again. -/
def disablingEch : List (Action Unit) :=
  [.setTaskWaker (some ()),
    .enter (.selectCertAction true (giving (.ok ())) fun _ _ => some .pending),
    .enter (.sign 64 (giving (.ok ())) fun _ _ => some .pending),
    .enter (.selectCertAction true (giving (.ok ())) fun _ _ =>
      some (.ready (.ok (giving (.ok .disableEch))))),
    .enter (.selectCertAction false (giving (.ok ())) fun _ _ => some .pending),
    .enter (.complete 64 fun _ _ => some (.ready (.ok (giving (.ok 64)))))]

/-- The second selection is pending with a future of its own, and the signature is done. -/
theorem async_operations_disabling_ech :
    ∃ conn, Run (fun conn action conn' => Conn.step true conn action = some conn') Conn.new disablingEch conn
      ∧ conn.ssl.made .selectCertAction = 2 ∧ conn.ssl.held .selectCertAction = some 1
      ∧ conn.ssl.held .privateKeyMethod = none := by
  have hrun := Run.foldlM (Conn.step true) Conn.new disablingEch rfl
  refine ⟨_, hrun, rfl, rfl, ?_⟩
  exact (async_operations true hrun).2.2.2.2.1 _ _ _ rfl rfl

end Btls.Bridge
