import Liblw.Co.Resolving
import Liblw.Proof.FutureCalls
import Liblw.Proof.SchedulerQueue

/-!
# When a resolved promise has lost its awaiter

A promise that is resolved while its awaiter has no room in the queue stays resolved, and the
awaiter is never scheduled. In every run that does not do that, every awaiter of a resolved promise
has been put into the queue, once.
-/

namespace Liblw.Co

open Liblw.Lib Liblw.Memory

variable {X T : Type}

namespace Store

variable {store other : Store X T} {place root steps : Nat} {state : SharedPromiseState X T}

theorem exec_load_missing (hstate : store.states[place]? = none) :
    (load place).exec store = (.error (.undefined .nullPointer), store) := by
  unfold load
  rw [Call.exec_get_bind, hstate]
  rfl

/-- What following the pointers finds, which changes nothing. -/
theorem exec_followChain_cases (store : Store X T) (steps place : Nat) :
    (followChain steps place).exec store = (.error .diverged, store) ∨
      (followChain steps place).exec store = (.error (.undefined .nullPointer), store) ∨
      ∃ root state, (followChain steps place).exec store = (.ok root, store) ∧
        store.states[root]? = some state ∧ state.chainState = none := by
  induction steps generalizing place with
  | zero => exact .inl rfl
  | succ steps ih =>
      unfold followChain
      cases hstate : store.states[place]? with
      | none =>
          rw [Call.exec_bind_error (exec_load_missing hstate)]
          exact .inr (.inl rfl)
      | some state =>
          rw [Call.exec_bind_ok (exec_load hstate)]
          cases hchain : state.chainState with
          | none => exact .inr (.inr ⟨place, state, rfl, hstate, hchain⟩)
          | some next => exact ih next

/-- Only the pointers matter. -/
theorem exec_followChain_congr
    (hpointers : ∀ place : Nat, (store.states[place]?).map (fun state => state.chainState) =
      (other.states[place]?).map fun state => state.chainState) (steps place : Nat) :
    ((followChain steps place).exec store).1 = ((followChain steps place).exec other).1 := by
  induction steps generalizing place with
  | zero => rfl
  | succ steps ih =>
      have hpointer := hpointers place
      unfold followChain
      cases hstate : store.states[place]? with
      | none =>
          rw [hstate, Option.map_none, eq_comm, Option.map_eq_none_iff] at hpointer
          rw [Call.exec_bind_error (exec_load_missing hstate),
            Call.exec_bind_error (exec_load_missing hpointer)]
      | some state =>
          rw [hstate, Option.map_some, eq_comm, Option.map_eq_some_iff] at hpointer
          obtain ⟨state', hstate', hsame⟩ := hpointer
          rw [Call.exec_bind_ok (exec_load hstate), Call.exec_bind_ok (exec_load hstate'), hsame]
          cases state.chainState with
          | none => rfl
          | some next => exact ih next

/-- Setting a state that is not chained moves no pointer. -/
theorem exec_getState_set {place' : Nat} {scheduled : List Coro} {room : Option Room}
    (hstate : store.states[place']? = some state) {state' : SharedPromiseState X T}
    (hsame : state'.chainState = state.chainState) (place : Nat) :
    ((getState place).exec ⟨store.states.set place' state', scheduled, room⟩).1 =
      ((getState place).exec store).1 := by
  unfold getState
  rw [Call.exec_get_bind, Call.exec_get_bind, List.length_set]
  apply exec_followChain_congr
  intro next
  by_cases hnext : next = place'
  · subst hnext
    rw [List.getElem?_set_self (List.getElem?_eq_some_iff.mp hstate).1, hstate]
    exact congrArg some hsame
  · rw [List.getElem?_set_ne (Ne.symm hnext)]

end Store

namespace Thread

variable {eventfd : Handle} {caught : Fault → X} {thread after : Thread X T}
  {promise place root : Nat} {outcome : Except X T} {state : SharedPromiseState X T}
  {items : List Coro}

/-- What the promise is at: it has no state, which is no exception, or its root is set or not. -/
inductive Standing (promise : Nat) (store : Store X T) : Prop where
  | lost (fault : Fault) (hfault : fault = .diverged ∨ fault = .undefined .nullPointer)
      (hget : (Store.getState promise).exec store = (.error fault, store))
  | found (root : Nat) (state : SharedPromiseState X T)
      (hget : (Store.getState promise).exec store = (.ok root, store))
      (hstate : store.states[root]? = some state) (hends : state.chainState = none)

theorem standing (promise : Nat) (store : Store X T) : Standing promise store := by
  have hcases := Store.exec_followChain_cases store store.states.length promise
  have hget : (Store.getState promise).exec store =
      (Store.followChain store.states.length promise).exec store := Call.exec_get_bind _ store
  rw [← hget] at hcases
  obtain hdiverged | hmissing | ⟨root, state, hroot, hstate, hends⟩ := hcases
  · exact .lost .diverged (.inl rfl) hdiverged
  · exact .lost (.undefined .nullPointer) (.inr rfl) hmissing
  · exact .found root state hroot hstate hends

theorem exec_onStore {α : Type} (call : Call Fault (Store X T) α) (thread : Thread X T) :
    (onStore call).exec thread =
      ((call.exec thread.store).1, { thread with store := (call.exec thread.store).2 }) := rfl

theorem exec_onStore_eq {α : Type} {call : Call Fault (Store X T) α} {thread : Thread X T}
    {result : Result α} {store : Store X T} (hexec : call.exec thread.store = (result, store)) :
    (onStore call).exec thread = (result, { thread with store }) := by
  rw [exec_onStore, hexec]

theorem exec_onScheduler_eq {call : Call Fault Scheduler Unit} {thread : Thread X T}
    {result : Result Unit} {scheduler : Scheduler}
    (hexec : call.exec thread.loop.scheduler = (result, scheduler)) :
    (onScheduler call).exec thread =
      (result, { thread with loop := { thread.loop with scheduler } }) := by
  unfold onScheduler
  rw [Call.exec_within, hexec]

/-! ### The calls -/

/-- The thread once a coroutine was put into the queue. -/
def scheduledTo (eventfd : Handle) (thread : Thread X T) (coro : Coro) : Thread X T where
  store := thread.store.pushed coro
  loop := { thread.loop.onScheduler (Scheduler.addToQueue eventfd coro) with
    scheduled := thread.loop.scheduled ++ [coro] }

theorem exec_schedule (hfd : eventfd ≠ 0) (hinv : EventLoop.Invariant eventfd thread.loop items)
    (hroom : thread.loop.scheduler.coroQueue.full = false) (coro : Coro) :
    (schedule eventfd coro).exec thread = (.ok (), scheduledTo eventfd thread coro) := by
  obtain ⟨queue, -, -, hadd⟩ := hinv.exec_schedule hfd hroom coro
  unfold schedule scheduledTo EventLoop.onScheduler
  rw [Call.exec_bind_ok (exec_onScheduler_eq hadd), hadd]
  rfl

theorem exec_schedule_full (hfull : thread.loop.scheduler.coroQueue.full = true) (coro : Coro) :
    (schedule eventfd coro).exec thread =
      (.error (CircularQueue.refusal thread.loop.scheduler.coroQueue.capacity), thread) := by
  have hadd := Scheduler.exec_addToQueue_full eventfd hfull coro
  unfold schedule
  rw [Call.exec_bind_error (exec_onScheduler_eq hadd)]

/-- The thread whose store has another state at the place. -/
def withState (thread : Thread X T) (place : Nat) (state : SharedPromiseState X T) : Thread X T :=
  { thread with store := { thread.store with states := thread.store.states.set place state } }

theorem exec_scheduleTask_awake (hstate : thread.store.states[place]? = some state)
    (hawake : state.futureSuspended = false) :
    (scheduleTask eventfd place).exec thread = (.ok (), thread) := by
  unfold scheduleTask
  rw [Call.exec_bind_ok (exec_onStore_eq (Store.exec_load hstate)), hawake]
  rfl

theorem exec_scheduleTask (hstate : thread.store.states[place]? = some state)
    (hsuspended : state.futureSuspended = true) {coro : Coro} (hcoro : state.handle = some coro) :
    (scheduleTask eventfd place).exec thread = (schedule eventfd coro).exec thread := by
  unfold scheduleTask
  rw [Call.exec_bind_ok (exec_onStore_eq (Store.exec_load hstate)), hsuspended, hcoro]
  rfl

/-- The state of a promise once it was resolved. -/
def resolved (state : SharedPromiseState X T) (outcome : Except X T) : SharedPromiseState X T :=
  Promise.withOutcome { state with stateSet := true } outcome

theorem resolved_stateSet (state : SharedPromiseState X T) (outcome : Except X T) :
    (resolved state outcome).stateSet = true := by
  cases outcome <;> rfl

theorem resolved_futureSuspended (state : SharedPromiseState X T) (outcome : Except X T) :
    (resolved state outcome).futureSuspended = state.futureSuspended := by
  cases outcome <;> rfl

theorem resolved_handle (state : SharedPromiseState X T) (outcome : Except X T) :
    (resolved state outcome).handle = state.handle := by
  cases outcome <;> rfl

theorem resolved_chainState (state : SharedPromiseState X T) (outcome : Except X T) :
    (resolved state outcome).chainState = state.chainState := by
  cases outcome <;> rfl

theorem resolved_wakes (state : SharedPromiseState X T) (outcome : Except X T) :
    (resolved state outcome).wakes = state.wakes :=
  Promise.withOutcome_wakes state outcome

theorem exec_setOutcome_lost {fault : Fault}
    (hget : (Store.getState promise).exec thread.store = (.error fault, thread.store)) :
    (setOutcome eventfd promise outcome).exec thread = (.error fault, thread) := by
  unfold setOutcome
  rw [Call.exec_bind_error (exec_onStore_eq hget)]

/-- The promise is marked before anything is scheduled. -/
theorem exec_setOutcome (hget : (Store.getState promise).exec thread.store =
      (.ok root, thread.store))
    (hstate : thread.store.states[root]? = some state) (hunset : state.stateSet = false) :
    (setOutcome eventfd promise outcome).exec thread =
      (scheduleTask eventfd root).exec (thread.withState root (resolved state outcome)) := by
  have hlength : root < thread.store.states.length := (List.getElem?_eq_some_iff.mp hstate).1
  have hclaim := Promise.exec_claimStateSet hstate hunset
  have hload := @Store.exec_load X T { thread.store with
    states := thread.store.states.set root { state with stateSet := true } } root
    { state with stateSet := true } (List.getElem?_set_self hlength)
  unfold setOutcome
  rw [Call.exec_bind_ok (exec_onStore_eq hget), Call.exec_bind_ok (exec_onStore_eq hclaim),
    Call.exec_bind_ok (exec_onStore_eq hload),
    Call.exec_bind_ok (exec_onStore_eq (Store.exec_save _ _ _))]
  dsimp only
  rw [List.set_set]
  rfl

theorem exec_setOutcome_set (hget : (Store.getState promise).exec thread.store =
      (.ok root, thread.store))
    (hstate : thread.store.states[root]? = some state) (hset : state.stateSet = true) :
    ∃ error,
      (setOutcome eventfd promise outcome).exec thread = (.error (.thrown error), thread) := by
  have hclaim := Promise.exec_claimStateSet_set hstate hset
  refine ⟨⟨.failedPrecondition, "Promise state already set previously."⟩, ?_⟩
  unfold setOutcome
  rw [Call.exec_bind_ok (exec_onStore_eq hget), Call.exec_bind_error (exec_onStore_eq hclaim)]

/-! ### What is promised -/

/-- No awaiter has to go into a full queue for the promise to be resolved. -/
def Fits (promise : Nat) (thread : Thread X T) : Prop :=
  ∀ root state, (Store.getState promise).exec thread.store = (.ok root, thread.store) →
    thread.store.states[root]? = some state → state.stateSet = false →
      state.futureSuspended = true → thread.loop.scheduler.coroQueue.full = false

/-- The call resolves the promise and puts the awaiter, where there is one, into the queue; or it
throws and changes nothing. -/
structure Atomic (promise : Nat) (outcome : Except X T) (thread : Thread X T)
    (call : Call Fault (Thread X T) Unit) : Prop where
  returned : (call.exec thread).1 = .ok () → ∃ root state items,
    (Store.getState promise).exec thread.store = (.ok root, thread.store) ∧
      thread.store.states[root]? = some state ∧ state.stateSet = false ∧
      (thread.after call).store = thread.store.setAt root state outcome ∧
      thread.loop.scheduler.coroQueue.Holds items ∧
      (thread.after call).loop.scheduler.coroQueue.Holds (items ++ state.wakes)
  threw : ∀ fault, (call.exec thread).1 = .error fault → thread.after call = thread

/-- The coroutine that waited for a promise that is resolved now. -/
def released (state : SharedPromiseState X T) : List Coro :=
  if state.stateSet then state.wakes else []

/-- Every coroutine that has waited for a promise that is resolved was scheduled for it, once, and
the loop resumes what is scheduled. What a coroutine waits for is what the promise resolves. -/
structure NoneLost (eventfd : Handle) (thread : Thread X T) : Prop where
  released : thread.store.scheduled.Perm (thread.store.states.flatMap released)
  handled : ∀ state ∈ thread.store.states, state.futureSuspended = true →
    (∃ coro, state.handle = some coro) ∧ state.chainState = none
  scheduled : thread.store.scheduled.Sublist thread.loop.scheduled
  sound : ∃ items, EventLoop.Sound eventfd thread.loop items

/-! ### The invariant -/

theorem flatMap_set {α β : Type} {f : α → List β} {l : List α} {i : Nat} {old new : α}
    (hold : l[i]? = some old) (hsame : f new = f old) : (l.set i new).flatMap f = l.flatMap f := by
  induction l generalizing i with
  | nil => cases hold
  | cons first l ih =>
      cases i with
      | zero =>
          cases hold
          rw [List.set_cons_zero, List.flatMap_cons, List.flatMap_cons, hsame]
      | succ i => rw [List.set_cons_succ, List.flatMap_cons, List.flatMap_cons, ih hold]

theorem perm_flatMap_set {α β : Type} {f : α → List β} {l : List α} {i : Nat} {old new : α}
    (hold : l[i]? = some old) (hnone : f old = []) :
    ((l.set i new).flatMap f).Perm (l.flatMap f ++ f new) := by
  induction l generalizing i with
  | nil => cases hold
  | cons first l ih =>
      cases i with
      | zero =>
          cases hold
          rw [List.set_cons_zero, List.flatMap_cons, List.flatMap_cons, hnone]
          exact List.perm_append_comm
      | succ i =>
          rw [List.set_cons_succ, List.flatMap_cons, List.flatMap_cons, List.append_assoc]
          exact (ih hold).append_left _

theorem released_of_unset {state : SharedPromiseState X T} (hunset : state.stateSet = false) :
    released state = [] := by
  rw [released, hunset, if_neg Bool.false_ne_true]

theorem released_resolved (state : SharedPromiseState X T) (outcome : Except X T) :
    released (resolved state outcome) = state.wakes := by
  rw [released, resolved_stateSet, if_pos rfl, resolved_wakes]

theorem wakes_of_awake {state : SharedPromiseState X T} (hawake : state.futureSuspended = false) :
    state.wakes = [] := by
  rw [SharedPromiseState.wakes, hawake]
  rfl

theorem wakes_of_suspended {state : SharedPromiseState X T} {coro : Coro}
    (hsuspended : state.futureSuspended = true) (hcoro : state.handle = some coro) :
    state.wakes = [coro] := by
  rw [SharedPromiseState.wakes, hsuspended, hcoro]
  rfl

structure Invariant (eventfd : Handle) (thread : Thread X T) (items : List Coro) : Prop where
  loop : EventLoop.Invariant eventfd thread.loop items
  handled : ∀ state ∈ thread.store.states, state.futureSuspended = true →
    (∃ coro, state.handle = some coro) ∧ state.chainState = none
  released : thread.store.scheduled.Perm (thread.store.states.flatMap released)
  scheduled : thread.store.scheduled.Sublist thread.loop.scheduled

namespace Invariant

theorem noneLost (hfd : eventfd ≠ 0) (hinv : Invariant eventfd thread items) :
    NoneLost eventfd thread :=
  ⟨hinv.released, hinv.handled, hinv.scheduled, items, hinv.loop.sound hfd⟩

theorem handle_eq (hinv : Invariant eventfd thread items)
    (hstate : thread.store.states[place]? = some state)
    (hsuspended : state.futureSuspended = true) :
    ∃ coro, state.handle = some coro :=
  (hinv.handled state (List.mem_of_getElem? hstate) hsuspended).1

/-- A state may change as long as it releases the same. -/
theorem withState (hinv : Invariant eventfd thread items)
    (hstate : thread.store.states[place]? = some state) {next : SharedPromiseState X T}
    (hsame : Thread.released next = Thread.released state)
    (hhandle : next.futureSuspended = true →
      (∃ coro, next.handle = some coro) ∧ next.chainState = none) :
    Invariant eventfd (thread.withState place next) items where
  loop := hinv.loop
  handled other hother hsuspended := by
    rcases List.mem_or_eq_of_mem_set hother with hmem | rfl
    · exact hinv.handled other hmem hsuspended
    · exact hhandle hsuspended
  released := by
    change thread.store.scheduled.Perm ((thread.store.states.set place next).flatMap _)
    rw [flatMap_set hstate hsame]
    exact hinv.released
  scheduled := hinv.scheduled

/-- What tells who waits for whom stays as it is. -/
theorem withSame (hinv : Invariant eventfd thread items)
    (hstate : thread.store.states[place]? = some state) {next : SharedPromiseState X T}
    (hset : next.stateSet = state.stateSet)
    (hsuspended : next.futureSuspended = state.futureSuspended)
    (hhandle : next.handle = state.handle)
    (hchain : state.futureSuspended = true → next.chainState = state.chainState) :
    Invariant eventfd (thread.withState place next) items := by
  apply hinv.withState hstate
  · unfold Thread.released SharedPromiseState.wakes
    rw [hset, hsuspended, hhandle]
  · intro hnext
    rw [hsuspended] at hnext
    rw [hhandle, hchain hnext]
    exact hinv.handled state (List.mem_of_getElem? hstate) hnext

/-- With room for the awaiter the promise is resolved, and the awaiter comes last in the queue. -/
theorem exec_setOutcome (hfd : eventfd ≠ 0) (hinv : Invariant eventfd thread items)
    (hget : (Store.getState promise).exec thread.store = (.ok root, thread.store))
    (hstate : thread.store.states[root]? = some state) (hunset : state.stateSet = false)
    (hroom : state.futureSuspended = true → thread.loop.scheduler.coroQueue.full = false) :
    ∃ next, (setOutcome eventfd promise outcome).exec thread = (.ok (), next) ∧
      next.store = thread.store.setAt root state outcome ∧
      Invariant eventfd next (items ++ state.wakes) := by
  have hbefore := released_of_unset hunset
  have hafter := released_resolved state outcome
  have hloads : (thread.withState root (resolved state outcome)).store.states[root]? =
      some (resolved state outcome) :=
    List.getElem?_set_self (List.getElem?_eq_some_iff.mp hstate).1
  rw [Thread.exec_setOutcome hget hstate hunset]
  cases hsuspended : state.futureSuspended with
  | false =>
      have hnone := wakes_of_awake hsuspended
      refine ⟨_, exec_scheduleTask_awake hloads (by rwa [resolved_futureSuspended]), ?_, ?_⟩
      · unfold Store.setAt
        rw [hnone, List.append_nil]
        rfl
      · rw [hnone, List.append_nil]
        apply hinv.withState hstate (by rw [hafter, hbefore, hnone])
        rw [resolved_futureSuspended, hsuspended]
        exact nofun
  | true =>
      obtain ⟨coro, hcoro⟩ := hinv.handle_eq hstate hsuspended
      have hwakes := wakes_of_suspended hsuspended hcoro
      have hmarked : EventLoop.Invariant eventfd
          (thread.withState root (resolved state outcome)).loop items := hinv.loop
      have hschedule := Thread.exec_schedule hfd hmarked (hroom hsuspended) coro
      rw [exec_scheduleTask hloads (by rwa [resolved_futureSuspended])
        (by rwa [resolved_handle]), hschedule]
      refine ⟨_, rfl, ?_, ?_, ?_, ?_, ?_⟩
      · unfold Store.setAt
        rw [hwakes]
        rfl
      · rw [hwakes]
        exact hinv.loop.schedule hfd (hroom hsuspended) coro
      · intro other hother hsuspended'
        rcases List.mem_or_eq_of_mem_set hother with hmem | rfl
        · exact hinv.handled other hmem hsuspended'
        · rw [resolved_handle, resolved_chainState]
          exact hinv.handled state (List.mem_of_getElem? hstate) hsuspended
      · have hperm :=
          @perm_flatMap_set _ _ Thread.released _ _ _ (resolved state outcome) hstate hbefore
        rw [hafter, hwakes] at hperm
        exact (hinv.released.append_right [coro]).trans hperm.symm
      · exact hinv.scheduled.append (List.Sublist.refl [coro])

/-- Without room the promise is resolved as well, and scheduling the awaiter throws. -/
theorem exec_setOutcome_full (hinv : Invariant eventfd thread items)
    (hget : (Store.getState promise).exec thread.store = (.ok root, thread.store))
    (hstate : thread.store.states[root]? = some state) (hunset : state.stateSet = false)
    (hsuspended : state.futureSuspended = true)
    (hfull : thread.loop.scheduler.coroQueue.full = true) :
    ∃ error, (setOutcome eventfd promise outcome).exec thread =
      (.error (.thrown error), thread.withState root (resolved state outcome)) := by
  obtain ⟨coro, hcoro⟩ := hinv.handle_eq hstate hsuspended
  have hloads : (thread.withState root (resolved state outcome)).store.states[root]? =
      some (resolved state outcome) :=
    List.getElem?_set_self (List.getElem?_eq_some_iff.mp hstate).1
  have hexec : (setOutcome eventfd promise outcome).exec thread =
      (schedule eventfd coro).exec (thread.withState root (resolved state outcome)) := by
    rw [Thread.exec_setOutcome hget hstate hunset,
      exec_scheduleTask hloads (by rwa [resolved_futureSuspended]) (by rwa [resolved_handle])]
  have hschedule := @exec_schedule_full X T eventfd
    (thread.withState root (resolved state outcome)) hfull coro
  exact ⟨_, hexec.trans hschedule⟩

end Invariant

/-! ### The end of a coroutine -/

theorem exec_coReturn_ok {value : T} {next : Thread X T}
    (hset : (setOutcome eventfd promise (.ok value)).exec thread = (.ok (), next)) :
    (coReturn eventfd caught promise value).exec thread = (.ok (), next) := by
  unfold coReturn
  rw [Call.exec_tryCatch, hset]

/-- Where the promise has no state there is nothing to catch. -/
theorem exec_coReturn_lost {fault : Fault} {value : T}
    (hfault : fault = .diverged ∨ fault = .undefined .nullPointer)
    (hget : (Store.getState promise).exec thread.store = (.error fault, thread.store)) :
    (coReturn eventfd caught promise value).exec thread = (.error fault, thread) := by
  unfold coReturn
  rw [Call.exec_tryCatch, exec_setOutcome_lost hget]
  rcases hfault with rfl | rfl <;> rfl

/-- The exception cannot be stored either, once the promise is marked. -/
theorem exec_coReturn_thrown {value : T} {error : Error} {next : Thread X T}
    (hset : (setOutcome eventfd promise (.ok value)).exec thread = (.error (.thrown error), next))
    (hget : (Store.getState promise).exec next.store = (.ok root, next.store))
    (hstate : next.store.states[root]? = some state) (hmarked : state.stateSet = true) :
    ∃ error, (coReturn eventfd caught promise value).exec thread =
      (.error (.thrown error), next) := by
  have hcatch : ∃ error', (setOutcome eventfd promise
      (.error (caught (.thrown error)))).exec next = (.error (.thrown error'), next) :=
    exec_setOutcome_set hget hstate hmarked
  obtain ⟨error', hcatch⟩ := hcatch
  refine ⟨error', ?_⟩
  unfold coReturn
  rw [Call.exec_tryCatch, hset]
  exact hcatch

/-- The promise is still where it was when it has been marked. -/
theorem getState_withState
    (hget : (Store.getState promise).exec thread.store = (.ok root, thread.store))
    (hstate : thread.store.states[root]? = some state) :
    (Store.getState promise).exec (thread.withState root (resolved state outcome)).store =
      (.ok root, (thread.withState root (resolved state outcome)).store) := by
  have hresult : ((Store.getState promise).exec
      (thread.withState root (resolved state outcome)).store).1 = .ok root := by
    change ((Store.getState promise).exec
      ⟨thread.store.states.set root _, thread.store.scheduled, thread.store.room⟩).1 = .ok root
    rw [Store.exec_getState_set hstate (resolved_chainState state outcome), hget]
  obtain ⟨fault, hfault, hlost⟩ | ⟨found, last, hfound, -, -⟩ :=
    standing promise (thread.withState root (resolved state outcome)).store
  · rw [hlost] at hresult
    cases hresult
  · rw [hfound] at hresult ⊢
    cases hresult
    rfl

/-! ### What a resolving call does -/

/-- The promise cannot be resolved, and the call throws and changes nothing. -/
def Refused (thread : Thread X T) (call : Call Fault (Thread X T) Unit) : Prop :=
  ∃ fault, call.exec thread = (.error fault, thread)

/-- The promise is resolved, and the awaiter is in the queue. -/
def Resolved (eventfd : Handle) (promise : Nat) (outcome : Except X T) (thread : Thread X T)
    (items : List Coro) (call : Call Fault (Thread X T) Unit) : Prop :=
  ∃ next root state, call.exec thread = (.ok (), next) ∧
    (Store.getState promise).exec thread.store = (.ok root, thread.store) ∧
    thread.store.states[root]? = some state ∧ state.stateSet = false ∧
    next.store = thread.store.setAt root state outcome ∧
    Invariant eventfd next (items ++ state.wakes)

/-- The promise is resolved, and the awaiter is lost. -/
def Loses (thread : Thread X T) (call : Call Fault (Thread X T) Unit) : Prop :=
  ∃ fault next, call.exec thread = (.error fault, next) ∧ next ≠ thread

theorem withState_ne (hstate : thread.store.states[root]? = some state)
    (hunset : state.stateSet = false) :
    thread.withState root (resolved state outcome) ≠ thread := by
  intro hsame
  have hloads : (thread.withState root (resolved state outcome)).store.states[root]? =
      some (resolved state outcome) :=
    List.getElem?_set_self (List.getElem?_eq_some_iff.mp hstate).1
  rw [hsame, hstate, Option.some.injEq] at hloads
  have hset := resolved_stateSet state outcome
  rw [← hloads, hunset] at hset
  cases hset

section Cases

variable (hfd : eventfd ≠ 0) (hinv : Invariant eventfd thread items)
include hfd hinv

/-- With room, a call that is to resolve the promise does so or is refused. -/
theorem setOutcome_of_fits (outcome : Except X T) (hfits : Fits promise thread) :
    Refused thread (setOutcome eventfd promise outcome) ∨
      Resolved eventfd promise outcome thread items (setOutcome eventfd promise outcome) := by
  obtain ⟨fault, -, hlost⟩ | ⟨root, state, hget, hstate, -⟩ := standing promise thread.store
  · exact .inl ⟨fault, exec_setOutcome_lost hlost⟩
  · cases hset : state.stateSet with
    | true =>
        obtain ⟨error, hexec⟩ := exec_setOutcome_set hget hstate hset
        exact .inl ⟨.thrown error, hexec⟩
    | false =>
        obtain ⟨next, hexec, hstore, hnext⟩ :=
          hinv.exec_setOutcome hfd hget hstate hset (hfits root state hget hstate hset)
        exact .inr ⟨next, root, state, hexec, hget, hstate, hset, hstore, hnext⟩

theorem coReturn_of_fits (caught : Fault → X) (value : T) (hfits : Fits promise thread) :
    Refused thread (coReturn eventfd caught promise value) ∨
      Resolved eventfd promise (.ok value) thread items
        (coReturn eventfd caught promise value) := by
  obtain ⟨fault, hfault, hlost⟩ | ⟨root, state, hget, hstate, -⟩ := standing promise thread.store
  · exact .inl ⟨fault, exec_coReturn_lost hfault hlost⟩
  · cases hset : state.stateSet with
    | true =>
        obtain ⟨error, hexec⟩ := exec_setOutcome_set hget hstate hset
        obtain ⟨error', hreturn⟩ := exec_coReturn_thrown hexec hget hstate hset
        exact .inl ⟨.thrown error', hreturn⟩
    | false =>
        obtain ⟨next, hexec, hstore, hnext⟩ :=
          hinv.exec_setOutcome hfd hget hstate hset (hfits root state hget hstate hset)
        exact .inr ⟨next, root, state, exec_coReturn_ok hexec, hget, hstate, hset, hstore, hnext⟩

end Cases

section Full

variable (hinv : Invariant eventfd thread items)
include hinv

/-- Without room, the promise is resolved by a call that throws. -/
theorem loses_of_not_fits (caught : Fault → X) (hfits : ¬ Fits promise thread) :
    (∀ outcome, Loses thread (setOutcome eventfd promise outcome)) ∧
      ∀ value, Loses thread (coReturn eventfd caught promise value) := by
  unfold Fits at hfits
  push Not at hfits
  obtain ⟨root, state, hget, hstate, hunset, hsuspended, hfull⟩ := hfits
  rw [Ne, Bool.not_eq_false] at hfull
  constructor
  · intro outcome
    obtain ⟨error, hexec⟩ := hinv.exec_setOutcome_full hget hstate hunset hsuspended hfull
    exact ⟨_, _, hexec, withState_ne hstate hunset⟩
  · intro value
    obtain ⟨error, hexec⟩ := hinv.exec_setOutcome_full hget hstate hunset hsuspended hfull
    have hloads : (thread.withState root (resolved state (.ok value))).store.states[root]? =
        some (resolved state (.ok value)) :=
      List.getElem?_set_self (List.getElem?_eq_some_iff.mp hstate).1
    obtain ⟨error', hreturn⟩ := exec_coReturn_thrown hexec (getState_withState hget hstate) hloads
      (resolved_stateSet state _)
    exact ⟨_, _, hreturn, withState_ne hstate hunset⟩

end Full

theorem atomic_of_cases {call : Call Fault (Thread X T) Unit}
    (hinv : Invariant eventfd thread items)
    (hcases : Refused thread call ∨ Resolved eventfd promise outcome thread items call) :
    Atomic promise outcome thread call := by
  obtain ⟨fault, hexec⟩ | ⟨next, root, state, hexec, hget, hstate, hunset, hstore, hnext⟩ := hcases
  · refine ⟨fun hreturned => ?_, fun fault' _ => ?_⟩
    · rw [hexec] at hreturned
      cases hreturned
    · unfold Thread.after
      rw [hexec]
  · refine ⟨fun _ => ?_, fun fault' hthrew => ?_⟩
    · unfold Thread.after
      rw [hexec]
      exact ⟨root, state, items, hget, hstate, hunset, hstore, hinv.loop.holds, hnext.loop.holds⟩
    · rw [hexec] at hthrew
      cases hthrew

theorem not_atomic_of_loses {call : Call Fault (Thread X T) Unit} (hloses : Loses thread call) :
    ¬ Atomic promise outcome thread call := by
  obtain ⟨fault, next, hexec, hne⟩ := hloses
  intro hatomic
  have hsame := hatomic.threw fault (by rw [hexec])
  unfold Thread.after at hsame
  rw [hexec] at hsame
  exact hne hsame

/-! ### Steps and runs -/

/-- The state whose value was taken out. -/
def emptied (state : SharedPromiseState X T) : SharedPromiseState X T :=
  { state with value := .movedFrom }

theorem exec_moveOut {store : Store X T} (hstate : store.states[place]? = some state) :
    (Promise.moveOut place).exec store =
      (.ok (), { store with states := store.states.set place (emptied state) }) := by
  unfold Promise.moveOut
  rw [Call.exec_bind_ok (Store.exec_load hstate), Store.exec_save]
  rfl

theorem exec_awaitResume_marked {store : Store X T} (hstate : store.states[place]? = some state)
    (hends : state.chainState = none) (hset : state.stateSet = true) :
    ((Future.awaitResume place).exec store).2 = store ∨
      ((Future.awaitResume place).exec store).2 =
        { store with states := store.states.set place (emptied state) } := by
  have hmarked : ¬ (!state.stateSet) = true := by
    rw [hset]
    decide
  unfold Future.awaitResume
  rw [Call.exec_bind_ok (Store.exec_getState_self hstate hends),
    Call.exec_bind_ok (Store.exec_load hstate), if_neg hmarked]
  cases state.exception with
  | some exception => exact .inl rfl
  | none =>
      cases Promise.held state with
      | error fault => exact .inl rfl
      | ok value =>
          dsimp only
          rw [Call.exec_bind_ok (exec_moveOut hstate)]
          exact .inr rfl

/-- A coroutine that goes on at once takes the value out, at most. -/
theorem exec_await_marked {store : Store X T} (hstate : store.states[place]? = some state)
    (hends : state.chainState = none) (hset : state.stateSet = true) (coro : Coro) :
    ((Future.await place coro).exec store).2 = store ∨
      ((Future.await place coro).exec store).2 =
        { store with states := store.states.set place (emptied state) } := by
  have hresume := exec_awaitResume_marked hstate hends hset
  unfold Future.await
  rw [Call.exec_bind_ok (Future.exec_awaitReady hstate), if_pos hset, Call.exec_bind]
  rcases hexec : (Future.awaitResume place).exec store with ⟨result, next⟩
  rw [hexec] at hresume
  cases result <;> exact hresume

namespace Invariant

section Steps

variable (hinv : Invariant eventfd thread items)
include hinv

theorem await (hstate : thread.store.states[place]? = some state)
    (hends : state.chainState = none) (coro : Coro) :
    Invariant eventfd (thread.after (onStore (Future.await place coro))) items := by
  unfold Thread.after
  rw [exec_onStore]
  cases hset : state.stateSet with
  | true =>
      obtain hsame | hmoved := exec_await_marked hstate hends hset coro
      · rw [hsame]
        exact hinv
      · rw [hmoved]
        exact hinv.withSame hstate rfl rfl rfl fun _ => rfl
  | false =>
      rw [Future.exec_await_unset hstate hset]
      apply hinv.withState hstate
      · unfold Thread.released
        rw [hset]
        rfl
      · exact fun _ => ⟨⟨coro, rfl⟩, hends⟩

/-- What a call leaves that resolves the promise or is refused. -/
theorem of_cases {call : Call Fault (Thread X T) Unit}
    (hcases : Refused thread call ∨ Resolved eventfd promise outcome thread items call) :
    ∃ items, Invariant eventfd (thread.after call) items := by
  unfold Thread.after
  obtain ⟨fault, hexec⟩ | ⟨next, root, state, hexec, -, -, -, -, hnext⟩ := hcases
  · rw [hexec]
    exact ⟨items, hinv⟩
  · rw [hexec]
    exact ⟨_, hnext⟩

/-- Taking a value out of a state after a call that may have resolved another one. -/
theorem moveOut (hstate : ∃ state, thread.store.states[place]? = some state) :
    Invariant eventfd (thread.after (onStore (Promise.moveOut place))) items := by
  obtain ⟨state, hstate⟩ := hstate
  unfold Thread.after
  rw [exec_onStore, exec_moveOut hstate]
  exact hinv.withSame hstate rfl rfl rfl fun _ => rfl

theorem returnFuture (hfd : eventfd ≠ 0) (hfits : Fits promise thread)
    (hstate : thread.store.states[place]? = some state)
    (hunawaited : state.stateSet = false → state.futureSuspended = false) :
    ∃ items,
      Invariant eventfd (thread.after (Thread.returnFuture eventfd promise place)) items := by
  have hload := @exec_onStore_eq X T _ (Store.load place) thread _ _ (Store.exec_load hstate)
  have hreturn : (Thread.returnFuture eventfd promise place).exec thread = _ :=
    Call.exec_bind_ok hload
  unfold Thread.after
  rw [hreturn]
  cases hset : state.stateSet with
  | false =>
      refine ⟨items, hinv.withSame hstate hset.symm rfl rfl fun hsuspended => ?_⟩
      rw [hunawaited hset] at hsuspended
      cases hsuspended
  | true =>
      rw [if_pos rfl]
      cases state.exception with
      | some exception =>
          exact hinv.of_cases (setOutcome_of_fits hfd hinv (.error exception) hfits)
      | none =>
          cases Promise.held state with
          | error fault => exact ⟨items, hinv⟩
          | ok value =>
              dsimp only
              obtain ⟨fault, hexec⟩ | ⟨next, root, state', hexec, -, -, -, hstore, hnext⟩ :=
                setOutcome_of_fits hfd hinv (.ok value) hfits
              · rw [Call.exec_bind_error hexec]
                exact ⟨items, hinv⟩
              · rw [Call.exec_bind_ok hexec]
                refine ⟨_, hnext.moveOut ?_⟩
                have hlength : place < next.store.states.length := by
                  rw [hstore]
                  unfold Store.setAt
                  rw [List.length_set]
                  exact (List.getElem?_eq_some_iff.mp hstate).1
                exact ⟨_, List.getElem?_eq_getElem hlength⟩

theorem make : Invariant eventfd
    { thread with store := { thread.store with
      states := thread.store.states ++ [SharedPromiseState.make] } } items where
  loop := hinv.loop
  handled other hother hsuspended := by
    rcases List.mem_append.mp hother with hmem | hnew
    · exact hinv.handled other hmem hsuspended
    · rw [List.mem_singleton.mp hnew] at hsuspended
      cases hsuspended
  released := by
    have hnone : Thread.released (SharedPromiseState.make : SharedPromiseState X T) = [] := rfl
    change thread.store.scheduled.Perm
      ((thread.store.states ++ [SharedPromiseState.make]).flatMap _)
    rw [List.flatMap_append, List.flatMap_singleton, hnone, List.append_nil]
    exact hinv.released
  scheduled := hinv.scheduled

theorem loopStep (hfd : eventfd ≠ 0) {action : EventLoop.Action} {loop : EventLoop}
    (hstep : EventLoop.Step eventfd thread.loop action loop) :
    ∃ items, Invariant eventfd { thread with loop } items := by
  obtain ⟨items', hloop⟩ := hstep.invariant hfd ⟨items, hinv.loop⟩
  refine ⟨items', hloop, hinv.handled, hinv.released, hinv.scheduled.trans ?_⟩
  cases hstep with
  | schedule hroom coro => exact List.sublist_append_left _ _
  | _ => exact List.Sublist.refl _

end Steps

theorem start {scheduler : Scheduler} {capacity : Nat}
    (hmake : Scheduler.make capacity = .ok scheduler) :
    Invariant eventfd (Thread.start scheduler : Thread X T) [] where
  loop := EventLoop.invariant_start hmake
  handled := nofun
  released := List.Perm.refl []
  scheduled := List.Sublist.refl []

end Invariant

theorem Step.invariant {before : Thread X T} {action : Action X T} (hfd : eventfd ≠ 0)
    (hfits : ∀ promise, action.resolves = some promise → Fits promise before)
    (hstep : Step eventfd caught before action after)
    (hinv : ∃ items, Invariant eventfd before items) :
    ∃ items, Invariant eventfd after items := by
  obtain ⟨items, hinv⟩ := hinv
  cases hstep with
  | make => exact ⟨items, hinv.make⟩
  | await hstate hends coro => exact ⟨items, hinv.await hstate hends coro⟩
  | set promise outcome =>
      exact hinv.of_cases (setOutcome_of_fits hfd hinv outcome (hfits promise rfl))
  | coReturn promise value =>
      exact hinv.of_cases (coReturn_of_fits hfd hinv caught value (hfits promise rfl))
  | returnFuture hstate hunawaited promise =>
      exact hinv.returnFuture hfd (hfits promise rfl) hstate hunawaited
  | loop hstep => exact hinv.loopStep hfd hstep

section Runs

variable {scheduler : Scheduler} {actions : List (Action X T)}

/-- **No awaiter is lost.** In a run in which nothing is resolved whose awaiter has no room in the
queue, no awaiter of a resolved promise is lost. In every state that such a run reaches, resolving a
promise is atomic exactly if there is room for its awaiter, whether a call does it or the end of a
coroutine. -/
theorem noneLost_of_run {capacity : Nat} (hfd : eventfd ≠ 0)
    (hmake : Scheduler.make capacity = .ok scheduler)
    (hrun : Run (Step eventfd caught) (start scheduler) actions thread)
    (hfits : ∀ before action after,
      Run.Takes (Step eventfd caught) (start scheduler) actions thread before action after →
        ∀ promise, action.resolves = some promise → Fits promise before) :
    NoneLost eventfd thread ∧ ∀ promise,
      (∀ outcome, Atomic promise outcome thread (setOutcome eventfd promise outcome) ↔
        Fits promise thread) ∧
      ∀ value, Atomic promise (.ok value) thread (coReturn eventfd caught promise value) ↔
        Fits promise thread := by
  have hreached : ∃ items, Invariant eventfd thread items := by
    apply hrun.preserves_of_takes (fun thread => ∃ items, Invariant eventfd thread items)
      (fun hfits hstep => hstep.invariant hfd hfits) hfits
    exact ⟨[], Invariant.start hmake⟩
  obtain ⟨items, hinv⟩ := hreached
  refine ⟨hinv.noneLost hfd, fun promise => ⟨fun outcome => ⟨?_, ?_⟩, fun value => ⟨?_, ?_⟩⟩⟩
  · intro hatomic
    by_contra hfull
    exact not_atomic_of_loses ((loses_of_not_fits hinv caught hfull).1 outcome) hatomic
  · intro hroom
    exact atomic_of_cases hinv (setOutcome_of_fits hfd hinv outcome hroom)
  · intro hatomic
    by_contra hfull
    exact not_atomic_of_loses ((loses_of_not_fits hinv caught hfull).2 value) hatomic
  · intro hroom
    exact atomic_of_cases hinv (coReturn_of_fits hfd hinv caught value hroom)

end Runs

/-- A thread with one promise, for which the coroutine waits. -/
def waiting (scheduler : Scheduler) (coro : Coro) : Thread Unit Nat :=
  ⟨⟨[⟨false, true, none, some coro, .empty, none⟩], [], none⟩, EventLoop.start scheduler⟩

theorem run_waiting (scheduler : Scheduler) (coro : Coro) :
    Run (Step 5 fun _ => ()) (start scheduler) [.make, .await 0 coro] (waiting scheduler coro) :=
  .cons .make (.cons (.await rfl rfl coro) (.nil _))

/-- A queue of two slots has room for the one that waits. -/
theorem noneLost_waiting :
    NoneLost 5 ((waiting EventLoop.forTwo 1).after (setOutcome 5 0 (.ok 7))) ∧ ∀ promise,
      (∀ outcome, Atomic promise outcome
          ((waiting EventLoop.forTwo 1).after (setOutcome 5 0 (.ok 7)))
          (setOutcome 5 promise outcome) ↔
        Fits promise ((waiting EventLoop.forTwo 1).after (setOutcome 5 0 (.ok 7)))) ∧
      ∀ value, Atomic promise (.ok value)
          ((waiting EventLoop.forTwo 1).after (setOutcome 5 0 (.ok 7)))
          (coReturn 5 (fun _ => ()) promise value) ↔
        Fits promise ((waiting EventLoop.forTwo 1).after (setOutcome 5 0 (.ok 7))) := by
  apply noneLost_of_run (by decide) (show Scheduler.make 2 = .ok EventLoop.forTwo from
    if_neg (by decide)) ((run_waiting EventLoop.forTwo 1).append (.cons (.set 0 (.ok 7)) (.nil _)))
  rintro before action after ⟨earlier, later, hactions, hearlier, -, -⟩ promise hresolves
  rcases earlier with _ | ⟨_, _ | ⟨_, _ | ⟨_, earlier⟩⟩⟩
  · cases hactions
    cases hresolves
  · cases hactions
    cases hresolves
  · cases hactions
    cases hearlier with
    | cons hmake hrest =>
        cases hmake
        cases hrest with
        | cons hawait hnil =>
            cases hawait
            cases hnil
            exact fun _ _ _ _ _ _ => rfl
  · cases earlier <;> cases hactions

/-- A queue of one slot is full with another coroutine. The promise is resolved, the coroutine that
waits for it is not scheduled, and it cannot be resolved again. -/
theorem loses_one :
    ∃ actions thread, Run (Step 5 fun _ => ()) (start ⟨⟨[]⟩, .make 1, 0, 0⟩) actions thread ∧
      ¬ NoneLost 5 thread ∧ 1 ∉ thread.loop.scheduled ∧
      ((setOutcome 5 0 (.ok 7)).exec thread).1 =
        .error (.thrown ⟨.failedPrecondition, "Promise state already set previously."⟩) := by
  have hroom : (waiting ⟨⟨[]⟩, .make 1, 0, 0⟩ 1).loop.scheduler.coroQueue.full = false := rfl
  refine ⟨_, _, (run_waiting _ 1).append (.cons (.loop (.schedule hroom 9))
    (.cons (.set 0 (.ok 7)) (.nil _))), ?_, ?_, ?_⟩
  · intro hnone
    have hlength := hnone.released.length_eq
    revert hlength
    decide
  · decide
  · decide

end Thread

end Liblw.Co
