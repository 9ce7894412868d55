import Liblw.Co.Future

/-!
# Resolving promises on a scheduler

The promises of a thread together with its scheduler, whose queue has a bound. A promise is marked
as set before its awaiter is scheduled, so scheduling may fail when the promise is resolved already.
In a coroutine that failure comes back to the promise: what `return_value` throws is an exception
that the body of the coroutine does not handle.

A `Promise<void>` is the promise of a value of no content.
-/

namespace Liblw.Co

open Liblw.Lib

variable {X T : Type}

/-- The record that the store has of what was scheduled is of what its promises scheduled. The queue
is the scheduler's, and the store has no room of its own. -/
structure Thread (X T : Type) where
  store : Store X T
  loop : EventLoop

namespace Thread

def start (scheduler : Scheduler) : Thread X T := ⟨⟨[], [], none⟩, ⟨scheduler, .idle, [], []⟩⟩

def onStore {α : Type} (call : Call Fault (Store X T) α) : Call Fault (Thread X T) α :=
  call.within store fun store thread => { thread with store }

def onScheduler (call : Call Fault Scheduler Unit) : Call Fault (Thread X T) Unit :=
  call.within (fun thread => thread.loop.scheduler) fun scheduler thread =>
    { thread with loop := { thread.loop with scheduler } }

/-- What was put into the queue is kept on record. -/
def record (coro : Coro) : Call Fault (Thread X T) Unit :=
  modify fun thread =>
    { store := thread.store.pushed coro
      loop := { thread.loop with scheduled := thread.loop.scheduled ++ [coro] } }

section Calls

variable (eventfd : Handle)

/-- `Scheduler::schedule`. -/
def schedule (coro : Coro) : Call Fault (Thread X T) Unit := do
  onScheduler (Scheduler.addToQueue eventfd coro)
  record coro

def scheduleTask (place : Nat) : Call Fault (Thread X T) Unit := do
  let state ← onStore (Store.load place)
  if state.futureSuspended then
    match state.handle with
    | some coro => schedule eventfd coro
    | none => throw (.undefined .nullPointer)
  else pure ()

/-- `set_value` and `set_exception`, which differ in what they store. -/
def setOutcome (promise : Nat) (outcome : Except X T) : Call Fault (Thread X T) Unit := do
  let place ← onStore (Store.getState promise)
  onStore (Promise.claimStateSet place)
  let state ← onStore (Store.load place)
  onStore (Store.save place (Promise.withOutcome state outcome))
  scheduleTask eventfd place

/-- `caught` is the exception that is thrown for a fault. What has no meaning is not caught. -/
def unhandledException (caught : Fault → X) (promise : Nat) : Fault → Call Fault (Thread X T) Unit
  | .thrown error => setOutcome eventfd promise (.error (caught (.thrown error)))
  | .standard exception => setOutcome eventfd promise (.error (caught (.standard exception)))
  | fault => throw fault

/-- `co_return` of a value. -/
def coReturn (caught : Fault → X) (promise : Nat) (value : T) : Call Fault (Thread X T) Unit :=
  tryCatch (setOutcome eventfd promise (.ok value)) (unhandledException eventfd caught promise)

/-- `return_value` with a future, whose state is at the place. -/
def returnFuture (promise place : Nat) : Call Fault (Thread X T) Unit := do
  let state ← onStore (Store.load place)
  if state.stateSet then
    match state.exception with
    | some exception => setOutcome eventfd promise (.error exception)
    | none =>
        match Promise.held state with
        | .ok value =>
            setOutcome eventfd promise (.ok value)
            onStore (Promise.moveOut place)
        | .error fault => throw fault
  else onStore (Store.save place { state with chainState := some promise })

end Calls

/-! ### Runs -/

/-- A promise is made, its future is awaited by a coroutine, it is resolved by a call or at the end
of a coroutine, it is handed on to another future, or the event loop does something else. -/
inductive Action (X T : Type) where
  | make
  | await (place : Nat) (coro : Coro)
  | set (promise : Nat) (outcome : Except X T)
  | coReturn (promise : Nat) (value : T)
  | returnFuture (promise place : Nat)
  | loop (action : EventLoop.Action)

/-- What a call leaves of the thread, whether it returns or throws. -/
def after {α : Type} (thread : Thread X T) (call : Call Fault (Thread X T) α) : Thread X T :=
  (call.exec thread).2

variable (eventfd : Handle) (caught : Fault → X)

/-- A future that was handed on is not awaited any more, and one that is awaited is not handed
on. -/
inductive Step : Thread X T → Action X T → Thread X T → Prop where
  | make {thread : Thread X T} :
      Step thread .make
        { thread with store := { thread.store with states := thread.store.states ++ [.make] } }
  | await {thread : Thread X T} {place : Nat} {state : SharedPromiseState X T}
      (hstate : thread.store.states[place]? = some state) (hends : state.chainState = none)
      (coro : Coro) :
      Step thread (.await place coro) (thread.after (onStore (Future.await place coro)))
  | set {thread : Thread X T} (promise : Nat) (outcome : Except X T) :
      Step thread (.set promise outcome) (thread.after (setOutcome eventfd promise outcome))
  | coReturn {thread : Thread X T} (promise : Nat) (value : T) :
      Step thread (.coReturn promise value) (thread.after (coReturn eventfd caught promise value))
  | returnFuture {thread : Thread X T} {place : Nat} {state : SharedPromiseState X T}
      (hstate : thread.store.states[place]? = some state)
      (hunawaited : state.stateSet = false → state.futureSuspended = false) (promise : Nat) :
      Step thread (.returnFuture promise place) (thread.after (returnFuture eventfd promise place))
  | loop {thread : Thread X T} {action : EventLoop.Action} {loop : EventLoop}
      (hstep : EventLoop.Step eventfd thread.loop action loop) :
      Step thread (.loop action) { thread with loop }

/-- The promise that an action is to resolve. -/
def Action.resolves : Action X T → Option Nat
  | .set promise _ => some promise
  | .coReturn promise _ => some promise
  | .returnFuture promise _ => some promise
  | _ => none

end Thread

end Liblw.Co
