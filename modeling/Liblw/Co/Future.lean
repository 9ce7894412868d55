import Liblw.Co.Scheduler

/-!
# Futures and promises

A promise and its future share a state. A coroutine that returns another future hands its promise
on: that future's state is chained to the promise's, and what resolves the one resolves the other.
The shared states are in a store, and a pointer to one is its place there. Of the queue that
coroutines are scheduled to the promises see only how many more it takes.
-/

namespace Liblw.Co

open Liblw.Lib

variable {X T : Type}

/-- A `std::optional` whose value may have been moved out. -/
inductive Held (T : Type) where
  | empty
  | holds (value : T)
  | movedFrom
deriving DecidableEq, Repr

/-- An exception is of any type, and the scheduler is that of the one thread. -/
structure SharedPromiseState (X T : Type) where
  stateSet : Bool
  futureSuspended : Bool
  exception : Option X
  handle : Option Coro
  value : Held T
  chainState : Option Nat
deriving DecidableEq, Repr

def SharedPromiseState.make : SharedPromiseState X T := ⟨false, false, none, none, .empty, none⟩

/-- How many coroutines the scheduler's queue still takes. -/
structure Room where
  capacity : Nat
  free : Nat
deriving DecidableEq, Repr

/-- The shared states, and the coroutines that were scheduled. A queue that is never full has no
bound to its room. -/
structure Store (X T : Type) where
  states : List (SharedPromiseState X T)
  scheduled : List Coro
  room : Option Room
deriving DecidableEq, Repr

/-- The room once a coroutine was put into the queue. -/
def Room.taken (room : Room) : Room := { room with free := room.free - 1 }

/-- The room once a coroutine has left the queue. -/
def Room.given (room : Room) : Room := { room with free := room.free + 1 }

namespace Store

def load (place : Nat) : Call Fault (Store X T) (SharedPromiseState X T) := do
  let store ← get
  match store.states[place]? with
  | some state => pure state
  | none => throw (.undefined .nullPointer)

def save (place : Nat) (state : SharedPromiseState X T) : Call Fault (Store X T) Unit :=
  modify fun store => { store with states := store.states.set place state }

/-- The loop of `_get_state`. It ends within as many steps as there are states, or never. -/
def followChain : (steps : Nat) → (place : Nat) → Call Fault (Store X T) Nat
  | 0, _ => throw .diverged
  | steps + 1, place => do
      let state ← load place
      match state.chainState with
      | some next => followChain steps next
      | none => pure place

def getState (place : Nat) : Call Fault (Store X T) Nat := do
  let store ← get
  followChain store.states.length place

/-- Whether the queue takes no coroutine any more. -/
def full (store : Store X T) : Bool := store.room.any fun room => room.free = 0

def pushed (store : Store X T) (coro : Coro) : Store X T :=
  { store with scheduled := store.scheduled ++ [coro], room := store.room.map Room.taken }

/-- A coroutine leaves the queue to be resumed. -/
def popped (store : Store X T) : Store X T := { store with room := store.room.map Room.given }

/-- `Scheduler::schedule`. -/
def schedule (coro : Coro) : Call Fault (Store X T) Unit := do
  let store ← get
  match store.room.filter fun room => room.free = 0 with
  | some room =>
      let capacity := room.capacity
      raise .resourceExhausted
        s!"CircularQueue at capacity ({capacity}), cannot add more items."
  | none => set (store.pushed coro)

/-- No awaiter has to go into a full queue for the promise to be resolved. -/
def Fits (promise : Nat) (store : Store X T) : Prop :=
  ∀ root state, (getState promise).exec store = (.ok root, store) →
    store.states[root]? = some state → state.stateSet = false →
      state.futureSuspended = true → store.full = false

end Store

/-! ### Promises -/

namespace Promise

def claimStateSet (place : Nat) : Call Fault (Store X T) Unit := do
  let state ← Store.load place
  Store.save place { state with stateSet := true }
  if state.stateSet then raise .failedPrecondition "Promise state already set previously."
  else pure ()

def scheduleTask (place : Nat) : Call Fault (Store X T) Unit := do
  let state ← Store.load place
  if state.futureSuspended then
    match state.handle with
    | some coro => Store.schedule coro
    | none => throw (.undefined .nullPointer)
  else pure ()

/-- What is stored for a value or an exception. -/
def withOutcome (state : SharedPromiseState X T) : Except X T → SharedPromiseState X T
  | .ok value => { state with value := .holds value }
  | .error exception => { state with exception := some exception }

/-- `set_value` and `set_exception`, which differ in what they store. -/
def setOutcome (promise : Nat) (outcome : Except X T) : Call Fault (Store X T) Unit := do
  let place ← Store.getState promise
  claimStateSet place
  let state ← Store.load place
  Store.save place (withOutcome state outcome)
  scheduleTask place

def setValue (promise : Nat) (value : T) : Call Fault (Store X T) Unit :=
  setOutcome promise (.ok value)

def setException (promise : Nat) (exception : X) : Call Fault (Store X T) Unit :=
  setOutcome promise (.error exception)

/-- `*value`, of an optional that is to have one. -/
def held (state : SharedPromiseState X T) : Result T :=
  match state.value with
  | .holds value => .ok value
  | .empty => .error (.undefined .emptyOptional)
  | .movedFrom => .error (.undefined .movedFrom)

/-- The value goes out of the state. -/
def moveOut (place : Nat) : Call Fault (Store X T) Unit := do
  let state ← Store.load place
  Store.save place { state with value := .movedFrom }

/-- `return_value` with a future, whose state is at the place. -/
def returnFuture (promise place : Nat) : Call Fault (Store X T) Unit := do
  let state ← Store.load place
  if state.stateSet then
    match state.exception with
    | some exception => setException promise exception
    | none =>
        match held state with
        | .ok value =>
            setValue promise value
            moveOut place
        | .error fault => throw fault
  else Store.save place { state with chainState := some promise }

end Promise

/-! ### Futures -/

namespace Future

def awaitReady (place : Nat) : Call Fault (Store X T) Bool := do
  let state ← Store.load place
  pure state.stateSet

def awaitSuspend (place : Nat) (handle : Coro) : Call Fault (Store X T) Bool := do
  let state ← Store.load place
  Store.save place { state with handle := some handle, futureSuspended := !state.stateSet }
  pure !state.stateSet

/-- The value, or the exception that is thrown on. -/
def awaitResume (future : Nat) : Call Fault (Store X T) (Except X T) := do
  let place ← Store.getState future
  let state ← Store.load place
  if !state.stateSet then
    raise .failedPrecondition "Cannot resume future before state is set on promise."
  else
    match state.exception with
    | some exception => pure (.error exception)
    | none =>
        match Promise.held state with
        | .ok value =>
            Promise.moveOut place
            pure (.ok value)
        | .error fault => throw fault

/-- `co_await` in a coroutine, up to where it goes on with the outcome or is suspended. -/
def await (future : Nat) (handle : Coro) :
    Call Fault (Store X T) (Option (Except X T)) := do
  let ready ← awaitReady future
  if ready then
    let outcome ← awaitResume future
    pure (some outcome)
  else
    let suspends ← awaitSuspend future handle
    if suspends then pure none
    else
      let outcome ← awaitResume future
      pure (some outcome)

end Future

end Liblw.Co
