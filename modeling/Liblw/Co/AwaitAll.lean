import Liblw.Co.Future

/-!
# Awaiting all of several futures

`all` is a coroutine that awaits its futures one after another and returns the tuple of their
values. The awaits are arguments of one call, so they come in any order, but each of them before the
next. The types of the values are not told apart here, and the tuple is the list of them. It starts
at once and is destroyed when it ends.
-/

namespace Liblw.Co

open Liblw.Lib

variable {X T : Type}

/-- Where the coroutine is: it waits for the future at the place, and awaits those that are pending
after it. The slots are the arguments of `std::make_tuple`. -/
inductive AllFrame (T : Type) where
  | uncalled
  | suspended (place : Nat) (pending : List Nat) (slots : List (Option T))
  | ended
deriving DecidableEq, Repr

/-- The states of the futures are at their positions in `store`, and that of the future that is
returned is at zero in `result`. The queue's room is that of `store`. `resumed` counts how often the
coroutine was resumed, and `resolutions` how often it resolved its promise. -/
structure AwaitAll (X T : Type) where
  store : Store X T
  result : Store X (List T)
  frame : AllFrame T
  resumed : Nat
  resolutions : Nat

namespace AwaitAll

def start (count : Nat) (room : Option Room) : AwaitAll X T where
  store := ⟨List.replicate count .make, [], room⟩
  result := ⟨[.make], [], room⟩
  frame := .uncalled
  resumed := 0
  resolutions := 0

def onStore {α : Type} (call : Call Fault (Store X T) α) : Call Fault (AwaitAll X T) α :=
  call.within store fun store system => { system with store }

def onResult {α : Type} (call : Call Fault (Store X (List T)) α) :
    Call Fault (AwaitAll X T) α :=
  call.within (fun system => { system.result with room := system.store.room })
    fun result system => { system with result, store := { system.store with room := result.room } }

/-! ### The coroutine -/

/-- The promise is resolved, and the coroutine is over. -/
def conclude (outcome : Except X (List T)) : Call Fault (AwaitAll X T) Unit := do
  onResult (Promise.setOutcome 0 outcome)
  modify fun system => { system with frame := .ended, resolutions := system.resolutions + 1 }

/-- From one `co_await` to the next that suspends the coroutine, or to its end. -/
def evaluate (handle : Coro) :
    (pending : List Nat) → (slots : List (Option T)) → Call Fault (AwaitAll X T) Unit
  | [], slots =>
      match slots.mapM id with
      | some values => conclude (.ok values)
      | none => throw (.undefined .uninitialized)
  | place :: pending, slots => do
      match ← onStore (Future.await place handle) with
      | none => modify fun system => { system with frame := .suspended place pending slots }
      | some (.ok value) => evaluate handle pending (slots.set place (some value))
      | some (.error exception) => conclude (.error exception)

variable (caught : Fault → X)

/-- `caught` is the exception that is thrown for a fault. What has no meaning is not caught. -/
def unhandledException : Fault → Call Fault (AwaitAll X T) Unit
  | .thrown error => conclude (.error (caught (.thrown error)))
  | .standard exception => conclude (.error (caught (.standard exception)))
  | fault => throw fault

/-- `all`, of so many futures, which are awaited in the order. -/
def all (count : Nat) (order : List Nat) (handle : Coro) : Call Fault (AwaitAll X T) Unit :=
  tryCatch (evaluate handle order (List.replicate count none)) (unhandledException caught)

/-- The coroutine goes on. A handle points to nothing before the call and after the end. -/
def resume (handle : Coro) : Call Fault (AwaitAll X T) Unit := do
  let system ← get
  match system.frame with
  | .suspended place pending slots =>
      tryCatch
        (do
          match ← onStore (Future.awaitResume place) with
          | .ok value => evaluate handle pending (slots.set place (some value))
          | .error exception => conclude (.error exception))
        (unhandledException caught)
  | _ => throw (.undefined .nullPointer)

/-! ### Runs -/

/-- The promise of a future is resolved, `all` is called, the coroutine is resumed that was put into
the queue, the future that is returned is awaited, or other coroutines go through the queue. -/
inductive Action where
  | resolve (place : Nat)
  | call
  | resume
  | await (coro : Coro)
  | others (free : Nat)
deriving DecidableEq, Repr

/-- No awaiter has to go into a full queue for the action. The coroutine that is resumed has left a
place in the queue for the one that awaits it. -/
def Action.Fits (system : AwaitAll X T) : Action → Prop
  | .resolve place => system.store.Fits place
  | _ => True

def popped (system : AwaitAll X T) : AwaitAll X T :=
  { system with store := system.store.popped }

def after {α : Type} (system : AwaitAll X T) (call : Call Fault (AwaitAll X T) α) :
    AwaitAll X T :=
  (call.exec system).2

/-- Every promise is resolved with its value. Only the coroutine of `all` awaits the futures, so the
queue has its handle as often as they have scheduled one. -/
inductive Step (caught : Fault → X) (count : Nat) (order : List Nat) (values : Nat → T)
    (handle : Coro) : AwaitAll X T → Action → AwaitAll X T → Prop where
  | resolve {system : AwaitAll X T} {place : Nat} (hplace : place < count) :
      Step caught count order values handle system (.resolve place)
        (system.after (onStore (Promise.setValue place (values place))))
  | call {system : AwaitAll X T} (huncalled : system.frame = .uncalled) :
      Step caught count order values handle system .call
        (system.after (all caught count order handle))
  | resume {system : AwaitAll X T} (hqueued : system.resumed < system.store.scheduled.length) :
      Step caught count order values handle system .resume
        { system.popped.after (resume caught handle) with resumed := system.resumed + 1 }
  | await {system : AwaitAll X T} (hcalled : system.frame ≠ .uncalled)
      (hunresolved : system.resolutions = 0) (coro : Coro) :
      Step caught count order values handle system (.await coro)
        (system.after (onResult (Future.await 0 coro)))
  | others {system : AwaitAll X T} {room : Room} (hroom : system.store.room = some room)
      (free : Nat) (hfree : free ≤ room.capacity) :
      Step caught count order values handle system (.others free)
        { system with store := { system.store with room := some { room with free } } }

end AwaitAll

end Liblw.Co
