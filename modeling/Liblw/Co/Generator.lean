import Liblw.Co.Future

/-!
# Async generators

A generator and its consumer are two coroutines that share a promise. The consumer replaces it with
a fresh one each time it asks for the next value, and the generator sets it each time it yields. A
future that is yielded is awaited by a third coroutine, which sets the promise in the generator's
place while that waits.
-/

namespace Liblw.Co

open Liblw.Lib

variable {α T : Type}

/-- A generator suspends, yields a value, or yields a future: one that is set or one that is set
later on. -/
inductive Item (T : Type) where
  | suspend
  | plain (value : T)
  | future (ready : Bool) (value : T)
deriving DecidableEq, Repr

/-- `next` is the place of the promise's state. -/
structure SharedState (T : Type) where
  done : Bool
  next : Nat
  currentValue : Option T
deriving DecidableEq, Repr

/-- What a generator with these items still to come is at. A parked one is suspended by
`suspend_always`, and no one has its handle. -/
inductive Producer (T : Type) where
  | running (items : List (Item T))
  | asleep (items : List (Item T))
  | scheduled (items : List (Item T))
  | yielding (future : Nat) (items : List (Item T))
  | parked (items : List (Item T))
  | finished
  | failed
deriving DecidableEq, Repr

/-- The coroutine of `yield_value` while the future it awaits is not set, and while it is
scheduled. -/
inductive Inner (T : Type) where
  | absent
  | suspended (promise : Nat) (value : T)
  | scheduled (promise : Nat) (value : T)
deriving DecidableEq, Repr

inductive Consumer where
  | away
  | waiting (future : Nat)
  | finished
  | failed
deriving DecidableEq, Repr

def consumerCoro : Coro := 0
def producerCoro : Coro := 1
def innerCoro : Coro := 2

/-- The states of the promises of `next` and of `yield_value`, what of the scheduler's queue is
theirs and the room it has left, and what the consumer observed: the values, and the end as none. An
exception that escapes from a coroutine leaves the scheduler's loop. -/
structure AsyncGeneration (T : Type) where
  nexts : List (SharedPromiseState Fault Bool)
  yields : List (SharedPromiseState Fault Unit)
  scheduled : List Coro
  room : Option Room
  shared : SharedState T
  producer : Producer T
  inner : Inner T
  consumer : Consumer
  observed : List (Option T)
  escaped : Option Fault

namespace AsyncGeneration

/-- What the promises of `next` see, and those of `yield_value`. -/
def nextStore (generation : AsyncGeneration T) : Store Fault Bool :=
  ⟨generation.nexts, generation.scheduled, generation.room⟩

def yieldStore (generation : AsyncGeneration T) : Store Fault Unit :=
  ⟨generation.yields, generation.scheduled, generation.room⟩

def onNexts (call : Call Fault (Store Fault Bool) α) : Call Fault (AsyncGeneration T) α :=
  call.within nextStore fun store generation => { generation with
    nexts := store.states
    scheduled := store.scheduled
    room := store.room }

def onYields (call : Call Fault (Store Fault Unit) α) : Call Fault (AsyncGeneration T) α :=
  call.within yieldStore fun store generation => { generation with
    yields := store.states
    scheduled := store.scheduled
    room := store.room }

/-! ### The generator's promise -/

def returnVoid : Call Fault (AsyncGeneration T) Unit := do
  modify fun generation => { generation with shared := { generation.shared with done := true } }
  let generation ← get
  onNexts (Promise.setValue generation.shared.next false)

def yieldValue (value : T) : Call Fault (AsyncGeneration T) Unit := do
  modify fun generation =>
    { generation with shared := { generation.shared with currentValue := some value } }
  let generation ← get
  onNexts (Promise.setValue generation.shared.next true)

/-- `yield_value` with a future, once that is set. Its coroutine has a promise of its own. -/
def yieldAwaited (promise : Nat) (value : T) : Call Fault (AsyncGeneration T) Unit :=
  tryCatch
    (do
      yieldValue value
      onYields (Promise.setValue promise ()))
    fun fault => onYields (Promise.setException promise fault)

def unhandledException (fault : Fault) : Call Fault (AsyncGeneration T) Unit := do
  modify fun generation => { generation with producer := .failed }
  let generation ← get
  onNexts (Promise.setException generation.shared.next fault)

/-! ### The generator's body -/

def advance (producer : Producer T) : Call Fault (AsyncGeneration T) Unit :=
  modify fun generation => { generation with producer }

/-- The generator goes on once what it awaited is there, or fails as that did. -/
def goOn (items : List (Item T)) : Except Fault Unit → Call Fault (AsyncGeneration T) Unit
  | .ok () => advance (.running items)
  | .error fault => unhandledException fault

def makeYield : Call Fault (AsyncGeneration T) Nat := do
  let generation ← get
  set { generation with yields := generation.yields ++ [SharedPromiseState.make] }
  pure generation.yields.length

/-- The body up to where it has dealt with one item. -/
def produce : List (Item T) → Call Fault (AsyncGeneration T) Unit
  | [] => do
      advance .finished
      tryCatch returnVoid unhandledException
  | .suspend :: items => advance (.asleep items)
  | .plain value :: items => do
      advance (.parked items)
      tryCatch (yieldValue value) unhandledException
  | .future ready value :: items => do
      let promise ← makeYield
      if ready then yieldAwaited promise value
      else modify fun generation => { generation with inner := .suspended promise value }
      let outcome ← onYields (Future.await promise producerCoro)
      match outcome with
      | none => advance (.yielding promise items)
      | some outcome => goOn items outcome

def resumeProducer (future : Nat) (items : List (Item T)) :
    Call Fault (AsyncGeneration T) Unit := do
  let outcome ← onYields (Future.awaitResume future)
  goOn items outcome

def resumeInner (promise : Nat) (value : T) : Call Fault (AsyncGeneration T) Unit := do
  modify fun generation => { generation with inner := .absent }
  yieldAwaited promise value

/-! ### The consumer -/

/-- The future is got from a fresh promise. -/
def next : Call Fault (AsyncGeneration T) Nat := do
  let generation ← get
  let promise := generation.nexts.length
  set { generation with nexts := generation.nexts ++ [SharedPromiseState.make] }
  if generation.shared.done then onNexts (Promise.setValue promise false)
  else modify fun generation =>
    { generation with shared := { generation.shared with next := promise } }
  pure promise

/-- The consumer reads the value when there is one. -/
def observe : Except Fault Bool → Call Fault (AsyncGeneration T) Unit
  | .ok true => do
      let generation ← get
      match generation.shared.currentValue with
      | some value =>
          set { generation with
            consumer := .away
            observed := generation.observed ++ [some value] }
      | none => throw (.undefined .nullPointer)
  | .ok false =>
      modify fun generation => { generation with
        consumer := .finished
        observed := generation.observed ++ [none] }
  | .error _ => modify fun generation => { generation with consumer := .failed }

def ask : Call Fault (AsyncGeneration T) Unit := do
  let future ← next
  let outcome ← onNexts (Future.await future consumerCoro)
  match outcome with
  | none => modify fun generation => { generation with consumer := .waiting future }
  | some outcome => observe outcome

def resumeConsumer (future : Nat) : Call Fault (AsyncGeneration T) Unit := do
  let outcome ← onNexts (Future.awaitResume future)
  observe outcome

/-! ### The two together -/

/-- The generator's body begins when it is called, before the consumer can ask. -/
def start (items : List (Item T)) (room : Option Room) : AsyncGeneration T where
  nexts := [.make]
  yields := []
  scheduled := []
  room
  shared := ⟨false, 0, none⟩
  producer := .running items
  inner := .absent
  consumer := .away
  observed := []
  escaped := none

inductive Action where
  | produce
  | wake
  | schedule
  | resolve
  | ask
  | resumeConsumer
  | resumeProducer
  | resumeInner
  | others (free : Nat)
deriving DecidableEq, Repr

/-- A step of the generator or the consumer. -/
def Action.isOwn : Action → Bool
  | .others _ => false
  | _ => true

/-- The queue takes so many coroutines more. -/
def RoomFor (count : Nat) (generation : AsyncGeneration T) : Prop :=
  ∀ room, generation.room = some room → count ≤ room.free

def pushed (coro : Coro) (generation : AsyncGeneration T) : AsyncGeneration T :=
  { generation with
    scheduled := generation.scheduled ++ [coro]
    room := generation.room.map Room.taken }

/-- The queue once the coroutine is resumed that was first in it. -/
def popped (rest : List Coro) (generation : AsyncGeneration T) : AsyncGeneration T :=
  { generation with scheduled := rest, room := generation.room.map Room.given }

/-- No coroutine runs. -/
def Idle (generation : AsyncGeneration T) : Prop :=
  generation.escaped = none ∧ ∀ items, generation.producer ≠ .running items

def take (call : Call Fault (AsyncGeneration T) Unit) (generation : AsyncGeneration T) :
    AsyncGeneration T :=
  match call.exec generation with
  | (.ok (), after) => after
  | (.error fault, after) => { after with escaped := some fault }

/-- What a sleeping generator waits for wakes it or schedules it, and what a yielded future waits
for is set, at any time. Without room in the queue what is set then has no coroutine any more that
goes on. The queue resumes what was scheduled first, and the consumer asks at any time that it does
not wait. -/
inductive Step : AsyncGeneration T → Action → AsyncGeneration T → Prop where
  | produce {generation : AsyncGeneration T} {items : List (Item T)}
      (hescaped : generation.escaped = none) (hrunning : generation.producer = .running items) :
      Step generation .produce (take (AsyncGeneration.produce items) generation)
  | wake {generation : AsyncGeneration T} {items : List (Item T)}
      (hescaped : generation.escaped = none) (hasleep : generation.producer = .asleep items) :
      Step generation .wake { generation with producer := .running items }
  | schedule {generation : AsyncGeneration T} {items : List (Item T)}
      (hescaped : generation.escaped = none) (hasleep : generation.producer = .asleep items)
      (hroom : generation.RoomFor 1) :
      Step generation .schedule (pushed producerCoro { generation with
        producer := .scheduled items })
  | resolve {generation : AsyncGeneration T} {promise : Nat} {value : T} (hidle : generation.Idle)
      (hinner : generation.inner = .suspended promise value) (hroom : generation.RoomFor 1) :
      Step generation .resolve (pushed innerCoro { generation with
        inner := .scheduled promise value })
  | resolveFull {generation : AsyncGeneration T} {promise : Nat} {value : T}
      (hidle : generation.Idle) (hinner : generation.inner = .suspended promise value)
      (hfull : ¬ generation.RoomFor 1) :
      Step generation .resolve { generation with inner := .absent }
  | ask {generation : AsyncGeneration T} (hidle : generation.Idle)
      (haway : generation.consumer = .away) :
      Step generation .ask (take AsyncGeneration.ask generation)
  | resumeConsumer {generation : AsyncGeneration T} {future : Nat} {rest : List Coro}
      (hidle : generation.Idle) (hqueue : generation.scheduled = consumerCoro :: rest)
      (hwaiting : generation.consumer = .waiting future) :
      Step generation .resumeConsumer
        (take (AsyncGeneration.resumeConsumer future) (popped rest generation))
  | resumeScheduled {generation : AsyncGeneration T} {items : List (Item T)} {rest : List Coro}
      (hidle : generation.Idle) (hqueue : generation.scheduled = producerCoro :: rest)
      (hscheduled : generation.producer = .scheduled items) :
      Step generation .resumeProducer
        { popped rest generation with producer := .running items }
  | resumeYielding {generation : AsyncGeneration T} {future : Nat} {items : List (Item T)}
      {rest : List Coro} (hidle : generation.Idle)
      (hqueue : generation.scheduled = producerCoro :: rest)
      (hyielding : generation.producer = .yielding future items) :
      Step generation .resumeProducer
        (take (AsyncGeneration.resumeProducer future items) (popped rest generation))
  | resumeInner {generation : AsyncGeneration T} {promise : Nat} {value : T} {rest : List Coro}
      (hidle : generation.Idle) (hqueue : generation.scheduled = innerCoro :: rest)
      (hscheduled : generation.inner = .scheduled promise value) :
      Step generation .resumeInner
        (take (AsyncGeneration.resumeInner promise value) (popped rest generation))
  | others {generation : AsyncGeneration T} {room : Room} (hroom : generation.room = some room)
      (free : Nat) (hfree : generation.scheduled.length + free ≤ room.capacity) :
      Step generation (.others free) { generation with room := some { room with free } }

end AsyncGeneration

end Liblw.Co
