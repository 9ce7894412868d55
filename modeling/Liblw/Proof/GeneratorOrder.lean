import Liblw.Co.Generator
import Liblw.Proof.FutureCalls

/-!
# What the consumer of an async generator observes

The generator and its consumer agree as long as the generator sets the promise only while the
consumer waits for it. Then the promise is a slot that is filled and emptied in turn, and each value
goes through it once. A plain value leaves the generator suspended for good.
-/

namespace Liblw.Co

open Liblw.Lib

variable {X α T : Type}

/-! ### The calls -/

namespace SharedPromiseState

def suspendedBy (coro : Coro) : SharedPromiseState X T :=
  ⟨false, true, none, some coro, .empty, none⟩

def setFor (coro : Coro) (value : T) : SharedPromiseState X T :=
  ⟨true, true, none, some coro, .holds value, none⟩

end SharedPromiseState

namespace AsyncGeneration

open SharedPromiseState

section Calls

variable {generation : AsyncGeneration T} {place : Nat} {value : T}

theorem exec_onNexts {call : Call Fault (Store Fault Bool) α} {result : Result α}
    {store : Store Fault Bool}
    (hexec : call.exec generation.nextStore = (result, store)) :
    (onNexts call).exec generation = (result, { generation with
      nexts := store.states
      scheduled := store.scheduled
      room := store.room }) := by
  unfold onNexts
  rw [Call.exec_within, hexec]

theorem exec_onYields {call : Call Fault (Store Fault Unit) α} {result : Result α}
    {store : Store Fault Unit}
    (hexec : call.exec generation.yieldStore = (result, store)) :
    (onYields call).exec generation = (result, { generation with
      yields := store.states
      scheduled := store.scheduled
      room := store.room }) := by
  unfold onYields
  rw [Call.exec_within, hexec]

theorem exec_setNext {state : SharedPromiseState Fault Bool}
    (hstate : generation.nexts[place]? = some state) (hunset : state.stateSet = false)
    (hends : state.chainState = none)
    (hhandle : state.futureSuspended = true → ∃ coro, state.handle = some coro)
    (hroom : state.futureSuspended = true → generation.nextStore.full = false) (value : Bool) :
    (onNexts (Promise.setValue place value)).exec generation = (.ok (), { generation with
      nexts := generation.nexts.set place { state with stateSet := true, value := .holds value }
      scheduled := generation.scheduled ++ state.wakes
      room := generation.nextStore.roomAfter state.wakes }) := by
  have hroot : (Store.getState place).exec generation.nextStore = _ :=
    Store.exec_getState_self hstate hends
  have hexec : (Promise.setValue place value).exec generation.nextStore = _ :=
    Promise.exec_setOutcome hroot hstate hunset hhandle hroom
  exact exec_onNexts hexec

theorem exec_setYield {state : SharedPromiseState Fault Unit}
    (hstate : generation.yields[place]? = some state) (hunset : state.stateSet = false)
    (hends : state.chainState = none)
    (hhandle : state.futureSuspended = true → ∃ coro, state.handle = some coro)
    (hroom : state.futureSuspended = true → generation.yieldStore.full = false) :
    (onYields (Promise.setValue place ())).exec generation = (.ok (), { generation with
      yields := generation.yields.set place { state with stateSet := true, value := .holds () }
      scheduled := generation.scheduled ++ state.wakes
      room := generation.yieldStore.roomAfter state.wakes }) := by
  have hroot : (Store.getState place).exec generation.yieldStore = _ :=
    Store.exec_getState_self hstate hends
  have hexec : (Promise.setValue place ()).exec generation.yieldStore = _ :=
    Promise.exec_setOutcome hroot hstate hunset hhandle hroom
  exact exec_onYields hexec

/-- The promise that the consumer waits for is set, and it is scheduled. -/
def fill (flag : Bool) (generation : AsyncGeneration T) : AsyncGeneration T :=
  pushed consumerCoro { generation with
    nexts := generation.nexts.set generation.shared.next (setFor consumerCoro flag) }

def withValue (value : T) (generation : AsyncGeneration T) : AsyncGeneration T :=
  { generation with shared := { generation.shared with currentValue := some value } }

/-- The generator once its body is at its end. -/
def finish (generation : AsyncGeneration T) : AsyncGeneration T :=
  { generation with
    producer := .finished
    shared := { generation.shared with done := true } }

/-- With room for a coroutine the queue is not full, whichever promise is to be set. -/
theorem RoomFor.full {count : Nat} (hroom : generation.RoomFor (count + 1)) :
    generation.nextStore.full = false ∧ generation.yieldStore.full = false := by
  have hfull : (generation.room.any fun room => room.free = 0) = false := by
    cases hbound : generation.room with
    | none => rfl
    | some room => exact decide_eq_false (Nat.ne_zero_of_lt (hroom room hbound))
  exact ⟨hfull, hfull⟩

theorem RoomFor.pushed {count : Nat} (hroom : generation.RoomFor (count + 1)) (coro : Coro) :
    (pushed coro generation).RoomFor count := by
  intro room hbound
  obtain ⟨before, hbefore, rfl⟩ := Option.map_eq_some_iff.mp hbound
  exact Nat.le_sub_of_add_le (hroom before hbefore)

theorem RoomFor.popped {count : Nat} (hroom : generation.RoomFor count) (rest : List Coro) :
    (popped rest generation).RoomFor (count + 1) := by
  intro room hbound
  obtain ⟨before, hbefore, rfl⟩ := Option.map_eq_some_iff.mp hbound
  exact Nat.succ_le_succ (hroom before hbefore)

theorem exec_yieldValue
    (hnext : generation.nexts[generation.shared.next]? = some (suspendedBy consumerCoro))
    (hroom : generation.RoomFor 1) (value : T) :
    (yieldValue value).exec generation = (.ok (), fill true (withValue value generation)) := by
  have hset := @exec_setNext T (withValue value generation) _ _ hnext rfl rfl
    (fun _ => ⟨consumerCoro, rfl⟩) (fun _ => hroom.full.1) true
  unfold yieldValue
  rw [Call.exec_modify_bind, Call.exec_get_bind]
  exact hset

/-- What the coroutine of `yield_value` leaves, of whom only the generator awaits it. -/
theorem exec_yieldAwaited {state : SharedPromiseState Fault Unit}
    (hnext : generation.nexts[generation.shared.next]? = some (suspendedBy consumerCoro))
    (hstate : generation.yields[place]? = some state) (hunset : state.stateSet = false)
    (hends : state.chainState = none)
    (hhandle : state.futureSuspended = true → ∃ coro, state.handle = some coro)
    (hroom : generation.RoomFor 1) (hsecond : state.futureSuspended = true → generation.RoomFor 2)
    (value : T) :
    (yieldAwaited place value).exec generation =
      (.ok (), { fill true (withValue value generation) with
        yields := generation.yields.set place { state with stateSet := true, value := .holds () }
        scheduled := generation.scheduled ++ [consumerCoro] ++ state.wakes
        room := (fill true (withValue value generation)).yieldStore.roomAfter state.wakes }) := by
  have hset := @exec_setYield T (fill true (withValue value generation)) _ _ hstate hunset hends
    hhandle fun hsuspended => ((hsecond hsuspended).pushed consumerCoro).full.2
  unfold yieldAwaited
  rw [Call.exec_tryCatch, Call.exec_bind_ok (exec_yieldValue hnext hroom value), hset]
  rfl

theorem exec_makeYield :
    makeYield.exec generation = (.ok generation.yields.length, { generation with
      yields := generation.yields ++ [SharedPromiseState.make] }) := rfl

theorem take_ok {call : Call Fault (AsyncGeneration T) Unit} {after : AsyncGeneration T}
    (hexec : call.exec generation = (.ok (), after)) : take call generation = after := by
  unfold take
  rw [hexec]

end Calls

end AsyncGeneration

/-! ### The slot and the stage -/

def Item.value : Item T → Option T
  | suspend => none
  | plain value => some value
  | future _ value => some value

/-- What the consumer is to observe of a generator with these items: each value, then the end. -/
def expected (items : List (Item T)) : List (Option T) :=
  (items.filterMap Item.value).map some ++ [none]

open AsyncGeneration SharedPromiseState

/-- What the promise is at, as the consumer sees it. -/
inductive Slot (T : Type) where
  | idle
  | waiting
  | announced (value : T)
  | ended
  | closed
  | finished

namespace Slot

def isOpen : Slot T → Bool
  | idle | waiting | announced _ => true
  | ended | closed | finished => false

def queued : Slot T → List Coro
  | announced _ | ended => [consumerCoro]
  | _ => []

/-- What the generator has announced and the consumer has not observed. -/
def due : Slot T → List (Option T)
  | announced value => [some value]
  | ended | closed => [none]
  | _ => []

/-- How many steps of the consumer are left. -/
@[simp]
def weight : Slot T → Nat
  | announced _ => 2
  | idle | ended | closed => 1
  | waiting | finished => 0

/-- The consumer waits for the promise, which has the state. -/
structure Waiting (consumer : Consumer) (nexts : List (SharedPromiseState Fault Bool))
    (shared : SharedState T) (state : SharedPromiseState Fault Bool) : Prop where
  consumer : consumer = .waiting shared.next
  state : nexts[shared.next]? = some state

def Holds (consumer : Consumer) (nexts : List (SharedPromiseState Fault Bool))
    (shared : SharedState T) : Slot T → Prop
  | idle => consumer = .away ∧ ∀ state, nexts[shared.next]? = some state →
      state.stateSet = false → state = .make
  | waiting => Waiting consumer nexts shared (suspendedBy consumerCoro)
  | announced value => Waiting consumer nexts shared (setFor consumerCoro true) ∧
      shared.currentValue = some value
  | ended => Waiting consumer nexts shared (setFor consumerCoro false)
  | closed => consumer = .away
  | finished => consumer = .finished

end Slot

/-- What the generator is at, with the coroutine of `yield_value` that it may wait for. -/
inductive Stage (T : Type) where
  | running (items : List (Item T))
  | asleep (items : List (Item T))
  | scheduled (items : List (Item T))
  | awaits (future : Nat) (value : T) (items : List (Item T))
  | ready (future : Nat) (value : T) (items : List (Item T))
  | resumes (future : Nat) (items : List (Item T))
  | finished

namespace Stage

def isOpen : Stage T → Bool
  | finished => false
  | _ => true

def queued : Stage T → List Coro
  | scheduled _ | resumes _ _ => [producerCoro]
  | ready _ _ _ => [innerCoro]
  | _ => []

/-- What the generator has not announced yet. -/
def remaining : Stage T → List (Option T)
  | running items | asleep items | scheduled items | resumes _ items => expected items
  | awaits _ value items | ready _ value items => some value :: expected items
  | finished => []

/-- A bound on the steps of the generator that are left. -/
@[simp]
def weight : Stage T → Nat
  | running items => 6 * items.length + 1
  | asleep items => 6 * items.length + 3
  | scheduled items => 6 * items.length + 2
  | awaits _ _ items => 6 * items.length + 4
  | ready _ _ items => 6 * items.length + 3
  | resumes _ items => 6 * items.length + 2
  | finished => 0

def producer : Stage T → Producer T
  | running items => .running items
  | asleep items => .asleep items
  | scheduled items => .scheduled items
  | awaits future _ items | ready future _ items | resumes future items => .yielding future items
  | finished => .finished

def inner : Stage T → Inner T
  | awaits future value _ => .suspended future value
  | ready future value _ => .scheduled future value
  | _ => .absent

def Holds (yields : List (SharedPromiseState Fault Unit)) : Stage T → Prop
  | awaits future _ _ | ready future _ _ => yields[future]? = some (suspendedBy producerCoro)
  | resumes future _ => yields[future]? = some (setFor producerCoro ())
  | _ => True

end Stage

namespace AsyncGeneration

/-- The generation is in order: what was observed, is announced and is still to come is what is
expected. -/
structure At (items : List (Item T)) (generation : AsyncGeneration T) (slot : Slot T)
    (stage : Stage T) : Prop where
  escaped : generation.escaped = none
  producer : generation.producer = stage.producer
  inner : generation.inner = stage.inner
  queue : generation.scheduled.Perm (slot.queued ++ stage.queued)
  inSlot : slot.Holds generation.consumer generation.nexts generation.shared
  inStage : stage.Holds generation.yields
  done : generation.shared.done = !slot.isOpen
  closes : slot.isOpen = stage.isOpen
  observed : generation.observed ++ slot.due ++ stage.remaining = expected items

/-- Each step of the generator gives the consumer two at most. -/
@[simp]
def weight (slot : Slot T) (stage : Stage T) : Nat := 3 * stage.weight + slot.weight

theorem at_start (items : List (Item T)) (room : Option Room) :
    At items (start items room) .idle (.running items) where
  escaped := rfl
  producer := rfl
  inner := rfl
  queue := .nil
  inSlot := ⟨rfl, fun _ hstate _ => (Option.some.inj hstate).symm⟩
  inStage := trivial
  done := rfl
  closes := rfl
  observed := rfl

/-! ### When the promise may be set -/

def Unset (generation : AsyncGeneration T) : Prop :=
  ∃ state, generation.nexts[generation.shared.next]? = some state ∧ state.stateSet = false

def Waits (generation : AsyncGeneration T) : Prop := ∃ future, generation.consumer = .waiting future

/-- The generator sets the promise only while the consumer waits for it and it is not set, or at the
end while it is not set. It yields no plain value. There is room in the queue for each coroutine
that is scheduled: the coroutine of `yield_value` leaves one place for two. -/
def Meets (generation : AsyncGeneration T) : Action → Prop
  | .produce => ∀ items, generation.producer = .running items →
      match items with
      | [] => generation.Unset ∧ (generation.Waits → generation.RoomFor 1)
      | .plain _ :: _ => False
      | .future true _ :: _ => generation.Waits ∧ generation.Unset ∧ generation.RoomFor 1
      | _ => True
  | .resolve => generation.RoomFor 1
  | .resumeInner => generation.Waits ∧ generation.Unset ∧ generation.RoomFor 1
  | _ => True

section Steps

variable {generation : AsyncGeneration T} {program items : List (Item T)} {slot : Slot T}
  {stage : Stage T} {value : T} {future : Nat} {rest : List Coro}

theorem At.unset_cases (hat : At program generation slot stage) (hopen : stage.isOpen = true)
    (hunset : generation.Unset) : slot = .waiting ∨
      slot = .idle ∧ generation.nexts[generation.shared.next]? = some .make := by
  obtain ⟨state, hstate, hfalse⟩ := hunset
  have hslot := hat.inSlot
  have hcloses := hat.closes.trans hopen
  cases slot with
  | idle =>
      have hmake := hslot.2 state hstate hfalse
      rw [hmake] at hstate
      exact .inr ⟨rfl, hstate⟩
  | waiting => exact .inl rfl
  | announced value =>
      have hset := hslot.1.state
      rw [hstate, Option.some.injEq] at hset
      rw [hset] at hfalse
      cases hfalse
  | ended => cases hcloses
  | closed => cases hcloses
  | finished => cases hcloses

theorem At.waiting (hat : At program generation slot stage) (hopen : stage.isOpen = true)
    (hwaits : generation.Waits) (hunset : generation.Unset) : slot = .waiting := by
  rcases hat.unset_cases hopen hunset with heq | ⟨rfl, _⟩
  · exact heq
  · obtain ⟨future, hfuture⟩ := hwaits
    have haway := hat.inSlot.1
    rw [hfuture] at haway
    cases haway

/-! ### The generator's steps -/

theorem waiting_fill {state : SharedPromiseState Fault Bool}
    (hwaiting : Slot.Waiting generation.consumer generation.nexts generation.shared state)
    (flag : Bool) : Slot.Waiting generation.consumer (fill flag generation).nexts generation.shared
      (setFor consumerCoro flag) where
  consumer := hwaiting.consumer
  state := List.getElem?_set_self (List.getElem?_eq_some_iff.mp hwaiting.state).1

theorem exec_produce_nil {after : AsyncGeneration T}
    (hreturn : returnVoid.exec { generation with producer := .finished } = (.ok (), after)) :
    (produce []).exec generation = (.ok (), after) := by
  unfold produce advance
  rw [Call.exec_modify_bind, Call.exec_tryCatch, hreturn]

theorem At.produce_end (hat : At program generation slot (.running []))
    (hunset : generation.Unset) (hroom : generation.Waits → generation.RoomFor 1) :
    ∃ after slot, (produce []).exec generation = (.ok (), after) ∧
      At program after slot .finished ∧ slot.weight = 1 := by
  have hobserved (hdue : slot.due = []) :
      generation.observed ++ [none] ++ [] = expected program := by
    have hbefore : generation.observed ++ slot.due ++ [none] = expected program := hat.observed
    rw [hdue, List.append_nil] at hbefore
    rw [List.append_nil, hbefore]
  rcases hat.unset_cases rfl hunset with rfl | ⟨rfl, hmake⟩
  · have hwaiting : Slot.Waiting generation.consumer generation.nexts generation.shared
        (suspendedBy consumerCoro) := hat.inSlot
    have hset := @exec_setNext T (finish generation) _ _ hwaiting.state rfl rfl
      (fun _ => ⟨consumerCoro, rfl⟩)
      (fun _ => (hroom ⟨_, hwaiting.consumer⟩ : (finish generation).RoomFor 1).full.1) false
    refine ⟨fill false (finish generation), .ended, exec_produce_nil hset, ?_, rfl⟩
    constructor
    case escaped => exact hat.escaped
    case producer => rfl
    case inner => exact hat.inner
    case queue => exact hat.queue.append_right [consumerCoro]
    case inSlot =>
      have hfilled := waiting_fill hwaiting false
      exact ⟨hfilled.consumer, hfilled.state⟩
    case inStage => trivial
    case done => rfl
    case closes => rfl
    case observed => exact hobserved rfl
  · have hset := @exec_setNext T (finish generation) _ _ hmake rfl rfl
      (fun hsuspended => nomatch hsuspended) (fun hsuspended => nomatch hsuspended) false
    refine ⟨_, .closed, exec_produce_nil hset, ?_, rfl⟩
    constructor
    case escaped => exact hat.escaped
    case producer => rfl
    case inner => exact hat.inner
    case queue => exact (List.append_nil generation.scheduled).symm ▸ hat.queue
    case inSlot => exact hat.inSlot.1
    case inStage => trivial
    case done => rfl
    case closes => rfl
    case observed => exact hobserved rfl

theorem exec_produce_ready
    (hnext : generation.nexts[generation.shared.next]? = some (suspendedBy consumerCoro))
    (hroom : generation.RoomFor 1) :
    ∃ yields, (produce (.future true value :: items)).exec generation =
      (.ok (), { fill true (withValue value generation) with
        yields
        producer := .running items }) := by
  let made : AsyncGeneration T := { generation with
    yields := generation.yields ++ [SharedPromiseState.make] }
  have hmade : made.yields[generation.yields.length]? = some .make := List.getElem?_concat_length
  let yielded : AsyncGeneration T := { fill true (withValue value made) with
    yields := made.yields.set generation.yields.length ⟨true, false, none, none, .holds (), none⟩ }
  have hyield : (yieldAwaited generation.yields.length value).exec made = (.ok (), yielded) := by
    have hexec := @exec_yieldAwaited T made _ _ hnext hmade rfl rfl
      (fun hsuspended => nomatch hsuspended) hroom (fun hsuspended => nomatch hsuspended) value
    have hwakes : (SharedPromiseState.make : SharedPromiseState Fault Unit).wakes = [] := rfl
    rw [hwakes, List.append_nil] at hexec
    exact hexec
  have hyielded : yielded.yields[generation.yields.length]? = some _ :=
    List.getElem?_set_self (List.getElem?_eq_some_iff.mp hmade).1
  have hroot : (Store.getState generation.yields.length).exec yielded.yieldStore = _ :=
    Store.exec_getState_self hyielded rfl
  have hawait := exec_onYields
    (@Future.exec_await_set _ _ _ _ _ (.ok ()) hroot hyielded rfl ⟨rfl, rfl⟩ producerCoro)
  refine ⟨yielded.yields.set generation.yields.length
    ⟨true, false, none, none, .movedFrom, none⟩, ?_⟩
  unfold produce
  rw [Call.exec_bind_ok exec_makeYield, if_pos rfl, Call.exec_bind_ok hyield,
    Call.exec_bind_ok hawait]
  rfl

/-- A future that is not set suspends the generator until its value is there. -/
theorem exec_produce_pending :
    (produce (.future false value :: items)).exec generation = (.ok (), { generation with
      yields := generation.yields ++ [suspendedBy producerCoro]
      inner := .suspended generation.yields.length value
      producer := .yielding generation.yields.length items }) := by
  let made : AsyncGeneration T := { generation with
    yields := generation.yields ++ [SharedPromiseState.make]
    inner := .suspended generation.yields.length value }
  have hmade : made.yields[generation.yields.length]? = some .make := List.getElem?_concat_length
  have hawait : (onYields (Future.await generation.yields.length producerCoro)).exec made = _ :=
    exec_onYields (Future.exec_await_unset hmade rfl producerCoro)
  have hset : made.yields.set generation.yields.length (suspendedBy producerCoro) =
      generation.yields ++ [suspendedBy producerCoro] := by
    change (generation.yields ++ [_]).set _ _ = _
    rw [List.set_append_right _ _ (Nat.le_refl _), Nat.sub_self]
    rfl
  unfold produce
  rw [Call.exec_bind_ok exec_makeYield, if_neg Bool.false_ne_true, Call.exec_modify_bind,
    Call.exec_bind_ok hawait, ← hset]
  rfl

theorem At.produce_suspend (hat : At program generation slot (.running (.suspend :: items))) :
    (produce (.suspend :: items)).exec generation =
      (.ok (), { generation with producer := .asleep items }) ∧
        At program { generation with producer := .asleep items } slot (.asleep items) :=
  ⟨rfl, { hat with producer := rfl }⟩

/-- To announce the value that is due next keeps the order. -/
theorem At.observed_announced (hat : At program generation .waiting stage)
    (hremaining : stage.remaining = some value :: expected items) :
    generation.observed ++ [some value] ++ expected items = expected program := by
  have hbefore : generation.observed ++ [] ++ stage.remaining = expected program := hat.observed
  rw [hremaining, List.append_nil] at hbefore
  rw [← hbefore]
  exact List.append_assoc generation.observed [some value] (expected items)

theorem At.produce_ready
    (hat : At program generation .waiting (.running (.future true value :: items)))
    (hroom : generation.RoomFor 1) :
    ∃ after, (produce (.future true value :: items)).exec generation = (.ok (), after) ∧
      At program after (.announced value) (.running items) := by
  have hwaiting : Slot.Waiting generation.consumer generation.nexts generation.shared
      (suspendedBy consumerCoro) := hat.inSlot
  obtain ⟨yields, hexec⟩ := @exec_produce_ready T generation items value hwaiting.state hroom
  refine ⟨_, hexec, ?_⟩
  constructor
  case escaped => exact hat.escaped
  case producer => rfl
  case inner => exact hat.inner
  case queue => exact hat.queue.append_right [consumerCoro]
  case inSlot =>
    have hfilled := waiting_fill hwaiting true
    exact ⟨⟨hfilled.consumer, hfilled.state⟩, rfl⟩
  case inStage => trivial
  case done => exact hat.done
  case closes => rfl
  case observed => exact hat.observed_announced rfl

theorem At.produce_pending
    (hat : At program generation slot (.running (.future false value :: items))) :
    ∃ after, (produce (.future false value :: items)).exec generation = (.ok (), after) ∧
      At program after slot (.awaits generation.yields.length value items) :=
  ⟨_, exec_produce_pending, { hat with
    producer := rfl
    inner := rfl
    inStage := List.getElem?_concat_length }⟩

theorem At.wake (hat : At program generation slot (.asleep items)) :
    At program { generation with producer := .running items } slot (.running items) :=
  { hat with producer := rfl }

theorem At.schedule (hat : At program generation slot (.asleep items)) :
    At program (pushed producerCoro { generation with producer := .scheduled items }) slot
      (.scheduled items) :=
  { hat with
    producer := rfl
    queue := by
      have hqueue : generation.scheduled.Perm (slot.queued ++ []) := hat.queue
      rw [List.append_nil] at hqueue
      exact hqueue.append_right [producerCoro] }

theorem At.resolve (hat : At program generation slot (.awaits future value items)) :
    At program (pushed innerCoro { generation with inner := .scheduled future value }) slot
      (.ready future value items) :=
  { hat with
    inner := rfl
    queue := by
      have hqueue : generation.scheduled.Perm (slot.queued ++ []) := hat.queue
      rw [List.append_nil] at hqueue
      exact hqueue.append_right [innerCoro] }

theorem At.resumeScheduled (hat : At program generation slot (.scheduled items))
    (hqueue : generation.scheduled = producerCoro :: rest) :
    At program { popped rest generation with producer := .running items } slot
      (.running items) :=
  { hat with
    producer := rfl
    queue := by
      have hperm : generation.scheduled.Perm (slot.queued ++ [producerCoro]) := hat.queue
      rw [hqueue] at hperm
      have hrest := hperm.trans List.perm_append_comm
      exact (List.append_nil slot.queued).symm ▸ hrest.cons_inv }

theorem At.resumeYielding (hat : At program generation slot (.resumes future items))
    (hqueue : generation.scheduled = producerCoro :: rest) :
    ∃ after, (AsyncGeneration.resumeProducer future items).exec (popped rest generation) =
        (.ok (), after) ∧
      At program after slot (.running items) := by
  have hstate : generation.yields[future]? = some (setFor producerCoro ()) := hat.inStage
  have hroot : (Store.getState future).exec (popped rest generation).yieldStore = _ :=
    Store.exec_getState_self hstate rfl
  have hresume : (onYields (Future.awaitResume future)).exec (popped rest generation) = _ :=
    exec_onYields (@Future.exec_awaitResume _ _ _ _ _ _ (.ok ()) hroot hstate rfl ⟨rfl, rfl⟩)
  have hperm : generation.scheduled.Perm (slot.queued ++ [producerCoro]) := hat.queue
  rw [hqueue] at hperm
  have hrest := (hperm.trans List.perm_append_comm).cons_inv
  refine ⟨{ popped rest generation with
    yields := generation.yields.set future ⟨true, true, none, some producerCoro, .movedFrom, none⟩
    producer := .running items }, ?_, ?_⟩
  · unfold AsyncGeneration.resumeProducer
    rw [Call.exec_bind_ok hresume]
    rfl
  · exact { hat with
      producer := rfl
      queue := (List.append_nil slot.queued).symm ▸ hrest
      inStage := trivial }

theorem At.resumeInner (hat : At program generation .waiting (.ready future value items))
    (hqueue : generation.scheduled = innerCoro :: rest) (hroom : generation.RoomFor 1) :
    ∃ after, (AsyncGeneration.resumeInner future value).exec (popped rest generation) =
        (.ok (), after) ∧
      At program after (.announced value) (.resumes future items) := by
  have hwaiting : Slot.Waiting generation.consumer generation.nexts generation.shared
      (suspendedBy consumerCoro) := hat.inSlot
  have hstate : generation.yields[future]? = some (suspendedBy producerCoro) := hat.inStage
  have hrooms : (popped rest generation).RoomFor 2 := hroom.popped rest
  have hfirst : (popped rest generation).RoomFor 1 :=
    fun room hbound => Nat.le_of_succ_le (hrooms room hbound)
  have hyield := @exec_yieldAwaited T { popped rest generation with inner := .absent } _ _
    hwaiting.state hstate rfl rfl (fun _ => ⟨producerCoro, rfl⟩) hfirst (fun _ => hrooms) value
  have hperm : generation.scheduled.Perm [innerCoro] := hat.queue
  rw [hqueue] at hperm
  have hempty : rest = [] := List.perm_nil.mp hperm.cons_inv
  refine ⟨_, hyield, ?_⟩
  constructor
  case escaped => exact hat.escaped
  case producer => exact hat.producer
  case inner => rfl
  case queue =>
    rw [hempty]
    exact .refl _
  case inSlot =>
    have hfilled := waiting_fill hwaiting true
    exact ⟨⟨hfilled.consumer, hfilled.state⟩, rfl⟩
  case inStage => exact List.getElem?_set_self (List.getElem?_eq_some_iff.mp hstate).1
  case done => exact hat.done
  case closes => rfl
  case observed => exact hat.observed_announced rfl

/-! ### The consumer's steps -/

theorem exec_ask_open (hdone : generation.shared.done = false) :
    ask.exec generation = (.ok (), { generation with
      nexts := generation.nexts ++ [suspendedBy consumerCoro]
      shared := { generation.shared with next := generation.nexts.length }
      consumer := .waiting generation.nexts.length }) := by
  let asked : AsyncGeneration T := { generation with
    nexts := generation.nexts ++ [SharedPromiseState.make]
    shared := { generation.shared with next := generation.nexts.length } }
  have hnext : next.exec generation = (.ok generation.nexts.length, asked) := by
    unfold next
    rw [Call.exec_get_bind, Call.exec_set_bind]
    dsimp only
    rw [hdone]
    rfl
  have hmade : asked.nexts[generation.nexts.length]? = some .make := List.getElem?_concat_length
  have hawait : (onNexts (Future.await generation.nexts.length consumerCoro)).exec asked = _ :=
    exec_onNexts (Future.exec_await_unset hmade rfl consumerCoro)
  have hset : asked.nexts.set generation.nexts.length (suspendedBy consumerCoro) =
      generation.nexts ++ [suspendedBy consumerCoro] := by
    change (generation.nexts ++ [_]).set _ _ = _
    rw [List.set_append_right _ _ (Nat.le_refl _), Nat.sub_self]
    rfl
  unfold ask
  rw [Call.exec_bind_ok hnext, Call.exec_bind_ok hawait, ← hset]
  rfl

theorem exec_ask_done (hdone : generation.shared.done = true) :
    ∃ nexts, ask.exec generation = (.ok (), { generation with
      nexts
      consumer := .finished
      observed := generation.observed ++ [none] }) := by
  let asked : AsyncGeneration T := { generation with
    nexts := generation.nexts ++ [SharedPromiseState.make] }
  have hmade : asked.nexts[generation.nexts.length]? = some .make := List.getElem?_concat_length
  let resolved : AsyncGeneration T := { asked with
    nexts := asked.nexts.set generation.nexts.length ⟨true, false, none, none, .holds false, none⟩ }
  have hnext : next.exec generation = (.ok generation.nexts.length, resolved) := by
    have hset := @exec_setNext T asked _ _ hmade rfl rfl (fun hsuspended => nomatch hsuspended)
      (fun hsuspended => nomatch hsuspended) false
    have hwakes : (SharedPromiseState.make : SharedPromiseState Fault Bool).wakes = [] := rfl
    rw [hwakes, List.append_nil] at hset
    unfold next
    rw [Call.exec_get_bind, Call.exec_set_bind]
    dsimp only
    rw [hdone, if_pos rfl, Call.exec_bind_ok hset]
    rfl
  have hresolved : resolved.nexts[generation.nexts.length]? = some _ :=
    List.getElem?_set_self (List.getElem?_eq_some_iff.mp hmade).1
  have hroot : (Store.getState generation.nexts.length).exec resolved.nextStore = _ :=
    Store.exec_getState_self hresolved rfl
  have hawait : (onNexts (Future.await generation.nexts.length consumerCoro)).exec resolved = _ :=
    exec_onNexts
      (@Future.exec_await_set _ _ _ _ _ (.ok false) hroot hresolved rfl ⟨rfl, rfl⟩ consumerCoro)
  refine ⟨resolved.nexts.set generation.nexts.length
    ⟨true, false, none, none, .movedFrom, none⟩, ?_⟩
  unfold ask
  rw [Call.exec_bind_ok hnext, Call.exec_bind_ok hawait]
  rfl

theorem exec_resumeConsumer {flag : Bool}
    (hstate : generation.nexts[future]? = some (setFor consumerCoro flag)) :
    (AsyncGeneration.resumeConsumer future).exec generation =
      (observe (.ok flag)).exec { generation with
        nexts := generation.nexts.set future
          ⟨true, true, none, some consumerCoro, .movedFrom, none⟩ } := by
  have hroot : (Store.getState future).exec generation.nextStore = _ :=
    Store.exec_getState_self hstate rfl
  have hresume : (onNexts (Future.awaitResume future)).exec generation = _ :=
    exec_onNexts (@Future.exec_awaitResume _ _ _ _ _ _ (.ok flag) hroot hstate rfl ⟨rfl, rfl⟩)
  unfold AsyncGeneration.resumeConsumer
  rw [Call.exec_bind_ok hresume]
  rfl

theorem At.ask_idle (hat : At program generation .idle stage) :
    ∃ after, ask.exec generation = (.ok (), after) ∧ At program after .waiting stage :=
  ⟨_, exec_ask_open hat.done, { hat with inSlot := ⟨rfl, List.getElem?_concat_length⟩ }⟩

theorem At.ask_closed (hat : At program generation .closed stage) :
    ∃ after, ask.exec generation = (.ok (), after) ∧ At program after .finished stage := by
  obtain ⟨nexts, hexec⟩ := exec_ask_done hat.done
  refine ⟨_, hexec, { hat with
    inSlot := rfl
    observed := ?_ }⟩
  change generation.observed ++ [none] ++ [] ++ stage.remaining = expected program
  rw [List.append_nil]
  exact hat.observed

theorem At.resumeConsumer_announced (hat : At program generation (.announced value) stage)
    (hqueue : generation.scheduled = consumerCoro :: rest) :
    ∃ after, (AsyncGeneration.resumeConsumer generation.shared.next).exec
        (popped rest generation) = (.ok (), after) ∧
      At program after .idle stage := by
  obtain ⟨hwaiting, hvalue⟩ := hat.inSlot
  have hexec := @exec_resumeConsumer T (popped rest generation) _ _ hwaiting.state
  have hperm : generation.scheduled.Perm (consumerCoro :: stage.queued) := hat.queue
  rw [hqueue] at hperm
  refine ⟨{ popped rest generation with
    nexts := generation.nexts.set generation.shared.next
      ⟨true, true, none, some consumerCoro, .movedFrom, none⟩
    consumer := .away
    observed := generation.observed ++ [some value] }, ?_, ?_⟩
  · rw [hexec]
    unfold observe
    rw [Call.exec_get_bind]
    dsimp only [popped]
    rw [hvalue]
    rfl
  · constructor
    case escaped => exact hat.escaped
    case producer => exact hat.producer
    case inner => exact hat.inner
    case queue => exact hperm.cons_inv
    case inSlot =>
      refine ⟨rfl, ?_⟩
      intro state hstate hunset
      change (generation.nexts.set generation.shared.next _)[generation.shared.next]? = _ at hstate
      rw [List.getElem?_set_self (List.getElem?_eq_some_iff.mp hwaiting.state).1,
        Option.some.injEq] at hstate
      rw [← hstate] at hunset
      cases hunset
    case inStage => exact hat.inStage
    case done => exact hat.done
    case closes => exact hat.closes
    case observed =>
      change generation.observed ++ [some value] ++ [] ++ stage.remaining = expected program
      rw [List.append_nil]
      exact hat.observed

theorem At.resumeConsumer_ended (hat : At program generation .ended stage)
    (hqueue : generation.scheduled = consumerCoro :: rest) :
    ∃ after, (AsyncGeneration.resumeConsumer generation.shared.next).exec
        (popped rest generation) = (.ok (), after) ∧
      At program after .finished stage := by
  have hexec := @exec_resumeConsumer T (popped rest generation) _ _ hat.inSlot.state
  have hperm : generation.scheduled.Perm (consumerCoro :: stage.queued) := hat.queue
  rw [hqueue] at hperm
  refine ⟨_, hexec, ?_⟩
  constructor
  case escaped => exact hat.escaped
  case producer => exact hat.producer
  case inner => exact hat.inner
  case queue => exact hperm.cons_inv
  case inSlot => rfl
  case inStage => exact hat.inStage
  case done => exact hat.done
  case closes => exact hat.closes
  case observed =>
    change generation.observed ++ [none] ++ [] ++ stage.remaining = expected program
    rw [List.append_nil]
    exact hat.observed

end Steps

/-! ### Runs -/

section Runs

variable {generation before after : AsyncGeneration T} {program items : List (Item T)}
  {slot : Slot T} {stage : Stage T} {action : Action} {coro : Coro} {rest : List Coro}

theorem Slot.queued_eq (hmem : coro ∈ slot.queued) : coro = consumerCoro ∧
    (slot = .ended ∨ ∃ value, slot = .announced value) := by
  cases slot <;> simp_all [Slot.queued]

theorem At.queued_consumer (hat : At program generation slot stage)
    (hqueue : generation.scheduled = consumerCoro :: rest) :
    slot = .ended ∨ ∃ value, slot = .announced value := by
  have hmem : consumerCoro ∈ slot.queued ++ stage.queued := by
    rw [← hat.queue.mem_iff, hqueue]
    exact List.mem_cons_self
  rcases List.mem_append.mp hmem with hslot | hstage
  · exact (Slot.queued_eq hslot).2
  · cases stage <;> simp [Stage.queued, consumerCoro, producerCoro, innerCoro] at hstage

theorem At.queued_stage (hat : At program generation slot stage) (hne : coro ≠ consumerCoro)
    (hqueue : generation.scheduled = coro :: rest) : stage.queued = [coro] := by
  have hmem : coro ∈ slot.queued ++ stage.queued := by
    rw [← hat.queue.mem_iff, hqueue]
    exact List.mem_cons_self
  rcases List.mem_append.mp hmem with hslot | hstage
  · exact absurd (Slot.queued_eq hslot).1 hne
  · cases stage <;> simp_all [Stage.queued]

/-- The body deals with one item, at which it may set the promise, and the generation is in order
again. -/
theorem At.produce (hat : At program before slot (.running items))
    (hmeets : before.Meets .produce) :
    ∃ slot' stage', At program (take (AsyncGeneration.produce items) before) slot' stage' ∧
      weight slot' stage' < weight slot (.running items) := by
  have hmay := hmeets items hat.producer
  cases items with
  | nil =>
      obtain ⟨next, last, hexec, hnext, hlast⟩ := hat.produce_end hmay.1 hmay.2
      rw [take_ok hexec]
      refine ⟨last, _, hnext, ?_⟩
      unfold weight
      rw [hlast]
      exact Nat.lt_add_right slot.weight (Nat.lt_succ_of_lt (Nat.lt_succ_self 1))
  | cons item items =>
      cases item with
      | suspend =>
          rw [take_ok hat.produce_suspend.1]
          exact ⟨slot, _, hat.produce_suspend.2, by simp +arith⟩
      | plain value => exact hmay.elim
      | future ready value =>
          cases ready with
          | true =>
              have hslot := hat.waiting rfl hmay.1 hmay.2.1
              subst hslot
              obtain ⟨next, hexec, hnext⟩ := hat.produce_ready hmay.2.2
              rw [take_ok hexec]
              exact ⟨_, _, hnext, by simp +arith⟩
          | false =>
              obtain ⟨next, hexec, hnext⟩ := hat.produce_pending
              rw [take_ok hexec]
              exact ⟨slot, _, hnext, by simp +arith⟩

/-- The consumer that does not wait asks for the next value. -/
theorem At.ask (hat : At program before slot stage) (haway : before.consumer = .away) :
    ∃ slot', At program (take AsyncGeneration.ask before) slot' stage ∧
      weight slot' stage < weight slot stage := by
  have hslot := hat.inSlot
  cases slot with
  | idle =>
      obtain ⟨next, hexec, hnext⟩ := hat.ask_idle
      rw [take_ok hexec]
      exact ⟨_, hnext, by simp +arith⟩
  | closed =>
      obtain ⟨next, hexec, hnext⟩ := hat.ask_closed
      rw [take_ok hexec]
      exact ⟨_, hnext, by simp +arith⟩
  | waiting => cases haway.symm.trans hslot.consumer
  | announced value => cases haway.symm.trans hslot.1.consumer
  | ended => cases haway.symm.trans hslot.consumer
  | finished => cases haway.symm.trans hslot

/-- A step at which the generator may set the promise keeps the generation in order. -/
theorem At.step (hat : At program before slot stage) (hmeets : before.Meets action)
    (hown : action.isOwn = true) (hstep : Step before action after) :
    ∃ slot' stage', At program after slot' stage' ∧ weight slot' stage' < weight slot stage := by
  have hproducer := hat.producer
  have hinner := hat.inner
  cases hstep with
  | produce hescaped hrunning =>
      rw [hrunning] at hproducer
      cases stage <;> cases hproducer
      exact hat.produce hmeets
  | wake hescaped hasleep =>
      rw [hasleep] at hproducer
      cases stage <;> cases hproducer
      exact ⟨slot, _, hat.wake, by simp +arith⟩
  | schedule hescaped hasleep =>
      rw [hasleep] at hproducer
      cases stage <;> cases hproducer
      exact ⟨slot, _, hat.schedule, by simp +arith⟩
  | resolve hidle hsuspended =>
      rw [hsuspended] at hinner
      cases stage <;> cases hinner
      exact ⟨slot, _, hat.resolve, by simp +arith⟩
  | resolveFull hidle hsuspended hfull => exact absurd hmeets hfull
  | ask hidle haway =>
      obtain ⟨slot', hnext, hless⟩ := hat.ask haway
      exact ⟨slot', stage, hnext, hless⟩
  | resumeConsumer hidle hqueue hwaiting =>
      rcases hat.queued_consumer hqueue with rfl | ⟨value, rfl⟩
      · cases hwaiting.symm.trans hat.inSlot.consumer
        obtain ⟨next, hexec, hnext⟩ := hat.resumeConsumer_ended hqueue
        rw [take_ok hexec]
        exact ⟨_, stage, hnext, by simp +arith⟩
      · cases hwaiting.symm.trans hat.inSlot.1.consumer
        obtain ⟨next, hexec, hnext⟩ := hat.resumeConsumer_announced hqueue
        rw [take_ok hexec]
        exact ⟨_, stage, hnext, by simp +arith⟩
  | resumeScheduled hidle hqueue hscheduled =>
      rw [hscheduled] at hproducer
      cases stage <;> cases hproducer
      exact ⟨slot, _, hat.resumeScheduled hqueue, by simp +arith⟩
  | resumeYielding hidle hqueue hyielding =>
      rw [hyielding] at hproducer
      have hqueued := hat.queued_stage (by decide) hqueue
      cases stage <;> cases hproducer <;> cases hqueued
      obtain ⟨next, hexec, hnext⟩ := hat.resumeYielding hqueue
      rw [take_ok hexec]
      exact ⟨slot, _, hnext, by simp +arith⟩
  | resumeInner hidle hqueue hscheduled =>
      rw [hscheduled] at hinner
      cases stage <;> cases hinner
      have hslot := hat.waiting rfl hmeets.1 hmeets.2.1
      subst hslot
      obtain ⟨next, hexec, hnext⟩ := hat.resumeInner hqueue hmeets.2.2
      rw [take_ok hexec]
      exact ⟨_, _, hnext, by simp +arith⟩
  | others hroom free hfree => cases hown

/-- What else goes through the queue does not matter to the generation. -/
theorem At.others (hat : At program before slot stage) (hown : action.isOwn = false)
    (hstep : Step before action after) : At program after slot stage := by
  cases hstep with
  | others hroom free hfree => exact { hat with escaped := hat.escaped }
  | _ => cases hown

/-- No step of the generator or the consumer is possible. -/
def Stuck (generation : AsyncGeneration T) : Prop :=
  ∀ action after, action.isOwn = true → ¬ Step generation action after

theorem At.idle_of_stuck (hat : At program generation slot stage) (hstuck : generation.Stuck) :
    generation.Idle := by
  refine ⟨hat.escaped, ?_⟩
  intro items hrunning
  exact hstuck _ _ rfl (.produce hat.escaped hrunning)

/-- When no step is possible, no coroutine is scheduled. -/
theorem At.scheduled_of_stuck (hat : At program generation slot stage)
    (hstuck : generation.Stuck) : generation.scheduled = [] := by
  have hidle := hat.idle_of_stuck hstuck
  have hproducer := hat.producer
  have hinner := hat.inner
  cases hqueue : generation.scheduled with
  | nil => rfl
  | cons coro rest =>
      exfalso
      by_cases hcoro : coro = consumerCoro
      · subst hcoro
        rcases hat.queued_consumer hqueue with rfl | ⟨value, rfl⟩
        · exact hstuck _ _ rfl (.resumeConsumer hidle hqueue hat.inSlot.consumer)
        · exact hstuck _ _ rfl (.resumeConsumer hidle hqueue hat.inSlot.1.consumer)
      · have hqueued := hat.queued_stage hcoro hqueue
        cases stage <;> cases hqueued
        · exact hstuck _ _ rfl (.resumeScheduled hidle hqueue hproducer)
        · exact hstuck _ _ rfl (.resumeInner hidle hqueue hinner)
        · exact hstuck _ _ rfl (.resumeYielding hidle hqueue hproducer)

theorem At.observed_of_stuck (hat : At program generation slot stage)
    (hstuck : generation.Stuck) : generation.observed = expected program := by
  have hidle := hat.idle_of_stuck hstuck
  have hempty : slot.queued ++ stage.queued = [] := by
    have hqueue := hat.queue
    rw [hat.scheduled_of_stuck hstuck] at hqueue
    exact List.nil_perm.mp hqueue
  obtain ⟨hslots, hstages⟩ := List.append_eq_nil_iff.mp hempty
  have hproducer := hat.producer
  have hinner := hat.inner
  have hcloses := hat.closes
  have hobserved := hat.observed
  cases stage with
  | running items => exact absurd hproducer (hidle.2 items)
  | asleep items => exact absurd (.wake hat.escaped hproducer) (hstuck _ _ rfl)
  | scheduled items => cases hstages
  | awaits future value items =>
      exfalso
      by_cases hroom : generation.RoomFor 1
      · exact hstuck _ _ rfl (.resolve hidle hinner hroom)
      · exact hstuck _ _ rfl (.resolveFull hidle hinner hroom)
  | ready future value items => cases hstages
  | resumes future items => cases hstages
  | finished =>
      cases slot with
      | idle => cases hcloses
      | waiting => cases hcloses
      | announced value => cases hcloses
      | ended => cases hslots
      | closed => exact absurd (.ask hidle hat.inSlot) (hstuck _ _ rfl)
      | finished =>
          change generation.observed ++ [] ++ [] = expected program at hobserved
          rw [List.append_nil, List.append_nil] at hobserved
          exact hobserved

/-- What the consumer has observed is as it should be, and all of it if nothing more can happen. -/
structure Orderly (program : List (Item T)) (generation : AsyncGeneration T) : Prop where
  escaped : generation.escaped = none
  inOrder : generation.observed <+: expected program
  complete : generation.Stuck → generation.observed = expected program

theorem At.orderly (hat : At program generation slot stage) : Orderly program generation where
  escaped := hat.escaped
  inOrder := by
    rw [← hat.observed, List.append_assoc]
    exact List.prefix_append generation.observed (slot.due ++ stage.remaining)
  complete hstuck := hat.observed_of_stuck hstuck

/-- A step at which the condition is met. -/
def Careful (before : AsyncGeneration T) (action : Action) (after : AsyncGeneration T) : Prop :=
  before.Meets action ∧ Step before action after

theorem At.run {actions : List Action} (hat : At program before slot stage)
    (hrun : Run Careful before actions after) :
    ∃ slot' stage', At program after slot' stage' ∧
      weight slot' stage' + actions.countP Action.isOwn ≤ weight slot stage := by
  induction hrun generalizing slot stage with
  | nil state => exact ⟨slot, stage, hat, Nat.le_refl _⟩
  | @cons before middle after action actions hstep hrest ih =>
      rw [List.countP_cons]
      cases hown : action.isOwn with
      | true =>
          obtain ⟨slot', stage', hmiddle, hless⟩ := hat.step hstep.1 hown hstep.2
          obtain ⟨last, final, hfinal, hle⟩ := ih hmiddle
          refine ⟨last, final, hfinal, ?_⟩
          rw [if_pos rfl]
          omega
      | false =>
          obtain ⟨last, final, hfinal, hle⟩ := ih (hat.others hown hstep.2)
          refine ⟨last, final, hfinal, ?_⟩
          rw [if_neg Bool.false_ne_true]
          exact hle

/-- As long as the generator meets the condition, what the consumer observes is in order, and after
so many steps of the two all of it is observed. -/
theorem observes_of_run {room : Option Room} {actions : List Action}
    (hrun : Run Careful (start program room) actions generation) :
    Orderly program generation ∧ actions.countP Action.isOwn ≤ 18 * program.length + 4 := by
  obtain ⟨slot, stage, hat, hle⟩ := (at_start program room).run hrun
  refine ⟨hat.orderly, ?_⟩
  simp only [weight, Stage.weight, Slot.weight] at hle
  omega

/-- The consumer of a generator that yields one future, which is set after it asked. The queue takes
two coroutines. -/
theorem observes_of_run_pending :
    Orderly [.future false 5] (⟨[.make, ⟨true, true, none, some 0, .movedFrom, none⟩],
      [setFor 1 ()], [1], some ⟨2, 1⟩, ⟨false, 1, some 5⟩, .yielding 0 [], .absent, .away, [some 5],
        none⟩ : AsyncGeneration Nat) := by
  let pending : AsyncGeneration Nat := ⟨[.make], [suspendedBy 1], [], some ⟨2, 2⟩,
    ⟨false, 0, none⟩, .yielding 0 [], .suspended 0 5, .away, [], none⟩
  let asked : AsyncGeneration Nat := { pending with
    nexts := [.make, suspendedBy 0]
    shared := ⟨false, 1, none⟩
    consumer := .waiting 1 }
  let resolved : AsyncGeneration Nat := { asked with
    scheduled := [2]
    room := some ⟨2, 1⟩
    inner := .scheduled 0 5 }
  let announced : AsyncGeneration Nat := { asked with
    nexts := [.make, setFor 0 true]
    yields := [setFor 1 ()]
    scheduled := [0, 1]
    room := some ⟨2, 0⟩
    shared := ⟨false, 1, some 5⟩
    inner := .absent }
  have hproduce : Careful (start [.future false 5] (some ⟨2, 2⟩)) .produce pending :=
    ⟨fun _ hitems => by cases hitems; trivial, @Step.produce _ (start _ _) _ rfl rfl⟩
  have hask : Careful pending .ask asked :=
    ⟨trivial, @Step.ask _ pending ⟨rfl, fun _ hrunning => nomatch hrunning⟩ rfl⟩
  have htwo : asked.RoomFor 1 := fun _ hroom => by cases hroom; decide
  have hone : resolved.RoomFor 1 := fun _ hroom => by cases hroom; decide
  have hresolve : Careful asked .resolve resolved :=
    ⟨htwo, @Step.resolve _ asked _ _ ⟨rfl, fun _ hrunning => nomatch hrunning⟩ rfl htwo⟩
  have hinner : Careful resolved .resumeInner announced :=
    ⟨⟨⟨1, rfl⟩, ⟨suspendedBy 0, rfl, rfl⟩, hone⟩,
      @Step.resumeInner _ resolved _ _ _ ⟨rfl, fun _ hrunning => nomatch hrunning⟩ rfl rfl⟩
  have hconsumer : Careful announced .resumeConsumer _ :=
    ⟨trivial,
      @Step.resumeConsumer _ announced _ _ ⟨rfl, fun _ hrunning => nomatch hrunning⟩ rfl rfl⟩
  exact (observes_of_run (.cons hproduce (.cons hask (.cons hresolve (.cons hinner
    (.cons hconsumer (.nil _))))))).1

theorem stuck_of_parked {future : Nat} (hproducer : generation.producer = .parked items)
    (hinner : generation.inner = .absent) (hwaiting : generation.consumer = .waiting future)
    (hempty : generation.scheduled = []) : generation.Stuck := by
  intro action after hown hstep
  cases hstep with
  | produce _ hrunning => cases hproducer.symm.trans hrunning
  | wake _ hasleep => cases hproducer.symm.trans hasleep
  | schedule _ hasleep _ => cases hproducer.symm.trans hasleep
  | resolve _ hsuspended _ => cases hinner.symm.trans hsuspended
  | resolveFull _ hsuspended _ => cases hinner.symm.trans hsuspended
  | ask _ haway => cases hwaiting.symm.trans haway
  | resumeConsumer _ hqueue _ => cases hempty.symm.trans hqueue
  | resumeScheduled _ hqueue _ => cases hempty.symm.trans hqueue
  | resumeYielding _ hqueue _ => cases hempty.symm.trans hqueue
  | resumeInner _ hqueue _ => cases hempty.symm.trans hqueue
  | others _ _ _ => cases hown

/-- After a plain value the generator is not resumed, and the consumer waits for ever. -/
theorem not_orderly_of_plain :
    ¬ ∀ (actions : List Action) (generation : AsyncGeneration Nat),
      Run Step (start [.suspend, .plain 1, .future false 2] none) actions generation →
        Orderly [.suspend, .plain 1, .future false 2] generation := by
  let asleep : AsyncGeneration Nat := { start [] none with
    producer := .asleep [.plain 1, .future false 2] }
  let asked : AsyncGeneration Nat := { asleep with
    nexts := [.make, suspendedBy 0]
    shared := ⟨false, 1, none⟩
    consumer := .waiting 1 }
  let awake : AsyncGeneration Nat := { asked with producer := .running [.plain 1, .future false 2] }
  let parked : AsyncGeneration Nat := { asked with
    nexts := [.make, setFor 0 true]
    scheduled := [0]
    shared := ⟨false, 1, some 1⟩
    producer := .parked [.future false 2] }
  let observed : AsyncGeneration Nat := { parked with
    nexts := [.make, ⟨true, true, none, some 0, .movedFrom, none⟩]
    scheduled := []
    consumer := .away
    observed := [some 1] }
  let waiting : AsyncGeneration Nat := { observed with
    nexts := observed.nexts ++ [suspendedBy 0]
    shared := ⟨false, 2, some 1⟩
    consumer := .waiting 2 }
  have hsuspend : Step (start [.suspend, .plain 1, .future false 2] none) .produce asleep :=
    @Step.produce _ (start _ none) _ rfl rfl
  have hask : Step asleep .ask asked :=
    @Step.ask _ asleep ⟨rfl, fun _ hrunning => nomatch hrunning⟩ rfl
  have hwake : Step asked .wake awake := .wake rfl rfl
  have hplain : Step awake .produce parked := @Step.produce _ awake _ rfl rfl
  have hobserve : Step parked .resumeConsumer observed :=
    @Step.resumeConsumer _ parked _ _ ⟨rfl, fun _ hrunning => nomatch hrunning⟩ rfl rfl
  have hagain : Step observed .ask waiting :=
    @Step.ask _ observed ⟨rfl, fun _ hrunning => nomatch hrunning⟩ rfl
  intro horderly
  have hrun := horderly _ _ (.cons hsuspend (.cons hask (.cons hwake (.cons hplain
    (.cons hobserve (.cons hagain (.nil waiting)))))))
  have hstuck : waiting.Stuck := stuck_of_parked rfl rfl rfl rfl
  have hcomplete : [some 1] = [some 1, some 2, none] := hrun.complete hstuck
  revert hcomplete
  decide

end Runs

end AsyncGeneration

end Liblw.Co
