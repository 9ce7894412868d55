import Liblw.Lib.Machine
import Liblw.Memory.CircularQueue

/-!
# Calls on a queue

The members of a queue that put an element in or take one out, in any order, and the list of bounded
length that they are to behave like. A queue can also be moved: the ring goes over to the other
queue, and the moved one is left with a ring of no slots.
-/

namespace Liblw.Memory

open Liblw.Lib

variable {T : Type}

inductive QueueCall (T : Type) where
  | tryPushBack (value : T)
  | pushBack (value : T)
  | popFront
deriving DecidableEq, Repr

/-- What a call returns. -/
inductive QueueAnswer (T : Type) where
  | tried (pushed : Bool)
  | pushed
  | popped (value : T)
deriving DecidableEq, Repr

namespace CircularQueue

/-- The call as a transformer of the queue. The members throw before they write anything. -/
def call : QueueCall T → Call Fault (CircularQueue T) (QueueAnswer T)
  | .tryPushBack value => do
      let queue ← get
      match queue.tryPushBack value with
      | .ok (pushed, queue) =>
          set queue
          pure (.tried pushed)
      | .error fault => throw fault
  | .pushBack value => do
      let queue ← get
      match queue.pushBack value with
      | .ok queue =>
          set queue
          pure .pushed
      | .error fault => throw fault
  | .popFront => do
      let queue ← get
      match queue.popFront with
      | .ok (value, queue) =>
          set queue
          pure (.popped value)
      | .error fault => throw fault

/-- A queue that is called. -/
def machine : Machine (QueueCall T) (Result (QueueAnswer T)) (CircularQueue T) :=
  fun queue request => (call request).exec queue

/-! ### Moves

A vector that was moved is empty. -/

/-- The queue that is made of another one, and the other one afterwards. -/
def moveConstruct (other : CircularQueue T) : CircularQueue T × CircularQueue T :=
  ({ size := 0
     capacity := other.capacity
     buffer := other.buffer
     head := other.head
     tail := other.tail },
    { other with capacity := 0, buffer := [], head := 0, tail := 0 })

/-- The queue that another one is assigned to, and the other one afterwards. -/
def moveAssign (queue other : CircularQueue T) : CircularQueue T × CircularQueue T :=
  ({ queue with
     capacity := other.capacity
     buffer := other.buffer
     head := other.head
     tail := other.tail },
    { other with capacity := 0, buffer := [], head := 0, tail := 0 })

/-- The queues that calls and moves make, where no move has been of a queue that holds something or
to one that does. -/
inductive Reached : CircularQueue T → Prop where
  | make (capacity : Nat) : Reached (make capacity)
  | call {queue : CircularQueue T} (hqueue : Reached queue) (request : QueueCall T) :
      Reached (machine queue request).2
  | constructed {other : CircularQueue T} (hother : Reached other) (hempty : other.size = 0) :
      Reached (moveConstruct other).1
  | constructedFrom {other : CircularQueue T} (hother : Reached other) (hempty : other.size = 0) :
      Reached (moveConstruct other).2
  | assigned {queue other : CircularQueue T} (hqueue : Reached queue) (hother : Reached other)
      (hqueueEmpty : queue.size = 0) (hempty : other.size = 0) :
      Reached (moveAssign queue other).1
  | assignedFrom {queue other : CircularQueue T} (hqueue : Reached queue) (hother : Reached other)
      (hqueueEmpty : queue.size = 0) (hempty : other.size = 0) :
      Reached (moveAssign queue other).2

end CircularQueue

/-! ### The list of bounded length -/

/-- At most `capacity` elements, which are put at the back and taken from the front. -/
structure Fifo (T : Type) where
  capacity : Nat
  items : List T
  fits : items.length ≤ capacity

namespace Fifo

def empty (capacity : Nat) : Fifo T := ⟨capacity, [], Nat.zero_le capacity⟩

/-- A full list refuses what is pushed. -/
def push (fifo : Fifo T) (value : T) : Option (Fifo T) :=
  if hroom : fifo.items.length < fifo.capacity then
    some ⟨fifo.capacity, fifo.items ++ [value], List.length_append ▸ hroom⟩
  else none

/-- There is nothing to pop in the empty list. -/
def pop : Fifo T → Option (T × Fifo T)
  | ⟨_, [], _⟩ => none
  | ⟨capacity, value :: items, fits⟩ =>
      some (value, ⟨capacity, items, Nat.le_of_succ_le fits⟩)

/-- A list that is called. -/
def machine : Machine (QueueCall T) (Result (QueueAnswer T)) (Fifo T)
  | fifo, .tryPushBack value =>
      match fifo.push value with
      | some pushed => (.ok (.tried true), pushed)
      | none => (.ok (.tried false), fifo)
  | fifo, .pushBack value =>
      match fifo.push value with
      | some pushed => (.ok .pushed, pushed)
      | none =>
          let capacity := fifo.capacity
          (raise .resourceExhausted
            s!"CircularQueue at capacity ({capacity}), cannot add more items.", fifo)
  | fifo, .popFront =>
      match fifo.pop with
      | some (value, popped) => (.ok (.popped value), popped)
      | none => (raise .failedPrecondition "CircularQueue is empty, nothing to pop.", fifo)

end Fifo

/-! ### What a run of calls puts in and takes out -/

/-- The element that a call put in, going by its answer. -/
def QueueCall.added : QueueCall T → Result (QueueAnswer T) → List T
  | .tryPushBack value, .ok (.tried true) => [value]
  | .pushBack value, .ok .pushed => [value]
  | _, _ => []

/-- The element that a call took out. -/
def taken : Result (QueueAnswer T) → List T
  | .ok (.popped value) => [value]
  | _ => []

/-- What the calls put in, in their order. -/
def addedBy (calls : List (QueueCall T)) (answers : List (Result (QueueAnswer T))) : List T :=
  (List.zipWith QueueCall.added calls answers).flatten

/-- What the calls took out, in their order. -/
def takenBy (answers : List (Result (QueueAnswer T))) : List T := answers.flatMap taken

end Liblw.Memory
