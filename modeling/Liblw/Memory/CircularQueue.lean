import Liblw.Error

/-!
# Circular queues

A queue of bounded capacity in a ring of slots. `head` is where the next element goes, `tail` is
where the oldest one is. The storage that the constructor reserves is a list of slots, empty until
something is put there.
-/

namespace Liblw.Memory

open Liblw.Lib

variable {T : Type}

structure CircularQueue (T : Type) where
  size : Nat
  capacity : Nat
  buffer : List (Option T)
  head : Nat
  tail : Nat
deriving DecidableEq, Repr

namespace CircularQueue

def make (capacity : Nat) : CircularQueue T :=
  ⟨0, capacity, List.replicate capacity none, 0, 0⟩

def empty (queue : CircularQueue T) : Bool := queue.size = 0

def full (queue : CircularQueue T) : Bool := queue.size = queue.capacity

def nextIndex (queue : CircularQueue T) (i : Nat) : Result Nat :=
  if queue.capacity = 0 then .error (.undefined .moduloByZero)
  else .ok ((i + 1) % queue.capacity)

/-- The element in a slot. -/
def slot (queue : CircularQueue T) (i : Nat) : Result T :=
  match queue.buffer[i]? with
  | none => .error (.undefined .readPastBuffer)
  | some none => .error (.undefined .uninitialized)
  | some (some value) => .ok value

def popFront (queue : CircularQueue T) : Result (T × CircularQueue T) :=
  if queue.empty then
    raise .failedPrecondition "CircularQueue is empty, nothing to pop."
  else do
    let tail ← queue.nextIndex queue.tail
    let value ← queue.slot queue.tail
    return (value, { queue with tail, size := queue.size - 1 })

def tryPushBack (queue : CircularQueue T) (value : T) : Result (Bool × CircularQueue T) :=
  if queue.full then .ok (false, queue)
  else do
    let head ← queue.nextIndex queue.head
    if queue.buffer.length ≤ queue.head then .error (.undefined .writePastBuffer)
    else
      return (true, { queue with
        head
        buffer := queue.buffer.set queue.head (some value)
        size := queue.size + 1 })

def pushBack (queue : CircularQueue T) (value : T) : Result (CircularQueue T) := do
  let (pushed, queue) ← queue.tryPushBack value
  if pushed then return queue
  else
    let capacity := queue.capacity
    raise .resourceExhausted
      s!"CircularQueue at capacity ({capacity}), cannot add more items."

/-- What a full queue throws. -/
def refusal (capacity : Nat) : Fault :=
  .thrown ⟨.resourceExhausted, s!"CircularQueue at capacity ({capacity}), cannot add more items."⟩

theorem pushBack_of_full {queue : CircularQueue T} (hfull : queue.full = true) (value : T) :
    queue.pushBack value = .error (refusal queue.capacity) := by
  have htry : queue.tryPushBack value = .ok (false, queue) := if_pos hfull
  unfold pushBack
  rw [htry]
  rfl

/-! ### The list in the ring -/

/-- The elements stand in the ring from the tail on. -/
structure Holds (queue : CircularQueue T) (items : List T) : Prop where
  size : queue.size = items.length
  fits : items.length ≤ queue.capacity
  slots : queue.buffer.length = queue.capacity
  head : queue.head = (queue.tail + items.length) % queue.capacity
  tail : queue.tail < queue.capacity ∨ queue.capacity = 0
  items : ∀ i (hi : i < items.length),
    queue.buffer[(queue.tail + i) % queue.capacity]? = some (some items[i])

section Holds

variable {queue : CircularQueue T} {items : List T} {value : T}

theorem holds_make (capacity : Nat) : (make capacity : CircularQueue T).Holds [] where
  size := rfl
  fits := Nat.zero_le capacity
  slots := List.length_replicate
  head := (Nat.zero_mod capacity).symm
  tail := (Nat.eq_zero_or_pos capacity).symm
  items := nofun

theorem Holds.full_iff (hholds : queue.Holds items) :
    queue.full = true ↔ items.length = queue.capacity := by
  unfold full
  rw [hholds.size, decide_eq_true_eq]

theorem add_mod_ne {tail i n capacity : Nat} (hi : i < n) (hn : n < capacity) :
    (tail + i) % capacity ≠ (tail + n) % capacity := by
  intro heq
  have hdvd : capacity ∣ (tail + n) - (tail + i) :=
    (Nat.modEq_iff_dvd' (by omega)).mp heq
  have hle := Nat.le_of_dvd (by omega) hdvd
  omega

/-- A queue with room takes an element at its back. -/
theorem Holds.pushBack (hholds : queue.Holds items) (hroom : items.length < queue.capacity)
    (value : T) :
    ∃ pushed, queue.pushBack value = .ok pushed ∧ pushed.Holds (items ++ [value]) ∧
      pushed.capacity = queue.capacity := by
  have hfull : queue.full = false := by
    rw [Bool.eq_false_iff, Ne, hholds.full_iff]
    omega
  have hhead : queue.head < queue.buffer.length := by
    rw [hholds.head, hholds.slots]
    exact Nat.mod_lt _ (by omega)
  have hnext : queue.nextIndex queue.head = .ok ((queue.head + 1) % queue.capacity) :=
    if_neg (by omega)
  have htry : queue.tryPushBack value = .ok (true, { queue with
      head := (queue.head + 1) % queue.capacity
      buffer := queue.buffer.set queue.head (some value)
      size := queue.size + 1 }) := by
    unfold tryPushBack
    rw [hfull, if_neg Bool.false_ne_true, hnext]
    change (if queue.buffer.length ≤ queue.head then _ else _) = _
    rw [if_neg (Nat.not_le_of_lt hhead)]
    rfl
  refine ⟨{ queue with
    head := (queue.head + 1) % queue.capacity
    buffer := queue.buffer.set queue.head (some value)
    size := queue.size + 1 }, ?_, ?_, rfl⟩
  · unfold CircularQueue.pushBack
    rw [htry]
    rfl
  · refine ⟨?_, ?_, ?_, ?_, hholds.tail, ?_⟩
    · rw [List.length_append, hholds.size]
      rfl
    · rw [List.length_append]
      exact hroom
    · rw [List.length_set]
      exact hholds.slots
    · dsimp only
      rw [hholds.head, Nat.mod_add_mod, List.length_append, Nat.add_assoc]
      rfl
    · intro i hi
      dsimp only
      rw [List.length_append, List.length_singleton] at hi
      by_cases hlast : i < items.length
      · rw [List.getElem_append_left hlast, List.getElem?_set_ne, hholds.items i hlast]
        rw [hholds.head]
        exact (add_mod_ne hlast hroom).symm
      · have heq : i = items.length := by omega
        subst heq
        rw [← hholds.head, List.getElem?_set_self hhead, List.getElem_concat_length rfl]

/-- The oldest element comes off the front. -/
theorem Holds.popFront (hholds : queue.Holds (value :: items)) :
    ∃ popped, queue.popFront = .ok (value, popped) ∧ popped.Holds items ∧
      popped.capacity = queue.capacity := by
  have hcapacity : items.length + 1 ≤ queue.capacity := hholds.fits
  have htail : queue.tail < queue.capacity := hholds.tail.resolve_right (by omega)
  have hempty : queue.empty = false := by
    unfold empty
    rw [hholds.size]
    rfl
  have hnext : queue.nextIndex queue.tail = .ok ((queue.tail + 1) % queue.capacity) :=
    if_neg (by omega)
  have hslot : queue.slot queue.tail = .ok value := by
    have hfirst := hholds.items 0 (Nat.zero_lt_succ _)
    rw [Nat.add_zero, Nat.mod_eq_of_lt htail] at hfirst
    unfold slot
    rw [hfirst]
    rfl
  refine ⟨{ queue with tail := (queue.tail + 1) % queue.capacity, size := queue.size - 1 }, ?_, ?_,
    rfl⟩
  · unfold CircularQueue.popFront
    rw [hempty, if_neg Bool.false_ne_true, hnext, hslot]
    rfl
  · refine ⟨?_, Nat.le_of_succ_le hcapacity, hholds.slots, ?_, .inl (Nat.mod_lt _ (by omega)), ?_⟩
    · dsimp only
      rw [hholds.size]
      rfl
    · dsimp only
      rw [Nat.mod_add_mod, hholds.head, List.length_cons, Nat.add_assoc, Nat.add_comm 1]
    · intro i hi
      dsimp only
      rw [Nat.mod_add_mod, Nat.add_assoc, Nat.add_comm 1, hholds.items (i + 1) (by
        rw [List.length_cons]
        omega)]
      rfl

end Holds

end CircularQueue

end Liblw.Memory
