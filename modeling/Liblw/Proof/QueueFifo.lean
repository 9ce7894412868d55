import Liblw.Memory.QueueCalls

/-!
# A circular queue is a bounded list

The ring with the list in it simulates the list: they refuse the same calls, with the same errors,
and what is popped is the same. The index of the next slot is only asked for where there is room or
an element, so never with a capacity of zero.
-/

namespace Liblw.Memory

open Liblw.Lib

variable {T : Type}

namespace Fifo

variable {fifo : Fifo T}

theorem push_of_room (hroom : fifo.items.length < fifo.capacity) (value : T) :
    fifo.push value =
      some ⟨fifo.capacity, fifo.items ++ [value], List.length_append ▸ hroom⟩ :=
  dif_pos hroom

theorem push_of_full (hfull : fifo.items.length = fifo.capacity) (value : T) :
    fifo.push value = none :=
  dif_neg (Nat.not_lt_of_le (Nat.le_of_eq hfull.symm))

theorem room_or_full (fifo : Fifo T) :
    fifo.items.length < fifo.capacity ∨ fifo.items.length = fifo.capacity :=
  Nat.lt_or_eq_of_le fifo.fits

/-- What one call can do: put an element in, take one out, or refuse and change nothing. -/
inductive Does (fifo : Fifo T) (request : QueueCall T) :
    Result (QueueAnswer T) × Fifo T → Prop where
  | puts {answer : QueueAnswer T} {value : T} {next : Fifo T}
      (hadded : request.added (.ok answer) = [value]) (htaken : taken (.ok answer) = [])
      (hitems : next.items = fifo.items ++ [value]) (hcapacity : next.capacity = fifo.capacity) :
      Does fifo request (.ok answer, next)
  | takes {value : T} {next : Fifo T} (hadded : request.added (.ok (.popped value)) = [])
      (hitems : fifo.items = value :: next.items) (hcapacity : next.capacity = fifo.capacity) :
      Does fifo request (.ok (.popped value), next)
  | refuses {answer : Result (QueueAnswer T)} (hadded : request.added answer = [])
      (htaken : taken answer = []) (hdefined : ∀ what, answer ≠ .error (.undefined what)) :
      Does fifo request (answer, fifo)

theorem does_machine (fifo : Fifo T) (request : QueueCall T) :
    Does fifo request (machine fifo request) := by
  cases request with
  | tryPushBack value =>
      rcases fifo.room_or_full with hroom | hfull
      · simp only [machine, push_of_room hroom]
        exact .puts rfl rfl rfl rfl
      · simp only [machine, push_of_full hfull]
        exact .refuses rfl rfl nofun
  | pushBack value =>
      rcases fifo.room_or_full with hroom | hfull
      · simp only [machine, push_of_room hroom]
        exact .puts rfl rfl rfl rfl
      · simp only [machine, push_of_full hfull]
        exact .refuses rfl rfl nofun
  | popFront =>
      rcases fifo with ⟨capacity, items, fits⟩
      cases items with
      | nil => exact .refuses rfl rfl nofun
      | cons value items => exact .takes rfl rfl rfl

/-- One call moves at most one element, in or out. -/
theorem items_step (fifo : Fifo T) (request : QueueCall T) :
    fifo.items ++ request.added (machine fifo request).1 =
      taken (machine fifo request).1 ++ (machine fifo request).2.items := by
  have hdoes := does_machine fifo request
  generalize machine fifo request = outcome at hdoes ⊢
  cases hdoes with
  | puts hadded htaken hitems => rw [hadded, htaken, hitems, List.nil_append]
  | takes hadded hitems => rw [hadded, hitems, List.append_nil, taken, List.singleton_append]
  | refuses hadded htaken => rw [hadded, htaken, List.append_nil, List.nil_append]

/-- What a run puts in comes out in the same order, or is still there. -/
theorem items_run (fifo : Fifo T) (calls : List (QueueCall T)) :
    fifo.items ++ addedBy calls (machine.run fifo calls).1 =
      takenBy (machine.run fifo calls).1 ++ (machine.run fifo calls).2.items := by
  induction calls generalizing fifo with
  | nil => exact List.append_nil _
  | cons request calls ih =>
      have hrest := ih (machine fifo request).2
      rw [Machine.run_cons]
      calc
        fifo.items ++ (request.added (machine fifo request).1 ++ addedBy calls _) =
            taken (machine fifo request).1 ++ ((machine fifo request).2.items ++
              addedBy calls _) := by
          rw [← List.append_assoc, items_step, List.append_assoc]
        _ = taken (machine fifo request).1 ++ (takenBy _ ++ _) := by
          rw [hrest]
        _ = _ := by
          rw [← List.append_assoc]
          rfl

/-- Every call on the list has a meaning. -/
theorem answer_defined (fifo : Fifo T) (request : QueueCall T) (what : Undefined) :
    (machine fifo request).1 ≠ .error (.undefined what) := by
  have hdoes := does_machine fifo request
  generalize machine fifo request = outcome at hdoes ⊢
  cases hdoes with
  | puts => exact nofun
  | takes => exact nofun
  | refuses hadded htaken hdefined => exact hdefined what

theorem answers_defined (fifo : Fifo T) (calls : List (QueueCall T)) (what : Undefined) :
    .error (.undefined what) ∉ (machine.run fifo calls).1 := by
  induction calls generalizing fifo with
  | nil => exact List.not_mem_nil
  | cons request calls ih =>
      rw [Machine.run_cons, List.mem_cons]
      exact fun hmem => hmem.elim (answer_defined fifo request what ∘ Eq.symm) (ih _)

theorem capacity_step (fifo : Fifo T) (request : QueueCall T) :
    (machine fifo request).2.capacity = fifo.capacity := by
  have hdoes := does_machine fifo request
  generalize machine fifo request = outcome at hdoes ⊢
  cases hdoes with
  | puts hadded htaken hitems hcapacity => exact hcapacity
  | takes hadded hitems hcapacity => exact hcapacity
  | refuses => rfl

theorem capacity_run (fifo : Fifo T) (calls : List (QueueCall T)) :
    (machine.run fifo calls).2.capacity = fifo.capacity :=
  @Machine.run_preserves _ _ _ machine fifo (fun reached => reached.capacity = fifo.capacity)
    (fun reached request hreached => (capacity_step reached request).trans hreached) rfl calls

end Fifo

namespace CircularQueue

variable {queue : CircularQueue T}

/-- The ring has the elements of the list, and as many slots as it may have elements. -/
def Refines (queue : CircularQueue T) (fifo : Fifo T) : Prop :=
  queue.Holds fifo.items ∧ queue.capacity = fifo.capacity

/-- A call that works does what the member does. -/
theorem machine_pushBack_ok {value : T} {pushed : CircularQueue T}
    (hpush : queue.pushBack value = .ok pushed) :
    machine queue (.pushBack value) = (.ok .pushed, pushed) := by
  simp only [machine, call, Call.exec_get_bind, hpush]
  rfl

theorem tryPushBack_of_pushBack {value : T} {pushed : CircularQueue T}
    (hpush : queue.pushBack value = .ok pushed) :
    queue.tryPushBack value = .ok (true, pushed) := by
  unfold pushBack at hpush
  cases htry : queue.tryPushBack value with
  | error fault =>
      rw [htry] at hpush
      cases hpush
  | ok result =>
      rcases result with ⟨added, queue'⟩
      rw [htry] at hpush
      cases added with
      | false => cases hpush
      | true =>
          cases hpush
          rfl

theorem machine_tryPushBack_ok {value : T} {pushed : CircularQueue T}
    (hpush : queue.pushBack value = .ok pushed) :
    machine queue (.tryPushBack value) = (.ok (.tried true), pushed) := by
  simp only [machine, call, Call.exec_get_bind, tryPushBack_of_pushBack hpush]
  rfl

theorem machine_popFront_ok {value : T} {popped : CircularQueue T}
    (hpop : queue.popFront = .ok (value, popped)) :
    machine queue .popFront = (.ok (.popped value), popped) := by
  simp only [machine, call, Call.exec_get_bind, hpop]
  rfl

section Refused

/-! ### Calls that are refused -/

theorem machine_tryPushBack_full (hfull : queue.full = true) (value : T) :
    machine queue (.tryPushBack value) = (.ok (.tried false), queue) := by
  have htry : queue.tryPushBack value = .ok (false, queue) := if_pos hfull
  simp only [machine, call, Call.exec_get_bind, htry]
  rfl

theorem machine_pushBack_full (hfull : queue.full = true) (value : T) :
    machine queue (.pushBack value) =
      (let capacity := queue.capacity
       (raise .resourceExhausted
        s!"CircularQueue at capacity ({capacity}), cannot add more items.", queue)) := by
  simp only [machine, call, Call.exec_get_bind, pushBack_of_full hfull]
  rfl

theorem machine_popFront_empty (hempty : queue.empty = true) :
    machine queue .popFront =
      (raise .failedPrecondition "CircularQueue is empty, nothing to pop.", queue) := by
  have hpop : queue.popFront =
      raise .failedPrecondition "CircularQueue is empty, nothing to pop." := if_pos hempty
  simp only [machine, call, Call.exec_get_bind, hpop]
  rfl

end Refused

theorem simulates_fifo : Machine.Simulates machine Fifo.machine (@Refines T) := by
  rintro queue fifo request ⟨hholds, hcapacity⟩
  cases request with
  | tryPushBack value =>
      rcases fifo.room_or_full with hroom | hfull
      · obtain ⟨pushed, hpush, hpushed, hsame⟩ := hholds.pushBack (hcapacity ▸ hroom) value
        rw [machine_tryPushBack_ok hpush]
        simp only [Fifo.machine, Fifo.push_of_room hroom]
        exact ⟨trivial, hpushed, hsame.trans hcapacity⟩
      · have hrefuse : queue.full = true := hholds.full_iff.2 (hfull.trans hcapacity.symm)
        rw [machine_tryPushBack_full hrefuse]
        simp only [Fifo.machine, Fifo.push_of_full hfull]
        exact ⟨trivial, hholds, hcapacity⟩
  | pushBack value =>
      rcases fifo.room_or_full with hroom | hfull
      · obtain ⟨pushed, hpush, hpushed, hsame⟩ := hholds.pushBack (hcapacity ▸ hroom) value
        rw [machine_pushBack_ok hpush]
        simp only [Fifo.machine, Fifo.push_of_room hroom]
        exact ⟨trivial, hpushed, hsame.trans hcapacity⟩
      · have hrefuse : queue.full = true := hholds.full_iff.2 (hfull.trans hcapacity.symm)
        rw [machine_pushBack_full hrefuse, hcapacity]
        simp only [Fifo.machine, Fifo.push_of_full hfull]
        exact ⟨trivial, hholds, hcapacity⟩
  | popFront =>
      rcases fifo with ⟨capacity, items, fits⟩
      cases items with
      | nil =>
          have hempty : queue.empty = true := decide_eq_true hholds.size
          rw [machine_popFront_empty hempty]
          exact ⟨rfl, hholds, hcapacity⟩
      | cons value items =>
          obtain ⟨popped, hpop, hpopped, hsame⟩ := hholds.popFront
          rw [machine_popFront_ok hpop]
          exact ⟨rfl, hpopped, hsame.trans hcapacity⟩

theorem refines_make (capacity : Nat) :
    (make capacity : CircularQueue T).Refines (.empty capacity) :=
  ⟨holds_make capacity, rfl⟩

/-- Every call on a queue has a meaning as long as the ring has a list in it. -/
theorem Holds.answers_defined {items : List T} (hholds : queue.Holds items)
    (calls : List (QueueCall T)) (what : Undefined) :
    .error (.undefined what) ∉ (machine.run queue calls).1 := by
  have hrefines : queue.Refines ⟨queue.capacity, items, hholds.fits⟩ := ⟨hholds, rfl⟩
  rw [(simulates_fifo.run hrefines calls).1]
  exact Fifo.answers_defined _ calls what

/-- What a run of calls on a new queue does. -/
structure BehavesAsFifo (capacity : Nat) (calls : List (QueueCall T))
    (answers : List (Result (QueueAnswer T))) (queue : CircularQueue T) : Prop where
  /-- The answers and the elements are those of the list. -/
  alike : answers = (Fifo.machine.run (.empty capacity) calls).1
  holds : queue.Holds (Fifo.machine.run (.empty capacity) calls).2.items
  /-- What was pushed and not popped is there, and no more than fits. -/
  order : addedBy calls answers = takenBy answers ++
    (Fifo.machine.run (.empty capacity) calls).2.items
  size : queue.size + (takenBy answers).length = (addedBy calls answers).length
  size_le : queue.size ≤ capacity
  /-- No index is computed modulo zero, and no slot is read or written past the ring. -/
  defined : ∀ what, .error (.undefined what) ∉ answers
  /-- A full queue refuses to take an element, and is left as it was. -/
  refuses_push : queue.size = capacity → ∀ value,
    machine queue (.tryPushBack value) = (.ok (.tried false), queue) ∧
    machine queue (.pushBack value) = (raise .resourceExhausted
      s!"CircularQueue at capacity ({capacity}), cannot add more items.", queue)
  /-- An empty one has nothing to give. -/
  refuses_pop : queue.size = 0 → machine queue .popFront =
    (raise .failedPrecondition "CircularQueue is empty, nothing to pop.", queue)

/-- **The bounded queue.** Whatever is called on a queue of any capacity, it behaves as the list of
bounded length does. -/
theorem behavesAsFifo (capacity : Nat) (calls : List (QueueCall T)) :
    BehavesAsFifo capacity calls (machine.run (make capacity) calls).1
      (machine.run (make capacity) calls).2 := by
  obtain ⟨hanswers, hholds, hcapacity⟩ := simulates_fifo.run (refines_make capacity) calls
  have hdefined := (@holds_make T capacity).answers_defined calls
  have horder := Fifo.items_run (.empty capacity) calls
  rw [Fifo.capacity_run] at hcapacity
  rw [← hanswers] at horder
  have hlength := congrArg List.length horder
  rw [List.length_append, List.length_append] at hlength
  refine ⟨hanswers, hholds, horder, ?_, ?_, hdefined, ?_, ?_⟩
  · rw [hholds.size, Nat.add_comm, ← hlength]
    exact Nat.zero_add _
  · rw [hholds.size]
    exact hholds.fits.trans (Nat.le_of_eq hcapacity)
  · intro hfull value
    have hrefuse : (machine.run (make capacity) calls).2.full = true :=
      decide_eq_true (hfull.trans hcapacity.symm)
    refine ⟨machine_tryPushBack_full hrefuse value, ?_⟩
    rw [machine_pushBack_full hrefuse, hcapacity]
    rfl
  · intro hempty
    exact machine_popFront_empty (decide_eq_true hempty)

end CircularQueue

end Liblw.Memory
