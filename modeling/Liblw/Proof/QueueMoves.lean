import Liblw.Proof.QueueFifo

/-!
# Moving a queue

A move takes over the ring but not the number of elements in it. What is made of another queue says
that it is empty, what another queue is assigned to keeps the number that it had, and the moved
queue keeps its own over a ring of no slots. So nothing but an empty queue is moved correctly, and
it can only be assigned to an empty one.
-/

namespace Liblw.Memory.CircularQueue

open Liblw.Lib

variable {T : Type} {queue other target source : CircularQueue T} {items : List T}

/-- The queue `target` is what `other` was, which is the empty queue `source` now. -/
structure Transfers (other target source : CircularQueue T) : Prop where
  same : ∃ items, other.Holds items ∧ target.Holds items
  capacity : target.capacity = other.capacity
  left : source.Holds []
  safe : ∀ calls what, .error (.undefined what) ∉ (machine.run source calls).1

theorem transfers_of_holds (hother : other.Holds items) (htarget : target.Holds items)
    (hcapacity : target.capacity = other.capacity) (hsource : source.Holds []) :
    Transfers other target source :=
  ⟨⟨items, hother, htarget⟩, hcapacity, hsource, hsource.answers_defined⟩

/-- The queue after a move has as many elements as the one before it, and the moved one has none. -/
theorem Transfers.sizes (htransfers : Transfers other target source) :
    target.size = other.size ∧ source.size = 0 := by
  obtain ⟨items, hother, htarget⟩ := htransfers.same
  exact ⟨htarget.size.trans hother.size.symm, htransfers.left.size⟩

/-- An empty ring stands anywhere in its slots. -/
theorem Holds.moved (hother : other.Holds []) :
    Holds ({ other with size := 0 } : CircularQueue T) [] where
  size := rfl
  fits := hother.fits
  slots := hother.slots
  head := hother.head
  tail := hother.tail
  items := nofun

theorem holds_left :
    Holds (⟨0, 0, [], 0, 0⟩ : CircularQueue T) [] :=
  holds_make 0

theorem Holds.eq_nil (hother : other.Holds items) (hempty : other.size = 0) : items = [] :=
  List.eq_nil_of_length_eq_zero (hother.size.symm.trans hempty)

section Empty

variable (hother : other.Holds items) (hempty : other.size = 0)
include hother hempty

theorem transfers_construct :
    Transfers other (moveConstruct other).1 (moveConstruct other).2 := by
  have hnone := hother.eq_nil hempty
  subst hnone
  have hsource : (moveConstruct other).2 = ⟨0, 0, [], 0, 0⟩ := by
    unfold moveConstruct
    rw [hempty]
  apply transfers_of_holds hother hother.moved rfl
  rw [hsource]
  exact holds_left

theorem transfers_assign (hqueue : queue.size = 0) :
    Transfers other (moveAssign queue other).1 (moveAssign queue other).2 := by
  have hnone := hother.eq_nil hempty
  subst hnone
  have hsource : (moveAssign queue other).2 = ⟨0, 0, [], 0, 0⟩ := by
    unfold moveAssign
    rw [hempty]
  have htarget : (moveAssign queue other).1 = { other with size := 0 } := by
    unfold moveAssign
    rw [hqueue]
  apply transfers_of_holds hother
  · rw [htarget]
    exact hother.moved
  · rfl
  · rw [hsource]
    exact holds_left

end Empty

/-- Calls and correct moves keep a list in the ring. -/
theorem holds_of_reached (hreached : Reached queue) : ∃ items, queue.Holds items := by
  induction hreached with
  | make capacity => exact ⟨[], holds_make capacity⟩
  | @call queue _ request ih =>
      obtain ⟨items, hholds⟩ := ih
      have hrefines : queue.Refines ⟨queue.capacity, items, hholds.fits⟩ := ⟨hholds, rfl⟩
      exact ⟨_, (simulates_fifo _ _ request hrefines).2.1⟩
  | constructed _ hempty ih =>
      obtain ⟨items, hholds⟩ := ih
      obtain ⟨moved, -, htarget⟩ := (transfers_construct hholds hempty).same
      exact ⟨moved, htarget⟩
  | constructedFrom _ hempty ih =>
      obtain ⟨items, hholds⟩ := ih
      exact ⟨[], (transfers_construct hholds hempty).left⟩
  | assigned _ _ hqueueEmpty hempty _ ih =>
      obtain ⟨items, hholds⟩ := ih
      obtain ⟨moved, -, htarget⟩ := (transfers_assign hholds hempty hqueueEmpty).same
      exact ⟨moved, htarget⟩
  | assignedFrom _ _ hqueueEmpty hempty _ ih =>
      obtain ⟨items, hholds⟩ := ih
      exact ⟨[], (transfers_assign hholds hempty hqueueEmpty).left⟩

/-- **Moves.** A queue is made of another one correctly exactly if that one is empty, and another
one is assigned to it correctly exactly if both are. -/
theorem transfers_iff (queue : CircularQueue T) (hother : Reached other) :
    (Transfers other (moveConstruct other).1 (moveConstruct other).2 ↔ other.size = 0) ∧
      (Transfers other (moveAssign queue other).1 (moveAssign queue other).2 ↔
        other.size = 0 ∧ queue.size = 0) := by
  obtain ⟨items, hholds⟩ := holds_of_reached hother
  refine ⟨⟨fun htransfers => ?_, fun hempty => transfers_construct hholds hempty⟩,
    ⟨fun htransfers => ?_, fun hempty => transfers_assign hholds hempty.1 hempty.2⟩⟩
  · exact htransfers.sizes.2
  · obtain ⟨hsame, hsource⟩ := htransfers.sizes
    exact ⟨hsource, hsame.trans hsource⟩

/-- An empty queue of two slots is assigned to a queue that is empty again. -/
theorem transfers_iff_rotated :
    Transfers (machine.run (make 2) [.pushBack 5, .popFront]).2
        (moveConstruct (machine.run (make 2) [.pushBack 5, .popFront]).2).1
        (moveConstruct (machine.run (make 2) [.pushBack 5, .popFront]).2).2 ∧
      Transfers (make 1 : CircularQueue Nat)
        (moveAssign (machine.run (make 2) [.pushBack 5, .popFront]).2 (make 1)).1
        (moveAssign (machine.run (make 2) [.pushBack 5, .popFront]).2 (make 1)).2 :=
  have hrotated : Reached (machine.run (make 2) [.pushBack 5, .popFront]).2 :=
    ((Reached.make 2).call (.pushBack 5)).call .popFront
  ⟨(transfers_iff (make 0) hrotated).1.2 rfl, (transfers_iff _ (.make 1)).2.2 ⟨rfl, rfl⟩⟩

/-- With one element in it, a queue is not moved correctly, and popping from the moved one computes
an index modulo zero. -/
theorem not_transfers_one :
    (machine.run (make 1) [.pushBack 7]).2.Holds [7] ∧
      ¬ Transfers (machine.run (make 1) [.pushBack 7]).2
        (moveConstruct (machine.run (make 1) [.pushBack 7]).2).1
        (moveConstruct (machine.run (make 1) [.pushBack 7]).2).2 ∧
      ¬ Transfers (machine.run (make 1) [.pushBack 7]).2
        (moveAssign (make 1) (machine.run (make 1) [.pushBack 7]).2).1
        (moveAssign (make 1) (machine.run (make 1) [.pushBack 7]).2).2 ∧
      (machine (moveConstruct (machine.run (make 1) [.pushBack 7]).2).2 .popFront).1 =
        .error (.undefined .moduloByZero) := by
  obtain ⟨pushed, hpush, hholds, -⟩ := (@holds_make Nat 1).pushBack Nat.one_pos 7
  have hmachine : machine.run (make 1) [.pushBack 7] = ([.ok .pushed], pushed) := by
    rw [Machine.run_cons, machine_pushBack_ok hpush]
    rfl
  refine ⟨?_, fun htransfers => ?_, fun htransfers => ?_, rfl⟩
  · rw [hmachine]
    exact hholds
  · exact absurd htransfers.sizes.2 (by decide)
  · exact absurd htransfers.sizes.2 (by decide)

end Liblw.Memory.CircularQueue
