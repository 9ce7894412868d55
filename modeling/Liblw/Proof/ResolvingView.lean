import Liblw.Lib.Simulation
import Liblw.Proof.Resolving

/-!
# What the promises see of a thread

The promises of a thread behave as those of a store do whose room is that of the scheduler's queue.
So what is shown of futures over a store holds of them on a scheduler.
-/

namespace Liblw.Co

open Liblw.Lib Liblw.Memory

variable {X T : Type}

/-! ### Calls that schedule nothing -/

namespace Store

def withRoom (room : Option Room) (store : Store X T) : Store X T := { store with room }

/-- How much room the queue has does not matter to the call. -/
def RoomFree {α : Type} (call : Call Fault (Store X T) α) : Prop :=
  ∀ room, call.Simulates (fun _ => True) (withRoom room) call

variable {place : Nat}

theorem roomFree_load (place : Nat) : RoomFree (load place : Call Fault (Store X T) _) := by
  intro room
  refine ⟨fun _ _ => trivial, fun store _ => ?_⟩
  have hstates : (withRoom room store).states = store.states := rfl
  unfold load
  rw [Call.exec_get_bind, Call.exec_get_bind, hstates]
  cases store.states[place]? <;> rfl

theorem roomFree_save (place : Nat) (state : SharedPromiseState X T) :
    RoomFree (save place state) :=
  fun _ => ⟨fun _ _ => trivial, fun _ _ => rfl⟩

theorem roomFree_followChain (steps place : Nat) :
    RoomFree (followChain steps place : Call Fault (Store X T) _) := by
  intro room
  induction steps generalizing place with
  | zero => exact Call.simulates_throw _
  | succ steps ih =>
      apply (roomFree_load place room).bind
      intro state
      cases state.chainState with
      | none => exact Call.simulates_pure place
      | some next => exact ih next

theorem roomFree_getState (place : Nat) :
    RoomFree (getState place : Call Fault (Store X T) _) :=
  fun room => Call.simulates_get fun store _ =>
    roomFree_followChain store.states.length place room

theorem roomFree_claimStateSet (place : Nat) :
    RoomFree (Promise.claimStateSet place : Call Fault (Store X T) _) := by
  intro room
  apply (roomFree_load place room).bind
  intro state
  apply (roomFree_save place _ room).bind
  intro _
  cases state.stateSet with
  | false => exact Call.simulates_pure ()
  | true => exact Call.simulates_throw _

theorem roomFree_moveOut (place : Nat) :
    RoomFree (Promise.moveOut place : Call Fault (Store X T) _) :=
  fun room => (roomFree_load place room).bind fun _ => roomFree_save place _ room

end Store

/-! ### The calls of a thread -/

namespace Thread

open Store

def roomOf (queue : CircularQueue Coro) : Room := ⟨queue.capacity, queue.capacity - queue.size⟩

/-- The store with the room of the scheduler's queue. -/
def view (thread : Thread X T) : Store X T :=
  thread.store.withRoom (some (roomOf thread.loop.scheduler.coroQueue))

/-- The scheduler's queue and its callback are in order. -/
def Ordered (eventfd : Handle) (thread : Thread X T) : Prop :=
  ∃ items, EventLoop.Invariant eventfd thread.loop items

variable {eventfd : Handle} {thread : Thread X T} {items : List Coro} {promise place : Nat}

theorem view_full (hinv : EventLoop.Invariant eventfd thread.loop items) :
    thread.view.full = thread.loop.scheduler.coroQueue.full := by
  have hfits : thread.loop.scheduler.coroQueue.size ≤
      thread.loop.scheduler.coroQueue.capacity := hinv.holds.size ▸ hinv.holds.fits
  apply decide_eq_decide.mpr
  dsimp only [roomOf]
  omega

/-- Whether there is room for the awaiter of a promise. -/
theorem view_fits_iff (hinv : EventLoop.Invariant eventfd thread.loop items) :
    thread.view.Fits promise ↔ thread.Fits promise := by
  have hget (root : Nat) :
      (getState promise).exec thread.view = (.ok root, thread.view) ↔
        (getState promise).exec thread.store = (.ok root, thread.store) := by
    obtain ⟨fault, -, hlost⟩ | ⟨found, state, hfound, -, -⟩ := standing promise thread.store
    · rw [view, (roomFree_getState promise _).exec thread.store trivial, hlost]
      simp
    · rw [view, (roomFree_getState promise _).exec thread.store trivial, hfound]
      simp
  unfold Store.Fits Thread.Fits
  rw [view_full hinv]
  exact forall_congr' fun root => forall_congr' fun state => imp_congr_left (hget root)

theorem simulates_onStore {α : Type} {call : Call Fault (Store X T) α} (hcall : RoomFree call) :
    (onStore call).Simulates (Ordered eventfd) view call :=
  ⟨fun _ hinv => hinv, fun thread _ => (hcall _).exec thread.store trivial⟩

/-! ### Putting a coroutine into the queue -/

theorem view_scheduledTo (hfd : eventfd ≠ 0)
    (hinv : EventLoop.Invariant eventfd thread.loop items)
    (hroom : thread.loop.scheduler.coroQueue.full = false) (coro : Coro) :
    (scheduledTo eventfd thread coro).view = thread.view.pushed coro := by
  obtain ⟨queue, hholds, hcapacity, hadd⟩ := hinv.exec_schedule hfd hroom coro
  have hsize : queue.size = thread.loop.scheduler.coroQueue.size + 1 := by
    rw [hholds.size, hinv.holds.size, List.length_append, List.length_singleton]
  have hqueue : (scheduledTo eventfd thread coro).loop.scheduler.coroQueue = queue := by
    unfold scheduledTo EventLoop.onScheduler
    rw [hadd]
  have hroom : roomOf queue = (roomOf thread.loop.scheduler.coroQueue).taken := by
    unfold roomOf
    rw [hcapacity, hsize, Nat.sub_succ]
    rfl
  unfold view
  rw [hqueue, hroom]
  rfl

/-- The store refuses a coroutine when the queue does, with the same error. -/
theorem simulates_schedule (hfd : eventfd ≠ 0) (coro : Coro) :
    (schedule eventfd coro : Call Fault (Thread X T) _).Simulates (Ordered eventfd) view
      (Store.schedule coro) := by
  constructor
  · rintro thread ⟨items, hinv⟩
    cases hfull : thread.loop.scheduler.coroQueue.full with
    | true =>
        rw [exec_schedule_full hfull]
        exact ⟨items, hinv⟩
    | false =>
        rw [exec_schedule hfd hinv hfull]
        exact ⟨_, hinv.schedule hfd hfull coro⟩
  · rintro thread ⟨items, hinv⟩
    cases hfull : thread.loop.scheduler.coroQueue.full with
    | true =>
        rw [exec_schedule_full hfull,
          Store.exec_schedule_room rfl ((view_full hinv).trans hfull)]
        rfl
    | false =>
        rw [exec_schedule hfd hinv hfull, Store.exec_schedule ((view_full hinv).trans hfull),
          view_scheduledTo hfd hinv hfull]

/-! ### Resolving a promise -/

theorem simulates_scheduleTask (hfd : eventfd ≠ 0) (place : Nat) :
    (scheduleTask eventfd place : Call Fault (Thread X T) _).Simulates (Ordered eventfd) view
      (Promise.scheduleTask place) := by
  apply (simulates_onStore (roomFree_load place)).bind
  intro state
  cases state.futureSuspended with
  | false => exact Call.simulates_pure ()
  | true =>
      cases state.handle with
      | some coro => exact simulates_schedule hfd coro
      | none => exact Call.simulates_throw _

/-- A promise is resolved on the thread as it is on the store, whether there is room or not. -/
theorem simulates_setOutcome (hfd : eventfd ≠ 0) (promise : Nat) (outcome : Except X T) :
    (setOutcome eventfd promise outcome).Simulates (Ordered eventfd) view
      (Promise.setOutcome promise outcome) := by
  apply (simulates_onStore (roomFree_getState promise)).bind
  intro place
  apply (simulates_onStore (roomFree_claimStateSet place)).bind
  intro _
  apply (simulates_onStore (roomFree_load place)).bind
  intro state
  apply (simulates_onStore (roomFree_save place _)).bind
  intro _
  exact simulates_scheduleTask hfd place

/-- So it is when a coroutine returns another future. -/
theorem simulates_returnFuture (hfd : eventfd ≠ 0) (promise place : Nat) :
    (returnFuture eventfd promise place : Call Fault (Thread X T) _).Simulates (Ordered eventfd)
      view (Promise.returnFuture promise place) := by
  apply (simulates_onStore (roomFree_load place)).bind
  intro state
  cases state.stateSet with
  | false => exact simulates_onStore (roomFree_save place _)
  | true =>
      rw [if_pos rfl, if_pos rfl]
      cases state.exception with
      | some exception => exact simulates_setOutcome hfd promise (.error exception)
      | none =>
          cases Promise.held state with
          | error fault => exact Call.simulates_throw fault
          | ok value =>
              apply (simulates_setOutcome hfd promise (.ok value)).bind
              intro _
              exact simulates_onStore (roomFree_moveOut place)

end Thread

end Liblw.Co
