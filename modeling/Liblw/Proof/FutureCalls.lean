import Liblw.Co.Future

/-!
# The calls of futures and promises

What each call returns and leaves, for a promise whose state is where following the pointers ends.
-/

namespace Liblw.Co

open Liblw.Lib Liblw.Memory

variable {X T : Type}

/-- In a list with one place set, that place has what it was set to, the others what they had. -/
theorem getElem?_set_eq_some {α : Type} {items : List α} {place place' : Nat} {old new found : α}
    (hold : items[place]? = some old) (hfound : (items.set place new)[place']? = some found) :
    place' = place ∧ found = new ∨ place' ≠ place ∧ items[place']? = some found := by
  by_cases heq : place = place'
  · subst heq
    rw [List.getElem?_set_self (List.getElem?_eq_some_iff.mp hold).1, Option.some.injEq] at hfound
    exact .inl ⟨rfl, hfound.symm⟩
  · rw [List.getElem?_set_ne heq] at hfound
    exact .inr ⟨Ne.symm heq, hfound⟩

/-- The coroutines that setting the state schedules. -/
def SharedPromiseState.wakes (state : SharedPromiseState X T) : List Coro :=
  if state.futureSuspended then state.handle.toList else []

def SharedPromiseState.Has (state : SharedPromiseState X T) : Except X T → Prop
  | .ok value => state.exception = none ∧ state.value = .holds value
  | .error exception => state.exception = some exception

namespace Store

variable {store : Store X T} {place root steps : Nat} {state : SharedPromiseState X T}

theorem exec_load (hstate : store.states[place]? = some state) :
    (load place).exec store = (.ok state, store) := by
  unfold load
  rw [Call.exec_get_bind, hstate]
  rfl

theorem exec_save (place : Nat) (state : SharedPromiseState X T) (store : Store X T) :
    (save place state).exec store =
      (.ok (), { store with states := store.states.set place state }) := rfl

/-- Following the pointers from the place ends at the root, where there is none. -/
structure Root (store : Store X T) (place root : Nat) (state : SharedPromiseState X T) : Prop where
  le : root ≤ place
  loads : store.states[root]? = some state
  ends : state.chainState = none
  path : ∀ next, root ≤ next → next < place →
    ∃ between, store.states[next + 1]? = some between ∧ between.chainState = some next

theorem exec_followChain
    (hpointer : ∀ place state next, store.states[place]? = some state →
      state.chainState = some next → place = next + 1)
    (hplace : place < store.states.length) (hsteps : place < steps) :
    ∃ root state, store.Root place root state ∧
      (followChain steps place).exec store = (.ok root, store) := by
  induction steps generalizing place with
  | zero => exact absurd hsteps (Nat.not_lt_zero place)
  | succ steps ih =>
      have hstate := List.getElem?_eq_getElem hplace
      have hload := exec_load hstate
      unfold followChain
      rw [Call.exec_bind_ok hload]
      cases hchain : store.states[place].chainState with
      | none =>
          refine ⟨place, _, ⟨Nat.le_refl place, hstate, hchain, ?_⟩, rfl⟩
          intro next hle hlt
          exact absurd hlt (Nat.not_lt_of_le hle)
      | some next =>
          have hnext := hpointer place _ next hstate hchain
          subst hnext
          obtain ⟨root, last, hroot, hfollow⟩ :=
            ih (Nat.lt_of_succ_lt hplace) (Nat.lt_of_succ_lt_succ hsteps)
          refine ⟨root, last, ⟨Nat.le_succ_of_le hroot.le, hroot.loads, hroot.ends, ?_⟩, hfollow⟩
          intro between hle hlt
          rcases Nat.lt_succ_iff_lt_or_eq.mp hlt with hlt | rfl
          · exact hroot.path between hle hlt
          · exact ⟨_, hstate, hchain⟩

theorem exec_getState_self (hstate : store.states[place]? = some state)
    (hends : state.chainState = none) : (getState place).exec store = (.ok place, store) := by
  obtain ⟨steps, hsteps⟩ := Nat.exists_eq_add_of_lt (List.getElem?_eq_some_iff.mp hstate).1
  have hlength : store.states.length = (place + steps) + 1 := hsteps
  unfold getState
  rw [Call.exec_get_bind, hlength]
  unfold followChain
  rw [Call.exec_bind_ok (exec_load hstate), hends]
  rfl

/-- The room once the coroutines were put into the queue. -/
def roomAfter (store : Store X T) (coros : List Coro) : Option Room :=
  coros.foldl (fun room _ => room.map Room.taken) store.room

/-- The store once the promise was set whose root is at the place. -/
def setAt (store : Store X T) (place : Nat) (state : SharedPromiseState X T)
    (outcome : Except X T) : Store X T where
  states := store.states.set place (Promise.withOutcome { state with stateSet := true } outcome)
  scheduled := store.scheduled ++ state.wakes
  room := store.roomAfter state.wakes

theorem fits_of_room {promise : Nat} (hroom : store.full = false) : store.Fits promise :=
  fun _ _ _ _ _ _ => hroom

theorem exec_schedule (hroom : store.full = false) (coro : Coro) :
    (schedule coro).exec store = (.ok (), store.pushed coro) := by
  unfold full at hroom
  unfold schedule
  rw [Call.exec_get_bind]
  cases hbound : store.room with
  | none => rfl
  | some room =>
      rw [hbound] at hroom
      have hfree : decide (room.free = 0) = false := hroom
      simp only [Option.filter_some, hfree, Bool.false_eq_true, if_false]
      rfl

theorem full_popped (store : Store X T) : store.popped.full = false := by
  unfold full popped
  cases store.room with
  | none => rfl
  | some room => exact decide_eq_false (Nat.succ_ne_zero room.free)

theorem exec_schedule_room {room : Room} (hbound : store.room = some room)
    (hfull : store.full = true) (coro : Coro) :
    (schedule coro).exec store = (.error (CircularQueue.refusal room.capacity), store) := by
  unfold full at hfull
  rw [hbound] at hfull
  have hfree : decide (room.free = 0) = true := hfull
  unfold schedule
  rw [Call.exec_get_bind, hbound]
  simp only [Option.filter_some, hfree, if_true]
  rfl

/-- The store once what the place has was taken. A value is moved out, and an exception stays. -/
def takenAt (store : Store X T) (place : Nat) (state : SharedPromiseState X T) :
    Except X T → Store X T
  | .ok _ => { store with states := store.states.set place { state with value := .movedFrom } }
  | .error _ => store

end Store

theorem Promise.withOutcome_wakes (state : SharedPromiseState X T) (outcome : Except X T) :
    (Promise.withOutcome { state with stateSet := true } outcome).wakes = state.wakes := by
  cases outcome <;> rfl

section Calls

variable {store : Store X T} {promise place root : Nat} {state : SharedPromiseState X T}
  {outcome : Except X T} {coro : Coro}

open Promise

theorem Promise.exec_scheduleTask (hstate : store.states[place]? = some state)
    (hhandle : state.futureSuspended = true → ∃ coro, state.handle = some coro)
    (hroom : state.futureSuspended = true → store.full = false) :
    (scheduleTask place).exec store = (.ok (), { store with
      scheduled := store.scheduled ++ state.wakes
      room := store.roomAfter state.wakes }) := by
  unfold scheduleTask
  rw [Call.exec_bind_ok (Store.exec_load hstate)]
  unfold SharedPromiseState.wakes
  cases hsuspended : state.futureSuspended with
  | false =>
      simp only [Bool.false_eq_true, if_false, List.append_nil]
      rfl
  | true =>
      obtain ⟨coro, hcoro⟩ := hhandle hsuspended
      rw [hcoro]
      exact Store.exec_schedule (hroom hsuspended) coro

theorem Promise.exec_claimStateSet (hstate : store.states[root]? = some state)
    (hunset : state.stateSet = false) :
    (claimStateSet root).exec store = (.ok (), { store with
      states := store.states.set root { state with stateSet := true } }) := by
  unfold claimStateSet
  rw [Call.exec_bind_ok (Store.exec_load hstate), Call.exec_bind_ok (Store.exec_save _ _ store),
    hunset]
  rfl

/-- A state that is set is claimed by no one else. -/
theorem Promise.exec_claimStateSet_set (hstate : store.states[root]? = some state)
    (hset : state.stateSet = true) :
    (claimStateSet root).exec store =
      (.error (.thrown ⟨.failedPrecondition, "Promise state already set previously."⟩), store) := by
  have hsame : store.states.set root { state with stateSet := true } = store.states := by
    obtain ⟨hlength, hget⟩ := List.getElem?_eq_some_iff.mp hstate
    rw [← hset, ← hget]
    exact List.set_getElem_self hlength
  unfold claimStateSet
  rw [Call.exec_bind_ok (Store.exec_load hstate), Call.exec_bind_ok (Store.exec_save _ _ store),
    hsame, hset]
  rfl

theorem Promise.exec_setOutcome
    (hroot : (Store.getState promise).exec store = (.ok root, store))
    (hstate : store.states[root]? = some state) (hunset : state.stateSet = false)
    (hhandle : state.futureSuspended = true → ∃ coro, state.handle = some coro)
    (hroom : state.futureSuspended = true → store.full = false) :
    (setOutcome promise outcome).exec store = (.ok (), store.setAt root state outcome) := by
  have hlength : root < store.states.length := (List.getElem?_eq_some_iff.mp hstate).1
  have hclaim := exec_claimStateSet hstate hunset
  have hload := @Store.exec_load X T { store with
    states := store.states.set root { state with stateSet := true } } root
    { state with stateSet := true } (List.getElem?_set_self hlength)
  have hschedule := @exec_scheduleTask X T { store with
    states := store.states.set root (withOutcome { state with stateSet := true } outcome) } root
    (withOutcome { state with stateSet := true } outcome) (List.getElem?_set_self hlength)
    (by cases outcome <;> exact hhandle) (by cases outcome <;> exact hroom)
  unfold setOutcome
  rw [Call.exec_bind_ok hroot, Call.exec_bind_ok hclaim, Call.exec_bind_ok hload,
    Call.exec_bind_ok (Store.exec_save _ _ _)]
  dsimp only
  rw [List.set_set, hschedule, withOutcome_wakes]
  rfl

theorem Promise.exec_setOutcome_set
    (hroot : (Store.getState promise).exec store = (.ok root, store))
    (hstate : store.states[root]? = some state) (hset : state.stateSet = true) :
    (setOutcome promise outcome).exec store =
      (.error (.thrown ⟨.failedPrecondition, "Promise state already set previously."⟩), store) := by
  unfold setOutcome
  rw [Call.exec_bind_ok hroot, Call.exec_bind_error (exec_claimStateSet_set hstate hset)]

theorem Promise.exec_returnFuture_pending (hstate : store.states[place]? = some state)
    (hunset : state.stateSet = false) :
    (returnFuture promise place).exec store = (.ok (), { store with
      states := store.states.set place { state with chainState := some promise } }) := by
  unfold returnFuture
  rw [Call.exec_bind_ok (Store.exec_load hstate), hunset]
  rfl

/-- A future that is set gives its outcome to the promise. -/
theorem Promise.exec_returnFuture_set {middle : Store X T}
    (hstate : store.states[place]? = some state) (hset : state.stateSet = true)
    (hhas : state.Has outcome)
    (hexec : (setOutcome promise outcome).exec store = (.ok (), middle))
    (hkeeps : middle.states[place]? = some state) :
    (returnFuture promise place).exec store = (.ok (), middle.takenAt place state outcome) := by
  unfold returnFuture
  rw [Call.exec_bind_ok (Store.exec_load hstate), if_pos hset]
  cases outcome with
  | error exception =>
      have hexception : state.exception = some exception := hhas
      rw [hexception]
      exact hexec
  | ok value =>
      obtain ⟨hexception, hvalue⟩ := hhas
      have hheld : held state = .ok value := by
        unfold held
        rw [hvalue]
      rw [hexception, hheld]
      dsimp only
      unfold setValue
      rw [Call.exec_bind_ok hexec]
      unfold moveOut
      rw [Call.exec_bind_ok (Store.exec_load hkeeps), Store.exec_save]
      rfl

theorem Future.exec_awaitResume
    (hroot : (Store.getState place).exec store = (.ok root, store))
    (hstate : store.states[root]? = some state) (hset : state.stateSet = true)
    (hhas : state.Has outcome) :
    (awaitResume place).exec store = (.ok outcome, store.takenAt root state outcome) := by
  unfold awaitResume
  rw [Call.exec_bind_ok hroot, Call.exec_bind_ok (Store.exec_load hstate), hset, if_neg (by decide)]
  cases outcome with
  | error exception =>
      have hexception : state.exception = some exception := hhas
      rw [hexception]
      rfl
  | ok value =>
      obtain ⟨hexception, hvalue⟩ := hhas
      have hheld : held state = .ok value := by
        unfold held
        rw [hvalue]
      rw [hexception, hheld]
      dsimp only
      unfold moveOut
      rw [Call.exec_bind, Call.exec_bind_ok (Store.exec_load hstate), Store.exec_save]
      rfl

theorem Future.exec_awaitReady (hstate : store.states[place]? = some state) :
    (awaitReady place).exec store = (.ok state.stateSet, store) := by
  unfold awaitReady
  rw [Call.exec_bind_ok (Store.exec_load hstate)]
  rfl

theorem Future.exec_await_set
    (hroot : (Store.getState place).exec store = (.ok place, store))
    (hstate : store.states[place]? = some state) (hset : state.stateSet = true)
    (hhas : state.Has outcome) (coro : Coro) :
    (await place coro).exec store = (.ok (some outcome), store.takenAt place state outcome) := by
  unfold await
  rw [Call.exec_bind_ok (exec_awaitReady hstate), if_pos hset,
    Call.exec_bind_ok (exec_awaitResume hroot hstate hset hhas)]
  rfl

theorem Future.exec_await_unset (hstate : store.states[place]? = some state)
    (hunset : state.stateSet = false) (coro : Coro) :
    (await place coro).exec store = (.ok none, { store with
      states := store.states.set place
        { state with handle := some coro, futureSuspended := true } }) := by
  have hsuspend : (awaitSuspend place coro).exec store = (.ok true, { store with
      states := store.states.set place
        { state with handle := some coro, futureSuspended := true } }) := by
    unfold awaitSuspend
    rw [Call.exec_bind_ok (Store.exec_load hstate), Call.exec_bind_ok (Store.exec_save _ _ _),
      hunset]
    rfl
  have hpending : ¬ state.stateSet = true := by
    rw [hunset]
    exact Bool.false_ne_true
  unfold await
  rw [Call.exec_bind_ok (exec_awaitReady hstate), if_neg hpending, Call.exec_bind_ok hsuspend]
  rfl

end Calls

end Liblw.Co
