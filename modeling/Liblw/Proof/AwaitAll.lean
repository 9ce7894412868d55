import Liblw.Co.AwaitAll
import Liblw.Proof.FutureCalls

/-!
# All of several futures

The coroutine has taken the values of some futures, waits for one at most, and has not looked at the
others. It is in the queue exactly if the one it waits for is resolved, so it goes on until the
values of all of them are in their slots.
-/

namespace Liblw.Co

open Liblw.Lib

variable {X T : Type}

namespace AwaitAll

variable {caught : Fault → X} {count : Nat} {order : List Nat} {values : Nat → T} {handle : Coro}
  {system next : AwaitAll X T} {done pending : List Nat} {place : Nat} {current : Option Nat}
  {slots : List (Option T)} {state : SharedPromiseState X T}

theorem exec_onStore_eq {α : Type} {call : Call Fault (Store X T) α} {result : Result α}
    {store : Store X T} (hexec : call.exec system.store = (result, store)) :
    (onStore call).exec system = (result, { system with store }) := by
  unfold onStore
  rw [Call.exec_within, hexec]

/-- What the promise of the future that is returned sees. -/
def resultStore (system : AwaitAll X T) : Store X (List T) :=
  { system.result with room := system.store.room }

theorem exec_onResult_eq {α : Type} {call : Call Fault (Store X (List T)) α} {result : Result α}
    {store : Store X (List T)} (hexec : call.exec system.resultStore = (result, store)) :
    (onResult call).exec system = (result, { system with
      result := store
      store := { system.store with room := store.room } }) := by
  unfold resultStore at hexec
  unfold onResult
  rw [Call.exec_within, hexec]

theorem after_onStore {α : Type} {call : Call Fault (Store X T) α} {result : Result α}
    {store : Store X T} (hexec : call.exec system.store = (result, store)) :
    system.after (onStore call) = { system with store } := by
  unfold AwaitAll.after
  rw [exec_onStore_eq hexec]

/-- A call that leaves the store leaves everything. -/
theorem after_onStore_same {α : Type} {call : Call Fault (Store X T) α}
    (hexec : (call.exec system.store).2 = system.store) : system.after (onStore call) = system := by
  unfold AwaitAll.after onStore
  rw [Call.exec_within, hexec]

/-! ### The futures -/

/-- The promises of all futures are resolved. -/
def AllSet (count : Nat) (store : Store X T) : Prop :=
  ∀ place < count, ∃ state, store.states[place]? = some state ∧ state.stateSet = true

/-- The state of the future at the place, of which the value was taken if it is among those done.
The coroutine waits for the current one only. -/
structure Waits (values : Nat → T) (handle : Coro) (done : List Nat) (current : Option Nat)
    (place : Nat) (state : SharedPromiseState X T) : Prop where
  ends : state.chainState = none
  clean : state.exception = none
  value : place ∉ done → state.stateSet = true → state.Has (.ok (values place))
  taken : place ∈ done → state.stateSet = true
  suspended : place ∉ done → (state.futureSuspended = true ↔ current = some place)
  handled : current = some place → state.handle = some handle

/-- The states of all futures. -/
structure Futures (count : Nat) (values : Nat → T) (handle : Coro) (done : List Nat)
    (current : Option Nat) (store : Store X T) : Prop where
  length : store.states.length = count
  waits : ∀ place state, store.states[place]? = some state →
    Waits values handle done current place state

namespace Futures

variable {store : Store X T} (hfutures : Futures count values handle done current store)
include hfutures

theorem exists_state (hplace : place < count) : ∃ state, store.states[place]? = some state :=
  ⟨_, List.getElem?_eq_getElem (hfutures.length.symm ▸ hplace)⟩

/-- Another state at one place, where the futures done and the current one may change with it. -/
theorem set (hstate : store.states[place]? = some state) {new : SharedPromiseState X T}
    {done' : List Nat} {current' : Option Nat} {scheduled : List Coro} {room : Option Room}
    (hnew : Waits values handle done' current' place new)
    (hother : ∀ other, other ≠ place → (other ∈ done' ↔ other ∈ done) ∧
      (current' = some other ↔ current = some other)) :
    Futures count values handle done' current' ⟨store.states.set place new, scheduled, room⟩ where
  length := List.length_set.trans hfutures.length
  waits other found hfound := by
    obtain ⟨rfl, rfl⟩ | ⟨hne, hold⟩ := getElem?_set_eq_some hstate hfound
    · exact hnew
    · obtain ⟨hdone, hcurrent⟩ := hother other hne
      obtain ⟨hends, hclean, hvalue, htaken, hsuspended, hhandled⟩ :=
        hfutures.waits other found hold
      refine ⟨hends, hclean, ?_, ?_, ?_, ?_⟩
      · rwa [hdone]
      · rwa [hdone]
      · rwa [hdone, hcurrent]
      · rwa [hcurrent]

/-- A value is taken of a future that nobody waits for any more. -/
theorem take (hstate : store.states[place]? = some state) (hset : state.stateSet = true)
    (hcurrent : current = none ∨ current = some place) :
    Futures count values handle (done ++ [place]) none
      (store.takenAt place state (.ok (values place))) := by
  have hwaits := hfutures.waits place state hstate
  have hmem : place ∈ done ++ [place] := List.mem_append_right done (List.mem_singleton.mpr rfl)
  apply hfutures.set hstate
  · exact ⟨hwaits.ends, hwaits.clean, fun hnew => absurd hmem hnew, fun _ => hset,
      fun hnew => absurd hmem hnew, nofun⟩
  · intro other hne
    constructor
    · rw [List.mem_append, List.mem_singleton]
      exact or_iff_left hne
    · obtain rfl | rfl := hcurrent
      · rfl
      · simp only [Option.some.injEq, reduceCtorEq, false_iff]
        exact hne.symm

/-- The coroutine begins to wait for a future. -/
theorem suspend (hstate : store.states[place]? = some state) (hfresh : place ∉ done)
    (hcurrent : current = none) (scheduled : List Coro) (room : Option Room) :
    Futures count values handle done (some place) ⟨store.states.set place
      { state with handle := some handle, futureSuspended := true }, scheduled, room⟩ := by
  have hwaits := hfutures.waits place state hstate
  subst hcurrent
  apply hfutures.set hstate
  · exact ⟨hwaits.ends, hwaits.clean, hwaits.value, fun hdone => absurd hdone hfresh,
      fun _ => iff_of_true rfl rfl, fun _ => rfl⟩
  · intro other hne
    refine ⟨Iff.rfl, ?_⟩
    simp only [Option.some.injEq, reduceCtorEq, iff_false]
    exact hne.symm

/-- A promise is resolved with its value. -/
theorem resolve (hstate : store.states[place]? = some state) (scheduled : List Coro)
    (room : Option Room) :
    Futures count values handle done current ⟨store.states.set place
      (Promise.withOutcome { state with stateSet := true } (.ok (values place))), scheduled,
        room⟩ := by
  have hwaits := hfutures.waits place state hstate
  apply hfutures.set hstate
  · exact ⟨hwaits.ends, hwaits.clean, fun _ _ => ⟨hwaits.clean, rfl⟩, fun _ => rfl,
      hwaits.suspended, hwaits.handled⟩
  · exact fun other _ => ⟨Iff.rfl, Iff.rfl⟩

theorem withRoom (room : Option Room) :
    Futures count values handle done current { store with room } :=
  ⟨hfutures.length, hfutures.waits⟩

theorem allSet (hdone : ∀ place < count, place ∈ done) : AllSet count store := by
  intro place hplace
  obtain ⟨state, hstate⟩ := hfutures.exists_state hplace
  exact ⟨state, hstate, (hfutures.waits place state hstate).taken (hdone place hplace)⟩

end Futures

/-! ### The tuple -/

/-- The slots of the futures done have their values, and the others nothing. -/
structure Slots (count : Nat) (values : Nat → T) (done : List Nat) (slots : List (Option T)) :
    Prop where
  length : slots.length = count
  filled : ∀ place < count, place ∈ done → slots[place]? = some (some (values place))
  empty : ∀ place < count, place ∉ done → slots[place]? = some none

theorem slots_replicate (count : Nat) (values : Nat → T) :
    Slots count values [] (List.replicate count none) where
  length := List.length_replicate
  filled := nofun
  empty place hplace _ := by
    rw [List.getElem?_replicate, if_pos hplace]

theorem Slots.set (hslots : Slots count values done slots) (hplace : place < count) :
    Slots count values (done ++ [place]) (slots.set place (some (values place))) where
  length := List.length_set.trans hslots.length
  filled other hother hmem := by
    rw [List.mem_append, List.mem_singleton] at hmem
    by_cases hsame : other = place
    · subst hsame
      rw [List.getElem?_set_self (hslots.length.symm ▸ hplace)]
    · rw [List.getElem?_set_ne (Ne.symm hsame)]
      exact hslots.filled other hother (hmem.resolve_right hsame)
  empty other hother hnew := by
    rw [List.mem_append, List.mem_singleton, not_or] at hnew
    rw [List.getElem?_set_ne (Ne.symm hnew.2)]
    exact hslots.empty other hother hnew.1

/-- The values in the order of the arguments. -/
def tuple (count : Nat) (values : Nat → T) : List T := (List.range count).map values

theorem mapM_map_some (l : List T) : (l.map some).mapM id = some l := by
  induction l with
  | nil => rfl
  | cons first l ih =>
      rw [List.map_cons, List.mapM_cons, ih]
      rfl

theorem Slots.mapM (hslots : Slots count values done slots)
    (hall : ∀ place < count, place ∈ done) : slots.mapM id = some (tuple count values) := by
  have heq : slots = (tuple count values).map some := by
    apply List.ext_getElem?
    intro place
    by_cases hplace : place < count
    · rw [hslots.filled place hplace (hall place hplace)]
      simp only [tuple, List.getElem?_map, List.getElem?_range hplace, Option.map_some]
    · rw [List.getElem?_eq_none (by rw [hslots.length]; exact Nat.le_of_not_lt hplace),
        List.getElem?_eq_none]
      rw [List.length_map, tuple, List.length_map, List.length_range]
      exact Nat.le_of_not_lt hplace
  rw [heq, mapM_map_some]

/-! ### The future that is returned -/

/-- It is not resolved, and nobody was scheduled for it. -/
structure Unresolved (result : Store X (List T)) (state : SharedPromiseState X (List T)) :
    Prop where
  states : result.states = [state]
  ends : state.chainState = none
  unset : state.stateSet = false
  clean : state.exception = none
  handled : state.futureSuspended = true → ∃ coro, state.handle = some coro
  scheduled : result.scheduled = []

/-- It is resolved with the tuple, and the one that awaited it was scheduled. -/
structure ResolvedWith (values : List T) (result : Store X (List T))
    (state : SharedPromiseState X (List T)) : Prop where
  states : result.states = [state]
  ends : state.chainState = none
  set : state.stateSet = true
  has : state.Has (.ok values)
  scheduled : result.scheduled = state.wakes

theorem Unresolved.loads {result : SharedPromiseState X (List T)}
    (hunresolved : Unresolved system.result result) :
    system.resultStore.states[0]? = some result := by
  change system.result.states[0]? = some result
  rw [hunresolved.states]
  rfl

theorem exec_conclude {result : SharedPromiseState X (List T)}
    (hunresolved : Unresolved system.result result)
    (hroom : result.futureSuspended = true → system.store.full = false) (tuple : List T) :
    ∃ next result room, (conclude (.ok tuple)).exec system = (.ok (), next) ∧
      ResolvedWith tuple next.result result ∧ next.store = { system.store with room } ∧
      next.frame = .ended ∧ next.resumed = system.resumed ∧
      next.resolutions = system.resolutions + 1 := by
  have hset : (Promise.setOutcome 0 (.ok tuple)).exec system.resultStore = _ :=
    Promise.exec_setOutcome (Store.exec_getState_self hunresolved.loads hunresolved.ends)
      hunresolved.loads hunresolved.unset hunresolved.handled hroom
  refine ⟨{ system with
      result := system.resultStore.setAt 0 result (.ok tuple)
      store := { system.store with room := system.resultStore.roomAfter result.wakes }
      frame := .ended
      resolutions := system.resolutions + 1 },
    Promise.withOutcome { result with stateSet := true } (.ok tuple), _, ?_, ?_, rfl, rfl, rfl,
    rfl⟩
  · unfold conclude
    rw [Call.exec_bind_ok (exec_onResult_eq hset)]
    rfl
  · refine ⟨?_, hunresolved.ends, rfl, ⟨hunresolved.clean, rfl⟩, ?_⟩
    · change system.result.states.set 0 _ = _
      rw [hunresolved.states]
      rfl
    · change system.result.scheduled ++ result.wakes = _
      rw [hunresolved.scheduled, List.nil_append, Promise.withOutcome_wakes]

/-! ### The coroutine -/

/-- The coroutine waits for a future, with the values of those before it in their slots, or it has
ended with the tuple. -/
inductive Settled (count : Nat) (order : List Nat) (values : Nat → T) (handle : Coro)
    (system : AwaitAll X T) : Prop where
  | suspended (done : List Nat) (place : Nat) (pending : List Nat) (slots : List (Option T))
      (result : SharedPromiseState X (List T))
      (hframe : system.frame = .suspended place pending slots)
      (horder : order = done ++ place :: pending)
      (hfutures : Futures count values handle done (some place) system.store)
      (hslots : Slots count values done slots) (hresult : Unresolved system.result result)
      (hresolutions : system.resolutions = 0)
  | ended (result : SharedPromiseState X (List T)) (hframe : system.frame = .ended)
      (hfutures : Futures count values handle order none system.store)
      (hresult : ResolvedWith (tuple count values) system.result result)
      (hresolutions : system.resolutions = 1)

/-- The coroutine waits for a future that is resolved. -/
def Awakened (system : AwaitAll X T) : Prop :=
  ∃ place pending slots state, system.frame = .suspended place pending slots ∧
    system.store.states[place]? = some state ∧ state.stateSet = true

theorem awakened_iff (hframe : system.frame = .suspended place pending slots) :
    Awakened system ↔
      ∃ state, system.store.states[place]? = some state ∧ state.stateSet = true := by
  constructor
  · rintro ⟨place', pending', slots', state, hframe', hstate, hset⟩
    rw [hframe] at hframe'
    cases hframe'
    exact ⟨state, hstate, hset⟩
  · rintro ⟨state, hstate, hset⟩
    exact ⟨place, pending, slots, state, hframe, hstate, hset⟩

theorem awakened_withStore (hframe : system.frame = .suspended place pending slots)
    (store : Store X T) : Awakened { system with store } ↔
      ∃ state, store.states[place]? = some state ∧ state.stateSet = true :=
  awakened_iff (show { system with store }.frame = .suspended place pending slots from hframe)

theorem not_awakened_of_ended (hframe : system.frame = .ended) : ¬ Awakened system := by
  rintro ⟨place, pending, slots, state, hsuspended, -⟩
  rw [hframe] at hsuspended
  cases hsuspended

theorem AllSet.set {store : Store X T} (hall : AllSet count store)
    (hstate : store.states[place]? = some state) {new : SharedPromiseState X T}
    (hnew : new.stateSet = true) {scheduled : List Coro} {room : Option Room} :
    AllSet count ⟨store.states.set place new, scheduled, room⟩ := by
  intro other hother
  by_cases hsame : other = place
  · subst hsame
    exact ⟨new, List.getElem?_set_self (List.getElem?_eq_some_iff.mp hstate).1, hnew⟩
  · obtain ⟨found, hfound, hset⟩ := hall other hother
    exact ⟨found, (List.getElem?_set_ne (Ne.symm hsame)).trans hfound, hset⟩

theorem AllSet.take {store : Store X T} (hall : AllSet count store)
    (hstate : store.states[place]? = some state) (hset : state.stateSet = true) (value : T) :
    AllSet count (store.takenAt place state (.ok value)) := by
  have hnew : ({ state with value := .movedFrom } : SharedPromiseState X T).stateSet = true := hset
  exact hall.set hstate hnew

theorem AllSet.of_take {store : Store X T} (hstate : store.states[place]? = some state)
    (hset : state.stateSet = true) {value : T}
    (hall : AllSet count (store.takenAt place state (.ok value))) : AllSet count store := by
  intro other hother
  by_cases hsame : other = place
  · subst hsame
    exact ⟨state, hstate, hset⟩
  · obtain ⟨found, hfound, hfoundSet⟩ := hall other hother
    exact ⟨found, (List.getElem?_set_ne (Ne.symm hsame)).symm.trans hfound, hfoundSet⟩

/-- The one that awaits the future that is returned has room when it is resolved. -/
def Roomy (count : Nat) (store : Store X T) (result : SharedPromiseState X (List T)) : Prop :=
  AllSet count store → result.futureSuspended = true → store.full = false

theorem Roomy.take {store : Store X T} {result : SharedPromiseState X (List T)}
    (hroomy : Roomy count store result) (hstate : store.states[place]? = some state)
    (hset : state.stateSet = true) (value : T) :
    Roomy count (store.takenAt place state (.ok value)) result :=
  fun hall => hroomy (hall.of_take hstate hset)

/-- What is left of a part of the coroutine that began without waiting for anything. -/
structure Advances (count : Nat) (order : List Nat) (values : Nat → T) (handle : Coro)
    (system next : AwaitAll X T) : Prop where
  settled : Settled count order values handle next
  asleep : ¬ Awakened next
  scheduled : next.store.scheduled = system.store.scheduled
  resumed : next.resumed = system.resumed
  /-- If all futures are resolved, the coroutine has ended. -/
  ends : AllSet count system.store → next.frame = .ended

/-- A future that is next in the order is one of the futures, and its value was not taken yet. -/
theorem fresh_of_order (hperm : order.Perm (List.range count))
    (horder : order = done ++ place :: pending) : place < count ∧ place ∉ done := by
  have hmem : place ∈ order := horder ▸ List.mem_append_right done List.mem_cons_self
  have hnodup := hperm.nodup_iff.mpr List.nodup_range
  rw [horder] at hnodup
  refine ⟨List.mem_range.mp (hperm.mem_iff.mp hmem), fun hdone => ?_⟩
  exact (List.nodup_append.mp hnodup).2.2 place hdone place List.mem_cons_self rfl

/-- Behind the last future the coroutine ends. -/
theorem exec_evaluate_nil (hperm : order.Perm (List.range count))
    (hfutures : Futures count values handle order none system.store)
    (hslots : Slots count values order slots) {result : SharedPromiseState X (List T)}
    (hresult : Unresolved system.result result) (hroomy : Roomy count system.store result)
    (hresolutions : system.resolutions = 0) :
    ∃ next, (evaluate handle [] slots).exec system = (.ok (), next) ∧
      Advances count order values handle system next := by
  have hall : ∀ place < count, place ∈ order := fun place hplace =>
    hperm.mem_iff.mpr (List.mem_range.mpr hplace)
  obtain ⟨next, result, room, hexec, hresolved, hstore, hframe, hresumed, hcount⟩ :=
    exec_conclude hresult (hroomy (hfutures.allSet hall)) (tuple count values)
  refine ⟨next, ?_, .ended result hframe ?_ hresolved ?_, ?_, ?_, hresumed, fun _ => hframe⟩
  · unfold evaluate
    rw [hslots.mapM hall]
    exact hexec
  · rw [hstore]
    exact hfutures.withRoom room
  · rw [hcount, hresolutions]
  · exact not_awakened_of_ended hframe
  · rw [hstore]

/-- At a future that is not resolved it waits. -/
theorem exec_evaluate_unset (hfutures : Futures count values handle done none system.store)
    (hslots : Slots count values done slots) {result : SharedPromiseState X (List T)}
    (hresult : Unresolved system.result result) (hresolutions : system.resolutions = 0)
    (horder : order = done ++ place :: pending) (hplace : place < count) (hfresh : place ∉ done)
    (hstate : system.store.states[place]? = some state) (hset : state.stateSet = false) :
    ∃ next, (evaluate handle (place :: pending) slots).exec system = (.ok (), next) ∧
      Advances count order values handle system next := by
  have hawait := exec_onStore_eq (Future.exec_await_unset hstate hset handle)
  let waiting := { state with handle := some handle, futureSuspended := true }
  refine ⟨{ system with
    store := { system.store with states := system.store.states.set place waiting }
    frame := .suspended place pending slots }, ?_, ?_⟩
  · unfold evaluate
    rw [Call.exec_bind_ok hawait]
    rfl
  · refine ⟨.suspended done place pending slots result rfl horder
      (hfutures.suspend hstate hfresh rfl _ _) hslots hresult hresolutions, ?_, rfl, rfl, ?_⟩
    · rw [awakened_iff rfl]
      rintro ⟨state', hstate', hset'⟩
      rw [List.getElem?_set_self (List.getElem?_eq_some_iff.mp hstate).1,
        Option.some.injEq] at hstate'
      rw [← hstate', hset] at hset'
      cases hset'
    · intro hall
      obtain ⟨state', hstate', hset'⟩ := hall place hplace
      rw [hstate, Option.some.injEq] at hstate'
      rw [← hstate', hset] at hset'
      cases hset'

theorem exec_evaluate (hperm : order.Perm (List.range count))
    (hfutures : Futures count values handle done none system.store)
    (hslots : Slots count values done slots) {result : SharedPromiseState X (List T)}
    (hresult : Unresolved system.result result) (hroomy : Roomy count system.store result)
    (hresolutions : system.resolutions = 0) (horder : order = done ++ pending) :
    ∃ next, (evaluate handle pending slots).exec system = (.ok (), next) ∧
      Advances count order values handle system next := by
  induction pending generalizing done slots system with
  | nil =>
      rw [List.append_nil] at horder
      subst horder
      exact exec_evaluate_nil hperm hfutures hslots hresult hroomy hresolutions
  | cons place pending ih =>
      obtain ⟨hplace, hfresh⟩ := fresh_of_order hperm horder
      obtain ⟨state, hstate⟩ := hfutures.exists_state hplace
      have hwaits := hfutures.waits place state hstate
      cases hset : state.stateSet with
      | true =>
          have hawait := exec_onStore_eq (Future.exec_await_set
            (Store.exec_getState_self hstate hwaits.ends) hstate hset (hwaits.value hfresh hset)
            handle)
          have htaken := hfutures.take hstate hset (.inl rfl)
          have hrest : order = (done ++ [place]) ++ pending := by
            rw [List.append_assoc]
            exact horder
          obtain ⟨next, hexec, hnext⟩ := @ih
            { system with store := system.store.takenAt place state (.ok (values place)) } _ _
            htaken (hslots.set hplace) hresult (hroomy.take hstate hset (values place))
            hresolutions hrest
          refine ⟨next, ?_, hnext.settled, hnext.asleep, hnext.scheduled, hnext.resumed, ?_⟩
          · unfold evaluate
            rw [Call.exec_bind_ok hawait]
            exact hexec
          · intro hall
            apply hnext.ends
            exact hall.take hstate hset (values place)
      | false =>
          exact exec_evaluate_unset hfutures hslots hresult hresolutions horder hplace hfresh
            hstate hset

/-! ### Runs -/

/-- The coroutine is in the queue exactly if it waits for a future that is resolved. -/
structure Invariant (count : Nat) (order : List Nat) (values : Nat → T) (handle : Coro)
    (system : AwaitAll X T) : Prop where
  settled : Settled count order values handle system
  awake : Awakened system → system.store.scheduled.length = system.resumed + 1
  asleep : ¬ Awakened system → system.store.scheduled.length = system.resumed

/-- Nothing was awaited yet. -/
structure Uncalled (count : Nat) (values : Nat → T) (handle : Coro) (system : AwaitAll X T)
    (result : SharedPromiseState X (List T)) : Prop where
  frame : system.frame = .uncalled
  futures : Futures count values handle [] none system.store
  unawaited : result.futureSuspended = false
  result : Unresolved system.result result
  resolutions : system.resolutions = 0
  scheduled : system.store.scheduled.length = system.resumed

theorem Uncalled.roomy {result : SharedPromiseState X (List T)}
    (huncalled : Uncalled count values handle system result) :
    Roomy count system.store result := by
  intro _ hsuspended
  rw [huncalled.unawaited] at hsuspended
  cases hsuspended

theorem uncalled_start (count : Nat) (room : Option Room) (values : Nat → T) (handle : Coro) :
    Uncalled count values handle (start count room : AwaitAll X T) .make where
  frame := rfl
  futures := by
    refine ⟨List.length_replicate, fun place state hstate => ?_⟩
    have hmake := List.eq_of_mem_replicate (List.mem_of_getElem? hstate)
    subst hmake
    exact ⟨rfl, rfl, nofun, nofun, fun _ => iff_of_false nofun nofun, nofun⟩
  result := ⟨rfl, rfl, rfl, rfl, nofun, rfl⟩
  unawaited := rfl
  resolutions := rfl
  scheduled := rfl

theorem Advances.invariant (hadvances : Advances count order values handle system next)
    (hscheduled : system.store.scheduled.length = system.resumed) :
    Invariant count order values handle next where
  settled := hadvances.settled
  awake hawake := absurd hawake hadvances.asleep
  asleep _ := by
    rw [hadvances.scheduled, hadvances.resumed]
    exact hscheduled

theorem exec_all (caught : Fault → X) (hperm : order.Perm (List.range count))
    {result : SharedPromiseState X (List T)}
    (huncalled : Uncalled count values handle system result) :
    ∃ next, (all caught count order handle).exec system = (.ok (), next) ∧
      Advances count order values handle system next := by
  obtain ⟨next, hexec, hnext⟩ := exec_evaluate hperm huncalled.futures
    (slots_replicate count values) huncalled.result huncalled.roomy huncalled.resolutions
    (List.nil_append order).symm
  refine ⟨next, ?_, hnext⟩
  unfold all
  rw [Call.exec_tryCatch, hexec]

/-- The coroutine that is in the queue goes on from the value it has waited for. -/
theorem Invariant.exec_resume (caught : Fault → X) (hperm : order.Perm (List.range count))
    (hinv : Invariant count order values handle system)
    (hqueued : system.resumed < system.store.scheduled.length) :
    ∃ next, (resume caught handle).exec system.popped = (.ok (), next) ∧
      Settled count order values handle next ∧ ¬ Awakened next ∧
      next.store.scheduled.length = system.resumed + 1 ∧ next.resumed = system.resumed ∧
      (AllSet count system.store → next.frame = .ended) := by
  have hawake : Awakened system := by
    by_contra hasleep
    rw [hinv.asleep hasleep] at hqueued
    exact Nat.lt_irrefl _ hqueued
  have hlength := hinv.awake hawake
  obtain ⟨place, pending, slots, state, hframe, hstate, hset⟩ := hawake
  obtain ⟨done, place', pending', slots', result, hframe', horder, hfutures, hslots, hresult,
    hresolutions⟩ | ⟨result, hended, -, -, -⟩ := hinv.settled
  · rw [hframe'] at hframe
    cases hframe
    obtain ⟨hplace, hfresh⟩ := fresh_of_order hperm horder
    have hwaits := hfutures.waits place state hstate
    have hresume := @exec_onStore_eq X T system.popped _ _ _ _ (Future.exec_awaitResume
      (Store.exec_getState_self hstate hwaits.ends) hstate hset (hwaits.value hfresh hset))
    have htaken := (hfutures.withRoom system.popped.store.room).take hstate hset (.inr rfl)
    have hrest : order = (done ++ [place]) ++ pending := by
      rw [List.append_assoc]
      exact horder
    have hroomy : Roomy count system.popped.store result := fun _ _ =>
      Store.full_popped system.store
    obtain ⟨next, hexec, hnext⟩ := @exec_evaluate X T count order values handle
      { system.popped with store := system.popped.store.takenAt place state (.ok (values place)) }
      _ _ _ hperm htaken (hslots.set hplace) result hresult
      (hroomy.take hstate hset (values place)) hresolutions hrest
    refine ⟨next, ?_, hnext.settled, hnext.asleep, ?_, hnext.resumed, ?_⟩
    · unfold resume
      rw [Call.exec_get_bind, show system.popped.frame = _ from hframe']
      dsimp only
      rw [Call.exec_tryCatch, Call.exec_bind_ok hresume]
      dsimp only
      rw [hexec]
    · rw [hnext.scheduled]
      exact hlength
    · exact fun hall => hnext.ends (hall.take hstate hset (values place))
  · rw [hended] at hframe
    cases hframe

/-- The coroutines that resolving the promise at the place schedules. -/
def wakesAt (handle : Coro) (current : Option Nat) (place : Nat) : List Coro :=
  if current = some place then [handle] else []

/-- A promise is resolved once, and the coroutine is scheduled if it waits for it. -/
theorem Futures.exec_resolve {store : Store X T}
    (hfutures : Futures count values handle done current store) (hplace : place < count)
    (hfits : store.Fits place) :
    ∃ state, store.states[place]? = some state ∧
      (state.stateSet = true ∧
        ((Promise.setValue place (values place)).exec store).2 = store ∨
      state.stateSet = false ∧
        (Promise.setValue place (values place)).exec store = (.ok (), ⟨store.states.set place
          (Promise.withOutcome { state with stateSet := true } (.ok (values place))),
            store.scheduled ++ wakesAt handle current place,
            store.roomAfter (wakesAt handle current place)⟩)) := by
  obtain ⟨state, hstate⟩ := hfutures.exists_state hplace
  have hwaits := hfutures.waits place state hstate
  have hroot := Store.exec_getState_self hstate hwaits.ends
  refine ⟨state, hstate, ?_⟩
  unfold Promise.setValue
  cases hset : state.stateSet with
  | true =>
      rw [Promise.exec_setOutcome_set hroot hstate hset]
      exact .inl ⟨rfl, rfl⟩
  | false =>
      have hfresh : place ∉ done := by
        intro hdone
        rw [hwaits.taken hdone] at hset
        cases hset
      have hsuspended := hwaits.suspended hfresh
      have hwakes : state.wakes = wakesAt handle current place := by
        unfold SharedPromiseState.wakes wakesAt
        by_cases hcurrent : current = some place
        · rw [if_pos (hsuspended.mpr hcurrent), if_pos hcurrent, hwaits.handled hcurrent]
          rfl
        · rw [if_neg (mt hsuspended.mp hcurrent), if_neg hcurrent]
      rw [Promise.exec_setOutcome hroot hstate hset
        (fun hnow => ⟨handle, hwaits.handled (hsuspended.mp hnow)⟩)
        (hfits place state hroot hstate hset)]
      unfold Store.setAt
      rw [hwakes]
      exact .inr ⟨rfl, rfl⟩

section Resolve

variable {store : Store X T}

theorem Uncalled.resolve {result : SharedPromiseState X (List T)}
    (huncalled : Uncalled count values handle system result) (hplace : place < count)
    (hfits : system.store.Fits place) :
    Uncalled count values handle
      (system.after (onStore (Promise.setValue place (values place)))) result := by
  obtain ⟨state, hstate, ⟨-, hexec⟩ | ⟨-, hexec⟩⟩ := huncalled.futures.exec_resolve hplace hfits
  · rw [after_onStore_same hexec]
    exact huncalled
  · rw [after_onStore hexec]
    refine ⟨huncalled.frame, huncalled.futures.resolve hstate _ _, huncalled.unawaited,
      huncalled.result, huncalled.resolutions, ?_⟩
    change (system.store.scheduled ++ wakesAt handle none place).length = system.resumed
    rw [wakesAt, if_neg nofun, List.append_nil]
    exact huncalled.scheduled

theorem Invariant.resolve (hperm : order.Perm (List.range count))
    (hinv : Invariant count order values handle system) (hplace : place < count)
    (hfits : system.store.Fits place) :
    Invariant count order values handle
      (system.after (onStore (Promise.setValue place (values place)))) := by
  obtain ⟨done, current, pending, slots, result, hframe, horder, hfutures, hslots, hresult,
    hresolutions⟩ | ⟨result, hframe, hfutures, hresult, hresolutions⟩ := hinv.settled
  · obtain ⟨state, hstate, ⟨-, hexec⟩ | ⟨hunset, hexec⟩⟩ := hfutures.exec_resolve hplace hfits
    · rw [after_onStore_same hexec]
      exact hinv
    · rw [after_onStore hexec]
      have hlength := (List.getElem?_eq_some_iff.mp hstate).1
      have hold := awakened_iff hframe
      refine ⟨.suspended done current pending slots result hframe horder
        (hfutures.resolve hstate _ _) hslots hresult hresolutions, fun hawake => ?_,
        fun hasleep => ?_⟩
      · obtain ⟨found, hfound, hset⟩ := (awakened_withStore hframe _).mp hawake
        change (system.store.scheduled ++ wakesAt handle (some current) place).length = _
        obtain ⟨rfl, rfl⟩ | ⟨hne, hfound⟩ := getElem?_set_eq_some hstate hfound
        · have hasleep : ¬ Awakened system := by
            rw [hold, hstate]
            rintro ⟨found, heq, hset⟩
            rw [← Option.some.inj heq, hunset] at hset
            cases hset
          rw [wakesAt, if_pos rfl, List.length_append, hinv.asleep hasleep]
          rfl
        · rw [wakesAt, if_neg fun heq => hne (Option.some.inj heq), List.append_nil]
          exact hinv.awake (hold.mpr ⟨found, hfound, hset⟩)
      · have hnot := mt (awakened_withStore hframe _).mpr hasleep
        change (system.store.scheduled ++ wakesAt handle (some current) place).length = _
        have hne : current ≠ place := by
          rintro rfl
          exact hnot ⟨_, List.getElem?_set_self hlength, rfl⟩
        rw [wakesAt, if_neg fun heq => hne (Option.some.inj heq), List.append_nil]
        apply hinv.asleep
        rw [hold]
        rintro ⟨found, hfound, hset⟩
        exact hnot ⟨found, (List.getElem?_set_ne hne.symm).trans hfound, hset⟩
  · have hmem : place ∈ order := hperm.mem_iff.mpr (List.mem_range.mpr hplace)
    obtain ⟨state, hstate, ⟨-, hexec⟩ | ⟨hunset, -⟩⟩ := hfutures.exec_resolve hplace hfits
    · rw [after_onStore_same hexec]
      exact hinv
    · rw [(hfutures.waits place state hstate).taken hmem] at hunset
      cases hunset

end Resolve

/-- The one that awaits the future that is returned is suspended. -/
theorem Unresolved.await {result : SharedPromiseState X (List T)}
    (hresult : Unresolved system.result result) (coro : Coro) :
    ∃ result', Unresolved (system.after (onResult (Future.await 0 coro))).result result' ∧
      (system.after (onResult (Future.await 0 coro))) = { system with
        result := (system.after (onResult (Future.await 0 coro))).result } := by
  have hawait := exec_onResult_eq (Future.exec_await_unset hresult.loads hresult.unset coro)
  unfold AwaitAll.after
  rw [hawait]
  refine ⟨{ result with handle := some coro, futureSuspended := true }, ⟨?_, hresult.ends,
    hresult.unset, hresult.clean, fun _ => ⟨coro, rfl⟩, hresult.scheduled⟩, rfl⟩
  change system.result.states.set 0 _ = _
  rw [hresult.states]
  rfl

theorem Invariant.await (hinv : Invariant count order values handle system)
    (hunresolved : system.resolutions = 0) (coro : Coro) :
    Invariant count order values handle (system.after (onResult (Future.await 0 coro))) := by
  obtain ⟨done, current, pending, slots, result, hframe, horder, hfutures, hslots, hresult,
    hresolutions⟩ | ⟨result, hframe, hfutures, hresult, hresolutions⟩ := hinv.settled
  · obtain ⟨result', hresult', hsystem⟩ := hresult.await coro
    rw [hsystem]
    exact ⟨.suspended done current pending slots result' hframe horder hfutures hslots hresult'
      hresolutions, hinv.awake, hinv.asleep⟩
  · rw [hunresolved] at hresolutions
    cases hresolutions

/-- How often the coroutine was resumed does not matter to it. -/
theorem Settled.withResumed (hsettled : Settled count order values handle system) (resumed : Nat) :
    Settled count order values handle { system with resumed } := by
  cases hsettled with
  | suspended done place pending slots result hframe horder hfutures hslots hresult hnone =>
      exact .suspended done place pending slots result hframe horder hfutures hslots hresult hnone
  | ended result hframe hfutures hresult hone => exact .ended result hframe hfutures hresult hone

/-- The system before and after the call. -/
inductive Reaches (count : Nat) (order : List Nat) (values : Nat → T) (handle : Coro)
    (system : AwaitAll X T) : Prop where
  | uncalled (result : SharedPromiseState X (List T))
      (huncalled : Uncalled count values handle system result)
  | called (hinv : Invariant count order values handle system)

/-- How much room the queue has does not matter to it either. -/
theorem Settled.withRoom (hsettled : Settled count order values handle system)
    (room : Option Room) :
    Settled count order values handle
      { system with store := { system.store with room } } := by
  cases hsettled with
  | suspended done place pending slots result hframe horder hfutures hslots hresult hnone =>
      exact .suspended done place pending slots result hframe horder (hfutures.withRoom room) hslots
        hresult hnone
  | ended result hframe hfutures hresult hone =>
      exact .ended result hframe (hfutures.withRoom room) hresult hone

theorem Reaches.withRoom (hreaches : Reaches count order values handle system)
    (room : Option Room) :
    Reaches count order values handle { system with store := { system.store with room } } := by
  cases hreaches with
  | uncalled result huncalled =>
      exact .uncalled result ⟨huncalled.frame, huncalled.futures.withRoom room,
        huncalled.unawaited, huncalled.result, huncalled.resolutions, huncalled.scheduled⟩
  | called hinv => exact .called ⟨hinv.settled.withRoom room, hinv.awake, hinv.asleep⟩

theorem Invariant.called (hinv : Invariant count order values handle system) :
    system.frame ≠ .uncalled := by
  obtain ⟨done, current, pending, slots, result, hframe, -⟩ | ⟨result, hframe, -⟩ := hinv.settled
  · rw [hframe]
    exact nofun
  · rw [hframe]
    exact nofun

theorem Step.reaches {action : Action} (hperm : order.Perm (List.range count))
    (hfits : action.Fits system)
    (hstep : Step caught count order values handle system action next)
    (hreaches : Reaches count order values handle system) :
    Reaches count order values handle next := by
  cases hreaches with
  | uncalled result huncalled =>
      cases hstep with
      | resolve hplace => exact .uncalled result (huncalled.resolve hplace hfits)
      | call hframe =>
          obtain ⟨next, hexec, hnext⟩ := exec_all caught hperm huncalled
          unfold AwaitAll.after
          rw [hexec]
          exact .called (hnext.invariant huncalled.scheduled)
      | resume hqueued =>
          rw [huncalled.scheduled] at hqueued
          exact absurd hqueued (Nat.lt_irrefl _)
      | await hcalled => exact absurd huncalled.frame hcalled
      | others hroom free hfree => exact Reaches.withRoom (.uncalled result huncalled) _
  | called hinv =>
      cases hstep with
      | resolve hplace => exact .called (hinv.resolve hperm hplace hfits)
      | call hframe => exact absurd hframe hinv.called
      | resume hqueued =>
          obtain ⟨next, hexec, hsettled, hasleep, hlength, hresumed, -⟩ :=
            hinv.exec_resume caught hperm hqueued
          unfold AwaitAll.after
          rw [hexec]
          refine .called ⟨hsettled.withResumed _, fun hawake => absurd hawake hasleep,
            fun _ => hlength⟩
      | await hcalled hunresolved coro => exact .called (hinv.await hunresolved coro)
      | others hroom free hfree => exact Reaches.withRoom (.called hinv) _

/-- What holds of the future that `all` returns, at any time. -/
structure AwaitsAll (caught : Fault → X) (count : Nat) (order : List Nat) (values : Nat → T)
    (handle : Coro) (system : AwaitAll X T) : Prop where
  /-- It was resolved once, or it is unresolved. -/
  once : system.resolutions = 1 ∨ system.resolutions = 0 ∧
    ∃ result, Unresolved system.result result
  /-- It was not resolved before all others, and it has their values, in their order. -/
  last : system.resolutions = 1 → AllSet count system.store ∧
    ∃ result, ResolvedWith (tuple count values) system.result result
  /-- It is resolved by the call if the others were resolved before. -/
  calls : system.frame = .uncalled → ∃ next,
    (all caught count order handle).exec system = (.ok (), next) ∧
      (AllSet count system.store → next.resolutions = 1)
  /-- Once the others are all resolved, it is, or the coroutine is in the queue. -/
  woken : system.frame ≠ .uncalled → AllSet count system.store → system.resolutions = 0 →
    system.resumed < system.store.scheduled.length
  /-- The coroutine goes on whenever it is in the queue, and resolves it if the others are all
  resolved. -/
  goesOn : system.resumed < system.store.scheduled.length → ∃ next,
    (resume caught handle).exec system.popped = (.ok (), next) ∧
      (AllSet count system.store → next.resolutions = 1)

theorem Settled.resolutions_of_ended (hsettled : Settled count order values handle system)
    (hframe : system.frame = .ended) : system.resolutions = 1 := by
  cases hsettled with
  | suspended done place pending slots result hsuspended =>
      rw [hframe] at hsuspended
      cases hsuspended
  | ended result hended hfutures hresult hone => exact hone

theorem Reaches.awaitsAll (caught : Fault → X) (hperm : order.Perm (List.range count))
    (hreaches : Reaches count order values handle system) :
    AwaitsAll caught count order values handle system := by
  cases hreaches with
  | uncalled result huncalled =>
      refine ⟨.inr ⟨huncalled.resolutions, result, huncalled.result⟩, ?_, fun _ => ?_, ?_, ?_⟩
      · rw [huncalled.resolutions]
        exact nofun
      · obtain ⟨next, hexec, hnext⟩ := exec_all caught hperm huncalled
        exact ⟨next, hexec, fun hall => hnext.settled.resolutions_of_ended (hnext.ends hall)⟩
      · exact fun hcalled => absurd huncalled.frame hcalled
      · rw [huncalled.scheduled]
        exact fun hqueued => absurd hqueued (Nat.lt_irrefl _)
  | called hinv =>
      refine ⟨?_, ?_, fun hframe => absurd hframe hinv.called, ?_, ?_⟩
      · cases hinv.settled with
        | suspended done place pending slots result hframe horder hfutures hslots hresult hnone =>
            exact .inr ⟨hnone, result, hresult⟩
        | ended result hframe hfutures hresult hone => exact .inl hone
      · intro hone
        cases hinv.settled with
        | suspended done place pending slots result hframe horder hfutures hslots hresult hnone =>
            rw [hone] at hnone
            cases hnone
        | ended result hframe hfutures hresult =>
            exact ⟨hfutures.allSet fun place hplace =>
              hperm.mem_iff.mpr (List.mem_range.mpr hplace), result, hresult⟩
      · intro _ hall hnone
        have hawake : Awakened system := by
          cases hinv.settled with
          | suspended done place pending slots result hframe horder =>
              exact (awakened_iff hframe).mpr (hall place (fresh_of_order hperm horder).1)
          | ended result hframe hfutures hresult hone =>
              rw [hone] at hnone
              cases hnone
        rw [hinv.awake hawake]
        exact Nat.lt_succ_self _
      · intro hqueued
        obtain ⟨next, hexec, hsettled, -, -, -, hends⟩ := hinv.exec_resume caught hperm hqueued
        exact ⟨next, hexec, fun hall => hsettled.resolutions_of_ended (hends hall)⟩

/-- Nothing touches the future that is returned once it is resolved. -/
theorem Step.keeps {action : Action}
    (hstep : Step caught count order values handle system action next)
    (hreaches : Reaches count order values handle system) (hone : system.resolutions = 1) :
    next.result = system.result ∧ next.resolutions = 1 := by
  cases hreaches with
  | uncalled result huncalled =>
      rw [huncalled.resolutions] at hone
      cases hone
  | called hinv =>
      obtain ⟨-, -, -, -, -, -, -, -, -, -, hnone⟩ | ⟨result, hframe, -, -, -⟩ := hinv.settled
      · rw [hone] at hnone
        cases hnone
      · cases hstep with
        | resolve hplace => exact ⟨rfl, hone⟩
        | call huncalled => exact absurd huncalled hinv.called
        | resume hqueued =>
            rw [hinv.asleep (not_awakened_of_ended hframe)] at hqueued
            exact absurd hqueued (Nat.lt_irrefl _)
        | await hcalled hunresolved =>
            rw [hone] at hunresolved
            cases hunresolved
        | others hroom free hfree => exact ⟨rfl, hone⟩

/-- A step for which no awaiter has to go into a full queue. -/
def Fitting (caught : Fault → X) (count : Nat) (order : List Nat) (values : Nat → T)
    (handle : Coro) (before : AwaitAll X T) (action : Action) (after : AwaitAll X T) : Prop :=
  action.Fits before ∧ Step caught count order values handle before action after

theorem reaches_of_run {actions : List Action} {start : AwaitAll X T}
    (hperm : order.Perm (List.range count)) (hstart : Reaches count order values handle start)
    (hrun : Run (Fitting caught count order values handle) start actions system) :
    Reaches count order values handle system :=
  hrun.preserves (Reaches count order values handle)
    (fun _ hstep hreaches => hstep.2.reaches hperm hstep.1 hreaches) (fun _ _ => trivial) hstart

/-- **All of several futures.** However the calls come in order, as long as no awaiter has to go
into a full queue, the future that `all` returns is resolved once, not before the last of the
others, with their values in the order of the arguments; and when they are all resolved it is, as
soon as the coroutine was called and has been resumed. -/
theorem awaitsAll_of_run {room : Option Room} {actions later : List Action}
    {final : AwaitAll X T} (hperm : order.Perm (List.range count))
    (hrun : Run (Fitting caught count order values handle) (start count room) actions system)
    (hlater : Run (Fitting caught count order values handle) system later final) :
    AwaitsAll caught count order values handle system ∧
      (system.resolutions = 1 → final.result = system.result ∧ final.resolutions = 1) := by
  have hreaches := reaches_of_run hperm (.uncalled _ (uncalled_start count room values handle)) hrun
  refine ⟨hreaches.awaitsAll caught hperm, fun hone => ?_⟩
  clear hrun
  induction hlater with
  | nil => exact ⟨rfl, hone⟩
  | cons hstep _ ih =>
      obtain ⟨hresult, hnext⟩ := hstep.2.keeps hreaches hone
      obtain ⟨hfinal, hcount⟩ := ih (hstep.2.reaches hperm hstep.1 hreaches) hnext
      exact ⟨hfinal.trans hresult, hcount⟩

/-- Two futures, of which the second is awaited first: it is resolved before the call, the other one
after it, and the queue takes one coroutine. -/
def bothResolved : AwaitAll Unit Nat :=
  { ((((start 2 (some ⟨1, 1⟩)).after (onStore (Promise.setValue 1 11))).after
      (all (fun _ => ()) 2 [1, 0] 7)).after (onStore (Promise.setValue 0 10))).popped.after
        (resume (fun _ => ()) 7) with resumed := 1 }

theorem run_bothResolved :
    Run (Fitting (fun _ => ()) 2 [1, 0] (fun place => place + 10) 7) (start 2 (some ⟨1, 1⟩))
      [.resolve 1, .call, .resolve 0, .resume] bothResolved :=
  .cons ⟨Store.fits_of_room rfl, .resolve (by decide)⟩ (.cons ⟨trivial, .call rfl⟩
    (.cons ⟨Store.fits_of_room rfl, .resolve (by decide)⟩
      (.cons ⟨trivial, .resume (by decide)⟩ (.nil bothResolved))))

theorem awaitsAll_bothResolved :
    AwaitsAll (fun _ => ()) 2 [1, 0] (fun place => place + 10) 7 bothResolved ∧
      (bothResolved.resolutions = 1 →
        bothResolved.result = bothResolved.result ∧ bothResolved.resolutions = 1) :=
  awaitsAll_of_run (by decide) run_bothResolved (.nil bothResolved)

example : bothResolved.result.states.map (fun state => state.value) = [.holds [10, 11]] := by
  decide

/-- One future, that is resolved while the queue is full. The coroutine that waits for it is in no
queue. -/
theorem not_awaitsAll_full :
    ¬ ∀ (actions : List Action) (system : AwaitAll Unit Nat),
      Run (Step (fun _ => ()) 1 [0] (fun place => place + 10) 7) (start 1 (some ⟨1, 1⟩)) actions
          system →
        AwaitsAll (fun _ => ()) 1 [0] (fun place => place + 10) 7 system := by
  intro hawaits
  let called : AwaitAll Unit Nat := (start 1 (some ⟨1, 1⟩)).after (all (fun _ => ()) 1 [0] 7)
  let crowded : AwaitAll Unit Nat := { called with
    store := { called.store with room := some ⟨1, 0⟩ } }
  have hothers : Step (fun _ => ()) 1 [0] (fun place => place + 10) 7 called (.others 0) crowded :=
    @Step.others _ _ _ _ _ _ _ called ⟨1, 1⟩ rfl 0 (by decide)
  have hresolve : Step (fun _ => ()) 1 [0] (fun place => place + 10) 7 crowded (.resolve 0)
      (crowded.after (onStore (Promise.setValue 0 10))) := .resolve (by decide)
  have hrun := hawaits _ _ (.cons (.call rfl) (.cons hothers (.cons hresolve (.nil _))))
  have hset : AllSet 1 (crowded.after (onStore (Promise.setValue 0 10))).store := by
    intro place hplace
    obtain rfl := Nat.lt_one_iff.mp hplace
    exact ⟨_, rfl, rfl⟩
  exact absurd (hrun.woken (by decide) hset rfl) (by decide)

end AwaitAll

end Liblw.Co
