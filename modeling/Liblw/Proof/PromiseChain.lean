import Liblw.Co.PromiseChain
import Liblw.Proof.FutureCalls

/-!
# What the outermost future delivers

A linked promise either points on at the one before it, or had its result when it was linked and
gave it away. So what the innermost promise is resolved with is always in the state of the last
promise that is reached by links, and it gets to the outermost state with the last step.
-/

namespace Liblw.Co

open Liblw.Lib

variable {X T : Type}

/-! ### Links -/

namespace PromiseChain

section Links

variable {linked : List Nat} {first middle last promise place innermost : Nat}
  {resolved : Option (Except X T)}

theorem Joined.mono (hjoined : Joined linked first last) (hle : first ≤ middle) :
    Joined linked middle last :=
  fun promise hfirst hlast => hjoined promise (Nat.le_trans hle hfirst) hlast

theorem Joined.append (hfirst : Joined linked first middle) (hlast : Joined linked middle last) :
    Joined linked first last := by
  intro promise hle hlt
  rcases Nat.lt_or_ge promise middle with hbefore | hbehind
  · exact hfirst promise hle hbefore
  · exact hlast promise hbehind hlt

theorem joined_cons (hpromise : promise < last) :
    Joined (promise :: linked) first last ↔
      Joined linked first last ∨
        (first ≤ promise ∧ Joined linked first promise) ∧ Joined linked (promise + 1) last := by
  constructor
  · intro hjoined
    rcases Nat.lt_or_ge promise first with hbefore | hbehind
    · apply Or.inl
      intro other hle hlt
      have hne : other ≠ promise := by omega
      exact List.mem_of_ne_of_mem hne (hjoined other hle hlt)
    · refine Or.inr ⟨⟨hbehind, ?_⟩, ?_⟩
      · intro other hle hlt
        exact List.mem_of_ne_of_mem (Nat.ne_of_lt hlt) (hjoined other hle (by omega))
      · intro other hle hlt
        exact List.mem_of_ne_of_mem (by omega) (hjoined other (by omega) hlt)
  · rintro (hjoined | ⟨⟨_, hbefore⟩, hbehind⟩) other hle hlt
    · exact List.mem_cons_of_mem promise (hjoined other hle hlt)
    · rcases Nat.lt_trichotomy other promise with hless | rfl | hgreater
      · exact List.mem_cons_of_mem promise (hbefore other hle hless)
      · exact List.mem_cons_self
      · exact List.mem_cons_of_mem promise (hbehind other hgreater hlt)

theorem Reached.of_joined (hreached : Reached innermost linked resolved promise)
    (hjoined : Joined linked place promise) : Reached innermost linked resolved place :=
  ⟨hreached.1, hjoined.append hreached.2⟩

theorem Reached.mono (hreached : Reached innermost linked resolved place)
    (hle : place ≤ promise) : Reached innermost linked resolved promise :=
  ⟨hreached.1, hreached.2.mono hle⟩

theorem reached_cons (hpromise : promise < innermost) :
    Reached innermost (promise :: linked) resolved place ↔
      Reached innermost linked resolved place ∨
        (place ≤ promise ∧ Joined linked place promise) ∧
          Reached innermost linked resolved (promise + 1) := by
  unfold Reached
  rw [joined_cons hpromise]
  tauto

end Links

/-! ### The states of the chain -/

/-- What the state at the place is. A state whose promise the result has not reached is not set, and
it points on if it can. The result is in a state that is the last it has reached, until it is
taken. -/
structure Placed (innermost : Nat) (chain : PromiseChain X T) (place : Nat)
    (state : SharedPromiseState X T) : Prop where
  pointer : ∀ next, state.chainState = some next → place = next + 1 ∧ next ∈ chain.linked
  pending : ¬ Reached innermost chain.linked chain.resolved place →
    state.stateSet = false ∧ state.exception = none ∧
      ∀ next, place = next + 1 → next ∈ chain.linked → state.chainState = some next
  isSet : Reached innermost chain.linked chain.resolved place → state.chainState = none →
    state.stateSet = true
  keeps : ∀ outcome, chain.resolved = some outcome →
    Reached innermost chain.linked chain.resolved place →
      (∀ next, place = next + 1 → next ∉ chain.linked) →
        (place = 0 → ∀ woken result, chain.awaiter ≠ .finished woken result) → state.Has outcome
  handle : state.futureSuspended = true → ∃ coro, state.handle = some coro
  wakes : state.wakes = if place = 0 then chain.awaiter.suspendedCoro.toList else []

structure Invariant (innermost : Nat) (chain : PromiseChain X T) : Prop where
  length : chain.store.states.length = innermost + 1
  placed : ∀ place state, chain.store.states[place]? = some state →
    Placed innermost chain place state
  scheduled : Reached innermost chain.linked chain.resolved 0 →
    chain.store.scheduled = chain.awaiter.suspendedCoro.toList
  unscheduled : ¬ Reached innermost chain.linked chain.resolved 0 → chain.store.scheduled = []
  finished : ∀ woken result, chain.awaiter = .finished woken result →
    Reached innermost chain.linked chain.resolved 0 ∧
      ∃ outcome, chain.resolved = some outcome ∧ result = .ok outcome

theorem invariant_start (innermost : Nat) (room : Option Room) :
    Invariant innermost (start innermost room : PromiseChain X T) where
  length := List.length_replicate
  placed := by
    intro place state hstate
    have hmake : state = .make := List.eq_of_mem_replicate (List.mem_of_getElem? hstate)
    subst hmake
    exact {
      pointer := fun _ hnext => nomatch hnext
      pending := fun _ => ⟨rfl, rfl, fun _ _ hlinked => nomatch hlinked⟩
      isSet := fun hreached => nomatch hreached.1
      keeps := fun _ hresolved => nomatch hresolved
      handle := fun hsuspended => nomatch hsuspended
      wakes := by split_ifs <;> rfl }
  scheduled hreached := nomatch hreached.1
  unscheduled _ := rfl
  finished _ _ hfinished := nomatch hfinished

section Steps

variable {innermost promise place root : Nat} {chain : PromiseChain X T}
  {state : SharedPromiseState X T} {outcome : Except X T}

theorem Invariant.exec_getState (hinv : Invariant innermost chain) (hplace : place ≤ innermost) :
    ∃ root state, chain.store.Root place root state ∧
      (Store.getState place).exec chain.store = (.ok root, chain.store) := by
  have hlength : place < chain.store.states.length := by
    rw [hinv.length]
    exact Nat.lt_succ_of_le hplace
  unfold Store.getState
  rw [Call.exec_get_bind]
  exact Store.exec_followChain
    (fun place state next hstate hnext => ((hinv.placed place state hstate).pointer next hnext).1)
    hlength hlength

theorem Invariant.joined_root (hinv : Invariant innermost chain)
    (hroot : chain.store.Root place root state) : Joined chain.linked root place := by
  intro next hle hlt
  obtain ⟨between, hbetween, hnext⟩ := hroot.path next hle hlt
  exact ((hinv.placed _ _ hbetween).pointer next hnext).2

/-- Of the promises that are joined with one that has no result yet, one alone has a state that
points nowhere. -/
theorem Invariant.eq_root (hinv : Invariant innermost chain)
    (hroot : chain.store.Root promise root state)
    (hpending : ¬ Reached innermost chain.linked chain.resolved promise) {other : Nat}
    {last : SharedPromiseState X T} (hother : chain.store.states[other]? = some last)
    (hle : other ≤ promise) (hjoined : Joined chain.linked other promise)
    (hends : last.chainState = none) : other = root := by
  have hothers : ¬ Reached innermost chain.linked chain.resolved other :=
    fun hreached => hpending (hreached.mono hle)
  have hroots : ¬ Reached innermost chain.linked chain.resolved root :=
    fun hreached => hpending (hreached.mono hroot.le)
  rcases Nat.lt_trichotomy other root with hless | heq | hgreater
  · have hnext := ((hinv.placed _ _ hroot.loads).pending hroots).2.2 (root - 1) (by omega)
      (hjoined (root - 1) (by omega) (by have := hroot.le; omega))
    rw [hroot.ends] at hnext
    cases hnext
  · exact heq
  · have hnext := ((hinv.placed _ _ hother).pending hothers).2.2 (other - 1) (by omega)
      (hinv.joined_root hroot (other - 1) (by omega) (by omega))
    rw [hends] at hnext
    cases hnext

/-- What the innermost promise was resolved with comes to a promise that had no result, and so to
all that are joined with it. -/
structure Brings (innermost : Nat) (chain : PromiseChain X T) (promise : Nat)
    (outcome : Except X T) (linked : List Nat) : Prop where
  within : promise ≤ innermost
  pending : ¬ Reached innermost chain.linked chain.resolved promise
  reached : ∀ place ≤ innermost, Reached innermost linked (some outcome) place ↔
    Reached innermost chain.linked chain.resolved place ∨
      place ≤ promise ∧ Joined chain.linked place promise
  subset : ∀ place ∈ chain.linked, place ∈ linked
  linked : ∀ place ∈ linked, place ∈ chain.linked ∨
    Reached innermost chain.linked chain.resolved (place + 1)
  resolved : ∀ other, chain.resolved = some other → other = outcome

section Brings

variable {linked : List Nat} (hbrings : Brings innermost chain promise outcome linked)
include hbrings

theorem Brings.outermost_pending : ¬ Reached innermost chain.linked chain.resolved 0 :=
  fun hreached => hbrings.pending (hreached.mono (Nat.zero_le promise))

theorem Brings.reached_root (hinv : Invariant innermost chain)
    (hroot : chain.store.Root promise root state) :
    Reached innermost linked (some outcome) root :=
  (hbrings.reached root (Nat.le_trans hroot.le hbrings.within)).mpr
    (.inr ⟨hroot.le, hinv.joined_root hroot⟩)

/-- The state that is set is the only one that the result newly comes to and stays in. -/
theorem Brings.reached_before (hinv : Invariant innermost chain)
    (hroot : chain.store.Root promise root state) {found : SharedPromiseState X T}
    (hfound : chain.store.states[place]? = some found) (hne : place ≠ root)
    (hends : found.chainState = none) (hnow : Reached innermost linked (some outcome) place) :
    Reached innermost chain.linked chain.resolved place := by
  have hwithin : place < chain.store.states.length := (List.getElem?_eq_some_iff.mp hfound).1
  rw [hinv.length] at hwithin
  rcases (hbrings.reached place (Nat.le_of_lt_succ hwithin)).mp hnow with hbefore | ⟨hle, hjoined⟩
  · exact hbefore
  · exact absurd (hinv.eq_root hroot hbrings.pending hfound hle hjoined hends) hne

theorem Brings.placed_root (hinv : Invariant innermost chain)
    (hroot : chain.store.Root promise root state) (store : Store X T) :
    Placed innermost { chain with store, linked, resolved := some outcome } root
      (Promise.withOutcome { state with stateSet := true } outcome) := by
  have hplaced := hinv.placed root state hroot.loads
  have hbefore : ¬ Reached innermost chain.linked chain.resolved root :=
    fun hreached => hbrings.pending (hreached.mono hroot.le)
  constructor
  case pointer =>
    intro next hnext
    have hends : (Promise.withOutcome { state with stateSet := true } outcome).chainState =
        state.chainState := by cases outcome <;> rfl
    rw [hends, hroot.ends] at hnext
    cases hnext
  case pending => exact fun hnot => absurd (hbrings.reached_root hinv hroot) hnot
  case isSet =>
    intro _ _
    cases outcome <;> rfl
  case keeps =>
    intro other hother _ _ _
    cases hother
    cases outcome with
    | ok value => exact ⟨(hplaced.pending hbefore).2.1, rfl⟩
    | error exception => rfl
  case handle =>
    cases outcome <;> exact hplaced.handle
  case wakes =>
    rw [Promise.withOutcome_wakes]
    exact hplaced.wakes

theorem Brings.placed_other (hinv : Invariant innermost chain)
    (hroot : chain.store.Root promise root state) {found : SharedPromiseState X T}
    (hfound : chain.store.states[place]? = some found) (hne : place ≠ root) (store : Store X T) :
    Placed innermost { chain with store, linked, resolved := some outcome } place found := by
  have hold := hinv.placed place found hfound
  have hwithin : place < chain.store.states.length := (List.getElem?_eq_some_iff.mp hfound).1
  rw [hinv.length] at hwithin
  constructor
  case pointer =>
    intro next hnext
    exact ⟨(hold.pointer next hnext).1, hbrings.subset next (hold.pointer next hnext).2⟩
  case pending =>
    intro hnot
    have hbefore : ¬ Reached innermost chain.linked chain.resolved place :=
      fun hreach => hnot ((hbrings.reached place (Nat.le_of_lt_succ hwithin)).mpr (.inl hreach))
    refine ⟨(hold.pending hbefore).1, (hold.pending hbefore).2.1, ?_⟩
    intro next hplace hnext
    rcases hbrings.linked next hnext with hmem | hreach
    · exact (hold.pending hbefore).2.2 next hplace hmem
    · exact absurd (hplace ▸ hreach) hbefore
  case isSet =>
    exact fun hnow hends =>
      hold.isSet (hbrings.reached_before hinv hroot hfound hne hends hnow) hends
  case keeps =>
    intro other hother hnow hfree hwaits
    cases hother
    have hfreeBefore : ∀ next, place = next + 1 → next ∉ chain.linked :=
      fun next hplace hmem => hfree next hplace (hbrings.subset next hmem)
    have hends : found.chainState = none := by
      rw [Option.eq_none_iff_forall_ne_some]
      intro next hnext
      exact hfreeBefore next (hold.pointer next hnext).1 (hold.pointer next hnext).2
    have hbefore := hbrings.reached_before hinv hroot hfound hne hends hnow
    obtain ⟨before, hsome⟩ := Option.isSome_iff_exists.mp hbefore.1
    have hsame := hbrings.resolved before hsome
    subst hsame
    exact hold.keeps before hsome hbefore hfreeBefore hwaits
  case handle => exact hold.handle
  case wakes => exact hold.wakes

/-- If the result comes to the outermost promise, its state is the one that is set. -/
theorem Brings.root_eq_zero (hinv : Invariant innermost chain)
    (hroot : chain.store.Root promise root state)
    (hnow : Reached innermost linked (some outcome) 0) : root = 0 := by
  rcases (hbrings.reached 0 (Nat.zero_le innermost)).mp hnow with hbefore | ⟨_, hjoined⟩
  · exact absurd hbefore hbrings.outermost_pending
  · have hzero : 0 < chain.store.states.length := by
      rw [hinv.length]
      omega
    have hget := List.getElem?_eq_getElem hzero
    have hends : chain.store.states[0].chainState = none := by
      rw [Option.eq_none_iff_forall_ne_some]
      intro next hnext
      exact absurd ((hinv.placed 0 _ hget).pointer next hnext).1 (Nat.succ_ne_zero next).symm
    exact (hinv.eq_root hroot hbrings.pending hget (Nat.zero_le promise) hjoined hends).symm

theorem Brings.invariant (hinv : Invariant innermost chain)
    (hroot : chain.store.Root promise root state) :
    Invariant innermost { chain with
      store := chain.store.setAt root state outcome
      linked
      resolved := some outcome } := by
  have hnone := hbrings.outermost_pending
  have hplaced := hinv.placed root state hroot.loads
  constructor
  case length =>
    change (chain.store.states.set root _).length = _
    rw [List.length_set, hinv.length]
  case placed =>
    intro place found hfound
    rcases getElem?_set_eq_some hroot.loads hfound with ⟨rfl, rfl⟩ | ⟨hne, hfound⟩
    · exact hbrings.placed_root hinv hroot _
    · exact hbrings.placed_other hinv hroot hfound hne _
  case scheduled =>
    intro hnow
    change chain.store.scheduled ++ state.wakes = _
    rw [hinv.unscheduled hnone, hplaced.wakes, if_pos (hbrings.root_eq_zero hinv hroot hnow),
      List.nil_append]
  case unscheduled =>
    intro hnot
    have hne : root ≠ 0 := by
      rintro rfl
      exact hnot (hbrings.reached_root hinv hroot)
    change chain.store.scheduled ++ state.wakes = _
    rw [hinv.unscheduled hnone, hplaced.wakes, if_neg hne, List.nil_append]
  case finished =>
    intro woken result hfinished
    exact absurd (hinv.finished woken result hfinished).1 hnone

theorem Brings.exec (hinv : Invariant innermost chain) (hfits : chain.store.Fits promise) :
    ∃ root state, chain.store.Root promise root state ∧
      (Promise.setOutcome promise outcome).exec chain.store =
        (.ok (), chain.store.setAt root state outcome) ∧
      Invariant innermost { chain with
        store := chain.store.setAt root state outcome
        linked
        resolved := some outcome } := by
  obtain ⟨root, state, hroot, hexec⟩ := hinv.exec_getState hbrings.within
  have hplaced := hinv.placed root state hroot.loads
  have hunset : state.stateSet = false :=
    (hplaced.pending fun hreached => hbrings.pending (hreached.mono hroot.le)).1
  have hroom := hfits root state hexec hroot.loads hunset
  exact ⟨root, state, hroot, Promise.exec_setOutcome hexec hroot.loads hunset hplaced.handle hroom,
    hbrings.invariant hinv hroot⟩

end Brings

/-- A promise is linked to a future that is not set. -/
theorem Invariant.point (hinv : Invariant innermost chain) (hpromise : promise < innermost)
    (hstate : chain.store.states[promise + 1]? = some state)
    (hpending : ¬ Reached innermost chain.linked chain.resolved (promise + 1)) :
    Invariant innermost { chain with
      store := { chain.store with
        states := chain.store.states.set (promise + 1) { state with chainState := some promise } }
      linked := promise :: chain.linked } := by
  have hreached (place : Nat) : Reached innermost (promise :: chain.linked) chain.resolved place ↔
      Reached innermost chain.linked chain.resolved place := by
    rw [reached_cons hpromise]
    exact ⟨fun hnow => hnow.elim id fun hboth => absurd hboth.2 hpending, .inl⟩
  constructor
  case length =>
    change (chain.store.states.set (promise + 1) _).length = _
    rw [List.length_set, hinv.length]
  case placed =>
    intro place found hfound
    rcases getElem?_set_eq_some hstate hfound with ⟨rfl, rfl⟩ | ⟨hne, hfound⟩
    · have hold := hinv.placed _ _ hstate
      constructor
      case pointer =>
        intro next hnext
        cases hnext
        exact ⟨rfl, List.mem_cons_self⟩
      case pending =>
        intro _
        refine ⟨(hold.pending hpending).1, (hold.pending hpending).2.1, ?_⟩
        intro next hplace _
        exact congrArg some (Nat.succ_injective hplace)
      case isSet => exact fun hnow => absurd ((hreached _).mp hnow) hpending
      case keeps => exact fun _ _ hnow => absurd ((hreached _).mp hnow) hpending
      case handle => exact hold.handle
      case wakes => exact hold.wakes
    · have hold := hinv.placed place found hfound
      constructor
      case pointer =>
        intro next hnext
        exact ⟨(hold.pointer next hnext).1, List.mem_cons_of_mem _ (hold.pointer next hnext).2⟩
      case pending =>
        intro hnot
        have hbefore := fun hreach => hnot ((hreached place).mpr hreach)
        refine ⟨(hold.pending hbefore).1, (hold.pending hbefore).2.1, ?_⟩
        intro next hplace hnext
        have hne : next ≠ promise := by omega
        exact (hold.pending hbefore).2.2 next hplace (List.mem_of_ne_of_mem hne hnext)
      case isSet => exact fun hnow => hold.isSet ((hreached place).mp hnow)
      case keeps =>
        intro outcome hsome hnow hfree
        exact hold.keeps outcome hsome ((hreached place).mp hnow)
          fun next hplace hmem => hfree next hplace (List.mem_cons_of_mem _ hmem)
      case handle => exact hold.handle
      case wakes => exact hold.wakes
  case scheduled => exact fun hnow => hinv.scheduled ((hreached 0).mp hnow)
  case unscheduled =>
    exact fun hnot => hinv.unscheduled fun hreach => hnot ((hreached 0).mpr hreach)
  case finished =>
    intro woken result hfinished
    obtain ⟨hreach, hresult⟩ := hinv.finished woken result hfinished
    exact ⟨(hreached 0).mpr hreach, hresult⟩

theorem takenAt_states {found : SharedPromiseState X T}
    (hstate : chain.store.states[root]? = some state)
    (hfound : (chain.store.takenAt root state outcome).states[place]? = some found) :
    chain.store.states[place]? = some found ∨
      place = root ∧ found = { state with value := .movedFrom } := by
  cases outcome with
  | error exception => exact .inl hfound
  | ok value =>
      rcases getElem?_set_eq_some hstate hfound with htaken | ⟨-, hfound⟩
      · exact .inr htaken
      · exact .inl hfound

theorem takenAt_length (hinv : Invariant innermost chain) :
    (chain.store.takenAt root state outcome).states.length = innermost + 1 := by
  cases outcome with
  | error exception => exact hinv.length
  | ok value =>
      change (chain.store.states.set root _).length = _
      rw [List.length_set, hinv.length]

/-- What a state has is taken by the promise that was linked to it, or by the awaiter. -/
theorem Invariant.take (hinv : Invariant innermost chain)
    (hstate : chain.store.states[root]? = some state) {awaiter : Awaiter X T}
    (hsame : awaiter.suspendedCoro = chain.awaiter.suspendedCoro)
    (hstays : ∀ woken result, chain.awaiter = .finished woken result →
      ∃ woken result, awaiter = .finished woken result)
    (hfinished : ∀ woken result, awaiter = .finished woken result →
      Reached innermost chain.linked chain.resolved 0 ∧
        ∃ outcome, chain.resolved = some outcome ∧ result = .ok outcome)
    (htaken : (∃ next, root = next + 1 ∧ next ∈ chain.linked) ∨
      root = 0 ∧ ∃ woken result, awaiter = .finished woken result) :
    Invariant innermost { chain with
      store := chain.store.takenAt root state outcome
      awaiter } := by
  have hscheduled : (chain.store.takenAt root state outcome).scheduled = chain.store.scheduled := by
    cases outcome <;> rfl
  constructor
  case length => exact takenAt_length hinv
  case placed =>
    intro place found hfound
    rcases takenAt_states hstate hfound with hfound | ⟨rfl, rfl⟩
    · have hold := hinv.placed place found hfound
      constructor
      case pointer => exact hold.pointer
      case pending => exact hold.pending
      case isSet => exact hold.isSet
      case keeps =>
        intro outcome hsome hnow hfree hwaits
        apply hold.keeps outcome hsome hnow hfree
        intro hzero woken result hbefore
        obtain ⟨woken', result', hbehind⟩ := hstays woken result hbefore
        exact hwaits hzero woken' result' hbehind
      case handle => exact hold.handle
      case wakes =>
        change found.wakes = if place = 0 then awaiter.suspendedCoro.toList else []
        rw [hsame]
        exact hold.wakes
    · have hold := hinv.placed place state hstate
      constructor
      case pointer => exact hold.pointer
      case pending => exact hold.pending
      case isSet => exact hold.isSet
      case keeps =>
        intro outcome _ _ hfree hwaits
        rcases htaken with ⟨next, hplace, hmem⟩ | ⟨hzero, woken, result, hbehind⟩
        · exact absurd hmem (hfree next hplace)
        · exact absurd hbehind (hwaits hzero woken result)
      case handle => exact hold.handle
      case wakes =>
        change state.wakes = if place = 0 then awaiter.suspendedCoro.toList else []
        rw [hsame]
        exact hold.wakes
  case scheduled =>
    intro hnow
    change (chain.store.takenAt root state outcome).scheduled = awaiter.suspendedCoro.toList
    rw [hscheduled, hsame, hinv.scheduled hnow]
  case unscheduled =>
    intro hnot
    exact hscheduled.trans (hinv.unscheduled hnot)
  case finished => exact hfinished

/-! ### The steps -/

theorem Invariant.exec_link (hinv : Invariant innermost chain) (hpromise : promise < innermost)
    (hfresh : promise ∉ chain.linked)
    (hfits : (Action.link promise : Action X T).Fits innermost chain) :
    ∃ store, (Promise.returnFuture promise (promise + 1)).exec chain.store = (.ok (), store) ∧
      Invariant innermost { chain with store, linked := promise :: chain.linked } := by
  have hlength : promise + 1 < chain.store.states.length := by
    rw [hinv.length]
    exact Nat.succ_lt_succ hpromise
  obtain ⟨state, hstate⟩ : ∃ state, chain.store.states[promise + 1]? = some state :=
    ⟨_, List.getElem?_eq_getElem hlength⟩
  have hplaced := hinv.placed _ _ hstate
  by_cases hreached : Reached innermost chain.linked chain.resolved (promise + 1)
  · obtain ⟨outcome, hsome⟩ := Option.isSome_iff_exists.mp hreached.1
    have hfree : ∀ next, promise + 1 = next + 1 → next ∉ chain.linked := by
      intro next hplace
      cases hplace
      exact hfresh
    have hends : state.chainState = none := by
      rw [Option.eq_none_iff_forall_ne_some]
      intro next hnext
      exact hfree next (hplaced.pointer next hnext).1 (hplaced.pointer next hnext).2
    have hhas : state.Has outcome := by
      apply hplaced.keeps outcome hsome hreached hfree
      intro hzero
      cases hzero
    have hpending : ¬ Reached innermost chain.linked chain.resolved promise :=
      fun hreach => hfresh (hreach.2 promise (Nat.le_refl promise) hpromise)
    have hbrings : Brings innermost chain promise outcome (promise :: chain.linked) := by
      refine ⟨Nat.le_of_lt hpromise, hpending, ?_, fun _ => List.mem_cons_of_mem promise, ?_, ?_⟩
      · intro place _
        rw [reached_cons hpromise, ← hsome]
        exact or_congr_right (and_iff_left hreached)
      · intro place hmem
        rcases List.mem_cons.mp hmem with rfl | hmem
        · exact .inr hreached
        · exact .inl hmem
      · intro other hother
        rw [hsome] at hother
        exact (Option.some.inj hother).symm
    have hready := hplaced.isSet hreached hends
    obtain ⟨root, first, hroot, hexec, hset⟩ := hbrings.exec hinv (hfits state hstate hready)
    have hne : root ≠ promise + 1 := by
      have := hroot.le
      omega
    have hkeeps : (chain.store.setAt root first outcome).states[promise + 1]? = some state :=
      (List.getElem?_set_ne hne).trans hstate
    have hreturn := Promise.exec_returnFuture_set hstate hready hhas hexec hkeeps
    refine ⟨_, hreturn, ?_⟩
    rw [hsome]
    exact hset.take hkeeps rfl (fun woken result hfinished => ⟨woken, result, hfinished⟩)
      hset.finished (.inl ⟨promise, rfl, List.mem_cons_self⟩)
  · exact ⟨_, Promise.exec_returnFuture_pending hstate (hplaced.pending hreached).1,
      hinv.point hpromise hstate hreached⟩

theorem Invariant.exec_resolve (hinv : Invariant innermost chain) (hfresh : chain.resolved = none)
    (hfits : chain.store.Fits innermost) (outcome : Except X T) :
    ∃ store, (Promise.setOutcome innermost outcome).exec chain.store = (.ok (), store) ∧
      Invariant innermost { chain with store, resolved := some outcome } := by
  have hnone (place : Nat) : ¬ Reached innermost chain.linked chain.resolved place := by
    rw [hfresh]
    exact fun hreached => nomatch hreached.1
  have hbrings : Brings innermost chain innermost outcome chain.linked := by
    refine ⟨Nat.le_refl innermost, hnone innermost, ?_, fun _ hmem => hmem, fun _ => .inl, ?_⟩
    · intro place hle
      constructor
      · exact fun hreached => .inr ⟨hle, hreached.2⟩
      · rintro (hreached | ⟨_, hjoined⟩)
        · exact absurd hreached (hnone place)
        · exact ⟨rfl, hjoined⟩
    · simp [hfresh]
  obtain ⟨root, state, -, hexec, hset⟩ := hbrings.exec hinv hfits
  exact ⟨_, hexec, hset⟩

theorem Invariant.outermost (hinv : Invariant innermost chain) :
    ∃ state, chain.store.states[0]? = some state ∧ state.chainState = none ∧
      (Store.getState 0).exec chain.store = (.ok 0, chain.store) ∧
      (state.stateSet = true ↔ Reached innermost chain.linked chain.resolved 0) := by
  obtain ⟨root, state, hroot, hexec⟩ := hinv.exec_getState (Nat.zero_le innermost)
  have hzero : root = 0 := Nat.le_zero.mp hroot.le
  subst hzero
  have hplaced := hinv.placed 0 state hroot.loads
  refine ⟨state, hroot.loads, hroot.ends, hexec, ?_,
    fun hreached => hplaced.isSet hreached hroot.ends⟩
  intro hset
  by_contra hnot
  rw [(hplaced.pending hnot).1] at hset
  cases hset

/-- Once the result has come to the outermost state, the awaiter gets it there. -/
theorem Invariant.outermost_has (hinv : Invariant innermost chain)
    (hreached : Reached innermost chain.linked chain.resolved 0)
    (hwaits : ∀ woken result, chain.awaiter ≠ .finished woken result) :
    ∃ outcome state, chain.resolved = some outcome ∧ chain.store.states[0]? = some state ∧
      (Store.getState 0).exec chain.store = (.ok 0, chain.store) ∧ state.stateSet = true ∧
        state.Has outcome ∧
          Invariant innermost { chain with
            store := chain.store.takenAt 0 state outcome
            awaiter := .finished chain.awaiter.suspendedCoro (.ok outcome) } := by
  obtain ⟨outcome, hsome⟩ := Option.isSome_iff_exists.mp hreached.1
  obtain ⟨state, hstate, hends, hexec, hset⟩ := hinv.outermost
  have hhas : state.Has outcome :=
    (hinv.placed 0 state hstate).keeps outcome hsome hreached (fun _ hzero => nomatch hzero)
      fun _ => hwaits
  refine ⟨outcome, state, hsome, hstate, hexec, hset.mpr hreached, hhas, ?_⟩
  refine hinv.take hstate ?_ ?_ ?_ ?_
  · rfl
  · exact fun woken result hfinished => absurd hfinished (hwaits woken result)
  · intro woken result hfinished
    cases hfinished
    exact ⟨hreached, outcome, hsome, rfl⟩
  · exact .inr ⟨rfl, _, _, rfl⟩

theorem Invariant.suspend (hinv : Invariant innermost chain) (coro : Coro)
    (hpending : ¬ Reached innermost chain.linked chain.resolved 0)
    (hstate : chain.store.states[0]? = some state) :
    Invariant innermost { chain with
      store := { chain.store with
        states := chain.store.states.set 0
          { state with handle := some coro, futureSuspended := true } }
      awaiter := .suspended coro } := by
  constructor
  case length =>
    change (chain.store.states.set 0 _).length = _
    rw [List.length_set, hinv.length]
  case placed =>
    intro place found hfound
    rcases getElem?_set_eq_some hstate hfound with ⟨rfl, rfl⟩ | ⟨hne, hfound⟩
    · have hold := hinv.placed 0 state hstate
      constructor
      case pointer => exact hold.pointer
      case pending => exact hold.pending
      case isSet => exact hold.isSet
      case keeps => exact fun _ _ hnow => absurd hnow hpending
      case handle => exact fun _ => ⟨coro, rfl⟩
      case wakes => rfl
    · have hold := hinv.placed place found hfound
      constructor
      case pointer => exact hold.pointer
      case pending => exact hold.pending
      case isSet => exact hold.isSet
      case keeps =>
        intro outcome hsome hnow hfree _
        exact hold.keeps outcome hsome hnow hfree fun hzero => absurd hzero hne
      case handle => exact hold.handle
      case wakes =>
        rw [hold.wakes, if_neg hne, if_neg hne]
  case scheduled => exact fun hnow => absurd hnow hpending
  case unscheduled => exact hinv.unscheduled
  case finished => exact fun _ _ hfinished => nomatch hfinished

theorem Invariant.exec_resume (hinv : Invariant innermost chain)
    (hreached : Reached innermost chain.linked chain.resolved 0) {coro : Coro}
    (hsuspended : chain.awaiter = .suspended coro) :
    ∃ outcome store, (Future.awaitResume 0).exec chain.store = (.ok outcome, store) ∧
      Invariant innermost { chain with store, awaiter := .finished (some coro) (.ok outcome) } := by
  obtain ⟨outcome, state, _, hstate, hroot, hset, hhas, hfinish⟩ :=
    hinv.outermost_has hreached (by simp [hsuspended])
  rw [hsuspended] at hfinish
  exact ⟨outcome, _, Future.exec_awaitResume hroot hstate hset hhas, hfinish⟩

theorem Invariant.exec_await_reached (hinv : Invariant innermost chain) (coro : Coro)
    (habsent : chain.awaiter = .absent)
    (hreached : Reached innermost chain.linked chain.resolved 0) :
    ∃ outcome store, chain.resolved = some outcome ∧
      (Future.await 0 coro).exec chain.store = (.ok (some outcome), store) ∧
      Invariant innermost { chain with store, awaiter := .finished none (.ok outcome) } := by
  obtain ⟨outcome, state, hsome, hstate, hroot, hset, hhas, hfinish⟩ :=
    hinv.outermost_has hreached (by simp [habsent])
  rw [habsent] at hfinish
  exact ⟨outcome, _, hsome, Future.exec_await_set hroot hstate hset hhas coro, hfinish⟩

theorem Invariant.exec_await_pending (hinv : Invariant innermost chain) (coro : Coro)
    (hpending : ¬ Reached innermost chain.linked chain.resolved 0) :
    ∃ store, (Future.await 0 coro).exec chain.store = (.ok none, store) ∧
      Invariant innermost { chain with store, awaiter := .suspended coro } := by
  obtain ⟨state, hstate, _, _, hset⟩ := hinv.outermost
  have hunset : state.stateSet = false := by
    rw [← Bool.not_eq_true, hset]
    exact hpending
  exact ⟨_, Future.exec_await_unset hstate hunset coro, hinv.suspend coro hpending hstate⟩

theorem Invariant.exec_setAgain (hinv : Invariant innermost chain) (hpromise : promise ≤ innermost)
    (hreached : Reached innermost chain.linked chain.resolved promise) (outcome : Except X T) :
    (Promise.setOutcome promise outcome).exec chain.store =
      (.error (.thrown ⟨.failedPrecondition, "Promise state already set previously."⟩),
        chain.store) := by
  obtain ⟨root, state, hroot, hexec⟩ := hinv.exec_getState hpromise
  have hroots : Reached innermost chain.linked chain.resolved root :=
    hreached.of_joined (hinv.joined_root hroot)
  exact Promise.exec_setOutcome_set hexec hroot.loads
    ((hinv.placed root state hroot.loads).isSet hroots hroot.ends)

end Steps

/-- How much room the queue has does not matter to the chain. -/
theorem Invariant.withRoom {innermost : Nat} {chain : PromiseChain X T}
    (hinv : Invariant innermost chain) (room : Option Room) :
    Invariant innermost { chain with store := { chain.store with room } } where
  length := hinv.length
  placed place state hstate :=
    have hplaced := hinv.placed place state hstate
    ⟨hplaced.pointer, hplaced.pending, hplaced.isSet, hplaced.keeps, hplaced.handle, hplaced.wakes⟩
  scheduled := hinv.scheduled
  unscheduled := hinv.unscheduled
  finished := hinv.finished

theorem Invariant.step {innermost : Nat} {before after : PromiseChain X T} {action : Action X T}
    (hfits : action.Fits innermost before) (hstep : Step innermost before action after)
    (hinv : Invariant innermost before) : Invariant innermost after := by
  cases hstep with
  | link hpromise hfresh hlink =>
      obtain ⟨store, hexec, hafter⟩ := hinv.exec_link hpromise hfresh hfits
      rw [hlink, Prod.mk.injEq] at hexec
      rw [hexec.2]
      exact hafter
  | resolve hfresh hset =>
      obtain ⟨store, hexec, hafter⟩ := hinv.exec_resolve hfresh hfits _
      rw [hset, Prod.mk.injEq] at hexec
      rw [hexec.2]
      exact hafter
  | setAgain hpromise hreached hset =>
      rw [hinv.exec_setAgain hpromise hreached, Prod.mk.injEq] at hset
      rw [← hset.2]
      exact hinv
  | @await coro result store habsent hawait =>
      by_cases hreached : Reached innermost before.linked before.resolved 0
      · obtain ⟨outcome, final, _, hexec, hafter⟩ := hinv.exec_await_reached coro habsent hreached
        rw [hawait, Prod.mk.injEq] at hexec
        rw [hexec.1, hexec.2]
        exact hafter
      · obtain ⟨final, hexec, hafter⟩ := hinv.exec_await_pending coro hreached
        rw [hawait, Prod.mk.injEq] at hexec
        rw [hexec.1, hexec.2]
        exact hafter
  | @resume coro result store hsuspended hscheduled hresume =>
      have hreached : Reached innermost before.linked before.resolved 0 := by
        by_contra hnot
        rw [hinv.unscheduled hnot] at hscheduled
        cases hscheduled
      have hpopped : Invariant innermost { before with store := before.store.popped } :=
        hinv.withRoom _
      obtain ⟨outcome, final, hexec, hafter⟩ := hpopped.exec_resume hreached hsuspended
      rw [hresume, Prod.mk.injEq] at hexec
      rw [hexec.1, hexec.2]
      exact hafter
  | others _ _ _ => exact hinv.withRoom _

/-! ### Every order -/

def Complete (innermost : Nat) (chain : PromiseChain X T) : Prop :=
  (∀ promise < innermost, promise ∈ chain.linked) ∧ chain.resolved.isSome

/-- What holds of the chain after any steps. The calls return that have room for the awaiter. -/
structure Sound (innermost : Nat) (chain : PromiseChain X T) : Prop where
  links : ∀ promise < innermost, promise ∉ chain.linked →
    (Action.link promise : Action X T).Fits innermost chain →
      ∃ store, (Promise.returnFuture promise (promise + 1)).exec chain.store = (.ok (), store)
  resolves : chain.resolved = none → chain.store.Fits innermost → ∀ outcome,
    ∃ store, (Promise.setOutcome innermost outcome).exec chain.store = (.ok (), store)
  ready : ∃ ready, (Future.awaitReady 0).exec chain.store = (.ok ready, chain.store) ∧
    (ready = true ↔ Complete innermost chain)
  awaits : chain.awaiter = .absent → ∀ coro, ∃ result store,
    (Future.await 0 coro).exec chain.store = (.ok result, store) ∧
      (Complete innermost chain → result = chain.resolved) ∧
        (¬ Complete innermost chain → result = none)
  delivers : ∀ woken result, chain.awaiter = .finished woken result →
    ∃ outcome, chain.resolved = some outcome ∧ result = .ok outcome
  scheduled : Complete innermost chain →
    chain.store.scheduled = chain.awaiter.suspendedCoro.toList
  unscheduled : ¬ Complete innermost chain → chain.store.scheduled = []
  setAgain : ∀ promise ≤ innermost, Reached innermost chain.linked chain.resolved promise →
    ∀ outcome, (Promise.setOutcome promise outcome).exec chain.store =
      (.error (.thrown ⟨.failedPrecondition, "Promise state already set previously."⟩),
        chain.store)

theorem reached_zero_iff {innermost : Nat} {chain : PromiseChain X T} :
    Reached innermost chain.linked chain.resolved 0 ↔ Complete innermost chain := by
  constructor
  · intro hreached
    exact ⟨fun promise hlt => hreached.2 promise (Nat.zero_le promise) hlt, hreached.1⟩
  · intro hcomplete
    exact ⟨hcomplete.2, fun promise _ hlt => hcomplete.1 promise hlt⟩

theorem Invariant.sound {innermost : Nat} {chain : PromiseChain X T}
    (hinv : Invariant innermost chain) : Sound innermost chain where
  links promise hpromise hfresh hfits := by
    obtain ⟨store, hexec, -⟩ := hinv.exec_link hpromise hfresh hfits
    exact ⟨store, hexec⟩
  resolves hfresh hfits outcome := by
    obtain ⟨store, hexec, -⟩ := hinv.exec_resolve hfresh hfits outcome
    exact ⟨store, hexec⟩
  ready := by
    obtain ⟨state, hstate, _, _, hset⟩ := hinv.outermost
    exact ⟨state.stateSet, Future.exec_awaitReady hstate, hset.trans reached_zero_iff⟩
  awaits habsent coro := by
    by_cases hreached : Reached innermost chain.linked chain.resolved 0
    · obtain ⟨outcome, store, hsome, hexec, -⟩ := hinv.exec_await_reached coro habsent hreached
      exact ⟨some outcome, store, hexec, fun _ => hsome.symm,
        fun hnot => absurd (reached_zero_iff.mp hreached) hnot⟩
    · obtain ⟨store, hexec, -⟩ := hinv.exec_await_pending coro hreached
      exact ⟨none, store, hexec, fun hcomplete => absurd (reached_zero_iff.mpr hcomplete) hreached,
        fun _ => rfl⟩
  delivers woken result hfinished := (hinv.finished woken result hfinished).2
  scheduled hcomplete := hinv.scheduled (reached_zero_iff.mpr hcomplete)
  unscheduled hnot := hinv.unscheduled fun hreached => hnot (reached_zero_iff.mp hreached)
  setAgain promise hpromise hreached outcome := hinv.exec_setAgain hpromise hreached outcome

/-- A step for which no awaiter has to go into a full queue. -/
def Fitting (innermost : Nat) (before : PromiseChain X T) (action : Action X T)
    (after : PromiseChain X T) : Prop :=
  action.Fits innermost before ∧ Step innermost before action after

/-- **What the future delivers.** In a run in which no awaiter has to go into a full queue, the
outermost future is ready once the chain is whole, and it delivers what the innermost promise was
resolved with to an awaiter that is woken once. -/
theorem delivers_of_run {innermost : Nat} {room : Option Room} {actions : List (Action X T)}
    {chain : PromiseChain X T}
    (hrun : Run (Fitting innermost) (start innermost room) actions chain) :
    Sound innermost chain := by
  have hinv : Invariant innermost chain := hrun.preserves (Invariant innermost)
    (fun (_ : True) hstep hbefore => Invariant.step hstep.1 hstep.2 hbefore) (fun _ _ => trivial)
    (invariant_start innermost room)
  exact hinv.sound

/-- Two promises, whose awaiter is suspended. The queue takes one coroutine. -/
def awaited (free : Nat) : PromiseChain Nat Nat where
  store := ⟨[⟨false, true, none, some 7, .empty, none⟩, .make], [], some ⟨1, free⟩⟩
  linked := []
  resolved := none
  awaiter := .suspended 7

def awaitedResolved (free : Nat) : PromiseChain Nat Nat where
  store := ⟨[⟨false, true, none, some 7, .empty, none⟩, ⟨true, false, none, none, .holds 5, none⟩],
    [], some ⟨1, free⟩⟩
  linked := []
  resolved := some (.ok 5)
  awaiter := .suspended 7

theorem step_awaited : Step 1 (start 1 (some ⟨1, 1⟩)) (.await 7) (awaited 1) :=
  @Step.await _ _ 1 (start 1 _) 7 (.ok none) _ rfl rfl

theorem step_awaitedResolved (free : Nat) :
    Step 1 (awaited free) (.resolve (.ok 5)) (awaitedResolved free) :=
  @Step.resolve _ _ 1 (awaited free) _ (.ok ()) _ rfl rfl

/-- The awaiter is suspended first, and woken when the link is made to a future that is set. -/
theorem delivers_of_run_woken :
    Sound 1 (⟨⟨[⟨true, true, none, some 7, .movedFrom, none⟩,
      ⟨true, false, none, none, .movedFrom, none⟩], [7], some ⟨1, 1⟩⟩, [0], some (.ok 5),
        .finished (some 7) (.ok (.ok 5))⟩ : PromiseChain Nat Nat) := by
  let linked : PromiseChain Nat Nat := ⟨⟨[⟨true, true, none, some 7, .holds 5, none⟩,
    ⟨true, false, none, none, .movedFrom, none⟩], [7], some ⟨1, 0⟩⟩, [0], some (.ok 5),
      .suspended 7⟩
  have hawait : Fitting 1 (start 1 (some ⟨1, 1⟩)) (.await 7) (awaited 1) :=
    ⟨trivial, step_awaited⟩
  have hresolve : Fitting 1 (awaited 1) (.resolve (.ok 5)) (awaitedResolved 1) :=
    ⟨Store.fits_of_room rfl, step_awaitedResolved 1⟩
  have hlink : Fitting 1 (awaitedResolved 1) (.link 0) linked :=
    ⟨fun _ _ _ => Store.fits_of_room rfl, .link (by decide) (by decide) rfl⟩
  have hresume : Fitting 1 linked .resume _ := ⟨trivial, .resume rfl (by decide) rfl⟩
  exact delivers_of_run (.cons hawait (.cons hresolve (.cons hlink (.cons hresume (.nil _)))))

/-- The link is made while the queue is full. The chain is whole, and the awaiter is in no queue. -/
theorem not_sound_full :
    ¬ ∀ (actions : List (Action Nat Nat)) (chain : PromiseChain Nat Nat),
      Run (Step 1) (start 1 (some ⟨1, 1⟩)) actions chain → Sound 1 chain := by
  intro hsound
  have hothers : Step 1 (awaitedResolved 1) (.others 0) (awaitedResolved 0) :=
    @Step.others _ _ 1 (awaitedResolved 1) ⟨1, 1⟩ rfl 0 (by decide)
  have hlink : Step 1 (awaitedResolved 0) (.link 0) _ := .link (by decide) (by decide) rfl
  have hrun := hsound _ _ (.cons step_awaited (.cons (step_awaitedResolved 1) (.cons hothers
    (.cons hlink (.nil _)))))
  have hscheduled : ([] : List Coro) = [7] := hrun.scheduled ⟨by decide, rfl⟩
  cases hscheduled

end PromiseChain

end Liblw.Co
