import Liblw.Net.ServerResource
import Liblw.Proof.FutureCalls

/-!
# Every resource is made once

A resource goes from untouched to under construction, and from there it is stored or abandoned for
good. Which of these it is decides what the coroutines that ask for it can be at.
-/

namespace Liblw.Net

open Liblw.Lib Liblw.Co

variable {R O : Type}

/-! ### The calls -/

namespace ServerResourceContext

variable {context : ServerResourceContext R O} {resource other : R} {promise : Nat}

def Tagged (context : ServerResourceContext R O) (resource : R) : Prop :=
  ∃ promise, (resource, promise) ∈ context.construction

theorem mem_emplace {entry : R × Nat} : entry ∈ (context.emplace resource promise).construction ↔
    entry ∈ context.construction ∨ entry = (resource, promise) := by
  unfold emplace
  rw [List.mem_append, List.mem_singleton]

theorem tagged_emplace : (context.emplace resource promise).Tagged other ↔
    context.Tagged other ∨ other = resource := by
  constructor
  · rintro ⟨place, hmem⟩
    rcases mem_emplace.mp hmem with hmem | heq
    · exact .inl ⟨place, hmem⟩
    · exact .inr (congrArg Prod.fst heq)
  · rintro (⟨place, hmem⟩ | rfl)
    · exact ⟨place, mem_emplace.mpr (.inl hmem)⟩
    · exact ⟨promise, mem_emplace.mpr (.inr rfl)⟩

variable [DecidableEq R]

theorem underConstruction_iff : context.underConstruction resource = true ↔
    context.Tagged resource := by
  unfold underConstruction
  rw [List.any_eq_true]
  constructor
  · rintro ⟨⟨key, promise⟩, hmem, hkey⟩
    rw [decide_eq_true_eq] at hkey
    subst hkey
    exact ⟨promise, hmem⟩
  · rintro ⟨promise, hmem⟩
    exact ⟨_, hmem, decide_eq_true rfl⟩

theorem mem_equalRange : promise ∈ context.equalRange resource ↔
    (resource, promise) ∈ context.construction := by
  unfold equalRange
  constructor
  · intro hmem
    obtain ⟨⟨key, value⟩, hentry, rfl⟩ := List.mem_map.mp hmem
    obtain ⟨hconstruction, hkey⟩ := List.mem_filter.mp hentry
    rw [decide_eq_true_eq] at hkey
    subst hkey
    exact hconstruction
  · intro hmem
    exact List.mem_map.mpr ⟨_, List.mem_filter.mpr ⟨hmem, decide_eq_true rfl⟩, rfl⟩

theorem mem_erase {entry : R × Nat} : entry ∈ (context.erase resource).construction ↔
    entry ∈ context.construction ∧ entry.1 ≠ resource := by
  unfold erase
  rw [List.mem_filter, decide_eq_true_eq]

theorem tagged_erase : (context.erase resource).Tagged other ↔
    context.Tagged other ∧ other ≠ resource := by
  constructor
  · rintro ⟨promise, hmem⟩
    obtain ⟨hmem, hne⟩ := mem_erase.mp hmem
    exact ⟨⟨promise, hmem⟩, hne⟩
  · rintro ⟨⟨promise, hmem⟩, hne⟩
    exact ⟨promise, mem_erase.mpr ⟨hmem, hne⟩⟩

end ServerResourceContext

namespace Resources

open ServerResourceContext

/-- The state of a promise of the multimap once it is set. No coroutine's handle is kept. -/
def notified : SharedPromiseState Fault Unit := ⟨true, false, none, none, .holds (), none⟩

section Calls

variable {resources : Resources R O} {resource : R} {promise : Nat} {object : O}

theorem exec_emplace (resource : R) (resources : Resources R O) :
    (emplace resource).exec resources = (.ok resources.promises.states.length, { resources with
      context := resources.context.emplace resource resources.promises.states.length
      promises := { resources.promises with
        states := resources.promises.states ++ [SharedPromiseState.make] } }) := rfl

theorem exec_getAt (hobject : resources.context.dependencies resource = some object) :
    (getAt resource).exec resources = (.ok object, resources) := by
  unfold getAt
  rw [Call.exec_get_bind, hobject]
  rfl

theorem exec_onPromises {α : Type} {call : Call Fault (Store Fault Unit) α} {result : Result α}
    {promises : Store Fault Unit} (hexec : call.exec resources.promises = (result, promises)) :
    (onPromises call).exec resources = (result, { resources with promises }) := by
  unfold onPromises
  rw [Call.exec_within, hexec]

/-- Nobody is suspended on a promise in the store, so none goes into the queue. -/
theorem exec_setPromise (hpending : resources.promises.states[promise]? = some .make) :
    (onPromises (Promise.setValue promise ())).exec resources = (.ok (), { resources with
      promises := { resources.promises with
        states := resources.promises.states.set promise notified } }) := by
  have hroot := Store.exec_getState_self hpending rfl
  have hset : (Promise.setValue promise ()).exec resources.promises = _ :=
    Promise.exec_setOutcome hroot hpending rfl (fun hsuspended => nomatch hsuspended)
      fun hsuspended => nomatch hsuspended
  unfold Store.setAt at hset
  have hwakes : (SharedPromiseState.make : SharedPromiseState Fault Unit).wakes = [] := rfl
  rw [hwakes, List.append_nil] at hset
  exact exec_onPromises hset

/-- Every promise of the range is set, and no other. -/
theorem exec_notify {promises : List Nat} {resources : Resources R O}
    (hpending : ∀ promise ∈ promises, resources.promises.states[promise]? = some .make)
    (hnodup : promises.Nodup) :
    ∃ states, (notify promises).exec resources = (.ok (), { resources with
        promises := { resources.promises with states } }) ∧
      states.length = resources.promises.states.length ∧
      (∀ promise ∈ promises, states[promise]? = some notified) ∧
      ∀ promise, promise ∉ promises → states[promise]? = resources.promises.states[promise]? := by
  induction promises generalizing resources with
  | nil => exact ⟨_, rfl, rfl, by simp, fun _ _ => rfl⟩
  | cons first promises ih =>
      obtain ⟨hfirst, hnodup⟩ := List.nodup_cons.mp hnodup
      have hstate := hpending first List.mem_cons_self
      have hlength := (List.getElem?_eq_some_iff.mp hstate).1
      have hset := exec_setPromise hstate
      have hrest := @ih { resources with promises := { resources.promises with
          states := resources.promises.states.set first notified } }
        (by
          intro promise hmem
          have hne : first ≠ promise := fun heq => hfirst (heq ▸ hmem)
          rw [List.getElem?_set_ne hne]
          exact hpending promise (List.mem_cons_of_mem first hmem)) hnodup
      obtain ⟨states, hexec, hlengths, hin, hout⟩ := hrest
      refine ⟨states, ?_, ?_, ?_, ?_⟩
      · unfold notify
        rw [Call.exec_bind_ok hset, hexec]
      · rw [hlengths]
        exact List.length_set
      · intro promise hmem
        rcases List.mem_cons.mp hmem with rfl | hmem
        · rw [hout promise hfirst]
          exact List.getElem?_set_self hlength
        · exact hin promise hmem
      · intro promise hnot
        rw [List.mem_cons, not_or] at hnot
        rw [hout promise hnot.2]
        exact List.getElem?_set_ne (Ne.symm hnot.1)

/-- The coroutine that waited for the promise has gone on. -/
def consumed (promise : Nat) (resources : Resources R O) : Resources R O :=
  { resources with
    promises := { resources.promises with
      states := resources.promises.states.set promise { notified with value := .movedFrom } } }

theorem exec_resumeWaiting (hset : resources.promises.states[promise]? = some notified)
    (hobject : resources.context.dependencies resource = some object) :
    (resumeWaiting resource promise).exec resources =
      (.ok object, resources.consumed promise) := by
  have hroot := Store.exec_getState_self hset rfl
  have hresume : (onPromises (Future.awaitResume promise)).exec resources = _ :=
    exec_onPromises (@Future.exec_awaitResume _ _ _ _ _ _ (.ok ()) hroot hset rfl ⟨rfl, rfl⟩)
  unfold resumeWaiting
  rw [Call.exec_bind_ok hresume]
  exact exec_getAt hobject

variable [DecidableEq R]

/-- The object is stored, the tag and those that wait are taken out, and those are told. -/
theorem exec_resumeConstructing
    (hpending : ∀ promise, (resource, promise) ∈ resources.context.construction →
      resources.promises.states[promise]? = some .make)
    (hnodup : (resources.context.construction.map Prod.snd).Nodup) (object : O) :
    ∃ states, (resumeConstructing resource object).exec resources = (.ok object, { resources with
        context := (resources.context.assign resource object).erase resource
        promises := { resources.promises with states } }) ∧
      states.length = resources.promises.states.length ∧
      (∀ promise, (resource, promise) ∈ resources.context.construction →
        states[promise]? = some notified) ∧
      ∀ promise, (resource, promise) ∉ resources.context.construction →
        states[promise]? = resources.promises.states[promise]? := by
  let stored : Resources R O := { resources with
    context := resources.context.assign resource object }
  have hrange : (stored.context.equalRange resource).Nodup :=
    hnodup.sublist (List.filter_sublist.map Prod.snd)
  obtain ⟨states, hexec, hlength, hin, hout⟩ := @exec_notify R O
    ((resources.context.assign resource object).equalRange resource) stored
    (fun promise hmem => hpending promise (mem_equalRange.mp hmem)) hrange
  refine ⟨states, ?_, hlength, fun promise hmem => hin promise (mem_equalRange.mpr hmem),
    fun promise hnot => hout promise fun hmem => hnot (mem_equalRange.mp hmem)⟩
  unfold resumeConstructing
  rw [Call.exec_modify_bind, Call.exec_get_bind]
  dsimp only
  rw [Call.exec_bind_ok hexec, Call.exec_modify_bind]
  apply exec_getAt
  exact Function.update_self resource (some object) resources.context.dependencies

end Calls

end Resources

/-! ### The life of a resource -/

/-- A resource is untouched, is made by one coroutine, is stored, or was given up. The construction
that there was of it, if any, is the only one. -/
inductive Life (O : Type) where
  | fresh
  | constructing (get construct : Nat)
  | stored (construct : Nat) (object : O)
  | abandoned (construct : Option Nat)

namespace Life

def object : Life O → Option O
  | stored _ object => some object
  | _ => none

def IsTagged : Life O → Prop
  | constructing _ _ | abandoned _ => True
  | _ => False

def construct : Life O → Option Nat
  | constructing _ construct | stored construct _ => some construct
  | abandoned construct => construct
  | fresh => none

/-- What a coroutine that asks for the resource can be at. -/
def Allows (life : Life O) (get : Nat) : GetStage O → Prop
  | .called | .waiting _ => True
  | .constructing construct => life = constructing get construct
  | .returned object => ∃ construct, life = stored construct object
  | .threw _ => ∃ construct, life = abandoned construct

theorem allows_of_fresh {get : Nat} {stage : GetStage O}
    (hallows : (fresh : Life O).Allows get stage) (life : Life O) : life.Allows get stage := by
  cases stage with
  | called => trivial
  | waiting promise => trivial
  | constructing construct => cases hallows
  | returned object => obtain ⟨_, hlife⟩ := hallows; cases hlife
  | threw fault => obtain ⟨_, hlife⟩ := hallows; cases hlife

theorem allows_of_constructing {get other construct : Nat} {stage : GetStage O}
    (hallows : (constructing get construct : Life O).Allows other stage) (hne : other ≠ get)
    (life : Life O) : life.Allows other stage := by
  cases stage with
  | called => trivial
  | waiting promise => trivial
  | constructing construct => cases hallows; exact absurd rfl hne
  | returned object => obtain ⟨_, hlife⟩ := hallows; cases hlife
  | threw fault => obtain ⟨_, hlife⟩ := hallows; cases hlife

end Life

namespace Resources

open ServerResourceContext

abbrev IsGet (resources : Resources R O) (get : Nat) (resource : R) (stage : GetStage O) : Prop :=
  resources.gets[get]? = some ⟨resource, stage⟩

abbrev IsConstruct (resources : Resources R O) (construct : Nat) (resource : R)
    (stage : ConstructStage O) : Prop :=
  resources.constructs[construct]? = some ⟨resource, stage⟩

structure Living (resources : Resources R O) (resource : R) (life : Life O) : Prop where
  dependency : resources.context.dependencies resource = life.object
  tagged : resources.context.Tagged resource ↔ life.IsTagged
  gets : ∀ get stage, resources.IsGet get resource stage → life.Allows get stage
  constructs : ∀ construct stage, resources.IsConstruct construct resource stage →
    life.construct = some construct

/-- The promises of the multimap are not set, and each is another. A coroutine waits for one of
them, or for one that is set once its resource is stored. -/
structure Promised (resources : Resources R O) : Prop where
  pending : ∀ entry ∈ resources.context.construction,
    resources.promises.states[entry.2]? = some .make
  distinct : (resources.context.construction.map Prod.snd).Nodup
  waits : ∀ get resource promise, resources.IsGet get resource (.waiting promise) →
    (resource, promise) ∈ resources.context.construction ∨
      (∃ object, resources.context.dependencies resource = some object) ∧
        resources.promises.states[promise]? = some notified
  waitsOnce : ∀ get other resource dependency promise,
    resources.IsGet get resource (.waiting promise) →
      resources.IsGet other dependency (.waiting promise) → get = other

/-- A construction asks for the dependencies of its resource, and a factory is called by a
construction that has them. -/
structure Logged (factories : R → Option (List R)) (resources : Resources R O) : Prop where
  fetches : ∀ construct resource gets,
    resources.IsConstruct construct resource (.fetching gets) →
      ∃ dependencies, factories resource = some dependencies ∧
        List.Forall₂ (fun get dependency =>
          ∃ stage, resources.IsGet get dependency stage) gets dependencies
  once : (resources.invoked.map Prod.fst).Nodup
  invokes : ∀ entry ∈ resources.invoked, ∃ construct stage,
    resources.IsConstruct construct entry.1 stage ∧ ∀ gets, stage ≠ .fetching gets

structure Invariant (factories : R → Option (List R)) (resources : Resources R O) : Prop where
  lives : ∀ resource, ∃ life, resources.Living resource life
  promised : resources.Promised
  logged : resources.Logged factories

theorem invariant_start (factories : R → Option (List R)) :
    Invariant factories (start : Resources R O) where
  lives _ := ⟨.fresh, {
    dependency := rfl
    tagged := ⟨fun ⟨_, hmem⟩ => (nomatch hmem), False.elim⟩
    gets := fun _ _ hget => nomatch hget
    constructs := fun _ _ hconstruct => nomatch hconstruct }⟩
  promised := {
    pending := fun _ hmem => nomatch hmem
    distinct := .nil
    waits := fun _ _ _ hget => nomatch hget
    waitsOnce := fun _ _ _ _ _ hget => nomatch hget }
  logged := {
    fetches := fun _ _ _ hconstruct => nomatch hconstruct
    once := .nil
    invokes := fun _ hmem => nomatch hmem }

/-! ### Frames -/

section Frames

variable {factories : R → Option (List R)} {before after : Resources R O} {resource other : R}
  {life : Life O} {place get : Nat} {stage found : GetStage O}

theorem of_withGet (hget : (before.withGet place resource stage).IsGet get other found) :
    (get = place ∧ other = resource ∧ found = stage) ∨
      get ≠ place ∧ before.IsGet get other found := by
  change (before.gets.set place _)[get]? = _ at hget
  by_cases heq : place = get
  · subst heq
    obtain ⟨hlength, _⟩ := List.getElem?_eq_some_iff.mp hget
    rw [List.length_set] at hlength
    rw [List.getElem?_set_self hlength, Option.some.injEq, CreateAndGet.mk.injEq] at hget
    exact .inl ⟨rfl, hget.1.symm, hget.2.symm⟩
  · rw [List.getElem?_set_ne heq] at hget
    exact .inr ⟨Ne.symm heq, hget⟩

theorem of_withConstruct {stage found : ConstructStage O} (hconstruct :
    (before.withConstruct place resource stage).IsConstruct get other found) :
    (get = place ∧ other = resource ∧ found = stage) ∨
      get ≠ place ∧ before.IsConstruct get other found := by
  change (before.constructs.set place _)[get]? = _ at hconstruct
  by_cases heq : place = get
  · subst heq
    obtain ⟨hlength, _⟩ := List.getElem?_eq_some_iff.mp hconstruct
    rw [List.length_set] at hlength
    rw [List.getElem?_set_self hlength, Option.some.injEq, Construct.mk.injEq] at hconstruct
    exact .inl ⟨rfl, hconstruct.1.symm, hconstruct.2.symm⟩
  · rw [List.getElem?_set_ne heq] at hconstruct
    exact .inr ⟨Ne.symm heq, hconstruct⟩

theorem getElem?_of_append {α : Type} {items more : List α} {item : α}
    (hitem : (items ++ more)[place]? = some item) : items[place]? = some item ∨ item ∈ more := by
  rcases Nat.lt_or_ge place items.length with hlt | hge
  · rw [List.getElem?_append_left hlt] at hitem
    exact .inl hitem
  · rw [List.getElem?_append_right hge] at hitem
    exact .inr (List.mem_of_getElem? hitem)

/-- A resource's life goes on where its entries are as before, new coroutines that are only called
apart. -/
theorem Living.frame (hliving : before.Living resource life)
    (hdependency : after.context.dependencies resource = before.context.dependencies resource)
    (htagged : after.context.Tagged resource ↔ before.context.Tagged resource)
    (hgets : ∀ get stage, after.IsGet get resource stage →
      stage = .called ∨ (∃ promise, stage = .waiting promise) ∨
        before.IsGet get resource stage)
    (hconstructs : ∀ construct stage, after.IsConstruct construct resource stage →
      ∃ stage, before.IsConstruct construct resource stage) :
    after.Living resource life where
  dependency := hdependency.trans hliving.dependency
  tagged := htagged.trans hliving.tagged
  gets get stage hget := by
    rcases hgets get stage hget with rfl | ⟨promise, rfl⟩ | hbefore
    · trivial
    · trivial
    · exact hliving.gets get stage hbefore
  constructs construct stage hconstruct := by
    obtain ⟨stage, hbefore⟩ := hconstructs construct stage hconstruct
    exact hliving.constructs construct stage hbefore

theorem Living.stored (hliving : before.Living resource life) {object : O}
    (hobject : before.context.dependencies resource = some object) :
    ∃ construct, life = .stored construct object := by
  have hsome := hliving.dependency.symm.trans hobject
  cases life with
  | stored construct other =>
      cases hsome
      exact ⟨construct, rfl⟩
  | fresh => cases hsome
  | constructing get construct => cases hsome
  | abandoned construct => cases hsome

theorem Promised.frame (hpromised : before.Promised)
    (hconstruction : after.context.construction = before.context.construction)
    (hdependencies : after.context.dependencies = before.context.dependencies)
    (hstates : after.promises.states = before.promises.states)
    (hgets : ∀ get resource promise, after.IsGet get resource (.waiting promise) →
      before.IsGet get resource (.waiting promise)) : after.Promised where
  pending := by
    rw [hconstruction, hstates]
    exact hpromised.pending
  distinct := by
    rw [hconstruction]
    exact hpromised.distinct
  waits get resource promise hget := by
    rw [hconstruction, hdependencies, hstates]
    exact hpromised.waits get resource promise (hgets get resource promise hget)
  waitsOnce get other resource dependency promise hget hother :=
    hpromised.waitsOnce get other resource dependency promise (hgets _ _ _ hget)
      (hgets _ _ _ hother)

theorem Logged.frame (hlogged : before.Logged factories)
    (hgets : ∀ get resource stage, before.IsGet get resource stage →
      ∃ stage, after.IsGet get resource stage)
    (hconstructs : after.constructs = before.constructs)
    (hinvoked : after.invoked = before.invoked) : after.Logged factories where
  fetches construct resource gets hconstruct := by
    unfold IsConstruct at hconstruct
    rw [hconstructs] at hconstruct
    obtain ⟨dependencies, hfactory, hfetched⟩ := hlogged.fetches construct resource gets hconstruct
    refine ⟨dependencies, hfactory, hfetched.imp ?_⟩
    rintro get dependency ⟨stage, hget⟩
    exact hgets get dependency stage hget
  once := by
    rw [hinvoked]
    exact hlogged.once
  invokes := by
    unfold IsConstruct
    rw [hinvoked, hconstructs]
    exact hlogged.invokes

/-- A coroutine keeps its resource. -/
theorem withGet_keeps {old : GetStage O} (hold : before.IsGet place resource old)
    (hget : before.IsGet get other found) :
    ∃ stage', (before.withGet place resource stage).IsGet get other stage' := by
  by_cases heq : place = get
  · subst heq
    have hsame := hold.symm.trans hget
    rw [Option.some.injEq, CreateAndGet.mk.injEq] at hsame
    rw [← hsame.1]
    exact ⟨stage, List.getElem?_set_self (List.getElem?_eq_some_iff.mp hold).1⟩
  · exact ⟨found, (List.getElem?_set_ne heq).trans hget⟩

end Frames

/-! ### The parts of a step -/

section Parts

variable {factories : R → Option (List R)} {resources : Resources R O} {resource other : R}
  {place : Nat} {stage : GetStage O} {dependencies : List R}

/-- The multimap has another entry for the resource. -/
def emplaced (resource : R) (resources : Resources R O) : Resources R O :=
  { resources with
    context := resources.context.emplace resource resources.promises.states.length
    promises := { resources.promises with
      states := resources.promises.states ++ [SharedPromiseState.make] } }

/-- A construction of the resource has begun and asked for the dependencies. -/
def begun (resource : R) (dependencies : List R) (resources : Resources R O) : Resources R O :=
  { resources with
    gets := resources.gets ++ dependencies.map fun dependency => ⟨dependency, .called⟩
    constructs := resources.constructs ++ [⟨resource,
      .fetching (List.range' resources.gets.length dependencies.length)⟩] }

theorem Promised.lt_length (hpromised : resources.Promised) {promise : Nat}
    (hwaits : resources.IsGet place resource (.waiting promise)) :
    promise < resources.promises.states.length := by
  rcases hpromised.waits place resource promise hwaits with hmem | ⟨_, hstate⟩
  · exact (List.getElem?_eq_some_iff.mp (hpromised.pending _ hmem)).1
  · exact (List.getElem?_eq_some_iff.mp hstate).1

theorem Promised.emplaced (hpromised : resources.Promised) (resource : R) :
    (resources.emplaced resource).Promised where
  pending entry hmem := by
    rcases mem_emplace.mp hmem with hmem | rfl
    · have hstate := hpromised.pending entry hmem
      exact (List.getElem?_append_left (List.getElem?_eq_some_iff.mp hstate).1).trans hstate
    · exact List.getElem?_concat_length
  distinct := by
    change ((resources.context.construction ++ [_]).map Prod.snd).Nodup
    rw [List.map_append]
    apply List.Nodup.append hpromised.distinct (List.nodup_singleton _)
    intro promise hmem hnew
    obtain ⟨entry, hentry, rfl⟩ := List.mem_map.mp hmem
    have hlt := (List.getElem?_eq_some_iff.mp (hpromised.pending entry hentry)).1
    exact absurd (List.mem_singleton.mp hnew) (Nat.ne_of_lt hlt)
  waits get other promise hget := by
    rcases hpromised.waits get other promise hget with hmem | ⟨hstored, hstate⟩
    · exact .inl (mem_emplace.mpr (.inl hmem))
    · have hlt := (List.getElem?_eq_some_iff.mp hstate).1
      exact .inr ⟨hstored, (List.getElem?_append_left hlt).trans hstate⟩
  waitsOnce := hpromised.waitsOnce

/-- A coroutine comes to wait for the entry that it made. -/
theorem Promised.wait (hpromised : resources.Promised) (place : Nat) (resource : R) :
    ((resources.emplaced resource).withGet place resource
      (.waiting resources.promises.states.length)).Promised where
  pending := (hpromised.emplaced resource).pending
  distinct := (hpromised.emplaced resource).distinct
  waits get other promise hget := by
    rcases of_withGet hget with ⟨rfl, rfl, hstage⟩ | ⟨_, hbefore⟩
    · cases hstage
      exact .inl (mem_emplace.mpr (.inr rfl))
    · exact (hpromised.emplaced resource).waits get other promise hbefore
  waitsOnce get other first second promise hget hother := by
    rcases of_withGet hget with ⟨rfl, rfl, hstage⟩ | ⟨_, hbefore⟩
    · rcases of_withGet hother with ⟨rfl, _, _⟩ | ⟨_, hold⟩
      · rfl
      · cases hstage
        exact absurd (hpromised.lt_length hold) (Nat.lt_irrefl _)
    · rcases of_withGet hother with ⟨_, _, hstage⟩ | ⟨_, hold⟩
      · cases hstage
        exact absurd (hpromised.lt_length hbefore) (Nat.lt_irrefl _)
      · exact hpromised.waitsOnce get other first second promise hbefore hold

theorem Promised.withGet (hpromised : resources.Promised)
    (hstage : ∀ promise, stage ≠ .waiting promise) :
    (resources.withGet place resource stage).Promised := by
  refine hpromised.frame (by rfl) (by rfl) (by rfl) ?_
  intro get other promise hget
  rcases of_withGet hget with ⟨_, _, hwaiting⟩ | ⟨_, hbefore⟩
  · exact absurd hwaiting.symm (hstage promise)
  · exact hbefore

/-- The coroutine that waited is the only one for which its promise mattered. -/
theorem Promised.consume (hpromised : resources.Promised) {promise : Nat}
    (hwaits : resources.IsGet place resource (.waiting promise))
    (hstate : resources.promises.states[promise]? = some notified) (object : O) :
    ((resources.consumed promise).withGet place resource (.returned object)).Promised where
  pending entry hmem := by
    have hmake := hpromised.pending entry hmem
    have hne : promise ≠ entry.2 := by
      intro heq
      rw [← heq, hstate] at hmake
      cases hmake
    exact (List.getElem?_set_ne hne).trans hmake
  distinct := hpromised.distinct
  waits get other waited hget := by
    rcases of_withGet hget with ⟨_, _, hstage⟩ | ⟨hne, hbefore⟩
    · cases hstage
    · rcases hpromised.waits get other waited hbefore with hmem | ⟨hstored, hnotified⟩
      · exact .inl hmem
      · refine .inr ⟨hstored, (List.getElem?_set_ne ?_).trans hnotified⟩
        rintro rfl
        exact hne (hpromised.waitsOnce get place other resource promise hbefore hwaits)
  waitsOnce get second other dependency waited hget hsecond := by
    rcases of_withGet hget with ⟨_, _, hstage⟩ | ⟨_, hbefore⟩
    · cases hstage
    · rcases of_withGet hsecond with ⟨_, _, hstage⟩ | ⟨_, hother⟩
      · cases hstage
      · exact hpromised.waitsOnce get second other dependency waited hbefore hother

/-- Storing an object tells those that wait for it, and the others wait on. -/
theorem Promised.stored [DecidableEq R] (hpromised : resources.Promised) (object : O)
    {states : List (SharedPromiseState Fault Unit)}
    (hin : ∀ promise, (resource, promise) ∈ resources.context.construction →
      states[promise]? = some notified)
    (hout : ∀ promise, (resource, promise) ∉ resources.context.construction →
      states[promise]? = resources.promises.states[promise]?) :
    Promised { resources with
      context := (resources.context.assign resource object).erase resource
      promises := { resources.promises with states } } where
  pending entry hmem := by
    obtain ⟨hmem, hne⟩ := mem_erase.mp hmem
    refine (hout entry.2 ?_).trans (hpromised.pending entry hmem)
    intro hown
    have heq := List.inj_on_of_nodup_map hpromised.distinct hmem hown rfl
    exact hne (congrArg Prod.fst heq)
  distinct := hpromised.distinct.sublist (List.filter_sublist.map Prod.snd)
  waits := by
    intro place other promise hplace
    rcases hpromised.waits place other promise hplace with hmem | ⟨⟨found, hfound⟩, hset⟩
    · by_cases heq : other = resource
      · subst heq
        exact .inr ⟨⟨object, Function.update_self _ _ _⟩, hin promise hmem⟩
      · exact .inl (mem_erase.mpr ⟨hmem, heq⟩)
    · refine .inr ⟨?_, ?_⟩
      · by_cases heq : other = resource
        · subst heq
          exact ⟨object, Function.update_self _ _ _⟩
        · exact ⟨found, (Function.update_of_ne heq _ _).trans hfound⟩
      · refine (hout promise ?_).trans hset
        intro hmem
        have hmake := hset.symm.trans (hpromised.pending _ hmem)
        cases hmake
  waitsOnce := hpromised.waitsOnce

theorem of_mem_called {found : GetStage O} (hmem : (⟨other, found⟩ : CreateAndGet R O) ∈
    dependencies.map fun dependency => (⟨dependency, .called⟩ : CreateAndGet R O)) :
    found = .called := by
  obtain ⟨dependency, _, heq⟩ := List.mem_map.mp hmem
  rw [CreateAndGet.mk.injEq] at heq
  exact heq.2.symm

theorem Promised.begun (hpromised : resources.Promised) (resource : R) (dependencies : List R) :
    (resources.begun resource dependencies).Promised := by
  refine hpromised.frame (by rfl) (by rfl) (by rfl) ?_
  intro get other promise hget
  rcases getElem?_of_append hget with hbefore | hcalled
  · exact hbefore
  · cases of_mem_called hcalled

theorem Logged.withGet {old : GetStage O} (hlogged : resources.Logged factories)
    (hold : resources.IsGet place resource old) :
    (resources.withGet place resource stage).Logged factories :=
  hlogged.frame (fun _ _ _ hget => withGet_keeps hold hget) rfl rfl

theorem Logged.emplaced (hlogged : resources.Logged factories) (resource : R) :
    (resources.emplaced resource).Logged factories :=
  { hlogged with }

/-- The coroutines that a construction has called are those of its dependencies. -/
theorem forall₂_called (gets : List (CreateAndGet R O)) (dependencies : List R) :
    List.Forall₂ (fun get dependency => (gets ++ dependencies.map fun dependency =>
      (⟨dependency, .called⟩ : CreateAndGet R O))[get]? = some ⟨dependency, .called⟩)
        (List.range' gets.length dependencies.length) dependencies := by
  rw [List.forall₂_iff_get]
  refine ⟨List.length_range', ?_⟩
  intro place hfirst hsecond
  rw [List.get_eq_getElem, List.getElem_range', Nat.one_mul,
    List.getElem?_append_right (Nat.le_add_right _ _), Nat.add_sub_cancel_left,
    List.getElem?_map, List.getElem?_eq_getElem hsecond]
  rfl

theorem Logged.begun (hlogged : resources.Logged factories)
    (hfactory : factories resource = some dependencies) :
    (resources.begun resource dependencies).Logged factories where
  fetches construct other gets hconstruct := by
    rcases getElem?_of_append hconstruct with hbefore | hnew
    · obtain ⟨found, hfound, hfetched⟩ := hlogged.fetches construct other gets hbefore
      refine ⟨found, hfound, hfetched.imp ?_⟩
      rintro get dependency ⟨stage, hget⟩
      have hlt := (List.getElem?_eq_some_iff.mp hget).1
      exact ⟨stage, (List.getElem?_append_left hlt).trans hget⟩
    · have heq := List.mem_singleton.mp hnew
      rw [Construct.mk.injEq, ConstructStage.fetching.injEq] at heq
      rw [heq.1, heq.2]
      refine ⟨dependencies, hfactory, (forall₂_called resources.gets dependencies).imp ?_⟩
      exact fun get dependency hget => ⟨_, hget⟩
  once := hlogged.once
  invokes entry hmem := by
    obtain ⟨construct, stage, hconstruct, hstage⟩ := hlogged.invokes entry hmem
    have hlt := (List.getElem?_eq_some_iff.mp hconstruct).1
    exact ⟨construct, stage, (List.getElem?_append_left hlt).trans hconstruct, hstage⟩

/-- Where the lives of the other resources go on, it is the resource's own that matters. -/
theorem lives_of {after : Resources R O} {life : Life O}
    (hlives : ∀ other, ∃ life, resources.Living other life) (hlife : after.Living resource life)
    (hdependency : ∀ other ≠ resource,
      after.context.dependencies other = resources.context.dependencies other)
    (htagged : ∀ other ≠ resource,
      (after.context.Tagged other ↔ resources.context.Tagged other))
    (hgets : ∀ other ≠ resource, ∀ get stage, after.IsGet get other stage →
      stage = .called ∨ (∃ promise, stage = .waiting promise) ∨ resources.IsGet get other stage)
    (hconstructs : ∀ other ≠ resource, ∀ construct stage, after.IsConstruct construct other stage →
      ∃ stage, resources.IsConstruct construct other stage) (other : R) :
    ∃ life, after.Living other life := by
  by_cases heq : other = resource
  · subst heq
    exact ⟨life, hlife⟩
  · obtain ⟨life, hliving⟩ := hlives other
    exact ⟨life, hliving.frame (hdependency other heq) (htagged other heq) (hgets other heq)
      (hconstructs other heq)⟩

end Parts

/-! ### The steps of `create_and_get` -/

section Gets

variable {factories : R → Option (List R)} {resources : Resources R O} {resource : R}
  {get construct promise : Nat} {object : O} {dependencies : List R} {life : Life O}
  {stage : GetStage O}

theorem Invariant.call (hinv : resources.Invariant factories) (resource : R) :
    Invariant factories { resources with
      gets := resources.gets ++ [⟨resource, .called⟩] } := by
  constructor
  case lives =>
    intro other
    obtain ⟨life, hliving⟩ := hinv.lives other
    refine ⟨life, hliving.frame (by rfl) (by rfl) ?_ fun _ stage hconstruct => ⟨stage, hconstruct⟩⟩
    intro get stage hget
    rcases getElem?_of_append hget with hbefore | hnew
    · exact .inr (.inr hbefore)
    · have heq := List.mem_singleton.mp hnew
      rw [CreateAndGet.mk.injEq] at heq
      exact .inl heq.2
  case promised =>
    refine hinv.promised.frame (by rfl) (by rfl) (by rfl) ?_
    intro get other promise hget
    rcases getElem?_of_append hget with hbefore | hnew
    · exact hbefore
    · have heq := List.mem_singleton.mp hnew
      rw [CreateAndGet.mk.injEq] at heq
      cases heq.2
  case logged =>
    refine hinv.logged.frame ?_ (by rfl) (by rfl)
    intro get other stage hget
    have hlt := (List.getElem?_eq_some_iff.mp hget).1
    exact ⟨stage, (List.getElem?_append_left hlt).trans hget⟩

/-- What a coroutine comes to leaves the others' resources alone. -/
theorem withGet_others {other : R} (hne : other ≠ resource) {found : GetStage O} {place : Nat}
    (hget : (resources.withGet get resource stage).IsGet place other found) :
    resources.IsGet place other found := by
  rcases of_withGet hget with ⟨_, heq, _⟩ | ⟨_, hbefore⟩
  · exact absurd heq hne
  · exact hbefore

/-- A coroutine that asks for a stored resource gets what is stored. -/
theorem Invariant.get_stored (hinv : resources.Invariant factories)
    (hget : resources.IsGet get resource .called)
    (hliving : resources.Living resource (.stored construct object)) :
    Invariant factories (resources.withGet get resource (.returned object)) where
  lives := by
    have hlife : (resources.withGet get resource (.returned object)).Living resource
        (.stored construct object) :=
      { hliving with
        gets := by
          intro place stage hplace
          rcases of_withGet hplace with ⟨_, _, rfl⟩ | ⟨_, hbefore⟩
          · exact ⟨construct, rfl⟩
          · exact hliving.gets place stage hbefore }
    refine lives_of hinv.lives hlife (fun _ _ => rfl) (fun _ _ => .rfl) ?_ ?_
    · exact fun other hne place stage hplace => .inr (.inr (withGet_others hne hplace))
    · exact fun other _ _ stage hconstruct => ⟨stage, hconstruct⟩
  promised := hinv.promised.withGet fun _ hstage => nomatch hstage
  logged := hinv.logged.withGet hget

/-- A coroutine that asks for a resource under construction comes to wait. -/
theorem Invariant.get_tagged (hinv : resources.Invariant factories)
    (hget : resources.IsGet get resource .called) (hliving : resources.Living resource life)
    (htagged : resources.context.Tagged resource) :
    Invariant factories ((resources.emplaced resource).withGet get resource
      (.waiting resources.promises.states.length)) where
  lives := by
    have hlife : ((resources.emplaced resource).withGet get resource
        (.waiting resources.promises.states.length)).Living resource life :=
      { hliving with
        tagged := by
          refine Iff.trans tagged_emplace (Iff.trans ?_ hliving.tagged)
          exact ⟨fun _ => htagged, .inl⟩
        gets := by
          intro place stage hplace
          rcases of_withGet hplace with ⟨_, _, rfl⟩ | ⟨_, hbefore⟩
          · trivial
          · exact hliving.gets place stage hbefore }
    refine lives_of hinv.lives hlife (fun _ _ => rfl) ?_ ?_ ?_
    · exact fun other hne => tagged_emplace.trans (or_iff_left hne)
    · exact fun other hne place stage hplace => .inr (.inr (withGet_others hne hplace))
    · exact fun other _ _ stage hconstruct => ⟨stage, hconstruct⟩
  promised := hinv.promised.wait get resource
  logged := (hinv.logged.emplaced resource).withGet hget

/-- Without a factory the tag stays, and nothing makes the resource. -/
theorem Invariant.get_missing (hinv : resources.Invariant factories)
    (hget : resources.IsGet get resource .called) (hliving : resources.Living resource .fresh)
    (fault : Fault) :
    Invariant factories ((resources.emplaced resource).withGet get resource (.threw fault)) where
  lives := by
    have hlife : ((resources.emplaced resource).withGet get resource (.threw fault)).Living resource
        (.abandoned none) :=
      { dependency := hliving.dependency
        tagged := ⟨fun _ => trivial, fun _ => tagged_emplace.mpr (.inr rfl)⟩
        gets := by
          intro place stage hplace
          rcases of_withGet hplace with ⟨_, _, rfl⟩ | ⟨_, hbefore⟩
          · exact ⟨none, rfl⟩
          · exact Life.allows_of_fresh (hliving.gets place stage hbefore) _
        constructs := hliving.constructs }
    refine lives_of hinv.lives hlife (fun _ _ => rfl) ?_ ?_ ?_
    · exact fun other hne => tagged_emplace.trans (or_iff_left hne)
    · exact fun other hne place stage hplace => .inr (.inr (withGet_others hne hplace))
    · exact fun other _ _ stage hconstruct => ⟨stage, hconstruct⟩
  promised := (hinv.promised.emplaced resource).withGet fun _ hstage => nomatch hstage
  logged := (hinv.logged.emplaced resource).withGet hget

/-- The first coroutine that asks for a resource has it made. -/
theorem Invariant.get_fresh (hinv : resources.Invariant factories)
    (hget : resources.IsGet get resource .called) (hliving : resources.Living resource .fresh)
    (hfactory : factories resource = some dependencies) :
    Invariant factories (((resources.emplaced resource).begun resource dependencies).withGet get
      resource (.constructing resources.constructs.length)) where
  lives := by
    have hlife : (((resources.emplaced resource).begun resource dependencies).withGet get resource
        (.constructing resources.constructs.length)).Living resource
          (.constructing get resources.constructs.length) :=
      { dependency := hliving.dependency
        tagged := ⟨fun _ => trivial, fun _ => tagged_emplace.mpr (.inr rfl)⟩
        gets := by
          intro place stage hplace
          rcases of_withGet hplace with ⟨rfl, _, rfl⟩ | ⟨_, hbefore⟩
          · rfl
          · rcases getElem?_of_append hbefore with hbefore | hcalled
            · exact Life.allows_of_fresh (hliving.gets place stage hbefore) _
            · rw [of_mem_called hcalled]
              trivial
        constructs := by
          intro place stage hplace
          have hnone : ¬ ∃ stage, resources.IsConstruct place resource stage := by
            rintro ⟨stage, hbefore⟩
            cases hliving.constructs place stage hbefore
          by_contra hne
          rcases Nat.lt_or_ge place resources.constructs.length with hlt | hge
          · exact hnone ⟨stage, (List.getElem?_append_left hlt).symm.trans hplace⟩
          · have hlength := (List.getElem?_eq_some_iff.mp hplace).1
            change place < (resources.constructs ++ [_]).length at hlength
            rw [List.length_append, List.length_singleton] at hlength
            exact hne (congrArg some (Nat.le_antisymm hge (Nat.le_of_lt_succ hlength))) }
    refine lives_of hinv.lives hlife (fun _ _ => rfl) ?_ ?_ ?_
    · exact fun other hne => tagged_emplace.trans (or_iff_left hne)
    · intro other hne place stage hplace
      rcases getElem?_of_append (withGet_others hne hplace) with hbefore | hcalled
      · exact .inr (.inr hbefore)
      · exact .inl (of_mem_called hcalled)
    · intro other hne place stage hconstruct
      rcases getElem?_of_append hconstruct with hbefore | hnew
      · exact ⟨stage, hbefore⟩
      · have heq := List.mem_singleton.mp hnew
        rw [Construct.mk.injEq] at heq
        exact absurd heq.1 hne
  promised := ((hinv.promised.emplaced resource).begun resource dependencies).withGet
    fun _ hstage => nomatch hstage
  logged := by
    have hbegun := (hinv.logged.emplaced resource).begun hfactory
    have hlt := (List.getElem?_eq_some_iff.mp hget).1
    exact hbegun.withGet ((List.getElem?_append_left hlt).trans hget)

/-- A construction that failed leaves the tag. -/
theorem Invariant.get_failed (hinv : resources.Invariant factories)
    (hget : resources.IsGet get resource (.constructing construct))
    (hliving : resources.Living resource (.constructing get construct)) (fault : Fault) :
    Invariant factories (resources.withGet get resource (.threw fault)) where
  lives := by
    have hlife : (resources.withGet get resource (.threw fault)).Living resource
        (.abandoned (some construct)) :=
      { dependency := hliving.dependency
        tagged := hliving.tagged
        gets := by
          intro place stage hplace
          rcases of_withGet hplace with ⟨_, _, rfl⟩ | ⟨hne, hbefore⟩
          · exact ⟨some construct, rfl⟩
          · exact Life.allows_of_constructing (hliving.gets place stage hbefore) hne _
        constructs := hliving.constructs }
    refine lives_of hinv.lives hlife (fun _ _ => rfl) (fun _ _ => .rfl) ?_ ?_
    · exact fun other hne place stage hplace => .inr (.inr (withGet_others hne hplace))
    · exact fun other _ _ stage hconstruct => ⟨stage, hconstruct⟩
  promised := hinv.promised.withGet fun _ hstage => nomatch hstage
  logged := hinv.logged.withGet hget

/-- A coroutine whose promise is set finds its resource stored. -/
theorem Invariant.wake {after : Resources R O} (hinv : resources.Invariant factories)
    (hget : resources.IsGet get resource (.waiting promise))
    (hready : (Future.awaitReady promise).exec resources.promises = (.ok true, resources.promises))
    {result : Result O}
    (hexec : (resumeWaiting resource promise).exec resources = (result, after)) :
    Invariant factories (after.withGet get resource (.ofResult result)) := by
  obtain ⟨⟨object, hobject⟩, hstate⟩ : (∃ object,
      resources.context.dependencies resource = some object) ∧
        resources.promises.states[promise]? = some notified := by
    rcases hinv.promised.waits get resource promise hget with hmem | hstored
    · rw [Future.exec_awaitReady (hinv.promised.pending _ hmem)] at hready
      cases hready
    · exact hstored
  rw [exec_resumeWaiting hstate hobject, Prod.mk.injEq] at hexec
  rw [← hexec.1, ← hexec.2]
  obtain ⟨life, hliving⟩ := hinv.lives resource
  obtain ⟨construct, rfl⟩ := hliving.stored hobject
  constructor
  case lives =>
    have hlife : ((resources.consumed promise).withGet get resource (.returned object)).Living
        resource (.stored construct object) :=
      { hliving with
        gets := by
          intro place stage hplace
          rcases of_withGet hplace with ⟨_, _, rfl⟩ | ⟨_, hbefore⟩
          · exact ⟨construct, rfl⟩
          · exact hliving.gets place stage hbefore }
    refine lives_of hinv.lives hlife (fun _ _ => rfl) (fun _ _ => .rfl) ?_ ?_
    · exact fun other hne place stage hplace => .inr (.inr (withGet_others hne hplace))
    · exact fun other _ _ stage hconstruct => ⟨stage, hconstruct⟩
  case promised => exact hinv.promised.consume hget hstate object
  case logged =>
    have hlogged : (resources.consumed promise).Logged factories := { hinv.logged with }
    exact hlogged.withGet hget

theorem Invariant.same (hinv : resources.Invariant factories) {other : Nat} {found : O}
    (hget : resources.IsGet get resource (.returned object))
    (hother : resources.IsGet other resource (.returned found)) : object = found := by
  obtain ⟨life, hliving⟩ := hinv.lives resource
  obtain ⟨construct, hlife⟩ := hliving.gets get _ hget
  obtain ⟨second, hsame⟩ := hliving.gets other _ hother
  rw [hlife] at hsame
  cases hsame
  rfl

theorem Invariant.returned (hinv : resources.Invariant factories)
    (hget : resources.IsGet get resource (.returned object)) :
    resources.context.dependencies resource = some object := by
  obtain ⟨life, hliving⟩ := hinv.lives resource
  obtain ⟨construct, rfl⟩ := hliving.gets get _ hget
  exact hliving.dependency

end Gets

section Constructs

variable {factories : R → Option (List R)} {resources : Resources R O} {resource : R}
  {place : Nat} {old stage : ConstructStage O}

/-- What a construction comes to does not matter to its resource until it has ended. -/
theorem Living.withConstruct {other : R} {life : Life O} (hliving : resources.Living other life)
    (hold : resources.IsConstruct place resource old) :
    (resources.withConstruct place resource stage).Living other life := by
  refine hliving.frame (by rfl) (by rfl) (fun _ _ hget => .inr (.inr hget)) ?_
  intro construct found hfound
  rcases of_withConstruct hfound with ⟨rfl, rfl, _⟩ | ⟨_, hbefore⟩
  · exact ⟨old, hold⟩
  · exact ⟨found, hbefore⟩

theorem Logged.withConstruct (hlogged : resources.Logged factories)
    (hold : resources.IsConstruct place resource old)
    (hstage : ∀ gets, stage ≠ .fetching gets) :
    (resources.withConstruct place resource stage).Logged factories where
  fetches construct other gets hconstruct := by
    rcases of_withConstruct hconstruct with ⟨_, _, hfetching⟩ | ⟨_, hbefore⟩
    · exact absurd hfetching.symm (hstage gets)
    · exact hlogged.fetches construct other gets hbefore
  once := hlogged.once
  invokes entry hmem := by
    obtain ⟨construct, found, hfound, hnot⟩ := hlogged.invokes entry hmem
    by_cases heq : place = construct
    · subst heq
      have hsame := hold.symm.trans hfound
      rw [Option.some.injEq, Construct.mk.injEq] at hsame
      rw [← hsame.1]
      have hlt := (List.getElem?_eq_some_iff.mp hold).1
      exact ⟨place, stage, List.getElem?_set_self hlt, hstage⟩
    · exact ⟨construct, found, (List.getElem?_set_ne heq).trans hfound, hnot⟩

theorem Invariant.withConstruct (hinv : resources.Invariant factories)
    (hold : resources.IsConstruct place resource old)
    (hstage : ∀ gets, stage ≠ .fetching gets) :
    Invariant factories (resources.withConstruct place resource stage) where
  lives other := by
    obtain ⟨life, hliving⟩ := hinv.lives other
    exact ⟨life, hliving.withConstruct hold⟩
  promised := hinv.promised.frame (by rfl) (by rfl) (by rfl) fun _ _ _ hget => hget
  logged := hinv.logged.withConstruct hold hstage

/-- The factory of a resource is called by its one construction, which has not called it before. -/
theorem Invariant.invoke {gets : List Nat} (hinv : resources.Invariant factories)
    (hold : resources.IsConstruct place resource (.fetching gets)) (objects : List O) :
    Invariant factories { resources.withConstruct place resource .building with
      invoked := resources.invoked ++ [(resource, objects)] } := by
  have hbuilding : Invariant factories (resources.withConstruct place resource .building) :=
    hinv.withConstruct hold fun _ hfetching => nomatch hfetching
  constructor
  case lives =>
    intro other
    obtain ⟨life, hliving⟩ := hbuilding.lives other
    exact ⟨life, { hliving with }⟩
  case promised => exact { hbuilding.promised with }
  case logged =>
    constructor
    case fetches => exact hbuilding.logged.fetches
    case once =>
      rw [List.map_append]
      apply List.Nodup.append hinv.logged.once (List.nodup_singleton _)
      intro other hmem hnew
      obtain ⟨entry, hentry, rfl⟩ := List.mem_map.mp hmem
      have heq : entry.1 = resource := List.mem_singleton.mp hnew
      obtain ⟨construct, stage, hconstruct, hnot⟩ := hinv.logged.invokes entry hentry
      obtain ⟨life, hliving⟩ := hinv.lives resource
      rw [heq] at hconstruct
      have hsame := (hliving.constructs construct stage hconstruct).symm.trans
        (hliving.constructs place _ hold)
      cases hsame
      have hstage := hconstruct.symm.trans hold
      rw [Option.some.injEq, Construct.mk.injEq] at hstage
      exact hnot gets hstage.2
    case invokes =>
      intro entry hmem
      rcases List.mem_append.mp hmem with hmem | hnew
      · exact hbuilding.logged.invokes entry hmem
      · rw [List.mem_singleton.mp hnew]
        have hlt := (List.getElem?_eq_some_iff.mp hold).1
        exact ⟨place, .building, List.getElem?_set_self hlt, fun _ hfetching => nomatch hfetching⟩

end Constructs

section Ends

variable [DecidableEq R] {factories : R → Option (List R)} {name : R → String}
  {resources after : Resources R O} {resource : R} {get construct promise : Nat} {object : O}
  {life : Life O}

theorem exec_createAndGet_stored
    (hobject : resources.context.dependencies resource = some object) :
    (createAndGet factories name resource).exec resources =
      (.ok (.returned object), resources) := by
  unfold createAndGet
  rw [Call.exec_get_bind, hobject]
  rfl

theorem exec_createAndGet_tagged (hnone : resources.context.dependencies resource = none)
    (htagged : resources.context.Tagged resource) :
    (createAndGet factories name resource).exec resources =
      (.ok (.waiting resources.promises.states.length), resources.emplaced resource) := by
  unfold createAndGet
  rw [Call.exec_get_bind, hnone]
  dsimp only
  rw [underConstruction_iff.mpr htagged, if_pos rfl, Call.exec_bind_ok (exec_emplace _ _)]
  rfl

theorem exec_createAndGet_fresh (hnone : resources.context.dependencies resource = none)
    (htagged : ¬ resources.context.Tagged resource) :
    (createAndGet factories name resource).exec resources =
      match factories resource with
      | none => (.error (.thrown ⟨.notFound,
          s!"Server resource {name resource} has no factory registered."⟩),
            resources.emplaced resource)
      | some dependencies => (.ok (.constructing resources.constructs.length),
          (resources.emplaced resource).begun resource dependencies) := by
  unfold createAndGet
  rw [Call.exec_get_bind, hnone]
  dsimp only
  rw [if_neg (fun htrue => htagged (underConstruction_iff.mp htrue)),
    Call.exec_bind_ok (exec_emplace _ _)]
  unfold constructServerResource
  cases factories resource with
  | none => rfl
  | some dependencies => rfl

theorem Invariant.begin (hinv : resources.Invariant factories)
    (hget : resources.IsGet get resource .called) {result : Result (GetStage O)}
    (hexec : (createAndGet factories name resource).exec resources = (result, after)) :
    Invariant factories (after.withGet get resource (.ofCall result)) := by
  obtain ⟨life, hliving⟩ := hinv.lives resource
  cases life with
  | fresh =>
      have htagged : ¬ resources.context.Tagged resource := hliving.tagged.mp
      rw [exec_createAndGet_fresh hliving.dependency htagged] at hexec
      cases hfactory : factories resource with
      | none =>
          rw [hfactory, Prod.mk.injEq] at hexec
          rw [← hexec.1, ← hexec.2]
          exact hinv.get_missing hget hliving _
      | some dependencies =>
          rw [hfactory, Prod.mk.injEq] at hexec
          rw [← hexec.1, ← hexec.2]
          exact hinv.get_fresh hget hliving hfactory
  | stored construct object =>
      rw [exec_createAndGet_stored hliving.dependency, Prod.mk.injEq] at hexec
      rw [← hexec.1, ← hexec.2]
      exact hinv.get_stored hget hliving
  | constructing other construct =>
      have htagged := hliving.tagged.mpr trivial
      rw [exec_createAndGet_tagged hliving.dependency htagged, Prod.mk.injEq] at hexec
      rw [← hexec.1, ← hexec.2]
      exact hinv.get_tagged hget hliving htagged
  | abandoned construct =>
      have htagged := hliving.tagged.mpr trivial
      rw [exec_createAndGet_tagged hliving.dependency htagged, Prod.mk.injEq] at hexec
      rw [← hexec.1, ← hexec.2]
      exact hinv.get_tagged hget hliving htagged

/-- The coroutine that has a resource made stores it and tells all that wait for it. -/
theorem Invariant.finish (hinv : resources.Invariant factories)
    (hget : resources.IsGet get resource (.constructing construct)) {result : Result O}
    (hexec : (resumeConstructing resource object).exec resources = (result, after)) :
    Invariant factories (after.withGet get resource (.ofResult result)) := by
  obtain ⟨life, hliving⟩ := hinv.lives resource
  have hlife : life = .constructing get construct := hliving.gets get _ hget
  subst hlife
  obtain ⟨states, hfinish, hlength, hin, hout⟩ := exec_resumeConstructing
    (fun promise hmem => hinv.promised.pending (resource, promise) hmem) hinv.promised.distinct
      object
  rw [hfinish, Prod.mk.injEq] at hexec
  rw [← hexec.1, ← hexec.2]
  let stored : Resources R O := { resources with
    context := (resources.context.assign resource object).erase resource
    promises := { resources.promises with states } }
  constructor
  case lives =>
    have hstored : (stored.withGet get resource (.returned object)).Living resource
        (.stored construct object) :=
      { dependency := by
          change Function.update resources.context.dependencies resource _ resource = some object
          exact Function.update_self _ _ _
        tagged := by
          refine Iff.trans tagged_erase ?_
          exact ⟨fun hboth => hboth.2 rfl, False.elim⟩
        gets := by
          intro place stage hplace
          rcases of_withGet hplace with ⟨_, _, rfl⟩ | ⟨hne, hbefore⟩
          · exact ⟨construct, rfl⟩
          · exact Life.allows_of_constructing (hliving.gets place stage hbefore) hne _
        constructs := hliving.constructs }
    refine lives_of hinv.lives hstored ?_ ?_ ?_ ?_
    · exact fun other hne => Function.update_of_ne hne _ _
    · exact fun other hne => tagged_erase.trans (and_iff_left hne)
    · exact fun other hne place stage hplace => .inr (.inr (withGet_others hne hplace))
    · exact fun other _ _ stage hconstruct => ⟨stage, hconstruct⟩
  case promised =>
    have hpromised := hinv.promised.stored object hin hout
    exact hpromised.withGet fun _ hstage => nomatch hstage
  case logged =>
    have hlogged : stored.Logged factories := { hinv.logged with }
    exact hlogged.withGet hget

theorem Invariant.step {before : Resources R O} {action : Action R O}
    (hstep : Step factories name before action after) (hinv : before.Invariant factories) :
    after.Invariant factories := by
  cases hstep with
  | call resource => exact hinv.call resource
  | begin hget hexec => exact hinv.begin hget hexec
  | wake hget hready hexec => exact hinv.wake hget hready hexec
  | invoke hconstruct hobjects => exact hinv.invoke hconstruct _
  | failFetch hconstruct hmem hthrew =>
      exact hinv.withConstruct hconstruct fun _ hfetching => nomatch hfetching
  | build object hconstruct =>
      exact hinv.withConstruct hconstruct fun _ hfetching => nomatch hfetching
  | failBuild fault hconstruct =>
      exact hinv.withConstruct hconstruct fun _ hfetching => nomatch hfetching
  | finish hget hconstruct hexec => exact hinv.finish hget hexec
  | @fail get construct resource other fault hget hconstruct =>
      obtain ⟨life, hliving⟩ := hinv.lives resource
      have hlife : life = .constructing get construct := hliving.gets get _ hget
      subst hlife
      exact hinv.get_failed hget hliving fault

theorem invariant_of_run {actions : List (Action R O)}
    (hrun : Run (Step factories name) start actions resources) :
    resources.Invariant factories :=
  hrun.preserves (Invariant factories)
    (fun (_ : True) hstep hbefore => Invariant.step hstep hbefore) (fun _ _ => trivial)
    (invariant_start factories)

/-! ### Every order of calls and factories -/

/-- No factory was called twice, and those who got a resource got the same object. -/
structure MadeOnce (resources : Resources R O) : Prop where
  once : (resources.invoked.map Prod.fst).Nodup
  same : ∀ get other resource object found, resources.IsGet get resource (.returned object) →
    resources.IsGet other resource (.returned found) → object = found

/-- The step calls the factory of a resource with the objects that the context has for the
resource's dependencies. -/
def InvokesReady (factories : R → Option (List R)) (before after : Resources R O) : Prop :=
  ∃ resource dependencies objects, after.invoked = before.invoked ++ [(resource, objects)] ∧
    factories resource = some dependencies ∧ List.Forall₂ (fun dependency object =>
      before.context.dependencies dependency = some object) dependencies objects

theorem Invariant.invokesReady {before : Resources R O} (hinv : before.Invariant factories)
    (hstep : Step factories name before (.invoke construct) after) :
    InvokesReady factories before after := by
  cases hstep with
  | @invoke _ resource gets objects hconstruct hobjects =>
      obtain ⟨dependencies, hfactory, hfetched⟩ :=
        hinv.logged.fetches construct resource gets hconstruct
      refine ⟨resource, dependencies, objects, rfl, hfactory, ?_⟩
      clear hconstruct hfactory
      induction hobjects generalizing dependencies with
      | nil =>
          cases hfetched
          exact .nil
      | cons hobject _ ih =>
          cases hfetched with
          | cons hfirst hrest =>
              obtain ⟨dependency, hget⟩ := hobject
              obtain ⟨stage, hfirst⟩ := hfirst
              refine .cons ?_ (ih _ hrest)
              have hsame := hfirst.symm.trans hget
              rw [Option.some.injEq, CreateAndGet.mk.injEq] at hsame
              rw [hsame.1]
              exact hinv.returned hget

/-- Whatever the dependencies, the registered factories and how these end. -/
theorem madeOnce_of_run {actions : List (Action R O)}
    (hrun : Run (Step factories name) start actions resources) :
    resources.MadeOnce ∧ ∀ before construct after,
      Run.Takes (Step factories name) start actions resources before (.invoke construct) after →
        InvokesReady factories before after := by
  have hinv := invariant_of_run hrun
  refine ⟨⟨hinv.logged.once, ?_⟩, ?_⟩
  · exact fun _ _ _ _ _ hget hother => hinv.same hget hother
  · rintro before construct after ⟨earlier, later, _, hearlier, hstep, _⟩
    exact (invariant_of_run hearlier).invokesReady hstep

/-- Two resources with the same dependency, and one that depends on both. -/
def diamond : Nat → Option (List Nat)
  | 0 => some [1, 2]
  | 1 => some [3]
  | 2 => some [3]
  | 3 => some []
  | _ => none

abbrev DiamondStep : Resources Nat Nat → Action Nat Nat → Resources Nat Nat → Prop :=
  Step diamond fun _ => ""

/-- Two callers have asked for that one. -/
def asked : Resources Nat Nat where
  context := ⟨fun _ => none, [(0, 0), (0, 1), (1, 2), (2, 3), (3, 4), (3, 5)]⟩
  promises := ⟨[.make, .make, .make, .make, .make, .make], [], none⟩
  gets := [⟨0, .constructing 0⟩, ⟨0, .waiting 1⟩, ⟨1, .constructing 1⟩, ⟨2, .constructing 2⟩,
    ⟨3, .constructing 3⟩, ⟨3, .waiting 5⟩]
  constructs := [⟨0, .fetching [2, 3]⟩, ⟨1, .fetching [4]⟩, ⟨2, .fetching [5]⟩, ⟨3, .fetching []⟩]
  invoked := []

theorem run_asked : Run DiamondStep start [.call 0, .call 0, .begin 0, .begin 1, .begin 2, .begin 3,
    .begin 4, .begin 5] asked :=
  .cons (.call 0) <| .cons (.call 0) <| .cons (.begin rfl rfl) <| .cons (.begin rfl rfl) <|
    .cons (.begin rfl rfl) <| .cons (.begin rfl rfl) <| .cons (.begin rfl rfl) <|
    .cons (.begin rfl rfl) (.nil _)

/-- The state of a promise that was awaited. -/
def awaited : SharedPromiseState Fault Unit := ⟨true, false, none, none, .movedFrom, none⟩

/-- The last resource is made, and the one that waits for it has it. -/
def shared : Resources Nat Nat where
  context := ⟨Function.update (fun _ => none) 3 (some 13), [(0, 0), (0, 1), (1, 2), (2, 3)]⟩
  promises := ⟨[.make, .make, .make, .make, notified, awaited], [], none⟩
  gets := [⟨0, .constructing 0⟩, ⟨0, .waiting 1⟩, ⟨1, .constructing 1⟩, ⟨2, .constructing 2⟩,
    ⟨3, .returned 13⟩, ⟨3, .returned 13⟩]
  constructs := [⟨0, .fetching [2, 3]⟩, ⟨1, .fetching [4]⟩, ⟨2, .fetching [5]⟩, ⟨3, .returned 13⟩]
  invoked := [(3, [])]

theorem run_shared : Run DiamondStep asked [.invoke 3, .build 3 13, .finish 4, .wake 5] shared :=
  .cons (.invoke rfl .nil) <| .cons (.build 13 rfl) <| .cons (.finish rfl rfl rfl) <|
    .cons (.wake rfl rfl rfl) (.nil _)

/-- All resources are made, and both callers have the one that they have asked for. -/
def made : Resources Nat Nat where
  context := ⟨Function.update (Function.update (Function.update (Function.update (fun _ => none)
    3 (some 13)) 2 (some 12)) 1 (some 11)) 0 (some 10), []⟩
  promises := ⟨[notified, awaited, notified, notified, notified, awaited], [], none⟩
  gets := [⟨0, .returned 10⟩, ⟨0, .returned 10⟩, ⟨1, .returned 11⟩, ⟨2, .returned 12⟩,
    ⟨3, .returned 13⟩, ⟨3, .returned 13⟩]
  constructs := [⟨0, .returned 10⟩, ⟨1, .returned 11⟩, ⟨2, .returned 12⟩, ⟨3, .returned 13⟩]
  invoked := [(3, []), (1, [13]), (2, [13]), (0, [11, 12])]

theorem run_made : Run DiamondStep shared [.invoke 1, .invoke 2, .build 2 12, .finish 3,
    .build 1 11, .finish 2, .invoke 0, .build 0 10, .finish 0, .wake 1] made :=
  .cons (.invoke rfl (.cons ⟨3, rfl⟩ .nil)) <| .cons (.invoke rfl (.cons ⟨3, rfl⟩ .nil)) <|
    .cons (.build 12 rfl) <| .cons (.finish rfl rfl rfl) <| .cons (.build 11 rfl) <|
    .cons (.finish rfl rfl rfl) <| .cons (.invoke rfl (.cons ⟨1, rfl⟩ (.cons ⟨2, rfl⟩ .nil))) <|
    .cons (.build 10 rfl) <| .cons (.finish rfl rfl rfl) <| .cons (.wake rfl rfl rfl) (.nil _)

theorem madeOnce_of_run_diamond : made.MadeOnce :=
  (madeOnce_of_run (run_asked.append (run_shared.append run_made))).1

end Ends

end Resources

end Liblw.Net
