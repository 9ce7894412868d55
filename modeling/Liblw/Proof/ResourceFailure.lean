import Liblw.Proof.ResourceConstruction

/-!
# What a failed construction leaves

The coroutine that has a resource made takes its tag out only once it has the resource. When the
construction fails the tag is still there, and nothing takes it out any more.
-/

namespace Liblw.Net

open Liblw.Lib Liblw.Co

namespace Resources

variable {R O : Type} [DecidableEq R] {factories : R → Option (List R)} {name : R → String}
  {resources : Resources R O} {resource : R} {get : Nat} {fault : Fault}

/-- The context is clean of a resource: nothing of it is there, those who waited for it have an
exception, and who asks for it next has it made again. -/
structure CleanedUp (factories : R → Option (List R)) (name : R → String) (resource : R)
    (resources : Resources R O) : Prop where
  noConstruction : ¬ resources.context.Tagged resource
  noDependency : resources.context.dependencies resource = none
  waitersFailed : ∀ get promise, resources.IsGet get resource (.waiting promise) →
    ∃ state, resources.promises.states[promise]? = some state ∧ state.stateSet = true ∧
      state.exception.isSome
  attempts : ∀ promise,
    ((createAndGet factories name resource).exec resources).1 ≠ .ok (.waiting promise)

/-- The resource is tagged though no coroutine makes it, who waited for it still waits for a promise
that is not set, and who asks for it next comes to wait. -/
structure Stranded (factories : R → Option (List R)) (name : R → String) (resource : R)
    (resources : Resources R O) : Prop where
  tagged : resources.context.Tagged resource
  unmade : ∀ get construct, ¬ resources.IsGet get resource (.constructing construct)
  noDependency : resources.context.dependencies resource = none
  waitersWait : ∀ get promise, resources.IsGet get resource (.waiting promise) →
    resources.promises.states[promise]? = some .make
  waits : ∃ promise,
    ((createAndGet factories name resource).exec resources).1 = .ok (.waiting promise)

theorem Stranded.not_cleanedUp (hstranded : Stranded factories name resource resources) :
    ¬ CleanedUp factories name resource resources :=
  fun hclean => hclean.noConstruction hstranded.tagged

theorem Invariant.stranded (hinv : resources.Invariant factories)
    (hthrew : resources.IsGet get resource (.threw fault)) :
    Stranded factories name resource resources := by
  obtain ⟨life, hliving⟩ := hinv.lives resource
  obtain ⟨construct, rfl⟩ := hliving.gets get _ hthrew
  have htagged : resources.context.Tagged resource := hliving.tagged.mpr trivial
  have hnone : resources.context.dependencies resource = none := hliving.dependency
  constructor
  case tagged => exact htagged
  case unmade =>
    intro other construction hget
    cases hliving.gets other _ hget
  case noDependency => exact hnone
  case waitersWait =>
    intro other promise hget
    rcases hinv.promised.waits other resource promise hget with hmem | ⟨⟨object, hstored⟩, _⟩
    · exact hinv.promised.pending _ hmem
    · rw [hnone] at hstored
      cases hstored
  case waits =>
    rw [exec_createAndGet_tagged hnone htagged]
    exact ⟨_, rfl⟩

/-- In every state after a construction of the resource has failed, whatever made it fail. -/
theorem stranded_of_run {actions : List (Action R O)}
    (hrun : Run (Step factories name) start actions resources)
    (hthrew : resources.IsGet get resource (.threw fault)) :
    Stranded factories name resource resources ∧
      ¬ CleanedUp factories name resource resources := by
  have hstranded : Stranded factories name resource resources :=
    (invariant_of_run hrun).stranded hthrew
  exact ⟨hstranded, hstranded.not_cleanedUp⟩

/-- What a call for a resource without a factory leaves. -/
def unregistered : Resources Nat Nat where
  context := ⟨fun _ => none, [(0, 0)]⟩
  promises := ⟨[.make], [], none⟩
  gets := [⟨0, .threw (.thrown ⟨.notFound, "Server resource i has no factory registered."⟩)⟩]
  constructs := []
  invoked := []

theorem run_unregistered :
    Run (Step (fun _ => none) fun _ => "i") start [.call 0, .begin 0] unregistered := by
  have hbegun : (createAndGet (fun _ => none) (fun _ => "i") 0).exec
      { (start : Resources Nat Nat) with gets := [⟨0, .called⟩] } =
        (.error (.thrown ⟨.notFound, "Server resource i has no factory registered."⟩),
          { unregistered with gets := [⟨0, .called⟩] }) := rfl
  exact .cons (.call 0) (.cons (.begin rfl hbegun) (.nil _))

theorem stranded_of_run_unregistered :
    Stranded (fun _ => none) (fun _ => "i") 0 unregistered ∧
      ¬ CleanedUp (fun _ => none) (fun _ => "i") 0 unregistered := by
  have hthrew : unregistered.IsGet 0 0 (.threw _) := rfl
  exact stranded_of_run run_unregistered hthrew

/-- A construction that fails does not always leave the context clean. -/
theorem not_cleanedUp_of_unregistered :
    ¬ ∀ (factories : Nat → Option (List Nat)) (name : Nat → String)
      (actions : List (Action Nat Nat)) (resources : Resources Nat Nat) (get resource : Nat)
      (fault : Fault), Run (Step factories name) start actions resources →
        resources.IsGet get resource (.threw fault) →
          CleanedUp factories name resource resources := by
  intro hclean
  have hcleaned := hclean _ _ _ _ 0 0 _ run_unregistered rfl
  exact hcleaned.noConstruction ⟨0, List.mem_singleton.mpr rfl⟩

end Resources

end Liblw.Net
