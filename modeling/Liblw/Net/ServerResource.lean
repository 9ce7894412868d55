import Mathlib.Logic.Function.Basic
import Liblw.Co.Future

/-!
# Server resources

The resources of a request are made once and kept in a context. A coroutine that asks for a resource
finds it there, waits for another that is making it, or makes it: it leaves a tag, has the
resource's dependencies made, calls the factory, stores what that makes, and tells all that wait.
-/

namespace Liblw.Net

open Liblw.Lib Liblw.Co

variable {R O : Type}

/-- A resource is known by its type, and an object by the pointer to it. A promise of the multimap
is that of the place in the store. -/
structure ServerResourceContext (R O : Type) where
  dependencies : R → Option O
  construction : List (R × Nat)

namespace ServerResourceContext

variable [DecidableEq R]

def make : ServerResourceContext R O := ⟨fun _ => none, []⟩

def underConstruction (context : ServerResourceContext R O) (resource : R) : Bool :=
  context.construction.any fun entry => entry.1 = resource

def equalRange (context : ServerResourceContext R O) (resource : R) : List Nat :=
  (context.construction.filter fun entry => entry.1 = resource).map Prod.snd

def emplace (context : ServerResourceContext R O) (resource : R) (promise : Nat) :
    ServerResourceContext R O :=
  { context with construction := context.construction ++ [(resource, promise)] }

def erase (context : ServerResourceContext R O) (resource : R) : ServerResourceContext R O :=
  { context with construction := context.construction.filter fun entry => entry.1 ≠ resource }

def assign (context : ServerResourceContext R O) (resource : R) (object : O) :
    ServerResourceContext R O :=
  { context with dependencies := Function.update context.dependencies resource (some object) }

end ServerResourceContext

/-! ### The coroutines -/

/-- What `create_and_get` is at: just called, suspended on a promise of the multimap or on a
construction, or ended. -/
inductive GetStage (O : Type) where
  | called
  | waiting (promise : Nat)
  | constructing (construction : Nat)
  | returned (object : O)
  | threw (fault : Fault)

namespace GetStage

/-- An exception that leaves the coroutine goes into its future. -/
def ofCall : Result (GetStage O) → GetStage O
  | .ok stage => stage
  | .error fault => threw fault

def ofResult : Result O → GetStage O
  | .ok object => returned object
  | .error fault => threw fault

end GetStage

structure CreateAndGet (R O : Type) where
  resource : R
  stage : GetStage O

/-- What the coroutine of a construction is at: it awaits the dependencies that it asked for, or the
future of the factory, or it ended. -/
inductive ConstructStage (O : Type) where
  | fetching (gets : List Nat)
  | building
  | returned (object : O)
  | threw (fault : Fault)

structure Construct (R O : Type) where
  resource : R
  stage : ConstructStage O

/-- The context of a request, the promises of the multimap, the coroutines, and the calls of
factories with what they were called with. -/
structure Resources (R O : Type) where
  context : ServerResourceContext R O
  promises : Store Fault Unit
  gets : List (CreateAndGet R O)
  constructs : List (Construct R O)
  invoked : List (R × List O)

namespace Resources

variable [DecidableEq R]

def start : Resources R O := ⟨.make, ⟨[], [], none⟩, [], [], []⟩

def onPromises {α : Type} (call : Call Fault (Store Fault Unit) α) :
    Call Fault (Resources R O) α :=
  call.within promises fun promises resources => { resources with promises }

/-- A fresh promise comes into the multimap. -/
def emplace (resource : R) : Call Fault (Resources R O) Nat := do
  let resources ← get
  let promise := resources.promises.states.length
  set { resources with
    context := resources.context.emplace resource promise
    promises := { resources.promises with
      states := resources.promises.states ++ [SharedPromiseState.make] } }
  pure promise

/-- `at` of the dependencies. -/
def getAt (resource : R) : Call Fault (Resources R O) O := do
  let resources ← get
  match resources.context.dependencies resource with
  | some object => pure object
  | none => throw (.standard .outOfRange)

/-- `invoke` calls `create_and_get` for each of the dependencies at once. -/
def invoke (resource : R) (dependencies : List R) : Call Fault (Resources R O) Nat := do
  let resources ← get
  let gets := List.range' resources.gets.length dependencies.length
  set { resources with
    gets := resources.gets ++ dependencies.map fun dependency =>
      (⟨dependency, .called⟩ : CreateAndGet R O)
    constructs := resources.constructs ++ [(⟨resource, .fetching gets⟩ : Construct R O)] }
  pure resources.constructs.length

section Factories

variable (factories : R → Option (List R)) (name : R → String)

/-- `factories` has the dependencies of the resources that a factory is registered for, and `name`
the names of the types. -/
def constructServerResource (resource : R) : Call Fault (Resources R O) Nat :=
  match factories resource with
  | none => raise .notFound s!"Server resource {name resource} has no factory registered."
  | some dependencies => invoke resource dependencies

/-- `create_and_get` up to where it is suspended or has ended. -/
def createAndGet (resource : R) : Call Fault (Resources R O) (GetStage O) := do
  let resources ← get
  match resources.context.dependencies resource with
  | some object => pure (.returned object)
  | none =>
      if resources.context.underConstruction resource then
        let promise ← emplace resource
        pure (.waiting promise)
      else
        let _ ← emplace resource
        let construction ← constructServerResource factories name resource
        pure (.constructing construction)

end Factories

/-- `create_and_get` once the promise that it waits for is set. -/
def resumeWaiting (resource : R) (promise : Nat) : Call Fault (Resources R O) O := do
  let outcome ← onPromises (Future.awaitResume promise)
  match outcome with
  | .ok () => getAt resource
  | .error fault => throw fault

def notify : List Nat → Call Fault (Resources R O) Unit
  | [] => pure ()
  | promise :: promises => do
      onPromises (Promise.setValue promise ())
      notify promises

/-- `create_and_get` once the construction has returned the object. The right side of the
assignment comes before its left side, so the entry is not there before. -/
def resumeConstructing (resource : R) (object : O) : Call Fault (Resources R O) O := do
  modify fun resources => { resources with context := resources.context.assign resource object }
  let resources ← get
  notify (resources.context.equalRange resource)
  modify fun resources => { resources with context := resources.context.erase resource }
  getAt resource

def withGet (place : Nat) (resource : R) (stage : GetStage O) (resources : Resources R O) :
    Resources R O :=
  { resources with gets := resources.gets.set place ⟨resource, stage⟩ }

def withConstruct (place : Nat) (resource : R) (stage : ConstructStage O)
    (resources : Resources R O) : Resources R O :=
  { resources with constructs := resources.constructs.set place ⟨resource, stage⟩ }

inductive Action (R O : Type) where
  | call (resource : R)
  | begin (get : Nat)
  | wake (get : Nat)
  | invoke (construct : Nat)
  | failFetch (construct : Nat)
  | build (construct : Nat) (object : O)
  | failBuild (construct : Nat) (fault : Fault)
  | finish (get : Nat)
  | fail (get : Nat)

variable (factories : R → Option (List R)) (name : R → String)

/-- A coroutine goes on at any time once it is called or what it awaits is set, so the order of the
scheduler is one of those there are. A factory ends at any time, with an object or an exception. -/
inductive Step : Resources R O → Action R O → Resources R O → Prop where
  | call {resources : Resources R O} (resource : R) :
      Step resources (.call resource)
        { resources with gets := resources.gets ++ [⟨resource, .called⟩] }
  | begin {resources after : Resources R O} {get : Nat} {resource : R}
      {result : Result (GetStage O)}
      (hget : resources.gets[get]? = some ⟨resource, .called⟩)
      (hexec : (createAndGet factories name resource).exec resources = (result, after)) :
      Step resources (.begin get) (after.withGet get resource (.ofCall result))
  | wake {resources after : Resources R O} {get : Nat} {resource : R} {promise : Nat}
      {result : Result O} (hget : resources.gets[get]? = some ⟨resource, .waiting promise⟩)
      (hready : (Future.awaitReady promise).exec resources.promises =
        (.ok true, resources.promises))
      (hexec : (resumeWaiting resource promise).exec resources = (result, after)) :
      Step resources (.wake get) (after.withGet get resource (.ofResult result))
  | invoke {resources : Resources R O} {construct : Nat} {resource : R} {gets : List Nat}
      {objects : List O}
      (hconstruct : resources.constructs[construct]? = some ⟨resource, .fetching gets⟩)
      (hobjects : List.Forall₂ (fun get object =>
        ∃ dependency, resources.gets[get]? = some ⟨dependency, .returned object⟩) gets objects) :
      Step resources (.invoke construct)
        { resources.withConstruct construct resource .building with
          invoked := resources.invoked ++ [(resource, objects)] }
  | failFetch {resources : Resources R O} {construct get : Nat} {resource dependency : R}
      {gets : List Nat} {fault : Fault}
      (hconstruct : resources.constructs[construct]? = some ⟨resource, .fetching gets⟩)
      (hmem : get ∈ gets) (hthrew : resources.gets[get]? = some ⟨dependency, .threw fault⟩) :
      Step resources (.failFetch construct)
        (resources.withConstruct construct resource (.threw fault))
  | build {resources : Resources R O} {construct : Nat} {resource : R} (object : O)
      (hconstruct : resources.constructs[construct]? = some ⟨resource, .building⟩) :
      Step resources (.build construct object)
        (resources.withConstruct construct resource (.returned object))
  | failBuild {resources : Resources R O} {construct : Nat} {resource : R} (fault : Fault)
      (hconstruct : resources.constructs[construct]? = some ⟨resource, .building⟩) :
      Step resources (.failBuild construct fault)
        (resources.withConstruct construct resource (.threw fault))
  | finish {resources after : Resources R O} {get construct : Nat} {resource other : R}
      {object : O} {result : Result O}
      (hget : resources.gets[get]? = some ⟨resource, .constructing construct⟩)
      (hconstruct : resources.constructs[construct]? = some ⟨other, .returned object⟩)
      (hexec : (resumeConstructing resource object).exec resources = (result, after)) :
      Step resources (.finish get) (after.withGet get resource (.ofResult result))
  | fail {resources : Resources R O} {get construct : Nat} {resource other : R} {fault : Fault}
      (hget : resources.gets[get]? = some ⟨resource, .constructing construct⟩)
      (hconstruct : resources.constructs[construct]? = some ⟨other, .threw fault⟩) :
      Step resources (.fail get) (resources.withGet get resource (.threw fault))

end Resources

end Liblw.Net
