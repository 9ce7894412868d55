import Mathlib.Tactic.Common

/-!
# Machines

A machine takes one input after another. It answers each of them and may change its state, whatever
the input is. A machine simulates another one if related states answer alike and stay related.
-/

namespace Liblw.Lib

abbrev Machine (Input Output State : Type) := State → Input → Output × State

namespace Machine

variable {Input Output State Abstract : Type} {machine : Machine Input Output State}
  {abstract : Machine Input Output Abstract} {state : State} {inputs : List Input}

/-- The answers to the inputs, and the state after them. -/
def run (machine : Machine Input Output State) : State → List Input → List Output × State
  | state, [] => ([], state)
  | state, input :: inputs =>
      ((machine state input).1 :: (run machine (machine state input).2 inputs).1,
        (run machine (machine state input).2 inputs).2)

theorem run_cons (input : Input) :
    machine.run state (input :: inputs) =
      ((machine state input).1 :: (machine.run (machine state input).2 inputs).1,
        (machine.run (machine state input).2 inputs).2) := rfl

/-- What every input preserves. -/
theorem run_preserves {Invariant : State → Prop}
    (hpreserves : ∀ state input, Invariant state → Invariant (machine state input).2)
    (hstart : Invariant state) (inputs : List Input) : Invariant (machine.run state inputs).2 := by
  induction inputs generalizing state with
  | nil => exact hstart
  | cons input inputs ih => exact ih (hpreserves state input hstart)

/-- Related states answer alike, and stay related. -/
def Simulates (machine : Machine Input Output State) (abstract : Machine Input Output Abstract)
    (Related : State → Abstract → Prop) : Prop :=
  ∀ state spec input, Related state spec →
    (machine state input).1 = (abstract spec input).1 ∧
      Related (machine state input).2 (abstract spec input).2

/-- A simulation goes through whole runs. -/
theorem Simulates.run {Related : State → Abstract → Prop} {spec : Abstract}
    (hsimulates : machine.Simulates abstract Related) (hstart : Related state spec)
    (inputs : List Input) :
    (machine.run state inputs).1 = (abstract.run spec inputs).1 ∧
      Related (machine.run state inputs).2 (abstract.run spec inputs).2 := by
  induction inputs generalizing state spec with
  | nil => exact ⟨rfl, hstart⟩
  | cons input inputs ih =>
      obtain ⟨hanswer, hnext⟩ := hsimulates state spec input hstart
      obtain ⟨hanswers, hfinal⟩ := ih hnext
      refine ⟨?_, hfinal⟩
      rw [run_cons, run_cons, hanswer, hanswers]

end Machine

end Liblw.Lib
