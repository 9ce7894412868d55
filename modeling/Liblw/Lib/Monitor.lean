import Liblw.Lib.Machine

/-!
# Monitors

A monitor watches a machine from the outside. It has a state of its own, which goes by the inputs
and the answers, and says at each input which answers are right.
-/

namespace Liblw.Lib

structure Monitor (Input Output Watched : Type) where
  allows : Watched → Input → Output → Prop
  after : Watched → Input → Output → Watched

namespace Machine

variable {Input Output State Watched : Type} {machine : Machine Input Output State}
  {monitor : Monitor Input Output Watched}

/-- The monitor allows every answer of a run. -/
def Follows (machine : Machine Input Output State) (monitor : Monitor Input Output Watched) :
    State → Watched → List Input → Prop
  | _, _, [] => True
  | state, watched, input :: inputs =>
      monitor.allows watched input (machine state input).1 ∧
        Follows machine monitor (machine state input).2
          (monitor.after watched input (machine state input).1) inputs

/-- Every input of a run meets a condition on the states that it comes at. -/
def Meets (machine : Machine Input Output State) (monitor : Monitor Input Output Watched)
    (condition : State → Watched → Input → Prop) : State → Watched → List Input → Prop
  | _, _, [] => True
  | state, watched, input :: inputs =>
      condition state watched input ∧
        Meets machine monitor condition (machine state input).2
          (monitor.after watched input (machine state input).1) inputs

/-- What the monitor has come to at the end of a run. -/
def watch (machine : Machine Input Output State) (monitor : Monitor Input Output Watched) :
    State → Watched → List Input → Watched
  | _, watched, [] => watched
  | state, watched, input :: inputs =>
      watch machine monitor (machine state input).2
        (monitor.after watched input (machine state input).1) inputs

/-- A condition that says of related states when the answer is right says it of whole runs, if what
is right keeps them related. -/
theorem follows_iff_meets {condition : State → Watched → Input → Prop}
    {Related : State → Watched → Prop}
    (hallows : ∀ state watched input, Related state watched →
      (monitor.allows watched input (machine state input).1 ↔ condition state watched input))
    (hnext : ∀ state watched input, Related state watched → condition state watched input →
      Related (machine state input).2 (monitor.after watched input (machine state input).1))
    {state : State} {watched : Watched} (hstart : Related state watched) (inputs : List Input) :
    machine.Follows monitor state watched inputs ↔
      machine.Meets monitor condition state watched inputs := by
  induction inputs generalizing state watched with
  | nil => exact Iff.rfl
  | cons input inputs ih =>
      unfold Follows Meets
      rw [hallows state watched input hstart]
      exact and_congr_right fun hmeets => ih (hnext state watched input hstart hmeets)

end Machine

end Liblw.Lib
