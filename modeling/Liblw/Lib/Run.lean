import Mathlib.Tactic.Common

/-!
# Runs

The runs of a system that takes labelled steps. An invariant is shown for one step and holds of
every state that a run visits.
-/

namespace Liblw.Lib

variable {State Action : Type}

inductive Run (step : State → Action → State → Prop) : State → List Action → State → Prop where
  | nil (state : State) : Run step state [] state
  | cons {state middle final : State} {action : Action} {actions : List Action}
      (hstep : step state action middle) (hrun : Run step middle actions final) :
      Run step state (action :: actions) final

namespace Run

variable {step : State → Action → State → Prop} {start state final : State}
  {action : Action} {actions earlier later : List Action}

/-- The run from `start` to `final` goes through the state. -/
def Visits (step : State → Action → State → Prop) (start : State) (actions : List Action)
    (final state : State) : Prop :=
  ∃ earlier later, actions = earlier ++ later ∧ Run step start earlier state ∧
    Run step state later final

/-- The run takes a step with the action from the one state to the other. -/
def Takes (step : State → Action → State → Prop) (start : State) (actions : List Action)
    (final before : State) (action : Action) (after : State) : Prop :=
  ∃ earlier later, actions = earlier ++ action :: later ∧ Run step start earlier before ∧
    step before action after ∧ Run step after later final

/-- Every step of the run meets the condition in the state that it is taken in. -/
def Keeps (step : State → Action → State → Prop) (start : State)
    (condition : State → Action → Prop) (actions : List Action) (final : State) : Prop :=
  ∀ before action after, Takes step start actions final before action after →
    condition before action

theorem append (hfirst : Run step start earlier state) (hsecond : Run step state later final) :
    Run step start (earlier ++ later) final := by
  induction hfirst with
  | nil => exact hsecond
  | cons hstep _ ih => exact .cons hstep (ih hsecond)

theorem visits_final (hrun : Run step start actions final) :
    Visits step start actions final final :=
  ⟨actions, [], (List.append_nil actions).symm, hrun, .nil final⟩

theorem mem_of_takes {before after : State}
    (htakes : Takes step start actions final before action after) : action ∈ actions := by
  obtain ⟨earlier, later, rfl, -⟩ := htakes
  exact List.mem_append_right earlier List.mem_cons_self

theorem takes_head {middle : State} (hstep : step start action middle)
    (hrun : Run step middle actions final) :
    Takes step start (action :: actions) final start action middle :=
  ⟨[], actions, rfl, .nil start, hstep, hrun⟩

theorem takes_cons {middle before after : State} {taken : Action}
    (hstep : step start action middle)
    (htakes : Takes step middle actions final before taken after) :
    Takes step start (action :: actions) final before taken after := by
  obtain ⟨earlier, later, rfl, hearlier, htaken, hlater⟩ := htakes
  exact ⟨action :: earlier, later, rfl, .cons hstep hearlier, htaken, hlater⟩

/-- Where an action leads to one state only, a run whose steps meet the condition is the only one
with its actions. -/
theorem keeps_of_unique {condition : State → Action → Prop}
    (hunique : ∀ {state action next other}, step state action next → step state action other →
      next = other)
    (hrun : Run (fun state action next => condition state action ∧ step state action next) start
      actions final) :
    Run step start actions final ∧ Keeps step start condition actions final := by
  induction hrun with
  | nil state =>
      refine ⟨.nil state, ?_⟩
      rintro before action after ⟨earlier, later, hactions, -⟩
      exact absurd hactions.symm (List.append_ne_nil_of_right_ne_nil _ (List.cons_ne_nil _ _))
  | @cons state middle final action actions hstep _ ih =>
      obtain ⟨hfirst, hstep⟩ := hstep
      refine ⟨.cons hstep ih.1, ?_⟩
      rintro before taken after ⟨earlier, later, hactions, hearlier, htaken, hlater⟩
      cases hearlier with
      | nil =>
          rw [List.nil_append, List.cons.injEq] at hactions
          exact hactions.1 ▸ hfirst
      | @cons _ next _ _ earlier hother hearlier =>
          rw [List.cons_append, List.cons.injEq] at hactions
          obtain ⟨rfl, rfl⟩ := hactions
          obtain rfl := hunique hstep hother
          exact ih.2 before taken after ⟨earlier, later, rfl, hearlier, htaken, hlater⟩

/-- What every step with an allowed action preserves. -/
theorem preserves (Invariant : State → Prop) {Allowed : Action → Prop}
    (hpreserves : ∀ {before action after}, Allowed action → step before action after →
      Invariant before → Invariant after)
    (hrun : Run step start actions final) (hallowed : ∀ action ∈ actions, Allowed action)
    (hstart : Invariant start) : Invariant final := by
  induction hrun with
  | nil => exact hstart
  | cons hstep _ ih =>
      rw [List.forall_mem_cons] at hallowed
      exact ih hallowed.2 (hpreserves hallowed.1 hstep hstart)

/-- What every step preserves that meets a condition in the state it is taken in. -/
theorem preserves_of_takes (Invariant : State → Prop) {Meets : State → Action → Prop}
    (hpreserves : ∀ {before action after}, Meets before action → step before action after →
      Invariant before → Invariant after)
    (hrun : Run step start actions final)
    (hmeets : ∀ before action after, Takes step start actions final before action after →
      Meets before action)
    (hstart : Invariant start) : Invariant final := by
  induction hrun with
  | nil => exact hstart
  | @cons state middle final action actions hstep hrun ih =>
      have hfirst : Meets state action :=
        hmeets state action middle ⟨[], actions, rfl, .nil state, hstep, hrun⟩
      apply ih _ (hpreserves hfirst hstep hstart)
      rintro before action' after ⟨earlier, later, rfl, hearlier, htaken, hlater⟩
      exact hmeets before action' after
        ⟨action :: earlier, later, rfl, .cons hstep hearlier, htaken, hlater⟩

/-- What only certain steps end, and for good, holds to the end of a run that takes none of them. -/
theorem lasts_iff (Invariant Holds : State → Prop) {Ends : State → Action → Prop}
    (hpreserves : ∀ {before action after}, step before action after → Invariant before →
      Invariant after)
    (hlasts : ∀ {before action after}, step before action after → Invariant before →
      (Holds after ↔ Holds before ∧ ¬ Ends before action))
    (hrun : Run step start actions final) (hstart : Invariant start) :
    Holds final ↔ Holds start ∧ ∀ before action after,
      Takes step start actions final before action after → ¬ Ends before action := by
  have hback : ∀ {state later}, Run step state later final → Invariant state → Holds final →
      Holds state := by
    intro state later hlater
    induction hlater with
    | nil => exact fun _ => id
    | cons hstep _ ih =>
        exact fun hstate hfinal =>
          ((hlasts hstep hstate).mp (ih hrun (hpreserves hstep hstate) hfinal)).1
  constructor
  · intro hfinal
    refine ⟨hback hrun hstart hfinal, ?_⟩
    rintro before action after ⟨earlier, later, rfl, hearlier, htaken, hlater⟩
    have hbefore : Invariant before :=
      hearlier.preserves Invariant (fun _ hstep => hpreserves hstep) (fun _ _ => trivial) hstart
    exact ((hlasts htaken hbefore).mp (hback hlater (hpreserves htaken hbefore) hfinal)).2
  · rintro ⟨hholds, hends⟩
    refine (hrun.preserves_of_takes (fun state => Invariant state ∧ Holds state) ?_ hends
      ⟨hstart, hholds⟩).2
    rintro before action after hmeets hstep ⟨hbefore, hholds⟩
    exact ⟨hpreserves hstep hbefore, (hlasts hstep hbefore).mpr ⟨hholds, hmeets⟩⟩

/-- A measure that every step raises bounds the length of a run. -/
theorem raises (Invariant : State → Prop) (measure : State → Nat)
    (hraises : ∀ {before action after}, Invariant before → step before action after →
      Invariant after ∧ measure before < measure after)
    (hrun : Run step start actions final) (hstart : Invariant start) :
    Invariant final ∧ measure start + actions.length ≤ measure final := by
  induction hrun with
  | nil => exact ⟨hstart, Nat.le_refl _⟩
  | cons hstep _ ih =>
      obtain ⟨hmiddle, hless⟩ := hraises hstart hstep
      obtain ⟨hfinal, hlength⟩ := ih hmiddle
      refine ⟨hfinal, ?_⟩
      rw [List.length_cons]
      omega

end Run

end Liblw.Lib
