import Mathlib.Tactic

/-!
# Calls that keep their state when they fail

A method of an object with private fields reads and updates those fields and may throw half way
through. What it wrote before it threw is still there afterwards, so a call is a state transformer
whose result, value or error, comes with the state it leaves in both cases.
-/

namespace Liblw.Lib

abbrev Call (ε σ α : Type) := ExceptT ε (StateM σ) α

namespace Call

variable {ε σ α β : Type}

/-- The result of a call on a state, and the state it leaves. -/
def exec (call : Call ε σ α) (state : σ) : Except ε α × σ :=
  (ExceptT.run call).run state

@[simp]
theorem exec_pure (value : α) (state : σ) :
    (pure value : Call ε σ α).exec state = (.ok value, state) := rfl

@[simp]
theorem exec_throw (error : ε) (state : σ) :
    (throw error : Call ε σ α).exec state = (.error error, state) := rfl

@[simp]
theorem exec_get (state : σ) : (get : Call ε σ σ).exec state = (.ok state, state) := rfl

@[simp]
theorem exec_set (next state : σ) :
    (set next : Call ε σ PUnit).exec state = (.ok ⟨⟩, next) := rfl

@[simp]
theorem exec_modify (update : σ → σ) (state : σ) :
    (modify update : Call ε σ PUnit).exec state = (.ok ⟨⟩, update state) := rfl

theorem exec_bind (call : Call ε σ α) (next : α → Call ε σ β) (state : σ) :
    (call >>= next).exec state =
      match call.exec state with
      | (.ok value, middle) => (next value).exec middle
      | (.error error, middle) => (.error error, middle) := by
  change (ExceptT.run (call >>= next)).run state = _
  rw [ExceptT.run_bind]
  unfold exec
  simp only [StateT.run_bind]
  rcases (ExceptT.run call).run state with ⟨result, middle⟩
  cases result <;> rfl

theorem exec_bind_ok {call : Call ε σ α} {next : α → Call ε σ β} {state middle : σ} {value : α}
    (hcall : call.exec state = (.ok value, middle)) :
    (call >>= next).exec state = (next value).exec middle := by
  rw [exec_bind, hcall]

theorem exec_bind_error {call : Call ε σ α} {next : α → Call ε σ β} {state middle : σ} {error : ε}
    (hcall : call.exec state = (.error error, middle)) :
    (call >>= next).exec state = (.error error, middle) := by
  rw [exec_bind, hcall]

/-- The result is only passed on. -/
theorem exec_bind_pure (call : Call ε σ α) (function : α → β) (state : σ) :
    (call >>= fun value => pure (function value)).exec state =
      ((call.exec state).1.map function, (call.exec state).2) := by
  rw [exec_bind]
  rcases call.exec state with ⟨result, final⟩
  cases result <;> rfl

@[simp]
theorem exec_get_bind (next : σ → Call ε σ α) (state : σ) :
    (get >>= next : Call ε σ α).exec state = (next state).exec state := rfl

@[simp]
theorem exec_set_bind (middle : σ) (next : PUnit → Call ε σ α) (state : σ) :
    (set middle >>= next : Call ε σ α).exec state = (next ⟨⟩).exec middle := rfl

@[simp]
theorem exec_modify_bind (update : σ → σ) (next : PUnit → Call ε σ α) (state : σ) :
    (modify update >>= next : Call ε σ α).exec state = (next ⟨⟩).exec (update state) := rfl

/-- A function of a library that changes the state and does not throw. -/
def ofFunction (function : σ → α × σ) : Call ε σ α :=
  ExceptT.mk fun state => (.ok (function state).1, (function state).2)

@[simp]
theorem exec_ofFunction (function : σ → α × σ) (state : σ) :
    (ofFunction function : Call ε σ α).exec state =
      (.ok (function state).1, (function state).2) := rfl

theorem exec_tryCatch (call : Call ε σ α) (handler : ε → Call ε σ α) (state : σ) :
    (tryCatch call handler).exec state =
      match call.exec state with
      | (.ok value, final) => (.ok value, final)
      | (.error error, middle) => (handler error).exec middle := by
  change (ExceptT.run (tryCatch call handler)).run state = _
  rw [ExceptT.run_tryCatch]
  unfold exec
  simp only [StateT.run_bind]
  rcases (ExceptT.run call).run state with ⟨result, middle⟩
  cases result <;> rfl

/-- A call on a part of the state. -/
def within {τ : Type} (part : τ → σ) (update : σ → τ → τ) (call : Call ε σ α) : Call ε τ α :=
  ExceptT.mk fun state => ((call.exec (part state)).1, update (call.exec (part state)).2 state)

theorem exec_within {τ : Type} (part : τ → σ) (update : σ → τ → τ) (call : Call ε σ α)
    (state : τ) :
    (call.within part update).exec state =
      ((call.exec (part state)).1, update (call.exec (part state)).2 state) := rfl

theorem exec_within_eq_ok {τ : Type} {part : τ → σ} {update : σ → τ → τ} {call : Call ε σ α}
    {state final : τ} {value : α}
    (hexec : (call.within part update).exec state = (.ok value, final)) :
    ∃ inner, call.exec (part state) = (.ok value, inner) ∧ final = update inner state := by
  rw [exec_within, Prod.mk.injEq] at hexec
  exact ⟨(call.exec (part state)).2, Prod.ext hexec.1 rfl, hexec.2.symm⟩

/-- A call that is made only under a condition. -/
def onlyIf (condition : Prop) [Decidable condition] (call : Call ε σ Unit) : Call ε σ Unit :=
  if condition then call else pure ()

theorem exec_ite (condition : Prop) [Decidable condition] (first second : Call ε σ α) (state : σ) :
    (if condition then first else second).exec state =
      if condition then first.exec state else second.exec state := by
  split_ifs <;> rfl

/-- The call throws, whatever it throws and wherever it leaves the state. -/
def Fails (call : Call ε σ α) (state : σ) : Prop :=
  ∃ error final, call.exec state = (.error error, final)

theorem fails_bind_left {call : Call ε σ α} {next : α → Call ε σ β} {state : σ}
    (hcall : call.Fails state) : (call >>= next).Fails state := by
  obtain ⟨error, final, hexec⟩ := hcall
  exact ⟨error, final, exec_bind_error hexec⟩

theorem fails_bind_right {call : Call ε σ α} {next : α → Call ε σ β} {state middle : σ} {value : α}
    (hcall : call.exec state = (.ok value, middle)) (hnext : (next value).Fails middle) :
    (call >>= next).Fails state := by
  obtain ⟨error, final, hexec⟩ := hnext
  exact ⟨error, final, by rw [exec_bind_ok hcall, hexec]⟩

theorem not_fails_of_ok {call : Call ε σ α} {state final : σ} {value : α}
    (hcall : call.exec state = (.ok value, final)) : ¬ call.Fails state := by
  rintro ⟨error, other, hexec⟩
  rw [hcall] at hexec
  cases hexec

/-- Whatever the call throws is of the kind. -/
def ErrorsAre (kind : ε → Prop) (call : Call ε σ α) : Prop :=
  ∀ state error final, call.exec state = (.error error, final) → kind error

section ErrorsAre

variable {kind : ε → Prop}

theorem errorsAre_pure (value : α) : (pure value : Call ε σ α).ErrorsAre kind := by
  intro state error final hexec
  cases hexec

theorem errorsAre_modify (update : σ → σ) : (modify update : Call ε σ PUnit).ErrorsAre kind := by
  intro state error final hexec
  cases hexec

theorem errorsAre_throw {error : ε} (herror : kind error) :
    (throw error : Call ε σ α).ErrorsAre kind := by
  intro state error' final hexec
  rw [exec_throw, Prod.mk.injEq, Except.error.injEq] at hexec
  rw [← hexec.1]
  exact herror

theorem ErrorsAre.bind {call : Call ε σ α} {next : α → Call ε σ β} (hcall : call.ErrorsAre kind)
    (hnext : ∀ state value middle, call.exec state = (.ok value, middle) →
      (next value).ErrorsAre kind) : (call >>= next).ErrorsAre kind := by
  intro state error final hexec
  rw [exec_bind] at hexec
  rcases hfirst : call.exec state with ⟨result, middle⟩
  rw [hfirst] at hexec
  cases result with
  | ok value => exact hnext state value middle hfirst middle error final hexec
  | error error' =>
      rw [Prod.mk.injEq, Except.error.injEq] at hexec
      rw [← hexec.1]
      exact hcall state error' middle hfirst

end ErrorsAre

/-- Inversion of a sequence that returned: both halves returned. -/
theorem exec_bind_eq_ok {call : Call ε σ α} {next : α → Call ε σ β} {state final : σ} {value : β}
    (hexec : (call >>= next).exec state = (.ok value, final)) :
    ∃ first middle, call.exec state = (.ok first, middle) ∧
      (next first).exec middle = (.ok value, final) := by
  rw [exec_bind] at hexec
  rcases hcall : call.exec state with ⟨result, middle⟩
  cases result with
  | ok first =>
      rw [hcall] at hexec
      exact ⟨first, middle, rfl, hexec⟩
  | error error =>
      rw [hcall] at hexec
      cases hexec

end Call

end Liblw.Lib
