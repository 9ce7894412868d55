import Liblw.Lib.Call

/-!
# Calls with fuel

A recursion that is given fuel throws once it has run out of it. It ends when from some amount of
fuel on it comes to one and the same outcome, which is another one.
-/

namespace Liblw.Lib.Call

variable {ε σ α β : Type} {exhausted : ε} {state middle : σ}

def Ends (exhausted : ε) (call : Nat → Call ε σ α) (state : σ) : Prop :=
  ∃ bound outcome, outcome.1 ≠ .error exhausted ∧
    ∀ fuel, bound ≤ fuel → (call fuel).exec state = outcome

theorem ends_of_eq {call : Nat → Call ε σ α} {outcome : Except ε α × σ}
    (houtcome : outcome.1 ≠ .error exhausted) (heq : ∀ fuel, (call fuel).exec state = outcome) :
    Ends exhausted call state :=
  ⟨0, outcome, houtcome, fun fuel _ => heq fuel⟩

theorem ends_pure (value : α) (state : σ) :
    Ends exhausted (fun _ => (pure value : Call ε σ α)) state := by
  have hvalue : (Except.ok value, state).1 ≠ .error exhausted := nofun
  exact ends_of_eq hvalue fun _ => exec_pure value state

/-- The first round takes one unit of fuel. -/
theorem ends_of_succ {call rest : Nat → Call ε σ α}
    (hround : ∀ fuel, (call (fuel + 1)).exec state = (rest fuel).exec middle)
    (hrest : Ends exhausted rest middle) : Ends exhausted call state := by
  obtain ⟨bound, outcome, houtcome, hends⟩ := hrest
  refine ⟨bound + 1, outcome, houtcome, fun fuel hbound => ?_⟩
  obtain ⟨fuel, rfl⟩ := Nat.exists_eq_add_of_le' (Nat.le_of_add_left_le hbound)
  rw [hround, hends fuel (by omega)]

theorem Ends.bind {call : Nat → Call ε σ α} {next : Nat → α → Call ε σ β}
    (hcall : Ends exhausted call state)
    (hnext : ∀ value middle, Ends exhausted (fun fuel => next fuel value) middle) :
    Ends exhausted (fun fuel => call fuel >>= next fuel) state := by
  obtain ⟨bound, ⟨result, middle⟩, hresult, hcall⟩ := hcall
  cases result with
  | error error =>
      refine ⟨bound, (.error error, middle), ?_, fun fuel hbound => ?_⟩
      · exact fun hsame => hresult (congrArg Except.error (Except.error.inj hsame))
      · rw [exec_bind_error (hcall fuel hbound)]
  | ok value =>
      obtain ⟨bound', outcome, houtcome, hnext⟩ := hnext value middle
      refine ⟨max bound bound', outcome, houtcome, fun fuel hbound => ?_⟩
      rw [exec_bind_ok (hcall fuel (le_of_max_le_left hbound)),
        hnext fuel (le_of_max_le_right hbound)]

end Liblw.Lib.Call
