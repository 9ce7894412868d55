import Liblw.Lib.Call

/-!
# Calls on a view of their state

Another call does on a view of the state what the call does on the state: it has the same result and
leaves the view of what the call leaves. The states are those that keep an invariant.
-/

namespace Liblw.Lib.Call

variable {ε σ τ α β : Type}

structure Simulates (Inv : σ → Prop) (view : σ → τ) (call : Call ε σ α) (other : Call ε τ α) :
    Prop where
  keeps : ∀ state, Inv state → Inv (call.exec state).2
  exec : ∀ state, Inv state →
    other.exec (view state) = ((call.exec state).1, view (call.exec state).2)

section Simulates

variable {Inv : σ → Prop} {view : σ → τ} {call : Call ε σ α} {other : Call ε τ α}

theorem simulates_pure (value : α) :
    Simulates Inv view (pure value : Call ε σ α) (pure value) :=
  ⟨fun _ hinv => hinv, fun _ _ => rfl⟩

theorem simulates_throw (error : ε) :
    Simulates Inv view (throw error : Call ε σ α) (throw error) :=
  ⟨fun _ hinv => hinv, fun _ _ => rfl⟩

/-- The call that is simulated may look at the state first. -/
theorem simulates_get {next : σ → Call ε σ α} {nextOther : τ → Call ε τ α}
    (hnext : ∀ state, Inv state → Simulates Inv view (next state) (nextOther (view state))) :
    Simulates Inv view (get >>= next) (get >>= nextOther) :=
  ⟨fun state hinv => (hnext state hinv).keeps state hinv,
    fun state hinv => (hnext state hinv).exec state hinv⟩

theorem Simulates.bind {next : α → Call ε σ β} {nextOther : α → Call ε τ β}
    (hcall : Simulates Inv view call other)
    (hnext : ∀ value, Simulates Inv view (next value) (nextOther value)) :
    Simulates Inv view (call >>= next) (other >>= nextOther) := by
  constructor
  · intro state hinv
    have hmiddle := hcall.keeps state hinv
    rw [exec_bind]
    rcases hexec : call.exec state with ⟨result, middle⟩
    rw [hexec] at hmiddle
    cases result with
    | ok value => exact (hnext value).keeps middle hmiddle
    | error error => exact hmiddle
  · intro state hinv
    have hmiddle := hcall.keeps state hinv
    have hother := hcall.exec state hinv
    rw [exec_bind, exec_bind]
    rcases hexec : call.exec state with ⟨result, middle⟩
    rw [hexec] at hmiddle hother
    rw [hother]
    cases result with
    | ok value => exact (hnext value).exec middle hmiddle
    | error error => rfl

end Simulates

end Liblw.Lib.Call
