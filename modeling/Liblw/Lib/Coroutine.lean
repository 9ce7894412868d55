import Mathlib.Tactic.Common

/-!
# Coroutines

A coroutine runs up to its next query, is suspended there, and goes on from the answer. What it
does between two queries is not divided further, so that whoever runs several of them decides only
about the order of the answers.
-/

namespace Liblw.Lib

/-- A coroutine that returns a value or throws an error after finitely many queries. -/
inductive Coroutine (Query : Type) (Answer : Query → Type) (ε α : Type) where
  | done (result : Except ε α)
  | await (query : Query) (resume : Answer query → Coroutine Query Answer ε α)

namespace Coroutine

variable {Query : Type} {Answer : Query → Type} {ε α β : Type}

/-- A query with its answer. -/
abbrev Event (Answer : Query → Type) := Σ query, Answer query

/-! ### Composition -/

def andThen (next : α → Coroutine Query Answer ε β) :
    Coroutine Query Answer ε α → Coroutine Query Answer ε β
  | .done (.ok value) => next value
  | .done (.error error) => .done (.error error)
  | .await query resume => .await query fun answer => andThen next (resume answer)

def catching (handler : ε → Coroutine Query Answer ε α) :
    Coroutine Query Answer ε α → Coroutine Query Answer ε α
  | .done (.ok value) => .done (.ok value)
  | .done (.error error) => handler error
  | .await query resume => .await query fun answer => catching handler (resume answer)

instance : Monad (Coroutine Query Answer ε) where
  pure value := .done (.ok value)
  bind coroutine next := coroutine.andThen next

instance : MonadExceptOf ε (Coroutine Query Answer ε) where
  throw error := .done (.error error)
  tryCatch coroutine handler := coroutine.catching handler

def ask (query : Query) : Coroutine Query Answer ε (Answer query) :=
  .await query fun answer => .done (.ok answer)

@[simp]
theorem done_ok_bind (value : α) (next : α → Coroutine Query Answer ε β) :
    (.done (.ok value) >>= next : Coroutine Query Answer ε β) = next value := rfl

@[simp]
theorem await_bind (query : Query) (resume : Answer query → Coroutine Query Answer ε α)
    (next : α → Coroutine Query Answer ε β) :
    (.await query resume >>= next : Coroutine Query Answer ε β) =
      .await query fun answer => resume answer >>= next := rfl

@[simp]
theorem pure_bind (value : α) (next : α → Coroutine Query Answer ε β) :
    (pure value >>= next : Coroutine Query Answer ε β) = next value := rfl

/-! ### Playing against a host -/

/-- The queries with the host's answers to them, the result, and the state that the host is left
in. -/
def play {σ : Type} (respond : (query : Query) → σ → Answer query × σ) :
    Coroutine Query Answer ε α → σ → List (Event Answer) × Except ε α × σ
  | .done result, state => ([], result, state)
  | .await query resume, state =>
      let (answer, next) := respond query state
      let (events, outcome) := play respond (resume answer) next
      (⟨query, answer⟩ :: events, outcome)

/-! ### Reliance on the answers

While the answers are as expected a coroutine comes to a fine result. The first one that is not ends
it, with a result that is not fine and without another query.
-/

section Reliance

variable (expected : (query : Query) → Answer query → Prop)

def Relies (fine : Except ε α → Prop) : Coroutine Query Answer ε α → Prop
  | .done result => fine result
  | .await query resume => ∀ answer,
      (expected query answer → Relies fine (resume answer)) ∧
      (¬ expected query answer → ∃ result, ¬ fine result ∧ resume answer = .done result)

variable {expected} {fine : Except ε α → Prop}

theorem relies_await {query : Query} {resume : Answer query → Coroutine Query Answer ε α}
    (hexpected : ∀ answer, expected query answer → (resume answer).Relies expected fine)
    (hother : ∀ answer, ¬ expected query answer →
      ∃ result, ¬ fine result ∧ resume answer = .done result) :
    (.await query resume : Coroutine Query Answer ε α).Relies expected fine :=
  fun answer => ⟨hexpected answer, hother answer⟩

theorem Relies.bind {fine' : Except ε β → Prop} {coroutine : Coroutine Query Answer ε α}
    {next : α → Coroutine Query Answer ε β} (hfirst : coroutine.Relies expected fine)
    (hnext : ∀ value, fine (.ok value) → (next value).Relies expected fine')
    (hbroken : ∀ value, ¬ fine (.ok value) → ∃ result, ¬ fine' result ∧ next value = .done result)
    (herror : ∀ error, fine (.error error) ↔ fine' (.error error)) :
    (coroutine >>= next).Relies expected fine' := by
  induction coroutine with
  | done result =>
      cases result with
      | ok value => exact hnext value hfirst
      | error error => exact (herror error).mp hfirst
  | await query resume ih =>
      apply relies_await
      · intro answer hexpected
        exact ih answer ((hfirst answer).1 hexpected)
      · intro answer hother
        obtain ⟨result, hresult, hresume⟩ := (hfirst answer).2 hother
        change ∃ result', ¬ fine' result' ∧ resume answer >>= next = .done result'
        rw [hresume]
        cases result with
        | ok value => exact hbroken value hresult
        | error error => exact ⟨.error error, fun hfine => hresult ((herror error).mpr hfine), rfl⟩

theorem Relies.catching {fine' : Except ε α → Prop} {coroutine : Coroutine Query Answer ε α}
    {handler : ε → Coroutine Query Answer ε α} (hbody : coroutine.Relies expected fine)
    (hhandler : ∀ error, fine (.error error) → (handler error).Relies expected fine')
    (hbroken : ∀ error, ¬ fine (.error error) →
      ∃ result, ¬ fine' result ∧ handler error = .done result)
    (hvalue : ∀ value, fine (.ok value) ↔ fine' (.ok value)) :
    (Coroutine.catching handler coroutine).Relies expected fine' := by
  induction coroutine with
  | done result =>
      cases result with
      | ok value => exact (hvalue value).mp hbody
      | error error => exact hhandler error hbody
  | await query resume ih =>
      apply relies_await
      · intro answer hexpected
        exact ih answer ((hbody answer).1 hexpected)
      · intro answer hother
        obtain ⟨result, hresult, hresume⟩ := (hbody answer).2 hother
        change ∃ result', ¬ fine' result' ∧
          (Coroutine.catching handler (resume answer)) = .done result'
        rw [hresume]
        cases result with
        | ok value => exact ⟨.ok value, fun hfine => hresult ((hvalue value).mpr hfine), rfl⟩
        | error error => exact hbroken error hresult

end Reliance

end Coroutine

end Liblw.Lib
