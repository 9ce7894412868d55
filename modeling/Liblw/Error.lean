import Liblw.Lib.Call

/-!
# Errors

The code reports failure by throwing one of the canonical error classes, each with a message it
streams together at the throw. Apart from that, a call can do something the language gives no
meaning to. The two are kept apart: a thrown error can be caught and is part of the interface, the
other is what the proofs rule out or expose.
-/

namespace Liblw

abbrev Text := List Char

instance : LawfulBEq Text := List.instLawfulBEq

/-- The canonical error classes that the modelled code throws. -/
inductive ErrorKind where
  | aborted
  | alreadyExists
  | failedPrecondition
  | internal
  | invalidArgument
  | notFound
  | outOfRange
  | resourceExhausted
  | unimplemented
deriving DecidableEq, Repr

structure Error where
  kind : ErrorKind
  message : String
deriving DecidableEq, Repr

/-- What C++ gives no meaning to, at the places where the modelled code can do it. -/
inductive Undefined where
  | emptyStackTop
  | readPastView
  | readPastBuffer
  | writePastBuffer
  | nullWindow
  | rootIsNoTrieNode
  | missingReturn
  | nullView
  | signedOverflow
  | moduloByZero
  | uninitialized
  | movedFrom
  | emptyOptional
  | nullPointer
deriving DecidableEq, Repr

/-- The exceptions of the standard library that the modelled code lets through. -/
inductive StandardException where
  | badAlloc
  | badVariantAccess
  | lengthError
  | outOfRange
  | regexError
  | runtimeError
deriving DecidableEq, Repr

/-- The ways a call fails to return a value. `diverged` is a loop that never ends. -/
inductive Fault where
  | thrown (error : Error)
  | standard (exception : StandardException)
  | undefined (what : Undefined)
  | diverged
deriving DecidableEq, Repr

abbrev Result := Except Fault

theorem eq_ok_of_map {α β : Type} {result : Result α} {f : α → β} {value : β}
    (hmap : result.map f = .ok value) : ∃ first, result = .ok first ∧ f first = value := by
  cases result with
  | ok first => exact ⟨first, rfl, Except.ok.inj hmap⟩
  | error fault => cases hmap

def raise {m : Type → Type} [MonadExceptOf Fault m] {α : Type} (kind : ErrorKind)
    (message : String) : m α :=
  throw (Fault.thrown ⟨kind, message⟩)

@[simp]
theorem raise_eq {α : Type} (kind : ErrorKind) (message : String) :
    (raise kind message : Result α) = .error (.thrown ⟨kind, message⟩) := rfl

@[simp]
theorem exec_raise {σ α : Type} (kind : ErrorKind) (message : String) (state : σ) :
    Lib.Call.exec (raise kind message : Lib.Call Fault σ α) state =
      (.error (.thrown ⟨kind, message⟩), state) := rfl

end Liblw
