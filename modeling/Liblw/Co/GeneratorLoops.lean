import Liblw.Co.Range
import Liblw.Lib.Call

/-!
# Loops over a generator

A `Generator` owns a coroutine that is suspended before its first statement and at each `co_yield`,
and has the value that was yielded last. Several loops may go over one generator, each after the one
before it was broken off or has run out. A later loop begins with `begin`, which resumes the
coroutine only if there is no value yet.
-/

namespace Liblw.Co

open Liblw.Lib

variable {ε σ T : Type}

/-- Resuming a coroutine that is done and reading through a null pointer are undefined. The body of
the coroutine may have faults of its own. -/
inductive GeneratorFault (ε : Type) where
  | resumedDone
  | nullValue
  | body (fault : ε)
deriving DecidableEq, Repr

/-- `frame` is where the coroutine is suspended, and none once it is done. -/
structure Generator (σ T : Type) where
  frame : Option σ
  currentValue : Option T
deriving DecidableEq, Repr

namespace Generator

def make (frame : σ) : Generator σ T := ⟨some frame, none⟩

/-- What a body comes to from where it is suspended: its next value and the place of the `co_yield`,
or its end. -/
abbrev Body (ε σ T : Type) := σ → Except ε (Option (T × σ))

section Calls

variable (body : Body ε σ T)

def next : Call (GeneratorFault ε) (Generator σ T) Bool := do
  let generator ← get
  match generator.frame with
  | none => throw .resumedDone
  | some frame =>
      match body frame with
      | .error fault => throw (.body fault)
      | .ok none => do
          modify fun generator => { generator with frame := none }
          pure false
      | .ok (some (value, frame)) => do
          modify fun _ => ⟨some frame, some value⟩
          pure true

def value : Call (GeneratorFault ε) (Generator σ T) T := do
  let generator ← get
  match generator.currentValue with
  | none => throw .nullValue
  | some value => pure value

/-- `begin`. An iterator has a pointer to its generator or a null pointer, which is `end`. -/
def beginning : Call (GeneratorFault ε) (Generator σ T) Bool := do
  let generator ← get
  if generator.currentValue.isNone then
    let _ ← next body
    pure ()
  let generator ← get
  pure generator.frame.isSome

/-- `GeneratorIterator::operator++`. -/
def increment (iterator : Bool) : Call (GeneratorFault ε) (Generator σ T) Bool :=
  if iterator then next body else pure false

/-- The values that a range-based `for` visits from an iterator on, where its statement is left by
`break` once it has run to its end for `rounds` of them. -/
def visitFrom (rounds : Nat) (iterator : Bool) :
    Call (GeneratorFault ε) (Generator σ T) (List T) :=
  if iterator then do
    let visited ← value
    match rounds with
    | 0 => pure [visited]
    | rounds + 1 => do
        let iterator ← increment body iterator
        let later ← visitFrom rounds iterator
        pure (visited :: later)
  else pure []

def forLoop (rounds : Nat) : Call (GeneratorFault ε) (Generator σ T) (List T) := do
  let iterator ← beginning body
  visitFrom body rounds iterator

/-- One loop after the other. -/
def forLoops : List Nat → Call (GeneratorFault ε) (Generator σ T) (List (List T))
  | [] => pure []
  | rounds :: others => do
      let visited ← forLoop body rounds
      let later ← forLoops others
      pure (visited :: later)

/-! ### What the loops are for -/

/-- What the body comes to in the end when it is resumed once and so many times more. -/
def nth : Nat → σ → Except ε (Option T)
  | 0, frame => (body frame).map (Option.map Prod.fst)
  | count + 1, frame => do
      match ← body frame with
      | none => pure none
      | some (_, frame) => nth count frame

end Calls

/-- What a loop visits that begins at an offset of a sequence. -/
def visited (sequence : Nat → Except ε (Option T)) (first rounds : Nat) : Except ε (List T) := do
  let values ← (List.range' first (rounds + 1)).mapM sequence
  pure values.reduceOption

/-- A loop begins where the one before it was broken off, with the value that this had last. -/
def visits (sequence : Nat → Except ε (Option T)) : Nat → List Nat → Except ε (List (List T))
  | _, [] => pure []
  | first, rounds :: others => do
      let values ← visited sequence first rounds
      let later ← visits sequence (first + rounds) others
      pure (values :: later)

end Generator

/-! ### Ranges -/

open Mime (IntegralType)

/-- The body of `range`, with or without an increment. -/
def rangeBody (next : RangePlace → Result (Option Int)) : Generator.Body Fault RangePlace Int :=
  fun place => (next place).map (Option.map fun i => (i, .yielded i))

namespace UnitRange

variable {T : IntegralType} (range : UnitRange T)

/-- What the loops visit over a range. -/
def visits : Nat → List Nat → List (List Int)
  | _, [] => []
  | first, rounds :: others =>
      ((List.range' first (rounds + 1)).filter (· < range.size)).map range.nthStep ::
        visits (first + rounds) others

end UnitRange

end Liblw.Co
