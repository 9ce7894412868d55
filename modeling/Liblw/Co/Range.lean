import Liblw.Mime.SerializedValue

/-!
# Ranges

`co::range` of two numbers and an increment is a generator. Its coroutine has the arguments in its
frame, and is suspended before its first statement and at each `co_yield`. Once it has finished it
must not be resumed any more.
-/

namespace Liblw.Mime.IntegralType

/-- The compound assignments `+=` and `-=`. A type narrower than `int` is computed with as `int`,
which has room for the exact result, and this is converted back. -/
def assign (T : IntegralType) (exact : Int) : Result Int :=
  if T.signed ∧ 32 ≤ T.width ∧ ¬ T.Holds exact then .error (.undefined .signedOverflow)
  else .ok (T.convert exact)

end Liblw.Mime.IntegralType

namespace Liblw.Co

open Mime (IntegralType)

/-- Where the coroutine is suspended: before it begins, or with the loop at `i`. -/
inductive RangePlace where
  | initial
  | yielded (i : Int)
deriving DecidableEq, Repr

/-- A call of `range` with arguments of one integer type. -/
structure Range (T : IntegralType) where
  beginning : Int
  ending : Int
  increment : Int
  beginning_holds : T.Holds beginning
  ending_holds : T.Holds ending
  increment_holds : T.Holds increment

namespace Range

variable {T : IntegralType} (range : Range T)

/-- The test of the loop, which is left when it fails. -/
def test (i : Int) : Option Int :=
  if range.ending < range.beginning then if i > range.ending then some i else none
  else if i < range.ending then some i else none

/-- Between two rounds of the loop. -/
def advance (i : Int) : Result Int :=
  if range.ending < range.beginning then T.assign (i - range.increment)
  else T.assign (i + range.increment)

/-- `Generator::next` with the value that is there afterwards, none once the coroutine is done. -/
def next : RangePlace → Result (Option Int)
  | .initial => .ok (range.test range.beginning)
  | .yielded i => do
      let i ← range.advance i
      .ok (range.test i)

/-- The values that a consumer gets which asks for the next one as long as there is one. -/
def collect : Nat → RangePlace → Result (List Int)
  | 0, _ => .error .diverged
  | fuel + 1, place => do
      match ← range.next place with
      | none => .ok []
      | some i => do
          let values ← collect fuel (.yielded i)
          .ok (i :: values)

/-! ### What the range is for -/

/-- The number after so many steps from the beginning towards the end. -/
def nthStep (count : Nat) : Int :=
  if range.ending < range.beginning then range.beginning - count * range.increment
  else range.beginning + count * range.increment

/-- Strictly before the end. -/
def IsBefore (number : Int) : Prop :=
  if range.ending < range.beginning then range.ending < number else number < range.ending

instance : DecidablePred range.IsBefore := fun number => by
  unfold IsBefore
  exact inferInstance

/-- The values are the steps, as long as they are before the end, and then the range is done. -/
def YieldsSteps : Prop :=
  ∃ fuel values, range.collect fuel .initial = .ok values ∧
    ∀ count, values[count]? =
      if range.IsBefore (range.nthStep count) then some (range.nthStep count) else none

/-- From a step before the end the loop comes to the next one, as the exact number. -/
def StepsExactly : Prop :=
  ∀ count, range.IsBefore (range.nthStep count) →
    range.advance (range.nthStep count) = .ok (range.nthStep (count + 1))

/-- The steps that it takes to come to the end or past it. -/
def stepCount : Nat :=
  (((range.ending - range.beginning).natAbs + range.increment - 1) / range.increment).toNat

end Range

/-! ### Ranges without an increment -/

/-- A call of `range` with a beginning and an end only. -/
structure UnitRange (T : IntegralType) where
  beginning : Int
  ending : Int
  beginning_holds : T.Holds beginning
  ending_holds : T.Holds ending

namespace UnitRange

variable {T : IntegralType} (range : UnitRange T)

/-- Both loops of the source have the same test. -/
def test (i : Int) : Option Int := if i ≠ range.ending then some i else none

/-- `--i` or `++i`. -/
def advance (i : Int) : Result Int :=
  if range.ending < range.beginning then T.assign (i - 1) else T.assign (i + 1)

def next : RangePlace → Result (Option Int)
  | .initial => .ok (range.test range.beginning)
  | .yielded i => do
      let i ← range.advance i
      .ok (range.test i)

/-- The number after so many steps from the beginning towards the end. -/
def nthStep (count : Nat) : Int :=
  if range.ending < range.beginning then range.beginning - count else range.beginning + count

/-- The numbers from the beginning to the one before the end. -/
def size : Nat := (range.ending - range.beginning).natAbs

end UnitRange

end Liblw.Co
