import Liblw.Cli.Format

/-!
# What a duration says

A duration is written as numbers, each with its unit. The numbers are of any size, and so is what
they come to.
-/

namespace Liblw.Cli

/-- So many of a unit. -/
structure Component where
  count : Int
  unit : Int
deriving DecidableEq, Repr

def Component.amount (component : Component) : Int := component.count * component.unit

/-- A text begins with the components, and goes on with the text that is left. A unit ends where the
next number starts. -/
inductive Reads : Text → List Component → Text → Prop where
  | nil (text : Text) : Reads text [] text
  | cons {numeral name rest left : Text} {unit : Int} {components : List Component}
      (hnumeral : IsNumeral numeral) (hunit : (name, unit) ∈ durationUnits)
      (hend : ∀ c ∈ rest.head?, isDigit c = true) (hreads : Reads rest components left) :
      Reads (numeral ++ (name ++ rest)) (⟨numeralValue numeral, unit⟩ :: components) left

/-- The numbers of an `std::int64_t`. -/
def InInt64 (number : Int) : Prop := -2 ^ 63 ≤ number ∧ number ≤ 2 ^ 63 - 1

instance : DecidablePred InInt64 := fun _ => inferInstanceAs (Decidable (_ ∧ _))

/-- Every component fits, and so does the sum each time that one is added to it. -/
def FitsFrom (sum : Int) : List Component → Prop
  | [] => True
  | component :: components =>
      InInt64 component.amount ∧ InInt64 (sum + component.amount) ∧
        FitsFrom (sum + component.amount) components

/-- Whatever the text begins with fits, as long as each number in it fits. -/
def SumFits (sum : Int) (text : Text) : Prop :=
  ∀ components left, Reads text components left →
    (∀ component ∈ components, InInt64 component.count) → FitsFrom sum components

/-- `InvalidArgument` is thrown. -/
def Refused (result : Result Int) : Prop :=
  ∃ message, result = .error (.thrown ⟨.invalidArgument, message⟩)

/-- What is expected of reading a duration. -/
structure ParsesExactly (locales : Locales) (value : Text) : Prop where
  outcome : Refused (parseDuration locales value) ∨ ∃ components, Reads value components [] ∧
    parseDuration locales value = .ok (components.map Component.amount).sum
  refuses : ∀ components left, Reads value components left → ¬ FitsFrom 0 components →
    Refused (parseDuration locales value)

/-- A host with the locale. -/
def withEnUs : Locales := ⟨true⟩

/-- The text begins with a number in the range, and more than one character stands behind it. -/
def NeedsLocale (value : Text) : Prop :=
  ∃ numeral rest, value = numeral ++ rest ∧ IsNumeral numeral ∧
    (∀ c ∈ rest.head?, isDigit c = false) ∧ InInt64 (numeralValue numeral) ∧ 1 < rest.length

end Liblw.Cli
