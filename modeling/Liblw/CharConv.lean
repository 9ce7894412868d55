import Liblw.Error

/-!
# Characters and numerals of the standard library

`<cctype>` in the C locale and `std::from_chars` for the integer types.
-/

namespace Liblw

/-- `std::isspace`: the blank and the control characters from tab to carriage return. -/
def isSpace (c : Char) : Bool := c = ' ' || (9 ≤ c.toNat && c.toNat ≤ 13)

/-- `std::isdigit`. -/
def isDigit (c : Char) : Bool := c.isDigit

/-- `std::isalnum`. -/
def isAlnum (c : Char) : Bool := c.isAlphanum

/-- What holds of the characters of a text is decided by going through them, not through all the
characters that there are. -/
instance decidableForallMem (text : Text) (p : Char → Prop) [DecidablePred p] :
    Decidable (∀ c ∈ text, p c) :=
  List.decidableBAll p text

instance decidableForallMemOption (first : Option Char) (p : Char → Prop) [DecidablePred p] :
    Decidable (∀ c ∈ first, p c) :=
  Option.decidableForallMem first

/-- `std::errc` as `from_chars` sets it. -/
inductive Errc where
  | none
  | invalidArgument
  | resultOutOfRange
deriving DecidableEq, Repr

/-- The result of `from_chars`: what is left unread, the error code, and the value it stored. On an
error it stores nothing and the variable keeps what it held. -/
structure FromChars where
  rest : Text
  errc : Errc
  value : Option Int
deriving DecidableEq

/-- The longest run of digits, its value held against the range of the type. -/
def fromDigits (lower upper : Int) (negative : Bool) (text digits : Text) : FromChars :=
  let run := digits.takeWhile isDigit
  let magnitude : Int := Nat.ofDigitChars 10 run 0
  let value := if negative then -magnitude else magnitude
  if run = [] then ⟨text, .invalidArgument, none⟩
  else if lower ≤ value ∧ value ≤ upper then ⟨digits.drop run.length, .none, some value⟩
  else ⟨digits.drop run.length, .resultOutOfRange, none⟩

/-- `std::from_chars` at a signed integer type. -/
def fromCharsSigned (lower upper : Int) (text : Text) : FromChars :=
  match text with
  | '-' :: digits => fromDigits lower upper true text digits
  | digits => fromDigits lower upper false text digits

/-- `std::from_chars` at an unsigned integer type, which knows no sign. -/
def fromCharsUnsigned (upper : Int) (text : Text) : FromChars := fromDigits 0 upper false text text

/-- `std::from_chars` at `std::int64_t`. -/
def fromCharsInt64 (text : Text) : FromChars := fromCharsSigned (-2 ^ 63) (2 ^ 63 - 1) text

/-- `std::from_chars` at `std::uint64_t`. -/
def fromCharsUInt64 (text : Text) : FromChars := fromCharsUnsigned (2 ^ 64 - 1) text

/-! ### Numerals -/

def IsDigits (text : Text) : Prop := text ≠ [] ∧ ∀ c ∈ text, isDigit c = true

/-- A number in base ten, with a minus sign or without. -/
def IsNumeral (text : Text) : Prop :=
  IsDigits text ∨ ∃ digits, text = '-' :: digits ∧ IsDigits digits

/-- The number that a numeral is for. -/
def numeralValue : Text → Int
  | '-' :: digits => -(Nat.ofDigitChars 10 digits 0 : Int)
  | digits => (Nat.ofDigitChars 10 digits 0 : Int)

instance : DecidablePred IsDigits := fun _ => inferInstanceAs (Decidable (_ ∧ _))

end Liblw
