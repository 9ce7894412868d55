import Liblw.CharConv
import Liblw.Mime.Render

/-!
# Flag values as text

`format` and `parse` for the types that a flag can have, the floating-point ones left out. A
duration is its number of nanoseconds, and arithmetic on it that leaves the range of the type has no
meaning.
-/

namespace Liblw.Cli

open Mime (integerText)

/-! ### Numbers -/

/-- The integer types with a `parse`. -/
inductive IntegerType where
  | short
  | int
  | longInt
  | longLongInt
  | unsignedShort
  | unsignedInt
  | unsignedLongInt
  | unsignedLongLongInt
deriving DecidableEq, Repr

namespace IntegerType

def name : IntegerType → String
  | .short => "short"
  | .int => "int"
  | .longInt => "long int"
  | .longLongInt => "long long int"
  | .unsignedShort => "unsigned short"
  | .unsignedInt => "unsigned int"
  | .unsignedLongInt => "unsigned long int"
  | .unsignedLongLongInt => "unsigned long long int"

def bits : IntegerType → Nat
  | .short | .unsignedShort => 16
  | .int | .unsignedInt => 32
  | .longInt | .longLongInt | .unsignedLongInt | .unsignedLongLongInt => 64

def isSigned : IntegerType → Bool
  | .short | .int | .longInt | .longLongInt => true
  | .unsignedShort | .unsignedInt | .unsignedLongInt | .unsignedLongLongInt => false

def lower (type : IntegerType) : Int := if type.isSigned then -2 ^ (type.bits - 1) else 0

def upper (type : IntegerType) : Int :=
  if type.isSigned then 2 ^ (type.bits - 1) - 1 else 2 ^ type.bits - 1

/-- The values of the type. -/
abbrev Value (type : IntegerType) := { number : Int // type.lower ≤ number ∧ number ≤ type.upper }

/-- `std::from_chars` at the type. -/
def fromChars (type : IntegerType) (text : Text) : FromChars :=
  if type.isSigned then fromCharsSigned type.lower type.upper text
  else fromCharsUnsigned type.upper text

end IntegerType

def formatInteger {type : IntegerType} (number : type.Value) : Text := integerText number

def parseInteger (type : IntegerType) (value : Text) : Result Int :=
  let parsed := type.fromChars value
  let shown := String.ofList value
  let name := type.name
  if parsed.rest ≠ [] ∨ parsed.errc = .invalidArgument then
    raise .invalidArgument s!"String \"{shown}\" is not a valid {name} value."
  else if parsed.errc = .resultOutOfRange then
    raise .invalidArgument s!"Flag value \"{shown}\" is too large for {name}."
  else .ok (parsed.value.getD 0)

def parseBool (value : Text) : Result Bool :=
  if value ∈ ["y", "Y", "yes", "Yes", "t", "T", "true", "True", "1"].map String.toList then .ok true
  else if value ∈ ["n", "N", "no", "No", "f", "F", "false", "False", "0"].map String.toList then
    .ok false
  else
    let shown := String.ofList value
    raise .invalidArgument s!"Invalid boolean argument value: {shown}"

/-! ### Strings -/

def formatChar (c : Char) : Text := if c = '\\' ∨ c = '"' ∨ isSpace c then ['\\', c] else [c]

def formatString (value : Text) : Text := value.flatMap formatChar

/-- The loop of `parse<std::string>`. -/
def parseStringFrom : (escaped : Bool) → Text → Text
  | _, [] => []
  | escaped, c :: rest =>
      if !escaped ∧ c = '\\' then parseStringFrom true rest else c :: parseStringFrom false rest

def parseString (value : Text) : Text := parseStringFrom false value

/-! ### Durations -/

/-- The nanoseconds of each unit, with the name it is read under. -/
def durationUnits : List (Text × Int) :=
  [("y".toList, 31556952 * 10 ^ 9), ("d".toList, 86400 * 10 ^ 9), ("h".toList, 3600 * 10 ^ 9),
    ("m".toList, 60 * 10 ^ 9), ("s".toList, 10 ^ 9), ("ms".toList, 10 ^ 6), ("us".toList, 10 ^ 3),
    ("ns".toList, 1)]

/-- The units that `format` tries before it falls back to nanoseconds. -/
def formatUnits : List (Text × Int) :=
  [("y".toList, 31556952 * 10 ^ 9), ("d".toList, 86400 * 10 ^ 9), ("h".toList, 3600 * 10 ^ 9),
    ("m".toList, 60 * 10 ^ 9), ("s".toList, 10 ^ 9), ("ms".toList, 10 ^ 6)]

/-- The result of an operation at `std::int64_t`. -/
def atInt64 (number : Int) : Result Int :=
  if -2 ^ 63 ≤ number ∧ number ≤ 2 ^ 63 - 1 then .ok number else .error (.undefined .signedOverflow)

/-- `duration_cast` from nanoseconds to the unit, whose ratio is a whole number. -/
def toUnit (unit count : Int) : Int := count.tdiv unit

/-- `duration_cast` from the unit to nanoseconds. -/
def fromUnit (unit count : Int) : Result Int := atInt64 (count * unit)

def canConvertDuration (unit count : Int) : Result Bool :=
  (fromUnit unit (toUnit unit count)).map fun converted => converted = count

def formatDurationAs : List (Text × Int) → Int → Result Text
  | [], count => .ok (integerText count ++ "ns".toList)
  | (name, unit) :: units, count => do
      if ← canConvertDuration unit count then return integerText (toUnit unit count) ++ name
      else formatDurationAs units count

def formatDuration (count : Int64) : Result Text := formatDurationAs formatUnits count.toInt

/-- The locales of the host. Making `std::locale{"en_US.UTF-8"}` throws where it is missing, and in
that locale the digits are those of the C locale. -/
structure Locales where
  hasEnUs : Bool
deriving DecidableEq, Repr

section Locale

variable (locales : Locales)

/-- The name of the unit in front of the text. It is at least one character, and goes on up to the
next digit. -/
def unitName (text : Text) : Text :=
  text.take 1 ++ (text.drop 1).takeWhile fun c => !isDigit c

/-- The loop of `parse<std::chrono::nanoseconds>`. Each round takes characters off the text. The
locale is asked for only where a character stands behind the first one of the unit. -/
def parseDurationFrom (value : Text) : (rounds : Nat) → Text → (sum : Int) → Result Int
  | 0, _, _ => .error .diverged
  | rounds + 1, v, sum =>
      let parsed := fromCharsInt64 v
      let shown := String.ofList value
      if v = [] then .ok sum
      else if parsed.rest = [] then
        raise .invalidArgument s!"Duration value \"{shown}\" missing time unit suffix."
      else if parsed.rest.length = v.length ∨ parsed.errc = .invalidArgument then
        raise .invalidArgument s!"Duration value \"{shown}\" could not be parsed."
      else if parsed.errc = .resultOutOfRange then
        raise .invalidArgument s!"Duration value \"{shown}\" too large to be represented."
      else if 1 < parsed.rest.length ∧ locales.hasEnUs = false then
        .error (.standard .runtimeError)
      else
        let units := unitName parsed.rest
        match durationUnits.lookup units with
        | none =>
            let units := String.ofList units
            raise .invalidArgument s!"Unknown time units \"{units}\" in value {shown}"
        | some unit => do
            let added ← fromUnit unit (parsed.value.getD 0)
            let sum ← atInt64 (sum + added)
            parseDurationFrom value rounds (parsed.rest.drop units.length) sum

def parseDuration (value : Text) : Result Int :=
  parseDurationFrom locales value (value.length + 1) value 0

end Locale

end Liblw.Cli
