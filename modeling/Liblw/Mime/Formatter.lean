import Liblw.Error

/-!
# Writing JSON

`JSONSerializationFormatter` turns a sequence of calls into JSON text. It decides where commas go,
and which calls are allowed next, from a stack of states. `Serializer.write` issues the calls for a
value, and so fixes which sequences the formatter really sees.
-/

namespace Liblw.Mime

open Lib

/-- A value as the serializer sees it. Lists and objects may hold anything: a type serialised
through its own `Serialize` specialisation can write values of different types. -/
inductive Value where
  | null
  | boolean (value : Bool)
  | signed (number : Int64)
  | unsigned (number : UInt64)
  | string (value : Text)
  | list (elements : List Value)
  | object (members : List (Text × Value))

namespace JSONSerializationFormatter

inductive State where
  | value
  | list
  | listValue
  | object
  | objectValue
  | keyStarted
  | keyAdded
  | keyEnded
deriving DecidableEq, Repr

end JSONSerializationFormatter

open JSONSerializationFormatter (State)

/-- The stack of states, its top first, and the text written so far. -/
structure JSONSerializationFormatter where
  state : List State
  output : Text
deriving DecidableEq

abbrev FormatCall := Call Fault JSONSerializationFormatter

namespace JSONSerializationFormatter

def make : JSONSerializationFormatter := ⟨[.value], []⟩

/-! ### The two private fields -/

def write (text : Text) : FormatCall Unit :=
  modify fun formatter => { formatter with output := formatter.output ++ text }

def top : FormatCall State := do
  match (← get).state with
  | [] => throw (.undefined .emptyStackTop)
  | state :: _ => pure state

def push (state : State) : FormatCall Unit :=
  modify fun formatter => { formatter with state := state :: formatter.state }

def pop : FormatCall Unit :=
  modify fun formatter => { formatter with state := formatter.state.tail }

/-! ### The private helpers -/

def maybeComma : FormatCall Unit := do
  let state ← top
  if state = .listValue ∨ state = .objectValue then
    write [',']

def checkCanAddValue : FormatCall Unit := do
  let state ← top
  if state ≠ .value ∧ state ≠ .list ∧ state ≠ .listValue ∧ state ≠ .keyEnded then
    raise .invalidArgument "Unexpected value while formatting JSON."

def checkCanAddString : FormatCall Unit := do
  let state ← top
  if state ≠ .value ∧ state ≠ .list ∧ state ≠ .listValue ∧ state ≠ .keyStarted ∧
      state ≠ .keyEnded then
    raise .invalidArgument "Unexpected string while formatting JSON."

def valueAdded : FormatCall Unit := do
  match ← top with
  | .list => do pop; push .listValue
  | .object => do pop; push .objectValue
  | .value => pop
  | .keyEnded => pop
  | .listValue => pure ()
  | .objectValue => pure ()
  | .keyStarted => raise .internal "Invalid state reached for adding a value."
  | .keyAdded => raise .internal "Invalid state reached for adding a value."

def stringAdded : FormatCall Unit := do
  if (← top) = .keyStarted then
    pop
    push .keyAdded
  else
    valueAdded

def addLiteral (value : Text) : FormatCall Unit := do
  checkCanAddValue
  maybeComma
  write value
  valueAdded

/-- The text `_put_char` writes for one character of a string. -/
def charText (c : Char) : Text :=
  if c = '"' ∨ c = '\\' ∨ c = '/' then ['\\', c]
  else if c = '\x08' then ['\\', 'b']
  else if c = '\x0c' then ['\\', 'f']
  else if c = '\n' then ['\\', 'n']
  else if c = '\r' then ['\\', 'r']
  else if c = '\t' then ['\\', 't']
  else [c]

/-- The text `ostream` writes for an unsigned integer. -/
def unsignedText (number : UInt64) : Text := Nat.toDigits 10 number.toNat

/-- The text `ostream` writes for a signed integer. -/
def signedText (number : Int64) : Text :=
  if number.toInt < 0 then '-' :: Nat.toDigits 10 number.toInt.natAbs
  else Nat.toDigits 10 number.toInt.natAbs

/-! ### The formatter interface -/

def putNull : FormatCall Unit := addLiteral "null".toList

def putBoolean (boolean : Bool) : FormatCall Unit :=
  addLiteral (if boolean then "true".toList else "false".toList)

def putChar (c : Char) : FormatCall Unit := do
  checkCanAddString
  maybeComma
  write ['"']
  write (charText c)
  write ['"']
  stringAdded

def putSignedInteger (number : Int64) : FormatCall Unit := do
  checkCanAddValue
  maybeComma
  write (signedText number)
  valueAdded

def putUnsignedInteger (number : UInt64) : FormatCall Unit := do
  checkCanAddValue
  maybeComma
  write (unsignedText number)
  valueAdded

def putString (str : Text) : FormatCall Unit := do
  checkCanAddString
  maybeComma
  write ['"']
  str.forM fun c => write (charText c)
  write ['"']
  stringAdded

def startList : FormatCall Unit := do
  checkCanAddValue
  maybeComma
  write ['[']
  push .list

def endList : FormatCall Unit := do
  let state ← top
  if state ≠ .list ∧ state ≠ .listValue then
    raise .failedPrecondition "Unexpected end of list while formatting JSON."
  write [']']
  valueAdded

def startObject : FormatCall Unit := do
  checkCanAddValue
  maybeComma
  write ['{']
  push .object

def endObject : FormatCall Unit := do
  let state ← top
  if state ≠ .object ∧ state ≠ .objectValue then
    raise .failedPrecondition "Unexpected end of object while formatting JSON."
  write ['}']
  valueAdded

def startPairKey : FormatCall Unit := do
  let state ← top
  if state ≠ .object ∧ state ≠ .objectValue then
    raise .failedPrecondition "Unexpected start of object key while formatting JSON."
  maybeComma
  push .keyStarted

def endPairKey : FormatCall Unit := do
  let state ← top
  if state ≠ .keyAdded then
    raise .failedPrecondition "Unexpected end of object key while formatting JSON."
  write [':']
  pop
  push .keyEnded

def endPair : FormatCall Unit := do
  let state ← top
  if state ≠ .object ∧ state ≠ .objectValue then
    raise .failedPrecondition "Unexpected end of object value while formatting JSON."
  valueAdded

end JSONSerializationFormatter

/-! ### The serializer

`Serializer::write` is overloaded on the type it writes, so the overloads are the cases of one
function on values. -/

namespace Serializer

open JSONSerializationFormatter

mutual

def write : Value → FormatCall Unit
  | .null => putNull
  | .boolean value => putBoolean value
  | .signed number => putSignedInteger number
  | .unsigned number => putUnsignedInteger number
  | .string value => putString value
  | .list elements => do
      startList
      serializeList elements
      endList
  | .object members => do
      startObject
      serializeObject members
      endObject

def serializeList : List Value → FormatCall Unit
  | [] => pure ()
  | value :: rest => do
      write value
      serializeList rest

def serializeObject : List (Text × Value) → FormatCall Unit
  | [] => pure ()
  | (key, value) :: rest => do
      startPairKey
      putString key
      endPairKey
      write value
      endPair
      serializeObject rest

end

end Serializer

end Liblw.Mime
