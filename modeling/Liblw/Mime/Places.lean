import Liblw.Mime.Formatter
import Liblw.Mime.Grammar

/-!
# Calls on the formatter in any order

`Serializer.write` is only one way to call the formatter; its interface lets anyone call anything at
any time. `items` is what one call writes, as the formatter decides it from the top of its stack.
`take` is where that may stand: a pushdown automaton for JSON whose stack has, for each container
that is open in the text, the place that has been reached in it.
-/

namespace Liblw.Mime

/-! ### Places in a text -/

inductive Place where
  | document
  | documentValue
  | list
  | listValue
  | listComma
  | object
  | objectValue
  | objectComma
  | key
  | member
deriving DecidableEq, Repr

/-- The place behind a value, if one may stand here. -/
def Place.fill : Place → Option Place
  | .document => some .documentValue
  | .list => some .listValue
  | .listComma => some .listValue
  | .member => some .objectValue
  | _ => none

namespace Place

/-- The places behind an item. A container is a value of the place it stands in as soon as it is
opened, so that closing it is all that is left to do. -/
def take : List Place → Item → Option (List Place)
  | place :: below, .openObject => place.fill.map fun filled => .object :: filled :: below
  | place :: below, .openList => place.fill.map fun filled => .list :: filled :: below
  | .object :: below, .closeObject => some below
  | .objectValue :: below, .closeObject => some below
  | .list :: below, .closeList => some below
  | .listValue :: below, .closeList => some below
  | .key :: below, .colon => some (.member :: below)
  | .listValue :: below, .comma => some (.listComma :: below)
  | .objectValue :: below, .comma => some (.objectComma :: below)
  | .object :: below, .scalar text =>
      if scalarType text = .string then some (.key :: below) else none
  | .objectComma :: below, .scalar text =>
      if scalarType text = .string then some (.key :: below) else none
  | place :: below, .scalar _ => place.fill.map (· :: below)
  | _, _ => none

def takeAll : List Place → List Item → Option (List Place)
  | places, [] => some places
  | places, item :: rest => (take places item).bind fun next => takeAll next rest

end Place

/-! ### Calls -/

/-- How an `ostream` writes a `double` with its default format. A finite one is written as a number
of the grammar, the others are written as words. -/
structure Floating (δ : Type) where
  text : δ → Text
  isFinite : δ → Bool
  number : ∀ value, isFinite value = true → NumberText (text value)

/-- A call of the formatter's interface with its argument. -/
inductive Invocation (δ : Type) where
  | putNull
  | putBoolean (boolean : Bool)
  | putChar (c : Char)
  | putSignedInteger (number : Int64)
  | putUnsignedInteger (number : UInt64)
  | putFloatingPoint (number : δ)
  | putString (str : Text)
  | startList
  | endList
  | startObject
  | endObject
  | startPairKey
  | endPairKey
  | endPair

section Calls

variable {δ : Type} (floating : Floating δ)

namespace JSONSerializationFormatter

def putFloatingPoint (number : δ) : FormatCall Unit := do
  checkCanAddValue
  maybeComma
  write (floating.text number)
  valueAdded

end JSONSerializationFormatter

namespace Invocation

def call : Invocation δ → FormatCall Unit
  | .putNull => JSONSerializationFormatter.putNull
  | .putBoolean boolean => JSONSerializationFormatter.putBoolean boolean
  | .putChar c => JSONSerializationFormatter.putChar c
  | .putSignedInteger number => JSONSerializationFormatter.putSignedInteger number
  | .putUnsignedInteger number => JSONSerializationFormatter.putUnsignedInteger number
  | .putFloatingPoint number => JSONSerializationFormatter.putFloatingPoint floating number
  | .putString str => JSONSerializationFormatter.putString str
  | .startList => JSONSerializationFormatter.startList
  | .endList => JSONSerializationFormatter.endList
  | .startObject => JSONSerializationFormatter.startObject
  | .endObject => JSONSerializationFormatter.endObject
  | .startPairKey => JSONSerializationFormatter.startPairKey
  | .endPairKey => JSONSerializationFormatter.endPairKey
  | .endPair => JSONSerializationFormatter.endPair

end Invocation

/-! ### Runs -/

/-- The formatter after a call, whether it has thrown or not. -/
def Invocation.next (invocation : Invocation δ) (formatter : JSONSerializationFormatter) :
    JSONSerializationFormatter :=
  ((invocation.call floating).exec formatter).2

/-- The text is the beginning of a JSON text. -/
def Begins (text : Text) : Prop := ∃ rest, Derivable (text ++ rest)

/-- The call returns, or throws an error of the library and leaves the output as it is; in both
cases the output is the beginning of a JSON text. -/
structure SoundStep (formatter : JSONSerializationFormatter) (invocation : Invocation δ) :
    Prop where
  settles : ((invocation.call floating).exec formatter).1 = .ok () ∨
    (∃ error, ((invocation.call floating).exec formatter).1 = .error (.thrown error)) ∧
      (invocation.next floating formatter).output = formatter.output
  begins : Begins (invocation.next floating formatter).output

/-- All calls of the run are sound, each in the state that the calls before it have left. -/
def SoundRun : JSONSerializationFormatter → List (Invocation δ) → Prop
  | _, [] => True
  | formatter, invocation :: rest =>
      SoundStep floating formatter invocation ∧ SoundRun (invocation.next floating formatter) rest

/-! ### What a call writes -/

open JSONSerializationFormatter (State charText signedText unsignedText)

/-- A value with the comma that the top of the stack puts in front of it, where the top takes
values. -/
def valueItems (item : Item) : State → Option (List Item)
  | .value => some [item]
  | .list => some [item]
  | .listValue => some [.comma, item]
  | .keyEnded => some [item]
  | _ => none

def stringItems (item : Item) : State → Option (List Item)
  | .keyStarted => some [item]
  | state => valueItems item state

def quotedText (str : Text) : Text := '"' :: str.flatMap charText ++ ['"']

/-- What the call writes under the given top, or nothing if it is refused. -/
def Invocation.items (state : State) : Invocation δ → Option (List Item)
  | .putNull => valueItems (.scalar "null".toList) state
  | .putBoolean boolean =>
      valueItems (.scalar (if boolean then "true".toList else "false".toList)) state
  | .putChar c => stringItems (.scalar (quotedText [c])) state
  | .putSignedInteger number => valueItems (.scalar (signedText number)) state
  | .putUnsignedInteger number => valueItems (.scalar (unsignedText number)) state
  | .putFloatingPoint number => valueItems (.scalar (floating.text number)) state
  | .putString str => stringItems (.scalar (quotedText str)) state
  | .startList => valueItems .openList state
  | .endList => if state = .list ∨ state = .listValue then some [.closeList] else none
  | .startObject => valueItems .openObject state
  | .endObject => if state = .object ∨ state = .objectValue then some [.closeObject] else none
  | .startPairKey =>
      if state = .object then some [] else if state = .objectValue then some [.comma] else none
  | .endPairKey => if state = .keyAdded then some [.colon] else none
  | .endPair => if state = .object ∨ state = .objectValue then some [] else none

/-- No control character but those that `_put_char` escapes. -/
def Printable (c : Char) : Prop :=
  32 ≤ c.toNat ∨ c = '\x08' ∨ c = '\x0c' ∨ c = '\n' ∨ c = '\r' ∨ c = '\t'

def Invocation.Clean : Invocation δ → Prop
  | .putChar c => Printable c
  | .putString str => ∀ c ∈ str, Printable c
  | .putFloatingPoint number => floating.isFinite number = true
  | _ => True

/-- The places behind a call: those behind what it writes, or the same ones if it is refused. -/
def placesAfter (places : List Place) (state : State) (invocation : Invocation δ) :
    Option (List Place) :=
  match invocation.items floating state with
  | some items => Place.takeAll places items
  | none => some places

/-- Every call of the run finds a state on the stack, and what that state makes it write, if it does
not refuse the call, may stand where the text has come to. -/
def Orderly : JSONSerializationFormatter → List Place → List (Invocation δ) → Prop
  | _, _, [] => True
  | formatter, places, invocation :: rest =>
      ∃ state below next, formatter.state = state :: below ∧
        (invocation.items floating state ≠ none → invocation.Clean floating) ∧
        placesAfter floating places state invocation = some next ∧
          Orderly (invocation.next floating formatter) next rest

end Calls

end Liblw.Mime
