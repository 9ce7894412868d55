import Liblw.CharConv

/-!
# JSON tokens

The three classes a parsed document is made of, and what each accessor answers or throws on each of
them. An object's members are keyed by the text between the quotation marks of the key.
-/

namespace Liblw.Mime

inductive JSONType where
  | nul
  | boolean
  | string
  | integer
  | float
  | list
  | object
deriving DecidableEq, Repr

def jsonTypeName : JSONType → String
  | .nul => "NUL"
  | .boolean => "BOOLEAN"
  | .string => "STRING"
  | .integer => "INTEGER"
  | .float => "FLOAT"
  | .list => "LIST"
  | .object => "OBJECT"

/-- What one escape sequence decodes to. An unknown one decodes to nothing. -/
def decodeEscape : Char → Text
  | '"' => ['"']
  | '\\' => ['\\']
  | '/' => ['/']
  | 'b' => ['\x08']
  | 'f' => ['\x0c']
  | 'n' => ['\n']
  | 'r' => ['\r']
  | 't' => ['\t']
  | _ => []

/-- The loop of `decode_string` from some index on. It stops at the last character, the closing
quotation mark, but an escape may still read that one. -/
def decodeLoop : Text → Text
  | '\\' :: c :: rest => decodeEscape c ++ decodeLoop rest
  | c :: d :: rest => c :: decodeLoop (d :: rest)
  | [_] => []
  | [] => []

def decodeString (token : Text) : Text := decodeLoop token.tail

structure JSONScalarToken where
  type : JSONType
  token : Text
  decodedString : Text
deriving DecidableEq

def JSONScalarToken.make (type : JSONType) (token : Text) : JSONScalarToken :=
  ⟨type, token, if type = .string then decodeString token else []⟩

/-- `io::DeserializationToken` with its three JSON subclasses. -/
inductive DeserializationToken where
  | scalar (token : JSONScalarToken)
  | list (elements : List DeserializationToken)
  | object (elements : List (Text × DeserializationToken))

namespace DeserializationToken

def type : DeserializationToken → JSONType
  | .scalar token => token.type
  | .list _ => .list
  | .object _ => .object

/-- The error an accessor throws on a token of the wrong type. -/
def notA {α : Type} (token : DeserializationToken) (wanted : String) : Result α :=
  let found := jsonTypeName token.type
  raise .failedPrecondition s!"Token is {found}, not {wanted}"

def isNull (token : DeserializationToken) : Bool := token.type = .nul

def isBoolean (token : DeserializationToken) : Bool := token.type = .boolean

def isString (token : DeserializationToken) : Bool := token.type = .string

def isSignedInteger (token : DeserializationToken) : Bool := token.type = .integer

def isUnsignedInteger : DeserializationToken → Bool
  | .scalar token => token.type = .integer && token.token.head? != some '-'
  | _ => false

def isList : DeserializationToken → Bool
  | .list _ => true
  | _ => false

def isObject : DeserializationToken → Bool
  | .object _ => true
  | _ => false

def size : DeserializationToken → Result Nat
  | .scalar token =>
      if token.type = .string then .ok token.decodedString.length
      else
        let found := jsonTypeName token.type
        raise .failedPrecondition s!"Token is {found} which does not have a size."
  | .list elements => .ok elements.length
  | .object elements => .ok elements.length

def getBoolean : DeserializationToken → Result Bool
  | .scalar token =>
      if token.type = .boolean then .ok (token.token = "true".toList)
      else notA (.scalar token) "BOOLEAN"
  | token => notA token "BOOLEAN"

def getString : DeserializationToken → Result Text
  | .scalar token =>
      if token.type = .string then .ok token.decodedString
      else notA (.scalar token) "STRING"
  | token => notA token "STRING"

/-- The numeral of an integer token, past the sign that `from_chars` does not take. -/
def skipPlus : Text → Text
  | '+' :: rest => rest
  | text => text

def getSignedInteger : DeserializationToken → Result Int
  | .scalar token =>
      if token.type = .integer then
        let result := fromCharsInt64 (skipPlus token.token)
        let text := String.ofList token.token
        if result.rest ≠ [] ∨ result.errc = .invalidArgument then
          raise .invalidArgument s!"String {text} is not a valid signed integer."
        else
          match result.value with
          | none => raise .invalidArgument s!"Value {text} is too large for a 64-bit integer."
          | some value => .ok value
      else notA (.scalar token) "INTEGER"
  | token => notA token "INTEGER"

def getUnsignedInteger : DeserializationToken → Result Int
  | .scalar token =>
      if isUnsignedInteger (.scalar token) then
        let result := fromCharsUInt64 (skipPlus token.token)
        let text := String.ofList token.token
        if result.rest ≠ [] ∨ result.errc = .invalidArgument then
          raise .invalidArgument s!"String {text} is not a valid unsigned integer."
        else
          match result.value with
          | none =>
              raise .invalidArgument s!"Value {text} is too large for an unsigned 64-bit integer."
          | some value => .ok value
      else notA (.scalar token) "unsigned INTEGER"
  | token => notA token "INTEGER"

def hasIndex (token : DeserializationToken) (index : Nat) : Bool :=
  match token with
  | .list elements => index < elements.length
  | _ => false

def getIndex (token : DeserializationToken) (index : Nat) : Result DeserializationToken :=
  match token with
  | .list elements =>
      match elements[index]? with
      | some element => .ok element
      | none =>
          let count := elements.length
          raise .outOfRange s!"Index {index} is larger than this list of {count}"
  | token => notA token "LIST"

def hasKey (token : DeserializationToken) (key : Text) : Bool :=
  match token with
  | .object elements => (elements.lookup key).isSome
  | _ => false

def getKey (token : DeserializationToken) (key : Text) : Result DeserializationToken :=
  match token with
  | .object elements =>
      match elements.lookup key with
      | some value => .ok value
      | none =>
          let text := String.ofList key
          raise .outOfRange s!"Key {text} is not present in this object."
  -- The scalar class names LIST here, although it is asked for a key.
  | .scalar token => notA (.scalar token) "LIST"
  | token => notA token "OBJECT"

end DeserializationToken

end Liblw.Mime
