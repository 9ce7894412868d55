import Liblw.Mime.Token

/-!
# Values of an integer type

A `SerializedValue` looks at a token and gives out its number as one of any integer type. The token
itself answers with one of 64 bits, which is then converted.
-/

namespace Liblw.Mime

/-- An integer type of the language other than `bool` and `char`. -/
structure IntegralType where
  signed : Bool
  width : Nat
  width_pos : 0 < width

namespace IntegralType

/-- The type has the number. -/
def Holds (T : IntegralType) (number : Int) : Prop :=
  if T.signed then -2 ^ (T.width - 1) ≤ number ∧ number < 2 ^ (T.width - 1)
  else 0 ≤ number ∧ number < 2 ^ T.width

instance (T : IntegralType) : DecidablePred T.Holds := fun number => by
  unfold Holds
  exact inferInstance

/-- The conversion to the type: the number that it has among those that differ by a multiple of two
to the power of its width. -/
def convert (T : IntegralType) (number : Int) : Int :=
  if T.signed then number.bmod (2 ^ T.width) else number % 2 ^ T.width

/-- The type that the token answers with. -/
def widest (T : IntegralType) : IntegralType := ⟨T.signed, 64, by decide⟩

end IntegralType

namespace DeserializationToken

variable (T : IntegralType)

/-- `SerializedValue::as<T>`. -/
def as (token : DeserializationToken) : Result Int :=
  if T.signed then token.getSignedInteger.map T.convert
  else token.getUnsignedInteger.map T.convert

/-- `SerializedValue::get<T>` through a key. -/
def getAt (token : DeserializationToken) (key : Text) : Result Int := do
  (← token.getKey key).as T

def getAtOr (token : DeserializationToken) (key : Text) (defaultValue : Int) : Result Int :=
  if token.hasKey key then token.getAt T key else .ok defaultValue

/-- `SerializedValue::get<T>` through an index. -/
def getNth (token : DeserializationToken) (index : Nat) : Result Int := do
  (← token.getIndex index).as T

def getNthOr (token : DeserializationToken) (index : Nat) (defaultValue : Int) : Result Int :=
  if token.hasIndex index then token.getNth T index else .ok defaultValue

end DeserializationToken

/-- A token that a document is made of, at any depth. -/
inductive Within : DeserializationToken → DeserializationToken → Prop where
  | self (token : DeserializationToken) : Within token token
  | element {elements : List DeserializationToken} {element token : DeserializationToken}
      (hmem : element ∈ elements) (hwithin : Within element token) : Within (.list elements) token
  | member {elements : List (Text × DeserializationToken)} {key : Text}
      {element token : DeserializationToken} (hmem : (key, element) ∈ elements)
      (hwithin : Within element token) : Within (.object elements) token

/-- The integer that the text of a token is for. -/
def JSONScalarToken.number (scalar : JSONScalarToken) : Int :=
  numeralValue (DeserializationToken.skipPlus scalar.token)

/-- The number is returned, or an error is thrown. -/
def ReturnsOnly (number : Int) (result : Result Int) : Prop :=
  result = .ok number ∨ ∃ error, result = .error (.thrown error)

/-- What is expected of reading a token as a type, at its own value or through a container that has
it. -/
structure ReadsExactly (T : IntegralType) (scalar : JSONScalarToken) : Prop where
  value : ReturnsOnly scalar.number ((DeserializationToken.scalar scalar).as T)
  key : ∀ (outer : DeserializationToken) key, outer.getKey key = .ok (.scalar scalar) →
    ReturnsOnly scalar.number (outer.getAt T key) ∧
      ∀ defaultValue, ReturnsOnly scalar.number (outer.getAtOr T key defaultValue)
  index : ∀ (outer : DeserializationToken) index, outer.getIndex index = .ok (.scalar scalar) →
    ReturnsOnly scalar.number (outer.getNth T index) ∧
      ∀ defaultValue, ReturnsOnly scalar.number (outer.getNthOr T index defaultValue)

end Liblw.Mime
