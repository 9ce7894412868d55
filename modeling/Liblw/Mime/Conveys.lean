import Liblw.Mime.Document
import Liblw.Proof.ListRoundTrip

/-!
# Trees and tokens

What it means that a token read back holds a tree of values, objects included: its accessors find
every element by its index and every member by its key. Which trees have it is told by their
strings, by the keys of their objects and by whether the tree is a bare keyword.
-/

namespace Liblw.Mime

mutual

/-- The tree as a document, its scalars and keys as they are rendered. -/
def Value.document : Value → Document
  | .null => .scalar (render .null)
  | .boolean value => .scalar (render (.boolean value))
  | .signed number => .scalar (render (.signed number))
  | .unsigned number => .scalar (render (.unsigned number))
  | .string str => .scalar (render (.string str))
  | .list elements => .list (elementDocuments elements)
  | .object members => .object (memberDocuments members)

def elementDocuments : List Value → List Document
  | [] => []
  | value :: rest => value.document :: elementDocuments rest

def memberDocuments : List (Text × Value) → List (Text × Document)
  | [] => []
  | (key, value) :: rest => (stringLiteral key, value.document) :: memberDocuments rest

end

mutual

/-- `Represents`, with objects: the token has a member under every key of the object, and no more
members than that. -/
def Conveys : DeserializationToken → Value → Prop
  | token, .list elements =>
      token.isList = true ∧ token.size = .ok elements.length ∧ ConveysFrom token 0 elements
  | token, .object members =>
      token.isObject = true ∧ token.size = .ok members.length ∧ ConveysMembers token members
  | token, .null => Represents token .null
  | token, .boolean value => Represents token (.boolean value)
  | token, .signed number => Represents token (.signed number)
  | token, .unsigned number => Represents token (.unsigned number)
  | token, .string str => Represents token (.string str)

def ConveysFrom : DeserializationToken → Nat → List Value → Prop
  | token, index, [] => token.hasIndex index = false
  | token, index, value :: rest =>
      (∃ element, token.getIndex index = .ok element ∧ Conveys element value) ∧
        ConveysFrom token (index + 1) rest

def ConveysMembers : DeserializationToken → List (Text × Value) → Prop
  | _, [] => True
  | token, (key, value) :: rest =>
      (∃ element, token.getKey key = .ok element ∧ Conveys element value) ∧
        ConveysMembers token rest

end

section Every

variable (string : Text → Prop) (keys : List Text → Prop)

mutual

/-- The strings of the tree and the keys of its objects are as the two predicates have them. -/
def Value.Every : Value → Prop
  | .string str => string str
  | .list elements => EveryElement elements
  | .object members => keys (members.map Prod.fst) ∧ EveryMember members
  | _ => True

def EveryElement : List Value → Prop
  | [] => True
  | value :: rest => value.Every ∧ EveryElement rest

def EveryMember : List (Text × Value) → Prop
  | [] => True
  | (_, value) :: rest => value.Every ∧ EveryMember rest

end

end Every

/-- The parser ends a string at its first quotation mark, escaped or not. -/
def Unquoted (str : Text) : Prop := '"' ∉ str

/-- The keys are distinct, and none of their characters is written as an escape. -/
def PlainKeys (keys : List Text) : Prop := keys.Nodup ∧ ∀ key ∈ keys, ∀ c ∈ key, escape c = [c]

def Value.isKeyword : Value → Bool
  | .null => true
  | .boolean _ => true
  | _ => false

/-- The serializer writes the tree, and the parser reads the text as a token that holds it. -/
def RoundTrips (value : Value) : Prop :=
  ∃ final token, (Serializer.write value).exec JSONSerializationFormatter.make = (.ok (), final) ∧
    parse final.output = .ok token ∧ Conveys token value

end Liblw.Mime
