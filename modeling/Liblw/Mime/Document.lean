import Liblw.Lib.Spaced
import Liblw.Mime.Frames

/-!
# Documents

What a text says, told apart from how the parser gets there. The lexemes of a text, with the
spelling of its scalars, are its items. A document is a tree whose leaves are scalars as they are
spelled; it is written down as a sequence of items, and it stands for one token.
-/

namespace Liblw.Mime

inductive Item where
  | openObject
  | closeObject
  | openList
  | closeList
  | colon
  | comma
  | scalar (text : Text)
deriving DecidableEq, Repr

namespace Item

def text : Item → Text
  | .openObject => ['{']
  | .closeObject => ['}']
  | .openList => ['[']
  | .closeList => [']']
  | .colon => [':']
  | .comma => [',']
  | .scalar text => text

/-- The lexeme with its spelling. -/
def of : Lexeme → Text → Item
  | .openObject, _ => .openObject
  | .closeObject, _ => .closeObject
  | .openList, _ => .openList
  | .closeList, _ => .closeList
  | .colon, _ => .colon
  | .comma, _ => .comma
  | _, text => .scalar text

def endsValue : Item → Bool
  | .closeObject | .closeList | .scalar _ => true
  | _ => false

def beginsValue : Item → Bool
  | .openObject | .openList | .scalar _ => true
  | _ => false

/-- Two neighbours that belong to two values, or to a value and the key of the next member. -/
def needsComma (first second : Item) : Bool := first.endsValue && second.beginsValue

end Item

/-- The lexemes of a text with their spelling, as `lexemes` cuts it. -/
def items : (skip : Nat) → Text → List Item
  | _, [] => []
  | skip + 1, _ :: rest => items skip rest
  | 0, c :: rest =>
      if isSpace c then items 0 rest
      else
        Item.of (lexeme (c :: rest)).1 ((c :: rest).take (lexeme (c :: rest)).2) ::
          items ((lexeme (c :: rest)).2 - 1) rest

/-- What `lexemes` leaves out of a text. -/
def blanks : (skip : Nat) → Text → Text
  | _, [] => []
  | skip + 1, _ :: rest => blanks skip rest
  | 0, c :: rest =>
      if isSpace c then c :: blanks 0 rest else blanks ((lexeme (c :: rest)).2 - 1) rest

/-- The keys of an object's members are spelled as in the text, with their quotation marks. -/
inductive Document where
  | scalar (text : Text)
  | list (elements : List Document)
  | object (members : List (Text × Document))

/-! ### The token of a document -/

def scalarType : Text → JSONType
  | '"' :: _ => .string
  | 't' :: _ => .boolean
  | 'f' :: _ => .boolean
  | 'n' :: _ => .nul
  | text => if '.' ∈ text then .float else .integer

def scalarToken (text : Text) : JSONScalarToken := .make (scalarType text) text

/-- The text between the quotation marks of a string. -/
def unquoted (text : Text) : Text := text.tail.dropLast

def StringKeys (keys : List Text) : Prop := ∀ key ∈ keys, scalarType key = .string

def DistinctKeys (keys : List Text) : Prop := (keys.map unquoted).Nodup

namespace Document

mutual

def token : Document → DeserializationToken
  | .scalar text => .scalar (scalarToken text)
  | .list elements => .list (tokens elements)
  | .object members => .object (memberTokens members)

def tokens : List Document → List DeserializationToken
  | [] => []
  | document :: rest => token document :: tokens rest

def memberTokens : List (Text × Document) → List (Text × DeserializationToken)
  | [] => []
  | (key, document) :: rest => (unquoted key, token document) :: memberTokens rest

end

theorem tokens_eq_map (documents : List Document) : tokens documents = documents.map token := by
  induction documents with
  | nil => rfl
  | cons document documents ih => rw [tokens, ih, List.map_cons]

theorem memberTokens_eq_map (members : List (Text × Document)) :
    memberTokens members = members.map fun member => (unquoted member.1, member.2.token) := by
  induction members with
  | nil => rfl
  | cons member members ih => rw [memberTokens, ih, List.map_cons]

section Keys

variable (p : List Text → Prop)

mutual

/-- The keys of each object in the document, its own and nested ones, are as `p` has them. -/
def Every : Document → Prop
  | .scalar _ => True
  | .list elements => EveryElement elements
  | .object members => p (members.map Prod.fst) ∧ EveryMember members

def EveryElement : List Document → Prop
  | [] => True
  | document :: rest => Every document ∧ EveryElement rest

def EveryMember : List (Text × Document) → Prop
  | [] => True
  | (_, document) :: rest => Every document ∧ EveryMember rest

end

end Keys

/-! ### The items of a document -/

section Items

variable (join : List (List Item) → List Item)

mutual

/-- The items of a document, `join` putting those of the elements or members together. -/
def spell : Document → List Item
  | .scalar text => [.scalar text]
  | .list elements => .openList :: join (spellElements elements) ++ [.closeList]
  | .object members => .openObject :: join (spellMembers members) ++ [.closeObject]

def spellElements : List Document → List (List Item)
  | [] => []
  | document :: rest => spell document :: spellElements rest

def spellMembers : List (Text × Document) → List (List Item)
  | [] => []
  | (key, document) :: rest =>
      (.scalar key :: .colon :: spell document) :: spellMembers rest

end

theorem spellElements_eq_map (elements : List Document) :
    spellElements join elements = elements.map (spell join) := by
  induction elements with
  | nil => rfl
  | cons document rest ih => rw [spellElements, ih, List.map_cons]

theorem spellMembers_eq_map (members : List (Text × Document)) :
    spellMembers join members =
      members.map fun member => .scalar member.1 :: .colon :: spell join member.2 := by
  induction members with
  | nil => rfl
  | cons member rest ih => rw [spellMembers, ih, List.map_cons]

end Items

/-- Without any commas. -/
def bare : Document → List Item := spell List.flatten

/-- With one comma between neighbours, as the grammar has it. -/
def separated : Document → List Item := spell (List.intercalate [.comma])

end Document

/-! ### The shape of a token -/

inductive Bracket where
  | openObject
  | closeObject
  | openList
  | closeList
deriving DecidableEq, Repr

def Item.bracket : Item → Option Bracket
  | .openObject => some .openObject
  | .closeObject => some .closeObject
  | .openList => some .openList
  | .closeList => some .closeList
  | _ => none

/-- The brackets outside the strings of a text. -/
def brackets (text : Text) : List Bracket := (items 0 text).filterMap Item.bracket

namespace DeserializationToken

mutual

/-- The brackets that a token's nesting writes down. -/
def shape : DeserializationToken → List Bracket
  | .scalar _ => []
  | .list elements => .openList :: shapeElements elements ++ [.closeList]
  | .object elements => .openObject :: shapeMembers elements ++ [.closeObject]

def shapeElements : List DeserializationToken → List Bracket
  | [] => []
  | token :: rest => shape token ++ shapeElements rest

def shapeMembers : List (Text × DeserializationToken) → List Bracket
  | [] => []
  | (_, token) :: rest => shape token ++ shapeMembers rest

end

end DeserializationToken

/-- Every bracket is closed by one of its kind, and what stands in between is nested as well. -/
inductive Nested : List Bracket → Prop where
  | nil : Nested []
  | list {inner rest : List Bracket} (hinner : Nested inner) (hrest : Nested rest) :
      Nested (.openList :: inner ++ .closeList :: rest)
  | object {inner rest : List Bracket} (hinner : Nested inner) (hrest : Nested rest) :
      Nested (.openObject :: inner ++ .closeObject :: rest)

end Liblw.Mime
