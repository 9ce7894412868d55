import Liblw.Mime.Formatter

/-!
# The compact JSON text of a value

What the formatter is for, stated without its state stack: every value has one compact text, with
its elements or members in order, one comma between neighbours, one colon in each member, and every
bracket closed by its own kind. The text depends on how the characters of strings and keys are
spelled: the formatter spells them by `escape`, JSON asks for `jsonEscape`. Which trees the
formatter can really write is `Value.unmixed`.
-/

namespace Liblw.Mime

/-- How the formatter spells a character inside a string literal. -/
def escape : Char → Text
  | '"' => "\\\"".toList
  | '\\' => "\\\\".toList
  | '/' => "\\/".toList
  | '\x08' => "\\b".toList
  | '\x0c' => "\\f".toList
  | '\n' => "\\n".toList
  | '\r' => "\\r".toList
  | '\t' => "\\t".toList
  | c => [c]

/-- A control character that JSON has no two-character escape for. -/
def isBareControl (c : Char) : Bool :=
  decide (c.toNat < 0x20) && !(['\x08', '\x0c', '\n', '\r', '\t'].contains c)

/-- The escape of a character below U+0020 by its code. -/
def unicodeEscape (c : Char) : Text :=
  "\\u00".toList ++ [Nat.digitChar (c.toNat / 16), Nat.digitChar (c.toNat % 16)]

/-- How JSON spells a character inside a string literal: no control character stands there as it
is. -/
def jsonEscape (c : Char) : Text := if isBareControl c then unicodeEscape c else escape c

def literalIn (spell : Char → Text) (str : Text) : Text := '"' :: str.flatMap spell ++ ['"']

def integerText (number : Int) : Text := (toString number).toList

def commaSeparated (parts : List Text) : Text := List.intercalate [','] parts

section Spelling

variable (spell : Char → Text)

mutual

def renderIn : Value → Text
  | .null => "null".toList
  | .boolean value => (toString value).toList
  | .signed number => integerText number.toInt
  | .unsigned number => integerText number.toNat
  | .string value => literalIn spell value
  | .list elements => '[' :: commaSeparated (renderElementsIn elements) ++ [']']
  | .object members => '{' :: commaSeparated (renderMembersIn members) ++ ['}']

def renderElementsIn : List Value → List Text
  | [] => []
  | value :: rest => renderIn value :: renderElementsIn rest

def renderMembersIn : List (Text × Value) → List Text
  | [] => []
  | (key, value) :: rest => (literalIn spell key ++ ':' :: renderIn value) :: renderMembersIn rest

end

end Spelling

/-! ### As the formatter spells it -/

abbrev stringLiteral (str : Text) : Text := literalIn escape str

abbrev render (value : Value) : Text := renderIn escape value

abbrev renderElements (elements : List Value) : List Text := renderElementsIn escape elements

abbrev renderMembers (members : List (Text × Value)) : List Text := renderMembersIn escape members

/-! ### As JSON spells it -/

/-- The compact JSON rendering of the value. -/
def jsonText (value : Value) : Text := renderIn jsonEscape value

mutual

/-- The characters of all strings and keys of the tree, in order. -/
def Value.characters : Value → Text
  | .string value => value
  | .list elements => charactersOfElements elements
  | .object members => charactersOfMembers members
  | _ => []

def charactersOfElements : List Value → Text
  | [] => []
  | value :: rest => value.characters ++ charactersOfElements rest

def charactersOfMembers : List (Text × Value) → Text
  | [] => []
  | (key, value) :: rest => key ++ value.characters ++ charactersOfMembers rest

end

/-! ### The shape of a tree -/

def Value.isList : Value → Bool
  | .list _ => true
  | _ => false

def Value.isObject : Value → Bool
  | .object _ => true
  | _ => false

mutual

/-- No list of the tree has an object among its elements, and no object has a list among the values
of its members. -/
def Value.unmixed : Value → Bool
  | .list elements => unmixedElements elements
  | .object members => unmixedMembers members
  | _ => true

def unmixedElements : List Value → Bool
  | [] => true
  | value :: rest => !value.isObject && value.unmixed && unmixedElements rest

def unmixedMembers : List (Text × Value) → Bool
  | [] => true
  | (_, value) :: rest => !value.isList && value.unmixed && unmixedMembers rest

end

theorem integerText_ofNat (number : Nat) : integerText number = Nat.toDigits 10 number := by
  change (Nat.repr number).toList = _
  exact Nat.toList_repr

theorem integerText_negSucc (number : Nat) :
    integerText (Int.negSucc number) = '-' :: Nat.toDigits 10 (number + 1) := by
  change ("-" ++ Nat.repr (number + 1)).toList = _
  rw [String.toList_append, Nat.toList_repr]
  rfl

theorem commaSeparated_cons (first : Text) (rest : List Text) :
    commaSeparated (first :: rest) = first ++ rest.flatMap (',' :: ·) := by
  induction rest generalizing first with
  | nil => simp [commaSeparated, List.intercalate]
  | cons second rest ih =>
      have hstep : commaSeparated (first :: second :: rest) =
          first ++ ',' :: commaSeparated (second :: rest) := by
        simp [commaSeparated, List.intercalate]
      rw [hstep, ih]
      simp

theorem render_list (elements : List Value) :
    render (.list elements) = '[' :: commaSeparated (renderElements elements) ++ [']'] := rfl

theorem render_object (members : List (Text × Value)) :
    render (.object members) = '{' :: commaSeparated (renderMembers members) ++ ['}'] := rfl

theorem renderElements_cons (value : Value) (rest : List Value) :
    renderElements (value :: rest) = render value :: renderElements rest := rfl

theorem renderMembers_cons (key : Text) (value : Value) (rest : List (Text × Value)) :
    renderMembers ((key, value) :: rest) =
      (stringLiteral key ++ ':' :: render value) :: renderMembers rest := rfl

end Liblw.Mime
