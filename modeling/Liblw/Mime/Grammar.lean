import Liblw.Mime.Document

/-!
# The grammar

The JSON grammar of RFC 8259 on characters, with the two extensions that the parser makes on
purpose: a number may start with a plus sign, and a backslash in a string may stand before any
character. Which accepted texts keep to it is `Regular`, told by the lexemes the parser cuts.
-/

namespace Liblw.Mime

open Lib

/-! ### Scalars -/

def isBlank (c : Char) : Bool := c = ' ' || c = '\t' || c = '\n' || c = '\r'

def Blank (text : Text) : Prop := ∀ c ∈ text, isBlank c = true

/-- What stands between the quotation marks of a string. -/
inductive StringBody : Text → Prop where
  | nil : StringBody []
  | plain {c : Char} {rest : Text} (hquote : c ≠ '"') (hbackslash : c ≠ '\\')
      (hcontrol : 32 ≤ c.toNat) (hrest : StringBody rest) : StringBody (c :: rest)
  | escape {c : Char} {rest : Text} (hrest : StringBody rest) : StringBody ('\\' :: c :: rest)

def StringText (text : Text) : Prop := ∃ body, StringBody body ∧ text = '"' :: body ++ ['"']

def Digits (text : Text) : Prop := text ≠ [] ∧ ∀ c ∈ text, isDigit c = true

def WholePart (text : Text) : Prop := text = ['0'] ∨ (Digits text ∧ text.head? ≠ some '0')

def FractionPart (text : Text) : Prop := text = [] ∨ ∃ digits, Digits digits ∧ text = '.' :: digits

def SignPart (text : Text) : Prop := text = [] ∨ text = ['-'] ∨ text = ['+']

def ExponentPart (text : Text) : Prop :=
  text = [] ∨ ∃ e sign digits, (e = 'e' ∨ e = 'E') ∧ SignPart sign ∧ Digits digits ∧
    text = e :: sign ++ digits

def NumberText (text : Text) : Prop :=
  ∃ sign whole fraction exponent, SignPart sign ∧ WholePart whole ∧ FractionPart fraction ∧
    ExponentPart exponent ∧ text = sign ++ whole ++ fraction ++ exponent

def KeywordText (text : Text) : Prop :=
  text = "true".toList ∨ text = "false".toList ∨ text = "null".toList

def ScalarText (text : Text) : Prop := KeywordText text ∨ NumberText text ∨ StringText text

/-! ### Values -/

mutual

/-- The text is this document, without blanks around it. -/
inductive ValueText : Document → Text → Prop where
  | scalar {text : Text} (hscalar : ScalarText text) : ValueText (.scalar text) text
  | emptyList {inner : Text} (hinner : Blank inner) : ValueText (.list []) ('[' :: inner ++ [']'])
  | list {elements : List Document} {inner : Text} (hinner : ElementsText elements inner) :
      ValueText (.list elements) ('[' :: inner ++ [']'])
  | emptyObject {inner : Text} (hinner : Blank inner) :
      ValueText (.object []) ('{' :: inner ++ ['}'])
  | object {members : List (Text × Document)} {inner : Text} (hinner : MembersText members inner) :
      ValueText (.object members) ('{' :: inner ++ ['}'])

inductive ElementsText : List Document → Text → Prop where
  | last {value : Document} {before text after : Text} (hbefore : Blank before)
      (hvalue : ValueText value text) (hafter : Blank after) :
      ElementsText [value] (before ++ text ++ after)
  | more {value : Document} {rest : List Document} {before text after tail : Text}
      (hbefore : Blank before) (hvalue : ValueText value text) (hafter : Blank after)
      (hrest : ElementsText rest tail) :
      ElementsText (value :: rest) (before ++ text ++ after ++ ',' :: tail)

inductive MembersText : List (Text × Document) → Text → Prop where
  | last {key : Text} {value : Document} {before between behind text after : Text}
      (hbefore : Blank before) (hkey : StringText key) (hbetween : Blank between)
      (hbehind : Blank behind) (hvalue : ValueText value text) (hafter : Blank after) :
      MembersText [(key, value)]
        (before ++ key ++ between ++ ':' :: (behind ++ text ++ after))
  | more {key : Text} {value : Document} {rest : List (Text × Document)}
      {before between behind text after tail : Text} (hbefore : Blank before)
      (hkey : StringText key) (hbetween : Blank between) (hbehind : Blank behind)
      (hvalue : ValueText value text) (hafter : Blank after) (hrest : MembersText rest tail) :
      MembersText ((key, value) :: rest)
        (before ++ key ++ between ++ ':' :: (behind ++ text ++ after ++ ',' :: tail))

end

/-- The text is a JSON text. -/
def Derivable (text : Text) : Prop :=
  ∃ document before inner after, Blank before ∧ ValueText document inner ∧ Blank after ∧
    text = before ++ inner ++ after

/-! ### What the parser accepts -/

/-- `parse` returns a token. -/
def Accepted (text : Text) : Prop := ∃ token, parse text = .ok token

/-- Between the lexemes stand only the four blanks of the grammar, the strings hold no bare control
character and do not end in the middle of an escape, and one comma stands between any two
neighbouring values or members and nowhere else. -/
structure Regular (text : Text) : Prop where
  blanks : Blank (blanks 0 text)
  strings : ∀ spelled, Item.scalar spelled ∈ items 0 text → spelled.head? = some '"' →
    StringText spelled
  commas : WellSpaced .comma Item.needsComma (items 0 text)

end Liblw.Mime
