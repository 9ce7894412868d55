import Liblw.Mime.Grammar

/-!
# Readable texts

The grammar has more strings and numbers than the scanners take as a whole, and allows a key twice
in one object. A text of the grammar is readable where it keeps clear of the three, and of a keyword
at its very end, behind which `_parse_keyword` looks for one character more.
-/

namespace Liblw.Mime

/-- The text is a JSON text for the document. -/
def TextOf (document : Document) (text : Text) : Prop :=
  ∃ before inner after, Blank before ∧ ValueText document inner ∧ Blank after ∧
    text = before ++ inner ++ after

/-- A string has no escaped quotation mark, and a number no exponent. -/
structure Scannable (text : Text) : Prop where
  string : scalarType text = .string → '"' ∉ unquoted text
  number : scalarType text = .integer ∨ scalarType text = .float → 'e' ∉ text ∧ 'E' ∉ text

structure Readable (document : Document) (text : Text) : Prop where
  scalars : ∀ spelled, Item.scalar spelled ∈ document.bare → Scannable spelled
  keys : document.Every DistinctKeys
  goesOn : ∀ word, KeywordText word → ¬ word <:+ text

end Liblw.Mime
