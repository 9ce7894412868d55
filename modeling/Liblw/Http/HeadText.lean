import Liblw.Http.Request

/-!
# The text of a head

How the parts of a head are written, and what the query of a request line means.
-/

namespace Liblw.Http

/-- A request line, and the text behind it. -/
def methodLine (method path query version rest : Text) : Text :=
  method ++ ' ' :: (path ++ '?' :: (query ++ ' ' :: (version ++ '\r' :: '\n' :: rest)))

/-! ### Queries -/

def pieceKey (piece : Text) : Text := piece.takeWhile (· ≠ '=')

/-- What stands behind the first `=`. -/
def pieceValue (piece : Text) : Text := (piece.dropWhile (· ≠ '=')).tail

/-- A piece without a key is dropped, and so is one whose key is there already. Keys are compared as
the map does it, ignoring case. -/
def insertPiece (pairs : HeadersView) (piece : Text) : HeadersView :=
  if pieceKey piece = [] then pairs else pairs.insert (pieceKey piece) (pieceValue piece)

/-- The parameters of a query, its pieces taken one after the other. -/
def queryPairs (query : Text) : HeadersView := (query.splitOn '&').foldl insertPiece []

/-- Nothing depends on where the value of the last piece ends: it has none, or it is dropped. -/
def LastPieceSafe (query : Text) : Prop :=
  ∀ earlier last, query.splitOn '&' = earlier ++ [last] →
    '=' ∉ last ∨ pieceKey last = [] ∨
      ∃ piece ∈ earlier, pieceKey piece ≠ [] ∧ sameName (pieceKey piece) (pieceKey last)

/-! ### Header lines -/

/-- A header line. -/
def headerLine (field : Text × Text) : Text := field.1 ++ ':' :: ' ' :: (field.2 ++ ['\r', '\n'])

/-- Header lines up to the empty line. -/
def headerLines (fields : List (Text × Text)) : Text := fields.flatMap headerLine ++ ['\r', '\n']

end Liblw.Http
