import Liblw.Http.MountPath

/-!
# Segments of routes and paths

What the segments of a route and of a path are, told by the text alone: a path is cut at every
separator, a route at every separator that is not escaped inside a regular expression, and empty
pieces are dropped. The forms of a segment say which segments a route may have.
-/

namespace Liblw.Http

/-- The non-empty pieces between separators. -/
def segmentsOf (text : Text) : List Text := (text.splitOn '/').filter (· ≠ [])

/-- The route has a segment, and none of them is a parameter or a regular expression. -/
def LiteralRoute (route : Text) : Prop :=
  segmentsOf route ≠ [] ∧ ∀ segment ∈ segmentsOf route, segment.head? ≠ some ':'

instance : DecidablePred LiteralRoute := fun _ => inferInstanceAs (Decidable (_ ∧ _))

/-- The path that a literal route is for: a separator, and the segments with separators between. -/
def literalPath (route : Text) : Text := '/' :: ['/'].intercalate (segmentsOf route)

/-! ### Cutting a route -/

def typeStart : Text := ":[".toList

def regexStart : Text := ":[re]".toList

/-- What becomes of the escape flag when `c` is read behind `piece`. -/
def escapes (piece : Text) (escaped : Bool) (c : Char) : Bool :=
  regexStart.isPrefixOf piece && c = '\\' && !escaped

/-- The pieces of a route from `piece` on, what has been read of the first one. -/
def cutFrom : (piece : Text) → (escaped : Bool) → Text → List Text
  | piece, _, [] => [piece]
  | piece, escaped, c :: rest =>
      if c = '/' ∧ escaped = false then piece :: cutFrom [] false rest
      else cutFrom (piece ++ [c]) (escapes piece escaped c) rest

/-- The pieces of a route. -/
def routePieces (route : Text) : List Text := (cutFrom [] false route).filter (· ≠ [])

/-! ### The forms of a piece -/

/-- The pattern ends behind a backslash that escapes nothing. -/
def dangles : (escaped : Bool) → (pattern : Text) → Bool
  | escaped, [] => escaped
  | escaped, c :: rest => dangles (c = '\\' && !escaped) rest

def Named (name : Text) : Prop := name ≠ [] ∧ ∀ c ∈ name, isAlnum c = true

def Extends (extension : Text) : Prop :=
  extension = [] ∨ ∃ tail, extension = '.' :: tail ∧ tail ≠ [] ∧
    ∀ c ∈ tail, c = '.' ∨ isAlnum c = true

def typeText : Validator → Text
  | .int => "int".toList
  | .uint => "uint".toList

inductive PieceForm where
  | literal
  | parameter (name extension : Text)
  | typed (validator : Validator) (name extension : Text)
  | regex (pattern : Text)
deriving DecidableEq, Repr

/-- The piece is of the form. -/
inductive HasForm (engine : RegexEngine) : Text → PieceForm → Prop where
  | literal {piece : Text} (hhead : piece.head? ≠ some ':') : HasForm engine piece .literal
  | parameter {name extension : Text} (hname : Named name) (hextension : Extends extension) :
      HasForm engine (':' :: name ++ extension) (.parameter name extension)
  | typed {validator : Validator} {name extension : Text} (hname : Named name)
      (hextension : Extends extension) :
      HasForm engine (typeStart ++ typeText validator ++ ']' :: name ++ extension)
        (.typed validator name extension)
  | regex {pattern : Text}
      (hcompiles : dangles false pattern = true ∨ engine.compiles pattern = true) :
      HasForm engine (regexStart ++ pattern) (.regex pattern)

/-- The piece is that of a parameter without a type. -/
def IsUntyped (piece : Text) : Prop := piece.head? = some ':' ∧ ¬ typeStart <+: piece

/-- The piece has a type, of which a regular expression is one. -/
def IsTyped (piece : Text) : Prop := typeStart <+: piece

/-- The piece is a regular expression with an escape that is left open. -/
def IsDangling (piece : Text) : Prop :=
  ∃ pattern, piece = regexStart ++ pattern ∧ dangles false pattern = true

/-! ### Independence -/

/-- Regular expressions are numbered in their order, behind as many as there have been. -/
def numbered : (count : Nat) → List PathMatcher → List PathMatcher
  | _, [] => []
  | count, .regex _ chunk :: rest => .regex (count + 1) chunk :: numbered (count + 1) rest
  | count, matcher :: rest => matcher :: numbered count rest

/-- The route is accepted exactly if each of its pieces is accepted alone, and has for each piece
the matcher that this piece has alone. -/
def Independent (engine : RegexEngine) (route : Text) : Prop :=
  ((∃ matchers, MountPath.parseEndpoint engine route = .ok matchers) ↔
      ∀ piece ∈ routePieces route, ∃ matchers,
        MountPath.parseEndpoint engine piece = .ok matchers) ∧
    ∀ matchers, MountPath.parseEndpoint engine route = .ok matchers →
      ∃ alone, List.Forall₂ (fun piece matcher =>
          MountPath.parseEndpoint engine piece = .ok [matcher] ∧ matcher.chunk = piece)
          (routePieces route) alone ∧
        matchers = numbered 0 alone

end Liblw.Http
