import Liblw.Http.Readings

/-!
# Matching a path without the trie

`MountPath::match` walks once over the path and hands each part between separators to the next
matcher. A part that has not begun is told by a null pointer, of which a view is made all the same
when two separators follow one another.
-/

namespace Liblw.Http

namespace MountPath

/-- What becomes of a part that has ended. -/
inductive PartEnd where
  | empty
  | refused
  | taken (parameters : HeadersView)
deriving DecidableEq, Repr

section Match

variable (engine : RegexEngine) (urlPath : Text)

/-- The part from its start up to the index `i`, under the next matcher. -/
def endPart (i : Nat) (partStart : Option Nat) (matcher : PathMatcher) (parameters : HeadersView) :
    Result PartEnd :=
  match partStart with
  | none => .error (.undefined .nullView)
  | some start =>
      let urlPart := (urlPath.drop start).take (i - start)
      if urlPart = [] then .ok .empty
      else
        match matcher.match engine urlPart with
        | none => .ok .refused
        | some value =>
            .ok (.taken (if matcher.isLiteral then parameters
              else parameters.assign matcher.name value))

/-- The loop from index `i` on, with the matchers that are left. Its last round is behind the last
character. -/
def matchFrom : (i : Nat) → (partStart : Option Nat) → Text → List PathMatcher → HeadersView →
    Result (Option HeadersView)
  | i, _, _, [], parameters => .ok (if i < urlPath.length then none else some parameters)
  | i, partStart, [], matcher :: matchers, parameters =>
      match endPart engine urlPath i partStart matcher parameters with
      | .error fault => .error fault
      | .ok .empty => .ok none
      | .ok .refused => .ok none
      | .ok (.taken parameters) => .ok (if matchers = [] then some parameters else none)
  | i, partStart, c :: rest, matcher :: matchers, parameters =>
      if c ≠ '/' then
        matchFrom (i + 1) (some (partStart.getD i)) rest (matcher :: matchers) parameters
      else
        match endPart engine urlPath i partStart matcher parameters with
        | .error fault => .error fault
        | .ok .empty => matchFrom (i + 1) none rest (matcher :: matchers) parameters
        | .ok .refused => .ok none
        | .ok (.taken parameters) => matchFrom (i + 1) none rest matchers parameters

/-- `MountPath::match`. -/
def «match» (matchers : List PathMatcher) : Result (Option HeadersView) :=
  matchFrom engine urlPath 0 (some 0) urlPath matchers []

end Match

end MountPath

/-! ### Two matchers -/

section Agreement

variable (engine : RegexEngine)

def pathOf (segments : List Text) : Text := segments.flatMap fun segment => '/' :: segment

/-- The trie and the mount path both return, either nothing or the same parameters. -/
def MatchersAgree {E : Type} (trie : EndpointTrie E) (matchers : List PathMatcher) (path : Text) :
    Prop :=
  ∃ found mounted, trie.match engine path = .ok found ∧
    MountPath.match engine path matchers = .ok mounted ∧ found.map Prod.snd = mounted

/-- Each matcher accepts its segment. -/
def Accepts (matchers : List PathMatcher) (segments : List Text) : Prop :=
  List.Forall₂ (fun matcher segment => (matcher.match engine segment).isSome) matchers segments

/-- The literal segments are spelled as in the route, and the others are captured as a whole. -/
def Exact (matchers : List PathMatcher) (segments : List Text) : Prop :=
  List.Forall₂ (fun matcher segment =>
    if matcher.isLiteral then matcher.chunk = segment
    else matcher.match engine segment = some segment) matchers segments

end Agreement

end Liblw.Http
