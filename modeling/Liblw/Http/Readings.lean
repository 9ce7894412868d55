import Liblw.Http.EndpointTrie
import Liblw.Lib.Lex

/-!
# Routes as ways through the trie

What the trie is for, told by the routes alone. A route is a sequence of steps, the characters of
its literal segments with a separator before each segment, and one step for each of its other
matchers. A beginning of a route reads a path if its steps take up the whole path, each in its turn;
a wildcard takes up as many characters as its matcher captures.
-/

namespace Liblw.Http

inductive RouteStep where
  | char (c : Char)
  | wild (matcher : PathMatcher)
deriving DecidableEq, Repr

def RouteStep.key : RouteStep → Key
  | .char c => .char c
  | .wild _ => .wild

def segmentSteps (matcher : PathMatcher) : List RouteStep :=
  .char '/' ::
    if matcher.isLiteral then matcher.chunk.map RouteStep.char else [.wild matcher]

def stepsOf (matchers : List PathMatcher) : List RouteStep := matchers.flatMap segmentSteps

/-- The node of the trie that the steps lead to. -/
def nodeOf (steps : List RouteStep) : Node := steps.map RouteStep.key

/-- The routes have a wildcard with this matcher at this node. -/
def WildAt (matchers : List PathMatcher) (node : Node) (matcher : PathMatcher) : Prop :=
  ∃ before after, stepsOf matchers = before ++ .wild matcher :: after ∧ nodeOf before = node

/-- Two routes cannot both be in a trie: they differ in a wildcard that stands at the same node, or
they end at the same node. -/
def Conflict (first second : List PathMatcher) : Prop :=
  (∃ node matcher matcher', WildAt first node matcher ∧ WildAt second node matcher' ∧
      matcher.chunk ≠ matcher'.chunk) ∨
    nodeOf (stepsOf first) = nodeOf (stepsOf second)

/-! ### Reading a path -/

section Reading

variable (engine : RegexEngine) (path : Text)

/-- The position behind the steps when they are read from a position, or `none` if a step does not
fit. At the end of the path nothing fits. -/
def readFrom : Nat → List RouteStep → Option Nat
  | i, [] => some i
  | i, .char c :: rest => if path[i]? = some c then readFrom (i + 1) rest else none
  | i, .wild matcher :: rest =>
      if i < path.length then
        (matcher.match engine (EndpointTrie.partAt path i)).bind fun captured =>
          readFrom (i + captured.length) rest
      else none

/-- The steps take up the whole path. -/
def Reads (steps : List RouteStep) : Prop := readFrom engine path 0 steps = some path.length

end Reading

def RouteStep.Before : RouteStep → RouteStep → Prop
  | .char _, .wild _ => True
  | _, _ => False

/-- The order in which steps are tried: a character before the wildcard beside it. -/
def Precedes : List RouteStep → List RouteStep → Prop := List.Lex RouteStep.Before

/-! ### The routes of endpoints -/

section Endpoints

variable {E : Type}

def routeMatchers (engine : RegexEngine) (route : E → Text) (endpoint : E) : List PathMatcher :=
  (MountPath.parseEndpoint engine (route endpoint)).toOption.getD []

/-- The route is accepted and makes at least one matcher. -/
def Routable (engine : RegexEngine) (route : E → Text) (endpoint : E) : Prop :=
  ∃ matchers, MountPath.parseEndpoint engine (route endpoint) = .ok matchers ∧ matchers ≠ []

/-- No two of the routes conflict. -/
def Compatible (matchersOf : E → List PathMatcher) (endpoints : List E) : Prop :=
  endpoints.Pairwise fun first second => ¬ Conflict (matchersOf first) (matchersOf second)

/-- The steps are the beginning of a route, up to the whole route. -/
def Begins (matchersOf : E → List PathMatcher) (endpoints : List E) (steps : List RouteStep) :
    Prop :=
  steps = [] ∨ ∃ endpoint ∈ endpoints, steps <+: stepsOf (matchersOf endpoint)

/-- The beginning of a route that reads the whole path and is tried before all others that do. -/
structure FirstReading (engine : RegexEngine) (matchersOf : E → List PathMatcher)
    (endpoints : List E) (path : Text) (steps : List RouteStep) : Prop where
  begins : Begins matchersOf endpoints steps
  reads : Reads engine path steps
  first : ∀ other, Begins matchersOf endpoints other → Reads engine path other →
    other = steps ∨ Precedes steps other

/-- The path ends inside a route, on a way that is tried before every route that takes up the
path. -/
def DeadEnd (engine : RegexEngine) (matchersOf : E → List PathMatcher) (endpoints : List E)
    (path : Text) : Prop :=
  ∃ steps, Begins matchersOf endpoints steps ∧ Reads engine path steps ∧
    (∀ endpoint ∈ endpoints, stepsOf (matchersOf endpoint) ≠ steps) ∧
    ∀ endpoint ∈ endpoints, Reads engine path (stepsOf (matchersOf endpoint)) →
      Precedes steps (stepsOf (matchersOf endpoint))

/-- What a wildcard captures when the search tries it. -/
structure Recording where
  before : List RouteStep
  matcher : PathMatcher
  captured : Text

def Recording.steps (recording : Recording) : List RouteStep :=
  recording.before ++ [.wild recording.matcher]

/-- The beginning of a route up to the wildcard fits the path, with this capture. -/
structure Recording.Made (engine : RegexEngine) (matchersOf : E → List PathMatcher)
    (endpoints : List E) (path : Text) (recording : Recording) : Prop where
  begins : Begins matchersOf endpoints recording.steps
  fits : ∃ i, readFrom engine path 0 recording.before = some i ∧ i < path.length ∧
    recording.matcher.match engine (EndpointTrie.partAt path i) = some recording.captured

/-- The parameters after recordings have been made in their order. -/
def recordAll (log : List Recording) : HeadersView :=
  log.foldl (fun parameters recording =>
    parameters.assign recording.matcher.name recording.captured) []

/-! ### What a match says about the path -/

/-- The path has one segment for each matcher, and each matcher accepts its segment. -/
structure SegmentsFit (engine : RegexEngine) (matchers : List PathMatcher) (path : Text)
    (segments : List Text) : Prop where
  path : path = segments.flatMap fun segment => '/' :: segment
  free : ∀ segment ∈ segments, '/' ∉ segment
  accepts : List.Forall₂ (fun matcher segment => (matcher.match engine segment).isSome) matchers
    segments

/-- The parameters that the matchers capture from their segments. -/
def capturedFrom (engine : RegexEngine) (matchers : List PathMatcher) (segments : List Text) :
    HeadersView :=
  (matchers.zip segments).foldl (fun parameters pair =>
    if pair.1.isLiteral then parameters
    else match pair.1.match engine pair.2 with
      | none => parameters
      | some captured => parameters.assign pair.1.name captured) []

/-- The path fits the route, and the parameters are those of the route. -/
def Faithful (engine : RegexEngine) (matchers : List PathMatcher) (path : Text)
    (parameters : HeadersView) : Prop :=
  ∃ segments, SegmentsFit engine matchers path segments ∧
    ∀ name, parameters.find name = (capturedFrom engine matchers segments).find name

/-- A wildcard that stands at a separator captures nothing and accepts the empty segment. -/
def Placed (engine : RegexEngine) (path : Text) (steps : List RouteStep) : Prop :=
  ∀ before matcher after i, steps = before ++ .wild matcher :: after →
    readFrom engine path 0 before = some i → path[i]? = some '/' →
      matcher.match engine (EndpointTrie.partAt path i) = some [] ∧
        (matcher.match engine []).isSome

/-- What the search records aside from the steps, before it comes to them, is recorded again later
under the same name, or is what the steps record last under this name. -/
def Undisturbed (engine : RegexEngine) (matchersOf : E → List PathMatcher) (endpoints : List E)
    (path : Text) (steps : List RouteStep) : Prop :=
  ∀ aside : Recording, aside.Made engine matchersOf endpoints path → Precedes aside.steps steps →
    ¬ aside.steps <+: steps →
      (∃ later : Recording, later.Made engine matchersOf endpoints path ∧
        sameName later.matcher.name aside.matcher.name ∧ Precedes aside.steps later.steps ∧
        (later.steps = steps ∨ Precedes later.steps steps)) ∨
      ∃ own : Recording, own.Made engine matchersOf endpoints path ∧ own.steps <+: steps ∧
        sameName own.matcher.name aside.matcher.name ∧ own.captured = aside.captured ∧
        ∀ other : Recording, other.Made engine matchersOf endpoints path → other.steps <+: steps →
          sameName other.matcher.name aside.matcher.name → other.steps <+: own.steps

end Endpoints

end Liblw.Http
