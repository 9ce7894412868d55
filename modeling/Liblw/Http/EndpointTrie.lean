import Liblw.Http.MountPath

/-!
# The trie of routes

A node of the trie is told by the way to it from the root: a character for each edge of `children`,
and one key for the edge of its `wildcard`. The root has no endpoint field, and the code that takes
it for a `TrieNode` has no meaning.
-/

namespace Liblw.Http

open Liblw.Lib

inductive Key where
  | char (c : Char)
  | wild
deriving DecidableEq, Repr

abbrev Node := List Key

/-- The nodes other than the root, the matcher of each node's wildcard edge, and the endpoint of
each node. -/
structure EndpointTrie (E : Type) where
  nodes : Finset Node
  wildcard : Node → Option PathMatcher
  endpoint : Node → Option E

namespace EndpointTrie

variable {E : Type}

def empty : EndpointTrie E := ⟨∅, fun _ => none, fun _ => none⟩

def addNode (trie : EndpointTrie E) (node : Node) : EndpointTrie E :=
  { trie with nodes := Insert.insert node trie.nodes }

def setWildcard (trie : EndpointTrie E) (node : Node) (matcher : PathMatcher) : EndpointTrie E :=
  { trie with wildcard := Function.update trie.wildcard node (some matcher) }

def setEndpoint (trie : EndpointTrie E) (node : Node) (endpoint : E) : EndpointTrie E :=
  { trie with endpoint := Function.update trie.endpoint node (some endpoint) }

/-! ### Insertion -/

/-- `_build_literal_path`. A child that is there stays as it is. -/
def buildLiteralPath (node : Node) : Text → Call Fault (EndpointTrie E) Node
  | [] => pure node
  | c :: rest => do
      modify fun trie => trie.addNode (node ++ [.char c])
      buildLiteralPath (node ++ [.char c]) rest

/-- The wildcard edge of a node for a matcher. -/
def buildWildcard (node : Node) (matcher : PathMatcher) (route : Text) :
    Call Fault (EndpointTrie E) Node := do
  let trie ← get
  match trie.wildcard node with
  | none =>
      set ((trie.setWildcard node matcher).addNode (node ++ [.wild]))
      pure (node ++ [.wild])
  | some present =>
      if present.chunk ≠ matcher.chunk then
        let chunk := String.ofList matcher.chunk
        let shown := String.ofList route
        let other := String.ofList present.chunk
        let message := s!"Path parameter {chunk} for route {shown} collides with "
        raise .alreadyExists (message ++ s!"existing path parameter {other}")
      else pure (node ++ [.wild])

def buildPathFrom (route : Text) : Node → List PathMatcher → Call Fault (EndpointTrie E) Node
  | node, [] => pure node
  | node, matcher :: rest => do
      let node ← buildLiteralPath node ['/']
      let node ←
        if matcher.isLiteral then buildLiteralPath node matcher.chunk
        else buildWildcard node matcher route
      buildPathFrom route node rest

def buildPath (matchers : List PathMatcher) (route : Text) : Call Fault (EndpointTrie E) Node :=
  buildPathFrom route [] matchers

variable (route : E → Text)

def insert (matchers : List PathMatcher) (endpoint : E) : Call Fault (EndpointTrie E) Unit := do
  let node ← buildPath matchers (route endpoint)
  if node = [] then throw (.undefined .rootIsNoTrieNode)
  else
    let trie ← get
    match trie.endpoint node with
    | none => set (trie.setEndpoint node endpoint)
    | some present =>
        let shown := String.ofList (route endpoint)
        if route present = route endpoint then
          raise .alreadyExists s!"A handler already exists for the route {shown}"
        else
          let other := String.ofList (route present)
          raise .alreadyExists s!"Handler route {shown} collides with existing route {other}"

/-- `HttpRouter::attach_routes` for the endpoints in the order of the iteration. -/
def attachRoutes (engine : RegexEngine) : List E → Call Fault (EndpointTrie E) Unit
  | [] => pure ()
  | endpoint :: rest =>
      match MountPath.parseEndpoint engine (route endpoint) with
      | .error fault => throw fault
      | .ok matchers => do
          insert route matchers endpoint
          attachRoutes engine rest

/-! ### Matching -/

/-- The part of the path that a wildcard at `start` looks at: up to the next separator, which is
looked for behind the first character. -/
def partAt (path : Text) (start : Nat) : Text :=
  match path.drop start with
  | [] => []
  | c :: rest => c :: rest.takeWhile (· ≠ '/')

/-- The position of the walk, the wildcards it has passed, and what it has recorded. -/
structure Walk where
  node : Node
  i : Nat
  wildcardStack : List (Node × Nat)
  parameters : HeadersView

variable (engine : RegexEngine) (trie : EndpointTrie E) (path : Text)

/-- The way back along the stack to a wildcard that matches. -/
def backtrack (parameters : HeadersView) : List (Node × Nat) → Option Walk
  | [] => none
  | (wildNode, wildI) :: stack =>
      match trie.wildcard wildNode with
      | none => backtrack parameters stack
      | some matcher =>
          match matcher.match engine (partAt path wildI) with
          | none => backtrack parameters stack
          | some captured => some
              { node := wildNode ++ [.wild]
                i := wildI + captured.length
                wildcardStack := stack
                parameters := parameters.assign matcher.name captured }

/-- One round of the loop: `none` when there is no way on. -/
def stepWalk (walk : Walk) (c : Char) : Option Walk :=
  let stack :=
    if (trie.wildcard walk.node).isSome then (walk.node, walk.i) :: walk.wildcardStack
    else walk.wildcardStack
  if walk.node ++ [.char c] ∈ trie.nodes then
    some { walk with
      node := walk.node ++ [.char c]
      i := walk.i + 1
      wildcardStack := stack }
  else backtrack engine trie path walk.parameters stack

/-- The loop of `walk_path`. It enters no node twice, so `rounds` is enough when it exceeds the
number of the nodes. -/
def walkLoop : (rounds : Nat) → Walk → Result (Option Walk)
  | 0, _ => .error .diverged
  | rounds + 1, walk =>
      match path[walk.i]? with
      | none => .ok (some walk)
      | some c =>
          match stepWalk engine trie path walk c with
          | none => .ok none
          | some next => walkLoop rounds next

def walkPath : Result (Option Walk) :=
  walkLoop engine trie path (trie.nodes.card + 1) ⟨[], 0, [], []⟩

/-- `EndpointTrie::match`. -/
def «match» : Result (Option (E × HeadersView)) :=
  match walkPath engine trie path with
  | .error fault => .error fault
  | .ok none => .ok none
  | .ok (some walk) =>
      if walk.node = [] then .error (.undefined .rootIsNoTrieNode)
      else .ok ((trie.endpoint walk.node).map fun endpoint => (endpoint, walk.parameters))

end EndpointTrie

end Liblw.Http
