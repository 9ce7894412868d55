import Liblw.Http.EndpointTrie

/-!
# Runs on a trie

A trie as it has come about by attempts to insert, and the rounds of a walk on it one after the
other. And the tries that the routes of a few texts make.
-/

namespace Liblw.Http.EndpointTrie

open Liblw.Lib

variable {E : Type}

/-- The trie after attempts to insert, of which some may have failed. -/
def attempted (route : E → Text) (attempts : List (List PathMatcher × E)) : EndpointTrie E :=
  attempts.foldl (fun trie attempt => ((insert route attempt.1 attempt.2).exec trie).2) empty

section Walk

variable (engine : RegexEngine) (trie : EndpointTrie E) (path : Text)

/-- The walk after the given number of rounds, `none` where the loop has ended before. -/
def walkAt : (rounds : Nat) → Option Walk
  | 0 => some ⟨[], 0, [], []⟩
  | rounds + 1 =>
      (walkAt rounds).bind fun walk => path[walk.i]?.bind (stepWalk engine trie path walk)

/-- The stack of a round, with the wildcard of its own node. A round that goes back pops from it. -/
def roundStack (walk : Walk) : List (Node × Nat) :=
  if (trie.wildcard walk.node).isSome then (walk.node, walk.i) :: walk.wildcardStack
  else walk.wildcardStack

end Walk

/-! ### Small tries -/

/-- Regular expressions of letters and digits, which match their own text. -/
def plainEngine : RegexEngine where
  compiles := fun pattern => pattern.all isAlnum
  fullMatch := fun pattern part => if pattern = part then some part else none
  captured_infix := by
    intro pattern part captured hmatch
    split_ifs at hmatch with heq
    obtain rfl := Option.some.inj hmatch
    exact List.infix_rfl

/-- The tries that the routes of the texts make. -/
def trieOf (texts : List String) : EndpointTrie Text :=
  ((attachRoutes id plainEngine (texts.map String.toList)).exec empty).2

theorem exec_trieOf {texts : List String}
    (hattach : ((attachRoutes id plainEngine (texts.map String.toList)).exec empty).1 = .ok ()) :
    (attachRoutes id plainEngine (texts.map String.toList)).exec empty = (.ok (), trieOf texts) :=
  Prod.ext hattach rfl

end Liblw.Http.EndpointTrie
