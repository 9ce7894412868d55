import Liblw.Http.Serve
import Liblw.Lib.Run
import Liblw.Net.Server

/-!
# The connections of a router

`HttpRouter::run` for any number of connections. Between two queries of one run any other run may go
on, and the counter of the connections is theirs together.
-/

namespace Liblw.Http

open Liblw.Lib

variable {E χ : Type}

/-- How far a call of `HttpRouter::run` is. An exception that leaves it is kept in its task. -/
inductive Stage (E χ : Type) where
  | scheduled
  | running (rest : Serving E χ Bool)
  | ended (result : Except (Exception χ) Unit)

/-- The run has started and not ended. -/
def Stage.isRunning : Stage E χ → Bool
  | .running _ => true
  | _ => false

def Stage.hasEnded : Stage E χ → Bool
  | .ended _ => true
  | _ => false

structure HttpRouter (E χ : Type) where
  connectionCounter : Nat
  runs : List (Stage E χ)

namespace HttpRouter

def make : HttpRouter E χ := ⟨0, []⟩

def connectionCount (router : HttpRouter E χ) : Nat := router.connectionCounter

/-- How many connections have a run that has started and not ended. -/
def active (router : HttpRouter E χ) : Nat := router.runs.countP Stage.isRunning

section Steps

variable (engine : RegexEngine) (what : Error → Text) (trie : EndpointTrie E)

/-- A run goes on up to its next query. Behind its loop it takes itself off the counter, and where
an exception leaves the loop it does not get there. -/
def goOn (router : HttpRouter E χ) (i : Nat) : Serving E χ Bool → HttpRouter E χ
  | .done (.ok true) =>
      { router with runs := router.runs.set i (.running (Serving.runRound engine what trie)) }
  | .done (.ok false) =>
      { connectionCounter := router.connectionCounter - 1
        runs := router.runs.set i (.ended (.ok ())) }
  | .done (.error exception) =>
      { router with runs := router.runs.set i (.ended (.error exception)) }
  | .await query resume =>
      { router with runs := router.runs.set i (.running (.await query resume)) }

/-- A connection is handed to `run`, a run takes its first step, or a run gets an answer. -/
inductive Action (E χ : Type) where
  | hand
  | start (i : Nat)
  | answer (i : Nat) (event : Coroutine.Event (Answer (E := E) χ))

inductive Step : HttpRouter E χ → Action E χ → HttpRouter E χ → Prop where
  | hand (router : HttpRouter E χ) :
      Step router .hand { router with runs := router.runs ++ [.scheduled] }
  | start {router : HttpRouter E χ} {i : Nat} (hrun : router.runs[i]? = some .scheduled) :
      Step router (.start i)
        (goOn engine what trie { router with connectionCounter := router.connectionCounter + 1 } i
          (Serving.runRound engine what trie))
  | answer {router : HttpRouter E χ} {i : Nat} {query : Query E}
      {resume : Answer χ query → Serving E χ Bool}
      (hrun : router.runs[i]? = some (.running (.await query resume))) (answer : Answer χ query) :
      Step router (.answer i ⟨query, answer⟩) (goOn engine what trie router i (resume answer))

def Action.isExpected : Action E χ → Bool
  | .hand => true
  | .start _ => true
  | .answer _ event => expects engine trie event.1 event.2

/-- The count is the number of the active runs all along. Once all runs have ended nothing is left
of it, and a server closes where no other router has a connection. -/
structure Balanced (actions : List (Action E χ)) (final : HttpRouter E χ) : Prop where
  counts : ∀ router, Run.Visits (Step engine what trie) make actions final router →
    router.connectionCount = router.active
  closes : (∀ stage ∈ final.runs, stage.hasEnded) →
    final.connectionCount = 0 ∧ ∀ server : Net.Server (HttpRouter E χ),
      (∀ entry ∈ server.portMap, entry.2.router = final ∨ entry.2.router.connectionCount = 0) →
      (server.tryClose connectionCount).1 = true

end Steps

end HttpRouter

end Liblw.Http
