import Liblw.Http.KeepAlive

/-!
# Conversations

The handlers make up a service, which answers a request with its body and knows nothing of readers,
buffers and reads of a transport. What a connection gives for the requests sent on it is compared
with the answers of the service, one turn after the other.
-/

namespace Liblw.Http

open Liblw.Lib Liblw.Io Serving

variable {E χ : Type}

/-- What a turn comes to: the responses that it writes, whether it closes the connection, and how it
ends. -/
structure Turn (χ : Type) where
  written : List Text
  closed : Bool
  result : Except (Exception χ) Unit

namespace Turn

/-- Behind the turn the connection is open, and `HttpRouter::run` goes on. It closes the connection
behind an `Error`, and any other exception ends it. -/
def goesOn (turn : Turn χ) : Bool := !turn.closed && turn.result.isOk

/-! ### The service -/

/-- An exception is answered with nothing. -/
def ofAnswer (answer : Except (Exception χ) HttpResponse) : Turn χ :=
  match answer with
  | .error exception => ⟨[], false, .error exception⟩
  | .ok response =>
      match response.serialize with
      | .error fault => ⟨[], false, .error (.fault fault)⟩
      | .ok bytes => ⟨[bytes], false, .ok ()⟩

end Turn

section Service

variable (engine : RegexEngine) (trie : EndpointTrie E)

/-- The response to a request with its body. -/
def Handlers.serve (handlers : Handlers E χ) (request : HttpRequest) (body : List UInt8) :
    Except (Exception χ) HttpResponse :=
  match trie.match engine request.path with
  | .error fault => .error (.fault fault)
  | .ok none => .ok (respondFailure HttpResponse.make 404 "Not Found.".toList)
  | .ok (some (endpoint, parameters)) => do
      let request := { request with routeParams := parameters }
      let response ← handlers.make endpoint request HttpResponse.make
      match methodOf request.method with
      | none => pure (respondFailure response 400 "Unknown method.".toList)
      | some method =>
          let body := if handlers.readsBody endpoint method request then some body else none
          handlers.handle endpoint method request body response

def Handlers.turn (handlers : Handlers E χ) (sent : SentRequest) : Turn χ :=
  .ofAnswer (handlers.serve engine trie sent.request sent.body)

/-- One request after the other, up to a turn behind which the connection does not go on. -/
def converse : List (SentRequest × Handlers E χ) → List (Turn χ)
  | [] => []
  | (sent, handlers) :: turns =>
      let turn := handlers.turn engine trie sent
      turn :: if turn.goesOn then converse turns else []

end Service

/-! ### The connection -/

def written : List (Coroutine.Event (Answer (E := E) χ)) → List Text
  | [] => []
  | ⟨.write data, _⟩ :: events => data :: written events
  | _ :: events => written events

def closes : List (Coroutine.Event (Answer (E := E) χ)) → Bool
  | [] => false
  | ⟨.close _, _⟩ :: _ => true
  | _ :: events => closes events

def Turn.ofEvents {τ : Type}
    (run : List (Coroutine.Event (Answer (E := E) χ)) × Except (Exception χ) Unit × τ) : Turn χ :=
  ⟨Http.written run.1, closes run.1, run.2.1⟩

section Connection

variable (flags : ReadFlags) (allocator : Allocator) (engine : RegexEngine) (what : Error → Text)
  (trie : EndpointTrie E)

/-- The loop of `HttpRouter::run`, with the handlers of each turn. -/
def runConnection : List (Handlers E χ) → Stream → List (Turn χ)
  | [], _ => []
  | handlers :: turns, connection =>
      let run := runOnce flags allocator engine what trie handlers connection
      Turn.ofEvents run ::
        if (Turn.ofEvents run).goesOn then runConnection turns run.2.2 else []

/-- In every turn that the conversation comes to the request ends with a read. -/
def AllEnd : List (SentRequest × Handlers E χ) → Stream → Prop
  | [], _ => True
  | (sent, handlers) :: turns, connection =>
      EndsWithRead flags engine trie sent handlers connection ∧
        ((handlers.turn engine trie sent).goesOn = true →
          AllEnd turns (runOnce flags allocator engine what trie handlers connection).2.2)

end Connection

end Liblw.Http
