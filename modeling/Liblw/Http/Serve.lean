import Liblw.Http.EndpointTrie
import Liblw.Http.Request
import Liblw.Http.Response
import Liblw.Lib.Coroutine

/-!
# Serving a connection

What `HttpRouter::run` awaits. The connection, the reader over it and the handlers are outside: a
run queries them, and goes on from any answer that they give.
-/

namespace Liblw.Http

open Liblw.Lib

/-- What a call throws. Handlers and streams throw what they like, not only what the modelled code
throws. -/
inductive Exception (χ : Type) where
  | fault (fault : Fault)
  | foreign (exception : χ)
deriving DecidableEq, Repr

/-- `catch (const Error&)` catches it. -/
def Exception.isError {χ : Type} : Exception χ → Bool
  | .fault (.thrown _) => true
  | _ => false

inductive Method where
  | del
  | get
  | head
  | options
  | patch
  | post
  | put
deriving DecidableEq, Repr

/-- The methods that a handler is called for, in the order in which they are tried. -/
def methodNames : List (String × Method) :=
  [("DELETE", .del), ("GET", .get), ("HEAD", .head), ("OPTIONS", .options), ("PATCH", .patch),
    ("POST", .post), ("PUT", .put)]

def methodOf (name : Text) : Option Method := methodNames.lookup (String.ofList name)

/-! ### What a run asks for -/

/-- The calls that leave the modelled code. `close` tells whether it is called for an error that
was caught. -/
inductive Query (E : Type) where
  | good
  | close (caught : Bool)
  | readUntil (delimiter : List UInt8)
  | write (data : Text)
  | makeHandler (endpoint : E) (request : HttpRequest) (response : HttpResponse)
  | handle (endpoint : E) (method : Method) (request : HttpRequest) (response : HttpResponse)

variable {E χ : Type}

/-- What comes back. A handler returns with the response as it has left it. -/
abbrev Answer (χ : Type) : Query E → Type
  | .good => Bool
  | .close _ => Except (Exception χ) Unit
  | .readUntil _ => Except (Exception χ) (List UInt8)
  | .write _ => Except (Exception χ) Nat
  | .makeHandler _ _ _ => Except (Exception χ) HttpResponse
  | .handle _ _ _ _ => Except (Exception χ) HttpResponse

abbrev Serving (E χ : Type) := Coroutine (Query E) (Answer χ) (Exception χ)

namespace Serving

def ofResult {α : Type} (result : Result α) : Serving E χ α := .done (result.mapError .fault)

def good : Serving E χ Bool := Coroutine.ask Query.good

def close (caught : Bool) : Serving E χ Unit := .await (.close caught) .done

def write (data : Text) : Serving E χ Nat := .await (.write data) .done

def makeHandler (endpoint : E) (request : HttpRequest) (response : HttpResponse) :
    Serving E χ HttpResponse :=
  .await (.makeHandler endpoint request response) .done

def handle (endpoint : E) (method : Method) (request : HttpRequest) (response : HttpResponse) :
    Serving E χ HttpResponse :=
  .await (.handle endpoint method request response) .done

/-! ### One request -/

def respondFailure (response : HttpResponse) (status : Int32) (body : Text) : HttpResponse :=
  ((response.setStatus status).setHeader "Content-Type".toList "text/plain".toList).setBody body

/-- `HttpRequest::read_header`. The request is as far read as the head was taken apart, also where
that throws. -/
def readHeader (request : HttpRequest) : Serving E χ (Except (Exception χ) Unit × HttpRequest) :=
  if request.rawHeader ≠ [] then
    pure (.error (.fault (.thrown ⟨.failedPrecondition, "Header already loaded."⟩)), request)
  else
    .await (.readUntil Exchange.headEnd) fun
      | .error exception => pure (.error exception, request)
      | .ok bytes =>
          let (result, request) := (HttpRequest.parseHead (textOfBytes bytes)).exec request
          pure (result.mapError .fault, request)

/-- The handler in `try_read_header`. `what` gives the text of an error, which begins with the place
where it was thrown. -/
def catchMalformed (what : Error → Text) (request : HttpRequest) (response : HttpResponse) :
    Except (Exception χ) Unit → Serving E χ (Bool × HttpRequest × HttpResponse)
  | .ok () => pure (true, request, response)
  | .error (.fault (.thrown error)) =>
      if error.kind = .invalidArgument then
        pure (false, request, respondFailure response 400 (what error))
      else throw (.fault (.thrown error))
  | .error exception => throw exception

def tryReadHeader (what : Error → Text) (request : HttpRequest) (response : HttpResponse) :
    Serving E χ (Bool × HttpRequest × HttpResponse) := do
  let (result, request) ← readHeader request
  catchMalformed what request response result

def connectionName : Text := "connection".toList

def finishRequest (request : HttpRequest) (response : HttpResponse) : Serving E χ Unit := do
  let bytes ← ofResult response.serialize
  let _ ← write bytes
  if !request.hasHeader connectionName ||
      request.headers.find connectionName ≠ some "keep-alive".toList then
    close false

section Routing

variable (engine : RegexEngine) (what : Error → Text) (trie : EndpointTrie E)

/-- `run_request`, which is also `HttpRouter::run_once`. -/
def runRequest : Serving E χ Unit := do
  let (headed, request, response) ← tryReadHeader what HttpRequest.make HttpResponse.make
  if !headed then finishRequest request response
  else
    match ← ofResult (trie.match engine request.path) with
    | none => finishRequest request (respondFailure response 404 "Not Found.".toList)
    | some (endpoint, parameters) => do
        let request := { request with routeParams := parameters }
        let response ← makeHandler endpoint request response
        let response ←
          match methodOf request.method with
          | some method => handle endpoint method request response
          | none => pure (respondFailure response 400 "Unknown method.".toList)
        finishRequest request response

/-- One round of the loop of `HttpRouter::run`, from its condition on. It returns whether the loop
goes on. -/
def runRound : Serving E χ Bool := do
  if ← good then
    tryCatch (do runRequest engine what trie; pure true) fun exception =>
      if exception.isError then do
        if ← good then close true
        pure true
      else throw exception
  else pure false

end Routing

end Serving

/-! ### Answers that a run gets over -/

/-- A result that is no exception, or one that the loop of `run` catches. -/
def harmless {α : Type} : Except (Exception χ) α → Bool
  | .ok _ => true
  | .error exception => exception.isError

/-- The answers after which a run goes on to a proper end: no exception but an `Error`, none at all
where an `Error` has been caught already, and no request whose path has no meaning to `match`. -/
def expects (engine : RegexEngine) (trie : EndpointTrie E) :
    (query : Query E) → Answer χ query → Bool
  | .good, _ => true
  | .close true, answer => answer.isOk
  | .close false, answer => harmless answer
  | .readUntil _, .error exception => exception.isError
  | .readUntil _, .ok bytes =>
      match (HttpRequest.parseHead (textOfBytes bytes)).exec HttpRequest.make with
      | (.ok (), request) => (trie.match engine request.path).isOk
      | (.error _, _) => true
  | .write _, answer => harmless answer
  | .makeHandler _ _ _, answer => harmless answer
  | .handle _ _ _ _, answer => harmless answer

/-! ### What the stream gets -/

/-- Whoever answers the queries of a run. Its stream takes some of what it is offered. -/
structure Host (E χ σ : Type) where
  respond : (query : Query E) → σ → Answer χ query × σ
  write_accepts : ∀ data state, data ≠ [] → ∃ count,
    (respond (.write data) state).1 = .ok count ∧ 0 < count ∧ count ≤ data.length

/-- What the stream has taken up to where it is closed. -/
def delivered : List (Coroutine.Event (Answer (E := E) χ)) → Text
  | [] => []
  | ⟨.write data, .ok count⟩ :: rest => data.take count ++ delivered rest
  | ⟨.close _, _⟩ :: _ => []
  | _ :: rest => delivered rest

end Liblw.Http
