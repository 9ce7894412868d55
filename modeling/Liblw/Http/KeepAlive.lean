import Liblw.Http.Serve
import Liblw.Io.Delimiters

/-!
# Several requests on one connection

Each `run_once` puts a reader of its own over the connection and drops it at its end, with whatever
it has read and nobody has asked for. So whether the next `run_once` finds the next request depends
on the reads of the transport and on the handlers that read bodies or leave them.
-/

namespace Liblw.Http

open Liblw.Lib Liblw.Io Serving

variable {E χ : Type}

/-- A request as it is sent: a well-formed head that keeps the connection alive, and as many bytes
of body as it announces. -/
structure SentRequest where
  head : List UInt8
  body : List UInt8
  request : HttpRequest
  ends : Search.EndsFirstAt Exchange.headEnd head head.length
  parses : (HttpRequest.parseHead (textOfBytes head)).exec HttpRequest.make = (.ok (), request)
  keepsAlive : request.hasHeader connectionName = true ∧
    request.headers.find connectionName = some "keep-alive".toList
  announces : request.contentLength = body.length

def SentRequest.bytes (sent : SentRequest) : List UInt8 := sent.head ++ sent.body

/-- What the handlers do in one turn, each of which may read the body of its request. -/
structure Handlers (E χ : Type) where
  make : E → HttpRequest → HttpResponse → Except (Exception χ) HttpResponse
  readsBody : E → Method → HttpRequest → Bool
  handle : E → Method → HttpRequest → Option (List UInt8) → HttpResponse →
    Except (Exception χ) HttpResponse

section Turns

variable (flags : ReadFlags) (allocator : Allocator)

/-- What the queries of one `run_once` get: the connection is a stream, the request and its handlers
read it through one reader, and what is written is taken. -/
def respond (handlers : Handlers E χ) :
    (query : Query E) → CoReader Stream → Answer χ query × CoReader Stream
  | .good, reader => (Stream.asSource.good reader.source, reader)
  | .close _, reader => (.ok (), reader)
  | .readUntil delimiter, reader =>
      let (result, reader) :=
        (CoReader.readUntilString flags allocator Stream.asSource delimiter 0).exec reader
      (result.mapError .fault, reader)
  | .write data, reader => (.ok data.length, reader)
  | .makeHandler endpoint request response, reader =>
      (handlers.make endpoint request response, reader)
  | .handle endpoint method request response, reader =>
      if handlers.readsBody endpoint method request then
        match (Exchange.body flags allocator Stream.asSource).exec ⟨request, reader⟩ with
        | (.ok bytes, exchange) =>
            (handlers.handle endpoint method request (some bytes) response, exchange.reader)
        | (.error fault, exchange) => (.error (.fault fault), exchange.reader)
      else (handlers.handle endpoint method request none response, reader)

variable (engine : RegexEngine) (what : Error → Text) (trie : EndpointTrie E)

/-- One `run_once`: what it asks and gets, how it ends, and the connection after it. -/
def runOnce (handlers : Handlers E χ) (connection : Stream) :
    List (Coroutine.Event (Answer (E := E) χ)) × Except (Exception χ) Unit × Stream :=
  match CoReader.make flags allocator connection with
  | .error fault => ([], .error (.fault fault), connection)
  | .ok reader =>
      let (events, result, reader) :=
        (runRequest engine what trie).play (respond flags allocator handlers) reader
      (events, result, reader.source)

/-- The heads that are taken apart: what `read_until` has returned. -/
def headsRead : List (Coroutine.Event (Answer (E := E) χ)) → List (List UInt8)
  | [] => []
  | ⟨.readUntil _, .ok bytes⟩ :: events => bytes :: headsRead events
  | _ :: events => headsRead events

/-- One `run_once` after the other: the heads that each has taken apart, and the connection after
them. -/
def runTurns : List (Handlers E χ) → Stream → List (List (List UInt8)) × Stream
  | [], connection => ([], connection)
  | handlers :: turns, connection =>
      let (events, _, connection) := runOnce flags allocator engine what trie handlers connection
      let (heads, connection) := runTurns turns connection
      (headsRead events :: heads, connection)

/-! ### Turns that leave the next request alone -/

/-- Whether the request comes to a handler that reads its body. -/
def Handlers.readBodyOf (handlers : Handlers E χ) (request : HttpRequest) : Bool :=
  match trie.match engine request.path with
  | .ok (some (endpoint, parameters)) =>
      let request := { request with routeParams := parameters }
      match handlers.make endpoint request HttpResponse.make, methodOf request.method with
      | .ok _, some method => handlers.readsBody endpoint method request
      | _, _ => false
  | _ => false

/-- The head is found: its end begins with an attempt of the search, and the buffers have room for
a block. -/
structure FindsHead (sent : SentRequest) (connection : Stream) : Prop where
  attempt : Search.Attempt Exchange.headEnd connection.rest
    (sent.head.length - Exchange.headEnd.length)
  initial : 0 < flags.initialReadBufferSize
  room : flags.initialReadBufferSize + flags.readBlockSize ≤ flags.maximumReadBufferSize
  doubles : Buffers.Doubles flags flags.initialReadBufferSize
    (flags.initialReadBufferSize + flags.readBlockSize)

/-- The reads that bring the head bring the whole request and nothing behind it; or they bring less,
and a handler reads the body, for which there is room, and the next read of the transport brings the
rest of the request. -/
def EndsWithRead (sent : SentRequest) (handlers : Handlers E χ) (connection : Stream) : Prop :=
  let (got, later) :=
    connection.arrive flags.readBlockSize sent.head.length sent.head.length 0
  got = sent.bytes.length ∨
    got < sent.bytes.length ∧ handlers.readBodyOf engine trie sent.request = true ∧
      (sent.body.length ≤ flags.readBlockSize ∨
        sent.bytes.length ≤ flags.maximumReadBufferSize ∧
          flags.maximumReadBufferSize < 2 ^ 63) ∧
      sent.bytes.length - got ≤ max 1 (later.cuts later.reads)

instance (sent : SentRequest) (handlers : Handlers E χ) (connection : Stream) :
    Decidable (EndsWithRead flags engine trie sent handlers connection) :=
  inferInstanceAs (Decidable (_ ∨ _))

/-- In every turn the head is found, and where another turn follows the request ends with a read. -/
def AllAligned : List (SentRequest × Handlers E χ) → Stream → Prop
  | [], _ => True
  | (sent, handlers) :: turns, connection =>
      FindsHead flags sent connection ∧
        (turns ≠ [] → EndsWithRead flags engine trie sent handlers connection) ∧
        AllAligned turns (runOnce flags allocator engine what trie handlers connection).2.2

end Turns

end Liblw.Http
