import Liblw.Http.Conversation
import Liblw.Proof.KeepAlive

/-!
# A connection gives what the service answers

However the transport cuts the bytes into reads, a turn whose request ends with a read calls the
handlers with the request and its whole body, and writes what they make of it.
-/

namespace Liblw.Http

open Liblw.Lib Liblw.Io Serving

variable {E χ : Type} {flags : ReadFlags} {allocator : Allocator} {engine : RegexEngine}
  {what : Error → Text} {trie : EndpointTrie E} {handlers : Handlers E χ}

/-! ### The queries of a turn -/

/-- A query that neither writes nor closes leaves it to what comes behind it. -/
theorem ofEvents_await {query : Query E} {resume : Answer χ query → Serving E χ Unit}
    {reader : CoReader Stream} (hwrite : ∀ data, query ≠ .write data)
    (hclose : ∀ caught, query ≠ .close caught) :
    Turn.ofEvents ((.await query resume : Serving E χ Unit).play
        (respond flags allocator handlers) reader) =
      Turn.ofEvents ((resume (respond flags allocator handlers query reader).1).play
        (respond flags allocator handlers) (respond flags allocator handlers query reader).2) := by
  rw [Coroutine.play, Turn.ofEvents, Turn.ofEvents, Turn.mk.injEq]
  refine ⟨?_, ?_, rfl⟩
  · rw [written]
    rintro data answer hevent
    exact hwrite data (congrArg Sigma.fst hevent)
  · rw [closes]
    rintro caught answer hevent
    exact hclose caught (congrArg Sigma.fst hevent)

/-- The request keeps the connection alive. -/
def KeepsAlive (request : HttpRequest) : Prop :=
  request.hasHeader connectionName = true ∧
    request.headers.find connectionName = some "keep-alive".toList

theorem ofEvents_finishRequest {request : HttpRequest} (hkeeps : KeepsAlive request)
    (response : HttpResponse) (reader : CoReader Stream) :
    Turn.ofEvents ((finishRequest request response : Serving E χ Unit).play
        (respond flags allocator handlers) reader) =
      Turn.ofAnswer (.ok response) := by
  unfold finishRequest Turn.ofAnswer
  dsimp only
  cases response.serialize with
  | error fault => rfl
  | ok bytes =>
      simp only [hkeeps.1, hkeeps.2]
      rfl

theorem ofEvents_answered {request : HttpRequest} (hkeeps : KeepsAlive request)
    (answer : Except (Exception χ) HttpResponse) (reader : CoReader Stream) :
    Turn.ofEvents (((.done answer : Serving E χ HttpResponse) >>= finishRequest request).play
        (respond flags allocator handlers) reader) =
      Turn.ofAnswer answer := by
  cases answer with
  | error exception => rfl
  | ok response => exact ofEvents_finishRequest hkeeps response reader

/-- The handlers find the body of the request behind its head. -/
def FindsBody (flags : ReadFlags) (allocator : Allocator) (request : HttpRequest)
    (body : List UInt8) (reader : CoReader Stream) : Prop :=
  ∀ parameters, ∃ exchange, (Exchange.body flags allocator Stream.asSource).exec
    ⟨{ request with routeParams := parameters }, reader⟩ = (.ok body, exchange)

/-- **Behind the head** the queries are those that the service makes of the request. -/
theorem ofEvents_routeRequest {request : HttpRequest} {body : List UInt8}
    {reader : CoReader Stream} (hkeeps : KeepsAlive request)
    (hbody : handlers.readBodyOf engine trie request = true →
      FindsBody flags allocator request body reader) :
    Turn.ofEvents ((routeRequest engine trie request HttpResponse.make : Serving E χ Unit).play
        (respond flags allocator handlers) reader) =
      Turn.ofAnswer (handlers.serve engine trie request body) := by
  rw [routeRequest, Handlers.serve]
  rw [Handlers.readBodyOf] at hbody
  cases hmatch : trie.match engine request.path with
  | error fault => rfl
  | ok found =>
    cases found with
    | none => exact ofEvents_finishRequest hkeeps _ reader
    | some found =>
      obtain ⟨endpoint, parameters⟩ := found
      rw [hmatch] at hbody
      dsimp only at hbody ⊢
      have hkeeps' : KeepsAlive { request with routeParams := parameters } := hkeeps
      refine (ofEvents_await (fun _ hquery => by cases hquery)
        (fun _ hquery => by cases hquery)).trans ?_
      rw [respond]
      dsimp only
      cases hmake : handlers.make endpoint { request with routeParams := parameters }
        HttpResponse.make with
      | error exception => rfl
      | ok response =>
        cases hmethod : methodOf request.method with
        | none => exact ofEvents_finishRequest hkeeps' _ reader
        | some method =>
          rw [hmake, hmethod] at hbody
          refine (ofEvents_await (fun _ hquery => by cases hquery)
            (fun _ hquery => by cases hquery)).trans ?_
          rw [respond]
          by_cases hreads : handlers.readsBody endpoint method
            { request with routeParams := parameters } = true
          · obtain ⟨exchange, hexec⟩ := hbody hreads parameters
            rw [if_pos hreads, hexec]
            refine (ofEvents_answered hkeeps' _ _).trans ?_
            simp only [hreads, if_true]
            rfl
          · rw [if_neg hreads]
            refine (ofEvents_answered hkeeps' _ _).trans ?_
            simp only [hreads]
            rfl

theorem ofEvents_runRequest (sent : SentRequest) {reader middle : CoReader Stream}
    (hread : (CoReader.readUntilString flags allocator Stream.asSource Exchange.headEnd 0).exec
      reader = (.ok sent.head, middle))
    (hbody : handlers.readBodyOf engine trie sent.request = true →
      FindsBody flags allocator sent.request sent.body middle) :
    Turn.ofEvents ((runRequest engine what trie : Serving E χ Unit).play
        (respond flags allocator handlers) reader) =
      handlers.turn engine trie sent := by
  have hrespond : respond flags allocator handlers (.readUntil Exchange.headEnd) reader =
      ((.ok sent.head : Except (Exception χ) (List UInt8)), middle) := by
    rw [respond, hread]
    rfl
  rw [runRequest_eq, tryReadHeader, readHeader, if_neg (fun hnone => hnone rfl),
    Coroutine.await_bind, Coroutine.await_bind]
  refine (ofEvents_await (fun _ hquery => by cases hquery)
    (fun _ hquery => by cases hquery)).trans ?_
  rw [hrespond]
  dsimp only
  rw [sent.parses]
  exact ofEvents_routeRequest sent.keepsAlive hbody

/-! ### The body -/

section Body

variable {sent : SentRequest} {later : List UInt8} {got : Nat} {middle : CoReader Stream}

theorem take_unread_eq_body (hbehind : BehindHead flags sent later got middle) :
    (middle.buffers.waiting ++ middle.source.rest).take sent.body.length = sent.body := by
  have hunread := hbehind.unread
  rw [Delivery.unread] at hunread
  change middle.buffers.waiting ++ middle.source.rest = _ at hunread
  rw [hunread, List.take_left]

/-- If the request ends with a read, reading the body gives the whole of it. -/
theorem exec_read_body (hbehind : BehindHead flags sent later got middle)
    (hinitial : 0 < flags.initialReadBufferSize)
    (hends : got = sent.bytes.length ∨
      got < sent.bytes.length ∧
        (sent.body.length ≤ flags.readBlockSize ∨
          sent.bytes.length ≤ flags.maximumReadBufferSize ∧
            flags.maximumReadBufferSize < 2 ^ 63) ∧
        sent.bytes.length - got ≤ max 1 (middle.source.cuts middle.source.reads)) :
    ∃ final, (CoReader.read flags allocator Stream.asSource sent.body.length).exec middle =
      (.ok sent.body, final) := by
  have harrived := hbehind.arrived
  have hlength := Buffers.length_waiting hbehind.settled
  have htotal := length_bytes sent
  have hbody := take_unread_eq_body hbehind
  rcases hends with hwhole | ⟨hless, hroom, hcut⟩
  · obtain ⟨final, hread⟩ := @CoReader.exec_read_of_waiting flags allocator middle
      sent.body.length hbehind.settled (by omega)
    rw [List.take_append_of_le_length (by omega)] at hbody
    exact ⟨final, hread.trans (by rw [hbody])⟩
  · obtain ⟨final, hread⟩ := @CoReader.exec_read_of_load flags allocator middle sent.body.length
      hbehind.settled hbehind.sized hinitial (hbehind.allows hroom) (by omega)
    have hall := congrArg List.length hbody
    rw [List.length_take, List.length_append] at hall
    have hdelivers : middle.source.delivers (sent.body.length - middle.buffers.waiting.length) =
        sent.body.length - middle.buffers.waiting.length := by
      rw [Stream.delivers]
      omega
    rw [List.take_append, List.take_of_length_le (by omega)] at hbody
    rw [hdelivers, hbody] at hread
    exact ⟨final, hread⟩

theorem findsBody_of_read (hsmall : sent.body.length < 2 ^ 64)
    (hread : ∃ final, (CoReader.read flags allocator Stream.asSource sent.body.length).exec middle =
      (.ok sent.body, final)) :
    FindsBody flags allocator sent.request sent.body middle := by
  intro parameters
  obtain ⟨final, hread⟩ := hread
  rw [Exchange.body, Call.exec_get_bind]
  dsimp only
  rw [contentLengthSize_eq sent parameters hsmall]
  by_cases hzero : sent.body.length = 0
  · rw [if_pos hzero, List.eq_nil_of_length_eq_zero hzero]
    exact ⟨_, rfl⟩
  · rw [if_neg hzero, if_pos (Nat.pos_of_ne_zero hzero), Exchange.onReader, Call.exec_within, hread]
    exact ⟨_, rfl⟩

end Body

/-! ### Turns -/

/-- **A turn gives what the service answers.** -/
theorem ofEvents_runOnce (sent : SentRequest) {connection : Stream} {later : List UInt8}
    (hsent : connection.rest = sent.bytes ++ later)
    (hfits : sent.head.length ≤ flags.readBlockSize) (hfinds : FindsHead flags sent connection)
    (hends : EndsWithRead flags engine trie sent handlers connection) :
    Turn.ofEvents (runOnce flags allocator engine what trie handlers connection) =
      handlers.turn engine trie sent := by
  obtain ⟨reader, middle, hmake, hread, got, harrive, hbehind⟩ :=
    @exists_behindHead flags allocator sent connection later hsent hfits hfinds
  obtain ⟨-, hinitial, hroom, hdoubles⟩ := hfinds
  have hsmall := hdoubles.small hroom
  rw [EndsWithRead, harrive] at hends
  have hlimited := hbehind.limited
  have htotal := length_bytes sent
  have hturn : Turn.ofEvents (runOnce flags allocator engine what trie handlers connection) =
      Turn.ofEvents ((runRequest engine what trie : Serving E χ Unit).play
        (respond flags allocator handlers) reader) := by
    rw [runOnce, hmake]
    rfl
  rw [hturn]
  refine ofEvents_runRequest sent hread fun hreads => findsBody_of_read ?_ ?_
  · rcases hends with hwhole | ⟨-, -, hfitting, -⟩
    · omega
    · omega
  · exact exec_read_body hbehind hinitial (hends.imp id (And.imp_right And.right))

end Liblw.Http
