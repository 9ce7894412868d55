import Liblw.Http.KeepAlive
import Liblw.Proof.Arrivals
import Liblw.Proof.ReaderChunking

/-!
# Whose bytes a turn takes

A turn reads the head through a fresh reader, and the body if a handler asks for it. What it takes
off the connection are the reads that bring the head and at most one more. If those end where the
request ends, the next turn begins with the next request.
-/

namespace Liblw.Http

open Liblw.Lib Liblw.Io Serving

variable {E χ : Type} {flags : ReadFlags} {allocator : Allocator}

/-! ### The queries after the head -/

section Queries

variable {engine : RegexEngine} {what : Error → Text} {trie : EndpointTrie E}
  {handlers : Handlers E χ}

/-- A run that asks for no head and leaves the reader at `after`. -/
def LeadsTo (flags : ReadFlags) (allocator : Allocator) (handlers : Handlers E χ)
    (serving : Serving E χ Unit) (reader after : CoReader Stream) : Prop :=
  headsRead (serving.play (respond flags allocator handlers) reader).1 = [] ∧
    (serving.play (respond flags allocator handlers) reader).2.2 = after

theorem leadsTo_finishRequest (request : HttpRequest) (response : HttpResponse)
    (reader : CoReader Stream) :
    LeadsTo flags allocator handlers (finishRequest request response) reader reader := by
  unfold finishRequest
  cases response.serialize with
  | error fault => exact ⟨rfl, rfl⟩
  | ok bytes =>
    by_cases hclose : (!request.hasHeader connectionName ||
        request.headers.find connectionName ≠ some "keep-alive".toList) = true
    · simp only [hclose, if_true]
      exact ⟨rfl, rfl⟩
    · simp only [hclose]
      exact ⟨rfl, rfl⟩

/-- `run_request` behind the head. -/
def routeRequest (engine : RegexEngine) (trie : EndpointTrie E) (request : HttpRequest)
    (response : HttpResponse) : Serving E χ Unit := do
  match ← ofResult (trie.match engine request.path) with
  | none => finishRequest request (respondFailure response 404 "Not Found.".toList)
  | some (endpoint, parameters) => do
      let request := { request with routeParams := parameters }
      let response ← makeHandler endpoint request response
      let response ←
        match methodOf request.method with
        | some method => handle endpoint method request response
        | none => pure (respondFailure response 400 "Unknown method.".toList)
      finishRequest request response

theorem runRequest_eq :
    (runRequest engine what trie : Serving E χ Unit) =
      tryReadHeader what HttpRequest.make HttpResponse.make >>= fun (headed, request, response) =>
        if !headed then finishRequest request response
        else routeRequest engine trie request response := rfl

/-- The reader after a handler has read the body. -/
def afterBody (flags : ReadFlags) (allocator : Allocator) (request : HttpRequest)
    (reader : CoReader Stream) : CoReader Stream :=
  ((Exchange.body flags allocator Stream.asSource).exec ⟨request, reader⟩).2.reader

/-- What comes after a call of a handler. -/
theorem leadsTo_ofAnswer (request : HttpRequest) (reader : CoReader Stream)
    (answer : Except (Exception χ) HttpResponse) :
    LeadsTo flags allocator handlers
      ((.done answer : Serving E χ HttpResponse) >>= finishRequest request) reader reader := by
  cases answer with
  | error exception => exact ⟨rfl, rfl⟩
  | ok response => exact leadsTo_finishRequest request response reader

/-- A query that asks for no head leaves the reader as the answer does. -/
theorem leadsTo_await {query : Query E} {resume : Answer χ query → Serving E χ Unit}
    {reader after : CoReader Stream} (hquery : ∀ delimiter, query ≠ .readUntil delimiter)
    (hrest : LeadsTo flags allocator handlers
      (resume (respond flags allocator handlers query reader).1)
      (respond flags allocator handlers query reader).2 after) :
    LeadsTo flags allocator handlers (.await query resume) reader after := by
  refine ⟨?_, hrest.2⟩
  rw [Coroutine.play, headsRead]
  · exact hrest.1
  · rintro delimiter bytes hevent
    exact hquery delimiter (congrArg Sigma.fst hevent)

theorem leadsTo_handle (endpoint : E) (method : Method) (request : HttpRequest)
    (response : HttpResponse) (reader : CoReader Stream) :
    LeadsTo flags allocator handlers
      (handle endpoint method request response >>= finishRequest request) reader
      (if handlers.readsBody endpoint method request then afterBody flags allocator request reader
        else reader) := by
  have hafter : (respond flags allocator handlers (.handle endpoint method request response)
      reader).2 = if handlers.readsBody endpoint method request then
        afterBody flags allocator request reader else reader := by
    rw [respond]
    by_cases hreads : handlers.readsBody endpoint method request = true
    · rw [if_pos hreads, if_pos hreads, afterBody]
      split
      · next hexec => rw [hexec]
      · next hexec => rw [hexec]
    · rw [if_neg hreads, if_neg hreads]
  apply leadsTo_await
  · intro delimiter hquery
    cases hquery
  · rw [← hafter]
    exact leadsTo_ofAnswer request _ _

/-- Behind the head only a handler that reads the body takes anything off the reader. -/
theorem leadsTo_routeRequest (request : HttpRequest) (reader : CoReader Stream) :
    ∃ after, LeadsTo flags allocator handlers
        (routeRequest engine trie request HttpResponse.make) reader after ∧
      (handlers.readBodyOf engine trie request = true ∧
          (∃ parameters, after =
            afterBody flags allocator { request with routeParams := parameters } reader) ∨
        handlers.readBodyOf engine trie request = false ∧ after = reader) := by
  rw [routeRequest, Handlers.readBodyOf]
  cases trie.match engine request.path with
  | error fault => exact ⟨reader, ⟨rfl, rfl⟩, Or.inr ⟨rfl, rfl⟩⟩
  | ok found =>
    cases found with
    | none => exact ⟨reader, leadsTo_finishRequest request _ reader, Or.inr ⟨rfl, rfl⟩⟩
    | some found =>
      obtain ⟨endpoint, parameters⟩ := found
      dsimp only
      cases hmake : handlers.make endpoint { request with routeParams := parameters }
        HttpResponse.make with
      | error exception =>
        refine ⟨reader, leadsTo_await (fun _ hquery => by cases hquery) ?_, Or.inr ⟨rfl, rfl⟩⟩
        rw [respond, hmake]
        exact ⟨rfl, rfl⟩
      | ok response =>
        cases hmethod : methodOf request.method with
        | none =>
          refine ⟨reader, leadsTo_await (fun _ hquery => by cases hquery) ?_, Or.inr ⟨rfl, rfl⟩⟩
          rw [respond, hmake]
          exact leadsTo_finishRequest _ _ reader
        | some method =>
          let request' := { request with routeParams := parameters }
          refine ⟨if handlers.readsBody endpoint method request' then
            afterBody flags allocator request' reader else reader,
            leadsTo_await (fun _ hquery => by cases hquery) ?_, ?_⟩
          · rw [respond, hmake]
            exact leadsTo_handle endpoint method request' response reader
          · by_cases hreads : handlers.readsBody endpoint method request' = true
            · exact Or.inl ⟨hreads, parameters, if_pos hreads⟩
            · exact Or.inr ⟨eq_false_of_ne_true hreads, if_neg hreads⟩

/-- A run whose reader finds the head: it takes that head apart, and goes on from there. -/
theorem play_runRequest (sent : SentRequest) {reader middle : CoReader Stream}
    (hread : (CoReader.readUntilString flags allocator Stream.asSource Exchange.headEnd 0).exec
      reader = (.ok sent.head, middle)) :
    let run := (runRequest engine what trie : Serving E χ Unit).play
      (respond flags allocator handlers) reader
    headsRead run.1 = [sent.head] ∧
      (handlers.readBodyOf engine trie sent.request = true ∧
          (∃ parameters, run.2.2 =
            afterBody flags allocator { sent.request with routeParams := parameters } middle) ∨
        handlers.readBodyOf engine trie sent.request = false ∧ run.2.2 = middle) := by
  obtain ⟨after, ⟨hheads, hafter⟩, hplace⟩ := @leadsTo_routeRequest E χ flags allocator engine trie
    handlers sent.request middle
  have hrespond : respond flags allocator handlers (.readUntil Exchange.headEnd) reader =
      ((.ok sent.head : Except (Exception χ) (List UInt8)), middle) := by
    rw [respond, hread]
    rfl
  have hplay : (runRequest engine what trie : Serving E χ Unit).play
      (respond flags allocator handlers) reader =
        (⟨.readUntil Exchange.headEnd, .ok sent.head⟩ ::
          ((routeRequest engine trie sent.request HttpResponse.make).play
            (respond flags allocator handlers) middle).1,
          ((routeRequest engine trie sent.request HttpResponse.make).play
            (respond flags allocator handlers) middle).2) := by
    rw [runRequest_eq, tryReadHeader, readHeader, if_neg (fun hnone => hnone rfl),
      Coroutine.await_bind, Coroutine.await_bind, Coroutine.play, hrespond]
    dsimp only
    rw [sent.parses]
    rfl
  rw [hplay]
  refine ⟨?_, ?_⟩
  · rw [headsRead, hheads]
  · rw [hafter]
    exact hplace

end Queries

/-! ### The head -/

/-- The reader behind the head of a request, `got` bytes having arrived: the rest of what has
arrived waits, and there is room for the body. -/
structure BehindHead (flags : ReadFlags) (sent : SentRequest) (later : List UInt8) (got : Nat)
    (middle : CoReader Stream) : Prop where
  settled : middle.buffers.Settled
  sized : Sized flags middle.buffers
  unread : Stream.delivery.unread middle = sent.body ++ later
  arrived : sent.head.length + middle.buffers.read.size = got
  limited : got ≤ flags.readBlockSize
  allows : sent.body.length ≤ flags.readBlockSize ∨
      sent.bytes.length ≤ flags.maximumReadBufferSize ∧ flags.maximumReadBufferSize < 2 ^ 63 →
    middle.buffers.Allows flags sent.body.length

/-- A new reader has nothing, and may have a block. -/
theorem make_eq_ok {connection : Stream} (hroom : flags.initialReadBufferSize < 2 ^ 63) :
    ∃ reader, CoReader.make flags allocator connection = .ok reader ∧
      reader.source = connection ∧ reader.buffers.Unloaded ∧
      reader.buffers.buffer.cells.length = flags.initialReadBufferSize := by
  refine ⟨_, if_neg (by omega), rfl, ⟨rfl, rfl⟩, ?_⟩
  exact allocator.length_cells 0 flags.initialReadBufferSize

theorem headEnd_begins (sent : SentRequest) {rest : List UInt8} :
    Exchange.headEnd <+:
      (sent.head ++ rest).drop (sent.head.length - Exchange.headEnd.length) := by
  obtain ⟨hlength, -, hbegins⟩ := Search.endsAt_iff.1 sent.ends.ends
  rw [List.drop_append_of_le_length (Nat.sub_le _ _)]
  exact hbegins.trans (List.prefix_append _ _)

theorem scan_head (sent : SentRequest) {rest : List UInt8}
    (hattempt : Search.Attempt Exchange.headEnd (sent.head ++ rest)
      (sent.head.length - Exchange.headEnd.length)) :
    Search.scan Exchange.headEnd (sent.head ++ rest) 0 0 = some sent.head.length := by
  obtain ⟨hlength, -, -⟩ := Search.endsAt_iff.1 sent.ends.ends
  have hdelimiter : Exchange.headEnd ≠ [] := List.cons_ne_nil _ _
  rw [Search.scan_eq_some_iff hdelimiter]
  exact ⟨_, hattempt, headEnd_begins sent, Nat.sub_add_cancel hlength⟩

/-- Behind the head the body has room by what has been taken, or else within the maximum. -/
theorem allows_body (sent : SentRequest) {buffers after : Buffers} (hlayout : buffers.Layout)
    (hfronted : buffers.Fronted)
    (hroom : flags.readBlockSize ≤ buffers.read.size + buffers.write.size)
    (hhead : sent.head.length ≤ buffers.read.size)
    (hafter : after = { buffers with read :=
      ⟨buffers.read.data + sent.head.length, buffers.read.size - sent.head.length⟩ })
    (hbody : sent.body.length ≤ flags.readBlockSize ∨
      sent.bytes.length ≤ flags.maximumReadBufferSize ∧ flags.maximumReadBufferSize < 2 ^ 63) :
    after.Allows flags sent.body.length := by
  obtain ⟨-, hadjacent, hfinish⟩ := hlayout
  have hlength : sent.bytes.length = sent.head.length + sent.body.length := List.length_append
  rw [Buffers.Fronted] at hfronted
  rw [hafter, Buffers.Allows]
  dsimp only
  rcases hbody with hblock | ⟨hwhole, hmaximum⟩
  · exact Or.inr (Or.inl (by omega))
  · by_cases hnow : sent.body.length ≤
        buffers.read.size - sent.head.length + buffers.write.size
    · exact Or.inl hnow
    · exact Or.inr (Or.inr ⟨by omega, Or.inl hmaximum⟩)

/-- Taking the head off buffers that have it all. -/
theorem behindHead_of_take (sent : SentRequest) {last middle : CoReader Stream}
    {later bytes : List UInt8} (hready : last.buffers.Settled ∧ Sized flags last.buffers)
    (hfronted : last.buffers.Unloaded ∨ last.buffers.Fronted)
    (hunread : Stream.delivery.unread last = sent.head ++ (sent.body ++ later))
    (henough : sent.head.length ≤ last.buffers.read.size)
    (hlimited : last.buffers.read.size ≤ flags.readBlockSize)
    (hroom : flags.readBlockSize ≤ last.buffers.read.size + last.buffers.write.size)
    (htake : (CoReader.onBuffers (CoReader.takeFront sent.head.length)).exec last =
      (.ok bytes, middle)) :
    middle.source = last.source ∧ BehindHead flags sent later last.buffers.read.size middle := by
  obtain ⟨-, hrest⟩ := CoReader.take_unread Stream.delivery hready.1 htake
  have hmiddle := @Invariant.take _ flags zeroAllocator Stream.asSource _ invariant_sized [] _ _ _ _
    hready htake
  obtain ⟨buffers, hfront, rfl⟩ := Call.exec_within_eq_ok htake
  obtain ⟨-, -, rfl⟩ := CoReader.takeFront_eq_ok hfront
  refine ⟨rfl, hmiddle.1, hmiddle.2, ?_, Nat.add_sub_cancel' henough, hlimited, ?_⟩
  · rw [hrest, hunread, List.drop_left]
  · intro hbody
    obtain ⟨hlength, -, -⟩ := Search.endsAt_iff.1 sent.ends.ends
    have hpositive : 0 < sent.head.length := Nat.lt_of_lt_of_le (by decide) hlength
    have hloaded : ¬ last.buffers.Unloaded := by
      rintro ⟨hnull, -⟩
      rw [hnull] at henough
      exact Nat.not_lt_zero _ (Nat.lt_of_lt_of_le hpositive henough)
    exact allows_body sent (hready.1.resolve_left hloaded) (hfronted.resolve_left hloaded) hroom
      henough rfl hbody

/-- **The head of a turn.** A fresh reader finds it, after the loads that bring it. -/
theorem exists_behindHead (sent : SentRequest) {connection : Stream} {later : List UInt8}
    (hsent : connection.rest = sent.bytes ++ later)
    (hfits : sent.head.length ≤ flags.readBlockSize) (hfinds : FindsHead flags sent connection) :
    ∃ reader middle, CoReader.make flags allocator connection = .ok reader ∧
      (CoReader.readUntilString flags allocator Stream.asSource Exchange.headEnd 0).exec reader =
        (.ok sent.head, middle) ∧
      ∃ got, connection.arrive flags.readBlockSize sent.head.length sent.head.length 0 =
          (got, middle.source) ∧
        BehindHead flags sent later got middle := by
  obtain ⟨hattempt, hinitial, hroom, hdoubles⟩ := hfinds
  have hsmall := hdoubles.small hroom
  obtain ⟨reader, hmake, hsource, hunloaded, hcells⟩ :=
    @make_eq_ok flags allocator connection (by omega)
  have hreader : reader.buffers.Settled ∧ Sized flags reader.buffers :=
    ⟨settled_make hmake, sized_make hmake⟩
  have hempty : reader.buffers.read.size = 0 := by
    rw [hunloaded.1]
    rfl
  have hwaiting : reader.buffers.waiting = [] := by
    apply List.eq_nil_of_length_eq_zero
    rw [Buffers.length_waiting hreader.1, hempty]
  have hunread : Stream.delivery.unread reader = sent.head ++ (sent.body ++ later) := by
    rw [Delivery.unread, hwaiting, hsource, List.nil_append, ← List.append_assoc]
    exact hsent
  have hallows : reader.buffers.Allows flags flags.readBlockSize :=
    Or.inr (Or.inr (by
      rw [hcells, hunloaded.1, hunloaded.2]
      exact ⟨hroom, hdoubles⟩))
  obtain ⟨last, hfetches, hkept⟩ := @fetches_of_allows _ flags allocator _ Stream.delivery reader
    flags.readBlockSize sent.head.length hinitial hfits hreader hallows
    (by rw [hunread, List.length_append]; omega)
  obtain ⟨hready, hsame, henough, hlimited, harrive⟩ :=
    CoReader.arrive_of_fetches hreader hfits hfetches
  obtain ⟨hlength, -, -⟩ := Search.endsAt_iff.1 sent.ends.ends
  have hpositive : 0 < sent.head.length := Nat.lt_of_lt_of_le (by decide) hlength
  -- the loop of the search comes upon the end of the head when the loads have brought it
  rw [hsent, SentRequest.bytes, List.append_assoc] at hattempt
  have hdelimiter : Exchange.headEnd ≠ [] := List.cons_ne_nil _ _
  have hscan := scan_head sent hattempt
  rw [← hunread] at hscan
  obtain ⟨middle, htake, hloop⟩ := CoReader.scanLoop_of_scan Stream.delivery hreader.1
    (Nat.zero_add _) (Nat.zero_le _) hfits hscan hfetches
  have hfound := CoReader.scanLoop_of_within hloop
  rw [hunread, List.take_left] at hfound
  have hread := (Delimiter.string Exchange.headEnd hdelimiter).readUntil_eq flags allocator
    Stream.asSource 0
  rw [Delimiter.readUntil] at hread
  obtain ⟨hkeeps, hbehind⟩ := behindHead_of_take sent hready
    (CoReader.fronted_of_fetches hreader.1 (Or.inl hunloaded) hfits hfetches)
    (hsame.trans hunread) henough (hlimited (hempty ▸ Nat.zero_le _)) (hkept (by omega)) htake
  refine ⟨reader, middle, hmake, ?_, last.buffers.read.size, ?_, hbehind⟩
  · rw [hread]
    exact hfound
  · have harrived := harrive sent.head.length (Nat.le_add_right _ _)
    rw [hempty, hsource] at harrived
    rw [hkeeps]
    exact harrived

/-! ### The body -/

theorem contentLengthSize_eq (sent : SentRequest) (parameters : HeadersView)
    (hlength : sent.body.length < 2 ^ 64) :
    { sent.request with routeParams := parameters }.contentLengthSize = sent.body.length := by
  rw [HttpRequest.contentLengthSize]
  dsimp only
  rw [sent.announces]
  omega

section Body

variable {sent : SentRequest} {later : List UInt8} {got : Nat} {middle : CoReader Stream}

theorem length_bytes (sent : SentRequest) :
    sent.bytes.length = sent.head.length + sent.body.length := List.length_append

/-- If the whole request has arrived and nothing behind it, the connection is at the next one. -/
theorem rest_of_whole (hbehind : BehindHead flags sent later got middle)
    (hwhole : got = sent.bytes.length) : middle.source.rest = later := by
  have hunread := hbehind.unread
  have harrived := hbehind.arrived
  have hlength := Buffers.length_waiting hbehind.settled
  rw [hwhole, length_bytes, Nat.add_left_cancel_iff] at harrived
  rw [Delivery.unread] at hunread
  exact (List.append_inj hunread (hlength.trans harrived)).2

/-- If the next read brings the rest of the request, the connection is at the next one behind it. -/
theorem rest_of_next (hbehind : BehindHead flags sent later got middle)
    (hless : got < sent.bytes.length)
    (hcut : sent.bytes.length - got ≤ max 1 (middle.source.cuts middle.source.reads)) :
    (middle.source.next (sent.body.length - middle.buffers.read.size)).rest = later := by
  have harrived := hbehind.arrived
  have hlength := Buffers.length_waiting hbehind.settled
  have hunread := hbehind.unread
  rw [length_bytes] at hless hcut
  rw [Delivery.unread] at hunread
  change middle.buffers.waiting ++ middle.source.rest = _ at hunread
  have hlengths := congrArg List.length hunread
  rw [List.length_append, List.length_append, hlength] at hlengths
  have hdelivers : middle.source.delivers (sent.body.length - middle.buffers.read.size) =
      sent.body.length - middle.buffers.read.size := by
    rw [Stream.delivers]
    omega
  have hdrop : (middle.buffers.waiting ++ middle.source.rest).drop sent.body.length =
      middle.source.rest.drop (sent.body.length - middle.buffers.read.size) := by
    rw [List.drop_append, hlength, List.drop_eq_nil_of_le (by omega), List.nil_append]
  change middle.source.rest.drop (middle.source.delivers _) = later
  rw [hdelivers, ← hdrop, hunread, List.drop_left]

/-- A handler that reads a body reads it through the reader of the request. -/
theorem afterBody_eq (parameters : HeadersView) (hsmall : sent.body.length < 2 ^ 64) :
    afterBody flags allocator { sent.request with routeParams := parameters } middle =
      if sent.body.length = 0 then middle
      else ((CoReader.read flags allocator Stream.asSource sent.body.length).exec middle).2 := by
  rw [afterBody, Exchange.body, Call.exec_get_bind]
  dsimp only
  rw [contentLengthSize_eq sent parameters hsmall]
  by_cases hzero : sent.body.length = 0
  · rw [if_pos hzero, if_pos hzero]
    rfl
  · rw [if_neg hzero, if_pos (Nat.pos_of_ne_zero hzero), if_neg hzero, Exchange.onReader,
      Call.exec_within]

/-- Behind a body that has been read the connection is at the next request. -/
theorem rest_afterBody (hbehind : BehindHead flags sent later got middle)
    (hinitial : 0 < flags.initialReadBufferSize) (hblock : flags.readBlockSize < 2 ^ 63)
    (parameters : HeadersView)
    (hends : got = sent.bytes.length ∨
      got < sent.bytes.length ∧
        (sent.body.length ≤ flags.readBlockSize ∨
          sent.bytes.length ≤ flags.maximumReadBufferSize ∧
            flags.maximumReadBufferSize < 2 ^ 63) ∧
        sent.bytes.length - got ≤ max 1 (middle.source.cuts middle.source.reads)) :
    (afterBody flags allocator { sent.request with routeParams := parameters }
      middle).source.rest = later := by
  have harrived := hbehind.arrived
  have hlimited := hbehind.limited
  have hlength := Buffers.length_waiting hbehind.settled
  have htotal := length_bytes sent
  rw [afterBody_eq parameters (by omega)]
  rcases hends with hwhole | ⟨hless, hroom, hcut⟩
  · split_ifs with hzero
    · exact rest_of_whole hbehind hwhole
    · obtain ⟨final, hread⟩ := @CoReader.exec_read_of_waiting flags allocator middle
        sent.body.length hbehind.settled (by omega)
      have hsource := CoReader.source_of_read hbehind.settled hread
      rw [if_pos (by omega)] at hsource
      rw [hread]
      dsimp only
      rw [hsource]
      exact rest_of_whole hbehind hwhole
  · rw [if_neg (by omega)]
    obtain ⟨final, hread⟩ := @CoReader.exec_read_of_load flags allocator middle sent.body.length
      hbehind.settled hbehind.sized hinitial (hbehind.allows hroom) (by omega)
    have hsource := CoReader.source_of_read hbehind.settled hread
    rw [if_neg (by omega)] at hsource
    rw [hread]
    dsimp only
    rw [hsource]
    exact rest_of_next hbehind hless hcut

end Body

/-! ### Turns -/

section Turns

variable {engine : RegexEngine} {what : Error → Text} {trie : EndpointTrie E}

/-- **One turn.** Where the head is found, the turn takes that head apart and no other. Where the
request ends with a read, it leaves the connection at what comes behind the request. -/
theorem runOnce_aligned (sent : SentRequest) (handlers : Handlers E χ) {connection : Stream}
    {later : List UInt8} (hsent : connection.rest = sent.bytes ++ later)
    (hfits : sent.head.length ≤ flags.readBlockSize) (hfinds : FindsHead flags sent connection) :
    let turn := runOnce flags allocator engine what trie handlers connection
    headsRead turn.1 = [sent.head] ∧
      (EndsWithRead flags engine trie sent handlers connection → turn.2.2.rest = later) := by
  obtain ⟨reader, middle, hmake, hread, got, harrive, hbehind⟩ :=
    @exists_behindHead flags allocator sent connection later hsent hfits hfinds
  obtain ⟨-, hinitial, hroom, hdoubles⟩ := hfinds
  have hsmall := hdoubles.small hroom
  obtain ⟨hheads, hplace⟩ := @play_runRequest E χ flags allocator engine what trie handlers sent
    reader middle hread
  have hturn : runOnce flags allocator engine what trie handlers connection =
      (((runRequest engine what trie : Serving E χ Unit).play
          (respond flags allocator handlers) reader).1,
        ((runRequest engine what trie : Serving E χ Unit).play
          (respond flags allocator handlers) reader).2.1,
        ((runRequest engine what trie : Serving E χ Unit).play
          (respond flags allocator handlers) reader).2.2.source) := by
    rw [runOnce, hmake]
  rw [hturn]
  refine ⟨hheads, fun hends => ?_⟩
  rw [EndsWithRead, harrive] at hends
  dsimp only at hends ⊢
  rcases hplace with ⟨hreads, parameters, hafter⟩ | ⟨hleaves, hafter⟩
  · rw [hafter]
    apply rest_afterBody hbehind hinitial (by omega) parameters
    exact hends.imp id fun ⟨hless, _, hroom, hcut⟩ => ⟨hless, hroom, hcut⟩
  · rw [hafter]
    rcases hends with hwhole | ⟨-, hreads, -⟩
    · exact rest_of_whole hbehind hwhole
    · rw [hleaves] at hreads
      cases hreads

end Turns

/-- The head is found where the search of the code comes upon its end. -/
theorem attempt_of_scan (sent : SentRequest) {text : List UInt8}
    (hscan : Search.scan Exchange.headEnd text 0 0 = some sent.head.length) :
    Search.Attempt Exchange.headEnd text (sent.head.length - Exchange.headEnd.length) := by
  have hdelimiter : Exchange.headEnd ≠ [] := List.cons_ne_nil _ _
  rw [Search.scan_eq_some_iff hdelimiter] at hscan
  obtain ⟨start, hattempt, -, hstop⟩ := hscan
  rw [← hstop, Nat.add_sub_cancel]
  exact hattempt

/-- A short request without a body. -/
def pingHead : List UInt8 :=
  "G /p H\r\nConnection: keep-alive\r\n\r\n".toList.map fun c => UInt8.ofNat c.toNat

def ping : SentRequest where
  head := pingHead
  body := []
  request := ((HttpRequest.parseHead (textOfBytes pingHead)).exec HttpRequest.make).2
  ends := ⟨by decide +kernel, by decide +kernel⟩
  parses := Prod.ext (by decide +kernel) rfl
  keepsAlive := by decide +kernel
  announces := by decide +kernel

def postHead : List UInt8 :=
  "POST /p H\r\nConnection: keep-alive\r\nContent-Length: 34\r\n\r\n".toList.map fun c =>
    UInt8.ofNat c.toNat

/-- A request whose body looks like a request. -/
def post : SentRequest where
  head := postHead
  body := pingHead
  request := ((HttpRequest.parseHead (textOfBytes postHead)).exec HttpRequest.make).2
  ends := ⟨by decide +kernel, by decide +kernel⟩
  parses := Prod.ext (by decide +kernel) rfl
  keepsAlive := by decide +kernel
  announces := by decide +kernel

/-- Handlers that answer as they have been asked, and read the body or leave it. -/
def plainHandlers (readsBody : Bool) : Handlers Unit Unit where
  make _ _ response := .ok response
  readsBody _ _ _ := readsBody
  handle _ _ _ _ response := .ok response

/-- One endpoint, at `/p`. -/
def oneRoute : EndpointTrie Unit :=
  ((EndpointTrie.attachRoutes (fun _ => "/p".toList) noPatterns [()]).exec EndpointTrie.empty).2

theorem rest_of_two (first second : SentRequest) (firstHandlers secondHandlers : Handlers E χ) :
    first.bytes ++ second.bytes = ([(first, firstHandlers), (second, secondHandlers)].map
      fun turn => turn.1.bytes).flatten := by
  rw [List.map_cons, List.map_singleton, List.flatten_cons, List.flatten_singleton]

theorem fits_of_two {first second : SentRequest} {firstHandlers secondHandlers : Handlers E χ}
    {size : Nat} (hfirst : first.head.length ≤ size) (hsecond : second.head.length ≤ size) :
    ∀ turn ∈ [(first, firstHandlers), (second, secondHandlers)], turn.1.head.length ≤ size := by
  intro turn hturn
  rw [List.mem_pair] at hturn
  rcases hturn with rfl | rfl
  · exact hfirst
  · exact hsecond

theorem allAligned_of_two {engine : RegexEngine} {what : Error → Text} {trie : EndpointTrie E}
    {first second : SentRequest} {firstHandlers secondHandlers : Handlers E χ} {connection : Stream}
    (hfirst : FindsHead flags first connection)
    (hends : EndsWithRead flags engine trie first firstHandlers connection)
    (hsecond : FindsHead flags second
      (runOnce flags allocator engine what trie firstHandlers connection).2.2) :
    AllAligned flags allocator engine what trie [(first, firstHandlers), (second, secondHandlers)]
      connection :=
  ⟨hfirst, fun _ => hends, hsecond, fun hmore => absurd rfl hmore, trivial⟩

/-- The first read brings the head and three bytes of the body. -/
def postThenPing : Stream := ⟨post.bytes ++ ping.bytes, fun _ => 60, 0⟩

set_option maxRecDepth 8000 in
theorem endsWithRead_post :
    EndsWithRead ⟨128, 1024, 128⟩ noPatterns oneRoute post (plainHandlers true) postThenPing := by
  decide

end Liblw.Http
