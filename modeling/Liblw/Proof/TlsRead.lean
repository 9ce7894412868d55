import Liblw.Lib.Run
import Liblw.Net.Tls

/-!
# Reading a TLS stream record by record

`TLSStream::read` reads from the raw stream once and from the session once. The session has nothing
to give for the front half of a record, and its want-read is thrown as an error. No byte is lost
over that, neither one that came in nor one that was decrypted.
-/

namespace Liblw.Net

open Liblw.Lib

/-- A record as it is on the wire and the plaintext in it. -/
structure Record where
  wire : List UInt8
  plaintext : List UInt8
  wire_ne : wire ≠ []

namespace Record

def wires (records : List Record) : List UInt8 := records.flatMap wire

def plaintexts (records : List Record) : List UInt8 := records.flatMap plaintext

/-- The records that the first bytes on the wire complete. -/
def completed : List Record → (received : Nat) → List Record
  | [], _ => []
  | record :: records, received =>
      if record.wire.length ≤ received then
        record :: completed records (received - record.wire.length)
      else []

/-- The bytes end where a record does. -/
def AtBoundary (records : List Record) (received : Nat) : Prop :=
  (wires (completed records received)).length = received

/-- What the first bytes on the wire decrypt to, without what was given out. -/
def undelivered (records : List Record) (received delivered : Nat) : List UInt8 :=
  (plaintexts (completed records received)).drop delivered

theorem completed_prefix (records : List Record) {received later : Nat}
    (hle : received ≤ later) : completed records received <+: completed records later := by
  induction records generalizing received later with
  | nil => exact List.prefix_rfl
  | cons record records ih =>
      unfold completed
      by_cases hfits : record.wire.length ≤ received
      · rw [if_pos hfits, if_pos (Nat.le_trans hfits hle), List.prefix_cons_inj]
        exact ih (Nat.sub_le_sub_right hle _)
      · rw [if_neg hfits]
        exact List.nil_prefix

theorem plaintexts_prefix (records : List Record) {received later : Nat}
    (hle : received ≤ later) :
    plaintexts (completed records received) <+: plaintexts (completed records later) := by
  obtain ⟨more, hmore⟩ := completed_prefix records hle
  rw [← hmore]
  unfold plaintexts
  rw [List.flatMap_append]
  exact List.prefix_append _ _

end Record

variable {σ : Type} {ssl : OpenSsl σ} {records : List Record}

/-- A session that the records come in on. `received` is all that was put into its BIO, and
`delivered` is all that it gave out. -/
structure OpenSsl.Incoming (ssl : OpenSsl σ) (records : List Record) where
  received : σ → List UInt8
  delivered : σ → List UInt8
  bioWriteAll : ∀ data session, (ssl.bioWriteAll data session).1 = true ∧
    received (ssl.bioWriteAll data session).2 = received session ++ data ∧
      delivered (ssl.bioWriteAll data session).2 = delivered session
  sslRead_received : ∀ num session, received (ssl.sslRead num session).2 = received session
  /-- What is decrypted and not given out yet is given out from the front, some at each call. -/
  sslRead_some : ∀ num session, 0 < num → received session <+: Record.wires records →
    Record.undelivered records (received session).length (delivered session).length ≠ [] →
      ∃ bytes, (ssl.sslRead num session).1 = ((bytes.length : Int), bytes) ∧ bytes ≠ [] ∧
        bytes <+: Record.undelivered records (received session).length
          (delivered session).length ∧
        (bytes.length : Int) ≤ num ∧
          delivered (ssl.sslRead num session).2 = delivered session ++ bytes
  /-- Otherwise the result is that of a want-read. -/
  sslRead_none : ∀ num session, received session <+: Record.wires records →
    (num ≤ 0 ∨
      Record.undelivered records (received session).length (delivered session).length = []) →
      (ssl.sslRead num session).1.1 ≤ 0 ∧
        delivered (ssl.sslRead num session).2 = delivered session

/-! ### One read -/

section Read

variable {size : Nat} {stream : TLSStream σ Io.Stream} {client : σ}

/-- The bytes that the next read of the raw stream delivers. -/
def TLSStream.piece (stream : TLSStream σ Io.Stream) (size : Nat) : List UInt8 :=
  stream.rawStream.rest.take (stream.rawStream.delivers size)

/-- `read` goes on with its one `SSL_read` behind the one read of the raw stream. -/
theorem TLSStream.exec_read
    (hwritten : ssl.bioWriteAll (stream.piece size) stream.client = (true, client)) :
    (TLSStream.read ssl Io.Stream.asSource size).exec stream =
      (do
        let (res, plaintext) ← onClient (readDecryptedData ssl size)
        if !res.isCompleted then raise .internal "Failed to read decrypted data from TLS client."
        else pure plaintext : Call Fault (TLSStream σ Io.Stream) (List UInt8)).exec
          { stream with client, rawStream := stream.rawStream.next size } := by
  have hraw : (onRawStream (Io.Stream.asSource.read size)).exec stream =
      (.ok (stream.piece size), { stream with rawStream := stream.rawStream.next size }) := rfl
  have hbuffer : (onClient (bufferEncryptedData ssl (stream.piece size))).exec
      { stream with rawStream := stream.rawStream.next size } =
        (.ok ⟨.completed, (stream.piece size).length⟩,
          { stream with client, rawStream := stream.rawStream.next size }) := by
    apply exec_onClient
    rw [exec_bufferEncryptedData ssl (by rw [hwritten]), hwritten]
  have hcompleted (bytes : Nat) : (TLSIOResult.mk .completed bytes).isCompleted = true := rfl
  unfold read
  rw [Call.exec_bind_ok hraw, Call.exec_bind_ok hbuffer, if_pos (hcompleted _),
    if_neg (not_not.mpr rfl)]

theorem TLSStream.exec_read_error
    (hwritten : ssl.bioWriteAll (stream.piece size) stream.client = (true, client))
    (hnone : (ssl.sslRead (toInt size) client).1.1 ≤ 0) :
    ∃ fault, (TLSStream.read ssl Io.Stream.asSource size).exec stream =
      (.error fault, { stream with
        client := (ssl.sslRead (toInt size) client).2
        rawStream := stream.rawStream.next size }) := by
  obtain ⟨fault, hdecrypt⟩ := exec_readDecryptedData_error ssl hnone
  refine ⟨fault, ?_⟩
  rw [exec_read hwritten]
  apply Call.exec_bind_error
  exact exec_onClient hdecrypt

theorem TLSStream.exec_read_ok
    (hwritten : ssl.bioWriteAll (stream.piece size) stream.client = (true, client))
    (hsome : 0 < (ssl.sslRead (toInt size) client).1.1) :
    (TLSStream.read ssl Io.Stream.asSource size).exec stream =
      (.ok (ssl.sslRead (toInt size) client).1.2, { stream with
        client := (ssl.sslRead (toInt size) client).2
        rawStream := stream.rawStream.next size }) := by
  have hdecrypt : (onClient (readDecryptedData ssl size)).exec
      { stream with client, rawStream := stream.rawStream.next size } =
        (.ok (⟨.completed, (ssl.sslRead (toInt size) client).1.1.toNat⟩,
          (ssl.sslRead (toInt size) client).1.2), { stream with
            client := (ssl.sslRead (toInt size) client).2
            rawStream := stream.rawStream.next size }) :=
    exec_onClient (exec_readDecryptedData_ok ssl hsome)
  rw [exec_read hwritten, Call.exec_bind_ok hdecrypt]
  rfl

end Read

/-! ### Repeated reads -/

/-- A stream that is read repeatedly, and what its reads returned or threw so far. -/
structure Reading (σ : Type) where
  stream : TLSStream σ Io.Stream
  results : List (Result (List UInt8))

namespace Reading

/-- What the reads have returned, one after the other. -/
def text (reading : Reading σ) : List UInt8 :=
  reading.results.flatMap fun result => result.toOption.getD []

variable (ssl) in
/-- One call of `read`, made by a caller that goes on whatever its result is. -/
def readOnce (reading : Reading σ) (size : Nat) : Reading σ :=
  let (result, stream) := (TLSStream.read ssl Io.Stream.asSource size).exec reading.stream
  ⟨stream, reading.results ++ [result]⟩

variable (ssl) in
/-- The caller's buffers are not empty. -/
def Step (before : Reading σ) (size : Nat) (after : Reading σ) : Prop :=
  0 < size ∧ after = before.readOnce ssl size

variable (incoming : ssl.Incoming records)

/-- Nothing has come in yet, and all the records are going to. -/
def Fresh (reading : Reading σ) : Prop :=
  incoming.received reading.stream.client = [] ∧ incoming.delivered reading.stream.client = [] ∧
    reading.stream.rawStream.rest = Record.wires records ∧ reading.results = []

def undelivered (reading : Reading σ) : List UInt8 :=
  Record.undelivered records (incoming.received reading.stream.client).length
    (incoming.delivered reading.stream.client).length

/-- The plaintext so far is what the reads returned and what they can still return. -/
def InOrder (reading : Reading σ) : Prop :=
  reading.text ++ reading.undelivered incoming =
    Record.plaintexts
      (Record.completed records (incoming.received reading.stream.client).length)

/-- A call gives out plaintext, unless there is none and no record is incomplete. -/
def Answers (reading : Reading σ) (size : Nat) : Prop :=
  (∃ bytes, bytes ≠ [] ∧ (reading.readOnce ssl size).results = reading.results ++ [.ok bytes]) ∨
    (reading.readOnce ssl size).undelivered incoming = [] ∧
      Record.AtBoundary records
        (incoming.received (reading.readOnce ssl size).stream.client).length

/-- The raw stream's next read leaves some plaintext to give out, to a buffer whose size is an
`int`, or else it ends where a record ends. -/
def Supplied (reading : Reading σ) (size : Nat) : Prop :=
  let received :=
    (incoming.received reading.stream.client).length + (reading.stream.piece size).length
  if Record.undelivered records received (incoming.delivered reading.stream.client).length = [] then
    Record.AtBoundary records received
  else 0 < toInt size

/-- What is known between two reads. -/
structure Invariant (reading : Reading σ) : Prop where
  wire : incoming.received reading.stream.client ++ reading.stream.rawStream.rest =
    Record.wires records
  text : reading.text = incoming.delivered reading.stream.client
  delivered : incoming.delivered reading.stream.client <+:
    Record.plaintexts (Record.completed records (incoming.received reading.stream.client).length)

/-- The reads answer as long as the caller reads, and the plaintext stays in order. -/
def Independent (start : Reading σ) (sizes : List Nat) (final : Reading σ) : Prop :=
  (∀ before size after, Run.Takes (Step ssl) start sizes final before size after →
      before.Answers incoming size) ∧
    ∀ reading, Run.Visits (Step ssl) start sizes final reading → reading.InOrder incoming

variable {incoming} {before : Reading σ} {size : Nat}

theorem readOnce_eq {result : Result (List UInt8)} {stream : TLSStream σ Io.Stream}
    (hexec : (TLSStream.read ssl Io.Stream.asSource size).exec before.stream = (result, stream)) :
    before.readOnce ssl size = ⟨stream, before.results ++ [result]⟩ := by
  unfold readOnce
  rw [hexec]

theorem text_append (stream : TLSStream σ Io.Stream) (results : List (Result (List UInt8)))
    (result : Result (List UInt8)) :
    (Reading.mk stream (results ++ [result])).text =
      (Reading.mk stream results).text ++ result.toOption.getD [] := by
  unfold text
  rw [List.flatMap_append, List.flatMap_singleton]

/-- The client whose bio holds what the raw stream gave. -/
structure Fed (incoming : ssl.Incoming records) (before : Reading σ) (size : Nat) (client : σ) :
    Prop where
  written : ssl.bioWriteAll (before.stream.piece size) before.stream.client = (true, client)
  received : incoming.received client =
    incoming.received before.stream.client ++ before.stream.piece size
  delivered : incoming.delivered client = incoming.delivered before.stream.client

variable {client : σ}

variable (incoming before size) in
theorem exists_fed : ∃ client, Fed incoming before size client := by
  obtain ⟨hwritten, hreceived, hdelivered⟩ :=
    incoming.bioWriteAll (before.stream.piece size) before.stream.client
  exact ⟨_, Prod.ext hwritten rfl, hreceived, hdelivered⟩

theorem Fed.wire (hfed : Fed incoming before size client) (hinv : Invariant incoming before) :
    incoming.received client ++ (before.stream.rawStream.next size).rest =
      Record.wires records := by
  rw [hfed.received, List.append_assoc, ← hinv.wire]
  exact congrArg _ (List.take_append_drop _ _)

theorem Fed.delivered_le (hfed : Fed incoming before size client)
    (hinv : Invariant incoming before) : incoming.delivered client <+:
      Record.plaintexts (Record.completed records (incoming.received client).length) := by
  rw [hfed.delivered, hfed.received, List.length_append]
  exact hinv.delivered.trans (Record.plaintexts_prefix records (Nat.le_add_right _ _))

/-- Without plaintext the call fails, and nothing is given out. -/
theorem Fed.readOnce_none (hfed : Fed incoming before size client)
    (hinv : Invariant incoming before)
    (hnone : toInt size ≤ 0 ∨ Record.undelivered records (incoming.received client).length
      (incoming.delivered client).length = []) :
    Invariant incoming (before.readOnce ssl size) ∧
      incoming.received (before.readOnce ssl size).stream.client = incoming.received client ∧
      incoming.delivered (before.readOnce ssl size).stream.client = incoming.delivered client ∧
      ∃ fault, (before.readOnce ssl size).results = before.results ++ [.error fault] := by
  obtain ⟨hle, hsame⟩ := incoming.sslRead_none (toInt size) client ⟨_, hfed.wire hinv⟩ hnone
  obtain ⟨fault, hexec⟩ := TLSStream.exec_read_error hfed.written hle
  rw [readOnce_eq hexec]
  refine ⟨⟨?_, ?_, ?_⟩, incoming.sslRead_received _ _, hsame, fault, rfl⟩
  · rw [incoming.sslRead_received]
    exact hfed.wire hinv
  · rw [text_append, hsame, hfed.delivered, ← hinv.text]
    exact List.append_nil _
  · rw [hsame, incoming.sslRead_received]
    exact hfed.delivered_le hinv

/-- With plaintext and a size that is an `int` the call gives some of it out. -/
theorem Fed.readOnce_some (hfed : Fed incoming before size client)
    (hinv : Invariant incoming before) (hnum : 0 < toInt size)
    (hsome : Record.undelivered records (incoming.received client).length
      (incoming.delivered client).length ≠ []) :
    Invariant incoming (before.readOnce ssl size) ∧
      incoming.received (before.readOnce ssl size).stream.client = incoming.received client ∧
      ∃ bytes, bytes ≠ [] ∧
        (before.readOnce ssl size).results = before.results ++ [.ok bytes] := by
  obtain ⟨bytes, hread, hne, hbytes, hle, hmore⟩ :=
    incoming.sslRead_some (toInt size) client hnum ⟨_, hfed.wire hinv⟩ hsome
  have hpos : 0 < (ssl.sslRead (toInt size) client).1.1 := by
    rw [hread]
    exact Int.natCast_pos.mpr (List.length_pos_iff.mpr hne)
  have hexec := TLSStream.exec_read_ok hfed.written hpos
  rw [readOnce_eq hexec]
  refine ⟨⟨?_, ?_, ?_⟩, incoming.sslRead_received _ _, bytes, hne, ?_⟩
  · rw [incoming.sslRead_received]
    exact hfed.wire hinv
  · rw [text_append, hmore, hfed.delivered, ← hinv.text, hread]
    rfl
  · rw [hmore, incoming.sslRead_received]
    obtain ⟨rest, hrest⟩ := hfed.delivered_le hinv
    unfold Record.undelivered at hbytes
    rw [← hrest, List.drop_left] at hbytes
    rw [← hrest]
    exact (List.prefix_append_right_inj _).mpr hbytes
  · rw [hread]

/-- A call gives out bytes or fails, and either way the bytes of the raw stream have come in. -/
theorem Invariant.readOnce (hinv : Invariant incoming before) :
    Invariant incoming (before.readOnce ssl size) ∧
      incoming.received (before.readOnce ssl size).stream.client =
        incoming.received before.stream.client ++ before.stream.piece size ∧
      ((0 < toInt size ∧ Record.undelivered records
            ((incoming.received before.stream.client).length + (before.stream.piece size).length)
            (incoming.delivered before.stream.client).length ≠ [] ∧
          ∃ bytes, bytes ≠ [] ∧
            (before.readOnce ssl size).results = before.results ++ [.ok bytes]) ∨
        ((toInt size ≤ 0 ∨ Record.undelivered records
            ((incoming.received before.stream.client).length + (before.stream.piece size).length)
            (incoming.delivered before.stream.client).length = []) ∧
          incoming.delivered (before.readOnce ssl size).stream.client =
            incoming.delivered before.stream.client ∧
          ∃ fault, (before.readOnce ssl size).results = before.results ++ [.error fault])) := by
  obtain ⟨client, hfed⟩ := exists_fed incoming before size
  have hlength : (incoming.received client).length =
      (incoming.received before.stream.client).length + (before.stream.piece size).length := by
    rw [hfed.received, List.length_append]
  rw [← hlength, ← hfed.received, ← hfed.delivered]
  by_cases hnone : toInt size ≤ 0 ∨ Record.undelivered records (incoming.received client).length
      (incoming.delivered client).length = []
  · obtain ⟨hafter, hreceived, hsame, hfault⟩ := hfed.readOnce_none hinv hnone
    exact ⟨hafter, hreceived, .inr ⟨hnone, hsame, hfault⟩⟩
  · obtain ⟨hnum, hsome⟩ := not_or.mp hnone
    rw [Int.not_le] at hnum
    obtain ⟨hafter, hreceived, hbytes⟩ := hfed.readOnce_some hinv hnum hsome
    exact ⟨hafter, hreceived, .inl ⟨hnum, hsome, hbytes⟩⟩

theorem Invariant.of_fresh (hstart : before.Fresh incoming) : Invariant incoming before := by
  obtain ⟨hreceived, hdelivered, hrest, hresults⟩ := hstart
  refine ⟨?_, ?_, ?_⟩
  · rw [hreceived, hrest]
    rfl
  · unfold Reading.text
    rw [hresults, hdelivered]
    rfl
  · rw [hdelivered]
    exact List.nil_prefix

theorem Invariant.inOrder (hinv : Invariant incoming before) : before.InOrder incoming := by
  unfold InOrder undelivered Record.undelivered
  rw [hinv.text]
  exact (List.prefix_iff_eq_append.mp hinv.delivered)

theorem Invariant.answers_iff (hinv : Invariant incoming before) :
    before.Answers incoming size ↔ before.Supplied incoming size := by
  obtain ⟨-, hreceived, houtcome⟩ := @Invariant.readOnce _ _ _ incoming before size hinv
  have hlength : (incoming.received (before.readOnce ssl size).stream.client).length =
      (incoming.received before.stream.client).length + (before.stream.piece size).length := by
    rw [hreceived, List.length_append]
  unfold Answers Supplied undelivered
  rw [hlength]
  rcases houtcome with ⟨hnum, hsome, bytes, hne, hresults⟩ | ⟨hnone, hsame, fault, hresults⟩
  · rw [if_neg hsome]
    exact ⟨fun _ => hnum, fun _ => .inl ⟨bytes, hne, hresults⟩⟩
  · rw [hsame]
    constructor
    · rintro (⟨bytes, -, hok⟩ | ⟨hempty, hboundary⟩)
      · rw [hresults] at hok
        cases List.append_cancel_left hok
      · rw [if_pos hempty]
        exact hboundary
    · intro hsupplied
      right
      dsimp only at hsupplied
      split_ifs at hsupplied with hempty
      · exact ⟨hempty, hsupplied⟩
      · exact absurd hsupplied (Int.not_lt.mpr (hnone.resolve_right hempty))

theorem Invariant.run {start final : Reading σ} {sizes : List Nat}
    (hrun : Run (Step ssl) start sizes final) (hinv : Invariant incoming start) :
    Invariant incoming final := by
  apply hrun.preserves (Invariant incoming) _ (fun _ _ => trivial) hinv
  rintro before size after - ⟨-, rfl⟩ hbefore
  exact hbefore.readOnce.1

end Reading

/-! ### A record in two pieces -/

/-- A session that is its two logs. -/
def logging (records : List Record) : OpenSsl (List UInt8 × List UInt8) where
  sslWrite _ _ session := (-1, session)
  sslRead num session :=
    let bytes := (Record.undelivered records session.1.length session.2.length).take num.toNat
    if bytes = [] then ((-1, []), session)
    else ((bytes.length, bytes), (session.1, session.2 ++ bytes))
  sslGetError _ _ := .other
  bioWriteAll data session := (true, (session.1 ++ data, session.2))
  bioRead _ session := ((-1, []), session)
  bioShouldRetry _ := true
  errorText _ := none
  systemError _ := none

def loggingIncoming (records : List Record) : (logging records).Incoming records where
  received := Prod.fst
  delivered := Prod.snd
  bioWriteAll _ _ := ⟨rfl, rfl, rfl⟩
  sslRead_received num session := by
    unfold logging
    dsimp only
    split_ifs <;> rfl
  sslRead_some num session hnum _ hsome := by
    have hne : (Record.undelivered records session.1.length session.2.length).take num.toNat ≠
        [] := by
      rw [Ne, List.take_eq_nil_iff, not_or]
      exact ⟨by omega, hsome⟩
    refine ⟨_, ?_, hne, List.take_prefix _ _, ?_, ?_⟩
    · unfold logging
      dsimp only
      rw [if_neg hne]
    · rw [List.length_take]
      omega
    · unfold logging
      dsimp only
      rw [if_neg hne]
  sslRead_none num session _ hnone := by
    have hnil : (Record.undelivered records session.1.length session.2.length).take num.toNat =
        [] := by
      rw [List.take_eq_nil_iff]
      exact hnone.imp_left Int.toNat_of_nonpos
    unfold logging
    dsimp only
    rw [if_pos hnil]
    exact ⟨show (-1 : Int) ≤ 0 by decide, rfl⟩

/-- A record with one byte of plaintext. -/
def oneByte : Record := ⟨[23, 1, 97], [97], nofun⟩

/-- The record comes in, as many bytes at a time. -/
def arriving (cut : Nat) : Reading (List UInt8 × List UInt8) :=
  ⟨⟨([], []), ⟨[23, 1, 97], fun _ => cut, 0⟩, 64⟩, []⟩

theorem arriving_fresh (cut : Nat) : (arriving cut).Fresh (loggingIncoming [oneByte]) :=
  ⟨rfl, rfl, rfl, rfl⟩

end Liblw.Net
