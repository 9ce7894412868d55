import Liblw.Lib.Run
import Liblw.Proof.TlsWrite

/-!
# TLS handshakes

`TLSStream::handshake` at both ends of a connection. Each end is a coroutine over a session of its
own, and is suspended where it writes to its raw stream or reads from it, so that the two go on in
any order. What one of them writes is in flight until the other one has read it.
-/

namespace Liblw.Net

open Liblw.Lib

/-! ### One end -/

/-- The functions of OpenSSL that a handshake needs besides. -/
structure HandshakeSsl (σ : Type) extends OpenSsl σ where
  sslIsInitFinished : σ → Bool
  sslDoHandshake : σ → Int × σ
  /-- `ERR_error_string_n`. -/
  errorString : SslError → String

section Handshake

variable {σ : Type} (ssl : HandshakeSsl σ)

/-- `TLSClientImpl::handshake`. -/
def handshake : Call Fault σ TLSResult := do
  let client ← get
  if ssl.sslIsInitFinished client then pure .completed
  else do
    let ret ← Call.ofFunction ssl.sslDoHandshake
    let client ← get
    match ssl.sslGetError ret client with
    | .none => pure .again
    | .wantRead => pure .needToRead
    | .wantWrite => pure .needToWrite
    | error =>
        let text := ssl.errorString error
        raise .internal s!"OpenSSL error: {text}"

/-- Where `TLSStream::handshake` is: before the loop, at the top of a round, at a write, behind the
write, at a read, before the condition of the loop, or done. -/
inductive Stage where
  | entering
  | round
  | writing (bytes : List UInt8)
  | asking
  | reading
  | deciding
  | completed
  | failed (fault : Fault)
deriving DecidableEq

/-- What has left the session and has not been written. -/
def Stage.unwritten : Stage → List UInt8
  | .writing bytes => bytes
  | _ => []

structure Party (σ : Type) where
  session : σ
  stage : Stage

namespace Party

def call {α : Type} (party : Party σ) (call : Call Fault σ α) (next : α → Stage) : Party σ :=
  match call.exec party.session with
  | (.ok value, session) => ⟨session, next value⟩
  | (.error fault, session) => ⟨session, .failed fault⟩

/-- A step that does not wait for the raw stream. `size` is that of the write buffer. -/
def goOn (size : Nat) (party : Party σ) : Option (Party σ) :=
  match party.stage with
  | .entering => some (party.call (handshake ssl) fun _ => .round)
  | .round =>
      some (party.call (readEncryptedData ssl.toOpenSsl size) fun (res, bytes) =>
        if res.isCompleted && 0 < res.bytes then .writing bytes else .asking)
  | .asking =>
      some (party.call (handshake ssl) fun result =>
        if result = .needToRead then .reading else .deciding)
  | .deciding =>
      some (party.call (handshake ssl) fun result =>
        if result = .completed then .completed else .round)
  | _ => none

/-- The read has brought the bytes. -/
def receive (party : Party σ) (bytes : List UInt8) : Party σ :=
  party.call (bufferEncryptedData ssl.toOpenSsl bytes) fun _ => .deciding

end Party

end Handshake

/-! ### Both ends -/

inductive Side where
  | client
  | server
deriving DecidableEq, Repr

def Side.other : Side → Side
  | .client => .server
  | .server => .client

theorem Side.other_ne (side : Side) : side.other ≠ side := by
  cases side <;> decide

theorem Side.eq_or_eq_other (side every : Side) : every = side ∨ every = side.other := by
  cases side <;> cases every <;> decide

/-- `inFlight` is what the side has written and the other one has not read. -/
structure Link (σ : Side → Type) where
  party : ∀ side, Party (σ side)
  inFlight : Side → List UInt8

namespace Link

variable {σ : Side → Type}

/-- `lost` is what the raw stream leaves of a write. -/
inductive Action where
  | goOn (side : Side)
  | write (side : Side) (lost : List UInt8)
  | read (side : Side) (bytes : List UInt8)

/-- A write is taken as a whole. -/
def Action.Whole : Action → Prop
  | .write _ lost => lost = []
  | _ => True

section Step

variable (ssl : ∀ side, HandshakeSsl (σ side)) (size : Side → Nat)

/-- The raw stream takes what it is given or only the first part of it, and nobody looks at how
much it has taken. A read brings some of what is in flight. -/
inductive Step : Link σ → Action → Link σ → Prop where
  | goOn {link : Link σ} {side : Side} {party : Party (σ side)}
      (hparty : (link.party side).goOn (ssl side) (size side) = some party) :
      Step link (.goOn side) { link with party := Function.update link.party side party }
  | write {link : Link σ} {side : Side} {bytes taken lost : List UInt8}
      (hstage : (link.party side).stage = .writing bytes) (htaken : bytes = taken ++ lost) :
      Step link (.write side lost)
        { party := Function.update link.party side ⟨(link.party side).session, .asking⟩
          inFlight := Function.update link.inFlight side (link.inFlight side ++ taken) }
  | read {link : Link σ} {side : Side} {bytes rest : List UInt8}
      (hstage : (link.party side).stage = .reading)
      (hbytes : link.inFlight side.other = bytes ++ rest) (hsome : bytes ≠ [])
      (hsize : bytes.length ≤ size side) :
      Step link (.read side bytes)
        { party := Function.update link.party side ((link.party side).receive (ssl side) bytes)
          inFlight := Function.update link.inFlight side.other rest }

end Step

def start (session : ∀ side, σ side) : Link σ :=
  ⟨fun side => ⟨session side, .entering⟩, fun _ => []⟩

end Link

/-! ### What OpenSSL has to do -/

/-- A session over two BIOs in memory, as documented. `taken` is all that has been read from the one
and `received` all that has been written to the other. A session that waits has worked off what it
received. -/
structure HandshakeSsl.Engine {σ : Type} (ssl : HandshakeSsl σ) extends
    ssl.toOpenSsl.Outgoing where
  taken : σ → List UInt8
  received : σ → List UInt8
  waits : σ → Prop
  doHandshake : ∀ session, ssl.sslIsInitFinished session = false →
    pending session <+: pending (ssl.sslDoHandshake session).2 ∧
      taken (ssl.sslDoHandshake session).2 = taken session ∧
      received (ssl.sslDoHandshake session).2 = received session
  /-- A handshake that does not fail is finished or waits. The BIOs take whatever they are given. -/
  outcome : ∀ session, ssl.sslIsInitFinished session = false →
    match ssl.sslGetError (ssl.sslDoHandshake session).1 (ssl.sslDoHandshake session).2 with
    | .none => ssl.sslIsInitFinished (ssl.sslDoHandshake session).2 = true
    | .wantRead => ssl.sslIsInitFinished (ssl.sslDoHandshake session).2 = false ∧
        waits (ssl.sslDoHandshake session).2
    | .wantWrite => False
    | .other => True
  waits_again : ∀ session, waits session → ssl.sslIsInitFinished session = false ∧
    ssl.sslGetError (ssl.sslDoHandshake session).1 (ssl.sslDoHandshake session).2 = .wantRead ∧
      pending (ssl.sslDoHandshake session).2 = pending session
  bioRead : ∀ num session,
    taken (ssl.bioRead num session).2 ++ pending (ssl.bioRead num session).2 =
        taken session ++ pending session ∧
      received (ssl.bioRead num session).2 = received session ∧
      ssl.sslIsInitFinished (ssl.bioRead num session).2 = ssl.sslIsInitFinished session ∧
      (waits session → waits (ssl.bioRead num session).2)
  bioWriteAll : ∀ data session, (ssl.bioWriteAll data session).1 = true ∧
    received (ssl.bioWriteAll data session).2 = received session ++ data ∧
      taken (ssl.bioWriteAll data session).2 = taken session ∧
      pending (ssl.bioWriteAll data session).2 = pending session ∧
      ssl.sslIsInitFinished (ssl.bioWriteAll data session).2 = ssl.sslIsInitFinished session

namespace HandshakeSsl.Engine

variable {σ : Type} {ssl : HandshakeSsl σ} (engine : ssl.Engine)

/-- All that the session has put out. -/
def emitted (session : σ) : List UInt8 := engine.taken session ++ engine.pending session

/-- No part of a handshake is longer than the limit. -/
def Fits (limit : Nat) : Prop :=
  ∀ session, ssl.sslIsInitFinished session = false →
    (engine.pending (ssl.sslDoHandshake session).2).length ≤
      (engine.pending session).length + limit

/-- Nothing has happened yet. -/
def Fresh (session : σ) : Prop :=
  engine.taken session = [] ∧ engine.received session = [] ∧ engine.pending session = []

end HandshakeSsl.Engine

/-- The two sessions make a handshake: one that has received all that the other one has put out does
not wait if that one is finished, and they do not both wait so. -/
structure HandshakeSsl.Compatible {σ : Side → Type} {ssl : ∀ side, HandshakeSsl (σ side)}
    (engine : ∀ side, (ssl side).Engine) : Prop where
  finished : ∀ (session : ∀ side, σ side) (side : Side),
    (engine side).received (session side) = (engine side.other).emitted (session side.other) →
      (ssl side.other).sslIsInitFinished (session side.other) = true →
        ¬ (engine side).waits (session side)
  waiting : ∀ session : ∀ side, σ side,
    (∀ side, (engine side).received (session side) =
      (engine side.other).emitted (session side.other)) →
        ¬ ∀ side, (engine side).waits (session side)

end Liblw.Net
