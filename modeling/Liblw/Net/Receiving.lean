import Liblw.Io.Delivery
import Liblw.Lib.Run
import Liblw.Net.Socket

/-!
# Receiving on a socket

`Socket::receive` asks the kernel for bytes, and where there are none it waits until the descriptor
can be read and asks once more. The bytes arrive meanwhile, and the socket may be closed. Then it is
descriptor zero that is asked.
-/

namespace Liblw.Net

open Liblw.Lib
open Io (SocketStream)

/-- What `::recv` comes to: some bytes, none because the peer has closed, or an error. A call that
brings bytes leaves `errno` with what it happens to hold. Where it would block, the `co_await` of
`fd_readable` may throw. -/
inductive RecvAnswer where
  | received (bytes : List UInt8) (errno : Errno)
  | closed
  | failed (errno : Errno)
  | unwatched (error : Error)
deriving DecidableEq, Repr

namespace RecvAnswer

/-- The result as the `int` that it is kept in. -/
def bytesReceived : RecvAnswer → Int
  | .received bytes _ => toInt bytes.length
  | .closed => 0
  | .failed _ | .unwatched _ => -1

def bytes : RecvAnswer → List UInt8
  | .received bytes _ => bytes
  | _ => []

def errno : RecvAnswer → Errno
  | .received _ errno | .failed errno => errno
  | .closed => .none
  | .unwatched _ => .wouldBlock

/-- What the `co_await` throws. -/
def unawaited : RecvAnswer → Option Error
  | .unwatched error => some error
  | _ => none

end RecvAnswer

/-- A socket and its end of the connection. `waiting` has the size of the buffer of a `receive` that
waits. What has arrived is still with the kernel. -/
structure Connection where
  isOpen : Bool
  waiting : Option Nat
  arrived : List UInt8
  peerClosed : Bool
deriving DecidableEq, Repr

namespace Connection

def close : Call Fault Connection Unit := do
  let connection ← get
  if !connection.isOpen then
    raise .failedPrecondition "Socket is already closed, cannot close again."
  else set { connection with isOpen := false }

variable (systemError : Errno → Option Error)

/-- `::recv` of the descriptor. Bytes of descriptor zero are not of the connection. -/
def recv (answer : RecvAnswer) : Call Fault Connection RecvAnswer := do
  modify fun connection =>
    if connection.isOpen then
      { connection with arrived := connection.arrived.drop answer.bytes.length }
    else connection
  pure answer

/-- A round of `_do_recv`. It has no result where it waits, and what the front of the buffer holds
where it returns. -/
def doRecv (size : Nat) (answer : RecvAnswer) : Call Fault Connection (Option (List UInt8)) := do
  let answer ← recv answer
  if 0 < answer.bytesReceived then pure (some (answer.bytes.take answer.bytesReceived.toNat))
  else if answer.bytesReceived = 0 then do
    -- Receiving 0 bytes means our peer closed up.
    close
    pure (some [])
  else if shouldWait answer.errno then
    match answer.unawaited with
    | some error => throw (.thrown error)
    | none => do
        modify fun connection => { connection with waiting := some size }
        pure none
  else
    match systemError answer.errno with
    | some error => throw (.thrown error)
    | none => raise .internal "Unknown socket error while receiving."

def receive (size : Nat) (answer : RecvAnswer) : Call Fault Connection (Option (List UInt8)) := do
  let connection ← get
  if !connection.isOpen then raise .failedPrecondition "Socket is not open before receiving."
  else if size = 0 then
    raise .invalidArgument "Buffer must have capacity for at least 1 byte."
  else doRecv systemError size answer

/-- `_do_recv` goes on behind its `co_await`. -/
def resume (size : Nat) (answer : RecvAnswer) : Call Fault Connection (Option (List UInt8)) := do
  modify fun connection => { connection with waiting := none }
  doRecv systemError size answer

/-! ### What happens on the connection -/

/-- How the kernel answers for the connection. It may say that the call would block, or fail, at any
time. -/
def Answers (connection : Connection) (size : Nat) : RecvAnswer → Prop
  | .received bytes _ => bytes ≠ [] ∧ bytes.length ≤ size ∧ bytes <+: connection.arrived
  | .closed => connection.arrived = [] ∧ connection.peerClosed = true
  | .failed _ | .unwatched _ => True

/-- `asked` is a call of `receive`, or its going on, with what comes of it. -/
inductive Event where
  | arrives (bytes : List UInt8)
  | peerCloses
  | asked (size : Nat) (result : Result (Option (List UInt8)))
  | closes

/-- One `receive` at a time. -/
inductive Step : Connection → Event → Connection → Prop where
  | arrives {connection : Connection} (hpeer : connection.peerClosed = false)
      (bytes : List UInt8) :
      Step connection (.arrives bytes) { connection with arrived := connection.arrived ++ bytes }
  | peerCloses (connection : Connection) :
      Step connection .peerCloses { connection with peerClosed := true }
  | receive {connection : Connection} {size : Nat} {answer : RecvAnswer}
      (hidle : connection.waiting = none)
      (hanswers : connection.isOpen = true → connection.Answers size answer) :
      Step connection (.asked size ((receive systemError size answer).exec connection).1)
        ((receive systemError size answer).exec connection).2
  | resume {connection : Connection} {size : Nat} {answer : RecvAnswer}
      (hwaits : connection.waiting = some size)
      (hanswers : connection.isOpen = true → connection.Answers size answer) :
      Step connection (.asked size ((resume systemError size answer).exec connection).1)
        ((resume systemError size answer).exec connection).2
  | closes (connection : Connection) : Step connection .closes (close.exec connection).2

/-- The socket is not closed under a `receive` that waits, and what a buffer has room for can be
counted by an `int`. -/
def Tidy (connection : Connection) : Event → Prop
  | .closes => connection.waiting = none
  | .asked size _ => size < 2 ^ 31
  | _ => True

def arrivals (events : List Event) : List UInt8 :=
  events.flatMap fun
    | .arrives bytes => bytes
    | _ => []

end Connection

/-! ### What a reader takes the socket for -/

/-- What a reader sees of a socket. -/
inductive Observation where
  | received (size : Nat) (bytes : List UInt8)
  | closed
deriving DecidableEq, Repr

/-- A `receive` that returns, and a close. -/
inductive SocketStep : SocketStream → Observation → SocketStream → Prop where
  | received {socket next : SocketStream} {size : Nat} {bytes : List UInt8}
      (hreceive : (SocketStream.receive size).exec socket = (.ok bytes, next)) :
      SocketStep socket (.received size bytes) next
  | closed (socket : SocketStream) : SocketStep socket .closed { socket with isOpen := false }

/-- What is seen of an event. A `receive` that waits has not come to an end, and one that throws
brings nothing. -/
def Connection.Event.observation : Connection.Event → Option Observation
  | .asked size (.ok (some bytes)) => some (.received size bytes)
  | .closes => some .closed
  | _ => none

end Liblw.Net
