import Liblw.Io.Buffers
import Liblw.Net.Server
import Liblw.Net.Tls

/-!
# Sending on a socket

`Socket::send` offers the bytes to the kernel, waits and offers them once more when the call would
block, and sends them by halves when there are too many for one message. The kernel is a parameter,
and it keeps the bytes that it has accepted, each told by its address.
-/

namespace Liblw.Io

open Liblw.Lib

variable {σ : Type}

def Window.trimSuffix (window : Window) (n : Nat) : Call Fault σ Window :=
  let capacity := window.size
  if capacity < n then
    raise .invalidArgument s!"Cannot trim {n} bytes from buffer with {capacity} bytes."
  else pure ⟨window.data, window.size - n⟩

def Window.addresses (window : Window) : List Nat := List.range' window.data window.size

end Liblw.Io

namespace Liblw.Net

open Liblw.Lib
open Io (Window)

inductive Errno where
  | none
  | wouldBlock
  | messageTooLong
  | other (code : Nat)
deriving DecidableEq, Repr

/-- What `::send` comes to, and `errno` behind it. A call that takes bytes leaves `errno` with what
it happens to hold. -/
inductive SendAnswer where
  | sent (count : Nat) (errno : Errno)
  | failed (errno : Errno)
deriving DecidableEq, Repr

namespace SendAnswer

def count : SendAnswer → Nat
  | .sent count _ => count
  | .failed _ => 0

def errno : SendAnswer → Errno
  | .sent _ errno => errno
  | .failed errno => errno

/-- The result as the `int` that it is kept in. -/
def bytesSent : SendAnswer → Int
  | .sent count _ => toInt count
  | .failed _ => -1

end SendAnswer

/-- How the calls of `::send` are answered, in the order in which they are made: with some of the
bytes that are offered, or with an error. -/
structure Kernel where
  answer : (call size : Nat) → SendAnswer
  count_le : ∀ {call size count : Nat} {errno : Errno}, 0 < size →
    answer call size = .sent count errno → 0 < count ∧ count ≤ size
  /-- What `check_system_error` throws for an `errno`. -/
  systemError : Errno → Option Error

/-- How many calls have been made, and the addresses of the bytes that were accepted. -/
structure Sending where
  calls : Nat
  accepted : List Nat
deriving DecidableEq, Repr

/-- Nothing has been sent. -/
def Sending.start : Sending := ⟨0, []⟩

/-- `::send`. -/
def Kernel.send (kernel : Kernel) (data : Window) : Call Fault Sending SendAnswer := do
  let sending ← get
  let answer := kernel.answer sending.calls data.size
  set (⟨sending.calls + 1, sending.accepted ++ data.addresses.take answer.count⟩ : Sending)
  pure answer

def shouldWait (err : Errno) : Bool := err = .wouldBlock

namespace Socket

/-- `_do_send`, which is a coroutine and calls itself. -/
def doSend (kernel : Kernel) : (fuel : Nat) → Window → Call Fault Sending Nat
  | 0, _ => throw .diverged
  | fuel + 1, data => do
      let answer ← kernel.send data
      if 0 < answer.bytesSent then pure answer.bytesSent.toNat
      else if shouldWait answer.errno then doSend kernel fuel data
      else if answer.errno = .messageTooLong then
        if data.size < 2 then
          raise .resourceExhausted "Message too large to send but too small to split."
        else do
          let halfSize := data.size / 2
          let first ← data.trimSuffix (data.size - halfSize)
          let firstSend ← doSend kernel fuel first
          let second ← data.trimPrefix halfSize
          let secondSend ← doSend kernel fuel second
          pure ((firstSend + secondSend) % 2 ^ 64)
      else
        match kernel.systemError answer.errno with
        | some error => throw (.thrown error)
        | none =>
            let size := data.size
            raise .internal s!"Unknown socket error while sending {size} bytes."

def send (socket : Socket) (kernel : Kernel) (fuel : Nat) (data : Window) :
    Call Fault Sending Nat :=
  if !socket.isOpen then raise .failedPrecondition "Socket is not open before sending."
  else if data.size = 0 then raise .invalidArgument "Must send at lest 1 byte of data."
  else if data.data = 0 then raise .invalidArgument "data.data() must not be null. "
  else doSend kernel fuel data

end Socket

/-! ### What the kernel has to do -/

namespace Kernel

variable (kernel : Kernel)

/-- From a call on, the pieces that are still to be sent are accepted as a whole one after the
other. Only the last one may be accepted in part, and no number of bytes is too large for an
`int`. -/
inductive Whole : (call : Nat) → (pending : List Nat) → Prop where
  | done (call : Nat) : Whole call []
  | wait {call size : Nat} {pending : List Nat}
      (hanswer : kernel.answer call size = .failed .wouldBlock)
      (hrest : Whole (call + 1) (size :: pending)) : Whole call (size :: pending)
  | split {call size : Nat} {pending : List Nat}
      (hanswer : kernel.answer call size = .failed .messageTooLong)
      (hrest : Whole (call + 1) (size / 2 :: (size - size / 2) :: pending)) :
      Whole call (size :: pending)
  | sent {call size count : Nat} {errno : Errno} {pending : List Nat}
      (hanswer : kernel.answer call size = .sent count errno) (hint : count < 2 ^ 31)
      (hwhole : count = size ∨ pending = []) (hrest : Whole (call + 1) pending) :
      Whole call (size :: pending)

/-- Time and again a call comes that does not have to wait. -/
def KeepsAnswering : Prop :=
  ∀ call, ∃ later, call ≤ later ∧ ∀ size, (kernel.answer later size).errno = .wouldBlock →
    0 < (kernel.answer later size).bytesSent

end Kernel

end Liblw.Net
