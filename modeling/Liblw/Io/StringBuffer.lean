import Liblw.Error
import Liblw.Lib.Monitor
import Liblw.Lib.StdString

/-!
# String buffers

A stream buffer whose characters are a string, with the members of `std::streambuf` that it is read
and written through. Where a stream pointer points is given from the first character of the string,
which is one less than nothing for the end of the get area of an empty one. The base class puts a
character where the put pointer is, and takes one from where the get pointer is; it has none to give
at the end of the get area, and takes none at the end of the put area.
-/

namespace Liblw.Io

open Liblw.Lib

structure StringBuffer where
  string : StdString
  gptr : Nat
  egptr : Int
  pptr : Nat
  epptr : Nat
deriving DecidableEq, Repr

namespace StringBuffer

/-- The constructors: a buffer is made with a string, the empty one for none. -/
def make (allocation : Allocation) (str : List UInt8) : StringBuffer :=
  let string := StdString.ofBytes allocation str
  { string, gptr := 0, egptr := 0, pptr := 0, epptr := string.capacity }

def size (buffer : StringBuffer) : Nat := buffer.string.size

def capacity (buffer : StringBuffer) : Nat := buffer.string.capacity

/-- Sets the end of the get area, and the put area to what is behind the characters. -/
def reserve (allocation : Allocation) (newCapacity : Nat) (buffer : StringBuffer) : StringBuffer :=
  let string := buffer.string.reserve allocation newCapacity
  { string
    gptr := buffer.gptr
    egptr := string.size - 1
    pptr := string.size
    epptr := string.capacity }

/-- What is copied is as many characters as the get pointer has gone by, from the first one. -/
def xsgetn (count : Nat) : Call Fault StringBuffer (List UInt8) := do
  let buffer ← get
  let copied := min count buffer.gptr
  if buffer.string.chars.length < copied then
    throw (.undefined .readPastBuffer)
  else
    set { buffer with gptr := buffer.gptr + copied, egptr := (buffer.size : Int) - 1 }
    pure (buffer.string.chars.take copied)

def xsputn (allocation : Allocation) (text : List UInt8) : Call Fault StringBuffer Nat := do
  let buffer ← get
  let reserved :=
    if buffer.capacity < text.length + buffer.size then
      buffer.reserve allocation ((text.length + buffer.size) * 2)
    else buffer
  let string := reserved.string.append allocation text
  set { string
        gptr := reserved.gptr
        egptr := string.size - 1
        pptr := string.size
        epptr := string.capacity : StringBuffer }
  pure text.length

/-! ### What the base class does

Neither `overflow` nor `underflow` is overridden, and both have only the end of file to return. -/

def sputc (c : UInt8) : Call Fault StringBuffer (Option UInt8) := do
  let buffer ← get
  if buffer.pptr < buffer.epptr then
    set { buffer with string := buffer.string.put buffer.pptr c, pptr := buffer.pptr + 1 }
    pure (some c)
  else pure none

def sbumpc : Call Fault StringBuffer (Option UInt8) := do
  let buffer ← get
  if (buffer.gptr : Int) < buffer.egptr then
    match buffer.string.chars[buffer.gptr]? with
    | some c =>
        set { buffer with gptr := buffer.gptr + 1 }
        pure (some c)
    | none => throw (.undefined .readPastBuffer)
  else pure none

end StringBuffer

/-! ### Requests on a buffer -/

inductive BufferRequest where
  | sputc (c : UInt8)
  | sputn (text : List UInt8)
  | sbumpc
  | sgetn (count : Nat)
deriving DecidableEq, Repr

inductive BufferAnswer where
  | char (c : Option UInt8)
  | count (n : Nat)
  | bytes (text : List UInt8)
deriving DecidableEq, Repr

/-- What a request returns, and `string()` after it. -/
structure BufferOutput where
  answer : Result BufferAnswer
  string : List UInt8

namespace StringBuffer

def request (allocation : Allocation) :
    BufferRequest → Call Fault StringBuffer BufferAnswer
  | .sputc c => do return .char (← sputc c)
  | .sputn text => do return .count (← xsputn allocation text)
  | .sbumpc => do return .char (← sbumpc)
  | .sgetn count => do return .bytes (← xsgetn count)

/-- A buffer that is read and written. -/
def machine (allocation : Allocation) : Machine BufferRequest BufferOutput StringBuffer :=
  fun buffer input =>
    let (answer, buffer) := (request allocation input).exec buffer
    (⟨answer, buffer.string.bytes⟩, buffer)

end StringBuffer

/-! ### The queue of bytes -/

/-- The bytes that were read, and those that were written and not read yet. -/
structure ByteQueue where
  past : List UInt8
  unread : List UInt8

namespace ByteQueue

/-- Everything that was written so far. -/
def written (queue : ByteQueue) : List UInt8 := queue.past ++ queue.unread

def write (text : List UInt8) (queue : ByteQueue) : ByteQueue :=
  { queue with unread := queue.unread ++ text }

def read (count : Nat) (queue : ByteQueue) : ByteQueue :=
  ⟨queue.past ++ queue.unread.take count, queue.unread.drop count⟩

/-- A character that is refused is not written, and of a text the part is that was taken. -/
def after (queue : ByteQueue) : BufferRequest → Result BufferAnswer → ByteQueue
  | .sputc c, .ok (.char (some _)) => queue.write [c]
  | .sputn text, .ok (.count n) => queue.write (text.take n)
  | .sbumpc, .ok (.char (some _)) => queue.read 1
  | .sgetn _, .ok (.bytes text) => queue.read text.length
  | _, _ => queue

/-- What is read is the next bytes, as many as there are. -/
def Answers (queue : ByteQueue) : BufferRequest → Result BufferAnswer → Prop
  | .sputc c, .ok (.char answer) => answer = none ∨ answer = some c
  | .sputn text, .ok (.count n) => n ≤ text.length
  | .sbumpc, .ok (.char answer) => answer = queue.unread.head?
  | .sgetn count, .ok (.bytes text) => text = queue.unread.take count
  | _, _ => False

/-- What a request has written, going by its answer. -/
def added : BufferRequest → Result BufferAnswer → List UInt8
  | .sputc c, .ok (.char (some _)) => [c]
  | .sputn text, .ok (.count n) => text.take n
  | _, _ => []

/-- What a request has read. -/
def taken : BufferRequest → Result BufferAnswer → List UInt8
  | .sbumpc, .ok (.char (some c)) => [c]
  | .sgetn _, .ok (.bytes text) => text
  | _, _ => []

/-- What a run of requests has written, in order. -/
def addedBy (requests : List BufferRequest) (outputs : List BufferOutput) : List UInt8 :=
  (List.zipWith (fun request output => added request output.answer) requests outputs).flatten

/-- What it has read. -/
def takenBy (requests : List BufferRequest) (outputs : List BufferOutput) : List UInt8 :=
  (List.zipWith (fun request output => taken request output.answer) requests outputs).flatten

/-- The queue as a monitor of a buffer, whose string is to be what was written. -/
def monitor : Monitor BufferRequest BufferOutput ByteQueue where
  allows queue input output :=
    queue.Answers input output.answer ∧ output.string = (queue.after input output.answer).written
  after queue input output := queue.after input output.answer

end ByteQueue

/-- Where a request on a buffer is answered as the queue answers it. A character is to be refused,
and there have to be two to read one, in a get area that a block operation has set. A block has to
begin with as many bytes as it asks for, or as were read, that are the next ones again. -/
def StringBuffer.Serves (buffer : StringBuffer) (queue : ByteQueue) : BufferRequest → Prop
  | .sputc _ => buffer.epptr ≤ buffer.pptr
  | .sputn _ => True
  | .sbumpc => queue.unread = [] ∨ (2 ≤ queue.unread.length ∧ 0 < buffer.egptr)
  | .sgetn count =>
      queue.written.take (min count queue.past.length) = queue.unread.take count

end Liblw.Io
