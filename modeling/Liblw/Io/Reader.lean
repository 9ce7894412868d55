import Liblw.Io.Buffers

/-!
# The buffered reader

`CoReader` reads a source through its buffers. A call asks the source for bytes only when the bytes
that wait do not suffice, and takes what it returns from the front of the read window. The contents
of a returned `Buffer` are those at the time of the return.
-/

namespace Liblw.Io

open Liblw.Lib

/-- A `CoReadable`. `read` is given the size of the buffer to fill and returns the bytes it has put
at the front of it, at most that many. -/
structure Source (σ : Type) where
  eof : σ → Bool
  good : σ → Bool
  read : (size : Nat) → Call Fault σ (List UInt8)
  read_length : ∀ {size : Nat} {state next : σ} {bytes : List UInt8},
    (read size).exec state = (.ok bytes, next) → bytes.length ≤ size

structure CoReader (σ : Type) where
  source : σ
  buffers : Buffers

namespace CoReader

variable {σ : Type} (flags : ReadFlags) (allocator : Allocator) (source : Source σ)

/-- `CoReader{source}`. -/
def make (state : σ) : Result (CoReader σ) :=
  if 2 ^ 63 ≤ flags.initialReadBufferSize then .error (.standard .badAlloc)
  else .ok
    { source := state
      buffers :=
        { buffer := allocator.allocate 0 flags.initialReadBufferSize
          read := .null
          write := .null
          allocations := 1 } }

def eof (reader : CoReader σ) : Bool :=
  reader.buffers.read.size == 0 && source.eof reader.source

def good (reader : CoReader σ) : Bool :=
  reader.buffers.read.size != 0 || source.good reader.source

def onBuffers {α : Type} (call : Call Fault Buffers α) : Call Fault (CoReader σ) α :=
  call.within buffers fun buffers reader => { reader with buffers }

def onSource {α : Type} (call : Call Fault σ α) : Call Fault (CoReader σ) α :=
  call.within CoReader.source fun source reader => { reader with source }

/-- The bytes that the source has put into the write window move over to the read window. -/
def accept (bytes : List UInt8) : Call Fault Buffers Unit := do
  let buffers ← get
  let buffer ← storeBytes buffers.buffer buffers.write.data bytes
  modify fun buffers => { buffers with buffer }
  let write ← buffers.write.trimPrefix bytes.length
  let read : Window := ⟨buffers.read.data, buffers.read.size + bytes.length⟩
  modify fun buffers => { buffers with write, read }

def loadBuffer (limit : Nat) : Call Fault (CoReader σ) Unit := do
  let reader ← get
  Call.onlyIf (reader.buffers.write.size < limit)
    (onBuffers (adjustBuffers flags allocator limit))
  let bytes ← onSource (source.read limit)
  onBuffers (accept bytes)

/-- A `Buffer` on the first `n` bytes of the read window, which is then trimmed by them. -/
def takeFront (n : Nat) : Call Fault Buffers (List UInt8) := do
  let buffers ← get
  let read ← buffers.read.trimPrefix n
  let bytes ← loadBytes buffers.buffer buffers.read.data n
  set { buffers with read }
  pure bytes

def read (bytes : Nat) : Call Fault (CoReader σ) (List UInt8) := do
  let reader ← get
  Call.onlyIf (reader.buffers.read.size < bytes)
    (loadBuffer flags allocator source (bytes - reader.buffers.read.size))
  let reader ← get
  onBuffers (takeFront (min bytes reader.buffers.read.size))

/-- `_read_window[i]`, which is not checked against the size of the window. -/
def byteAt (i : Nat) : Call Fault (CoReader σ) UInt8 := do
  let reader ← get
  match reader.buffers.buffer.load (reader.buffers.read.data + i) 1 with
  | some (byte :: _) => pure byte
  | _ => throw (.undefined .readPastBuffer)

/-- The rounds of `read_until(c, limit)` from `i` on, `rounds` of them. -/
def readUntilCharLoop (c : UInt8) (limit : Nat) : (i rounds : Nat) →
    Call Fault (CoReader σ) (List UInt8)
  -- The coroutine runs off its end without a `co_return`.
  | _, 0 => throw (.undefined .missingReturn)
  | i, rounds + 1 => do
      let reader ← get
      if reader.buffers.read.size ≤ i ∧ ¬ reader.good source then pure []
      else
        Call.onlyIf (reader.buffers.read.size ≤ i)
          (loadBuffer flags allocator source (limit - i))
        let byte ← byteAt i
        if byte = c then onBuffers (takeFront (i + 1))
        else readUntilCharLoop c limit (i + 1) rounds

def readUntilChar (c : UInt8) (limit : Nat) : Call Fault (CoReader σ) (List UInt8) :=
  let limit := if limit = 0 then flags.readBlockSize else limit
  readUntilCharLoop flags allocator source c limit 0 limit

/-- The rounds of `read_until(str, limit)`; `pos` is how much of `str` the bytes before `i` match.
-/
def readUntilStringLoop (str : List UInt8) (limit : Nat) : (pos i rounds : Nat) →
    Call Fault (CoReader σ) (List UInt8)
  | _, _, 0 => throw (.undefined .missingReturn)
  | pos, i, rounds + 1 => do
      let reader ← get
      if reader.buffers.read.size ≤ i ∧ ¬ reader.good source then pure []
      else
        Call.onlyIf (reader.buffers.read.size ≤ i)
          (loadBuffer flags allocator source (limit - i))
        let byte ← byteAt i
        match str[pos]? with
        | none => throw (.undefined .readPastView)
        | some c =>
            if byte = c then
              if pos + 1 = str.length then onBuffers (takeFront (i + 1))
              else readUntilStringLoop str limit (pos + 1) (i + 1) rounds
            else readUntilStringLoop str limit 0 (i + 1) rounds

def readUntilString (str : List UInt8) (limit : Nat) : Call Fault (CoReader σ) (List UInt8) :=
  let limit := if limit = 0 then flags.readBlockSize else limit
  readUntilStringLoop flags allocator source str limit 0 0 limit

end CoReader

/-! ### Sequences of calls -/

inductive ReaderCall where
  | read (bytes : Nat)
  | readUntilChar (c : UInt8) (limit : Nat)
  | readUntilString (str : List UInt8) (limit : Nat)
deriving DecidableEq, Repr

section Runs

variable {σ : Type} (flags : ReadFlags) (allocator : Allocator) (source : Source σ)

def ReaderCall.perform : ReaderCall → Call Fault (CoReader σ) (List UInt8)
  | .read bytes => CoReader.read flags allocator source bytes
  | .readUntilChar c limit => CoReader.readUntilChar flags allocator source c limit
  | .readUntilString str limit => CoReader.readUntilString flags allocator source str limit

/-- The calls one after the other, each with the bytes it returns. -/
def performAll : List ReaderCall → Call Fault (CoReader σ) (List (List UInt8))
  | [] => pure []
  | call :: calls => do
      let bytes ← call.perform flags allocator source
      let rest ← performAll calls
      pure (bytes :: rest)

end Runs

end Liblw.Io
