import Liblw.Error
import Liblw.Lib.Block

/-!
# The buffers of a reader

A `Buffer` that owns its bytes is a block; a `Buffer` that does not is a window, a pointer and a
size. A reader keeps one block and two windows on it, the bytes that wait to be read and the room
for more. `adjust_buffers` makes room: it moves the bytes that wait to the front of the block, or to
a new and larger block.

Pointers are addresses, `0` the null pointer. Sizes are `std::size_t`, so sums and products are
taken modulo `2 ^ 64`; the additional space is an `std::int64_t`, negative from `2 ^ 63` on.
-/

namespace Liblw.Io

open Liblw.Lib

/-- The flags that size the buffers. -/
structure ReadFlags where
  initialReadBufferSize : Nat
  maximumReadBufferSize : Nat
  readBlockSize : Nat

/-- What `new std::uint8_t[size]` returns, at the `count`-th call: some block of that size, with
whatever bytes it holds. -/
structure Allocator where
  allocate : (count size : Nat) → Block UInt8
  length_cells : ∀ count size, (allocate count size).cells.length = size
  address_pos : ∀ count size, 0 < (allocate count size).address

/-- Every block at the same address and full of zeros. -/
def zeroAllocator : Allocator where
  allocate _ size := ⟨4096, List.replicate size 0⟩
  length_cells _ _ := List.length_replicate
  address_pos _ _ := Nat.succ_pos _

structure Window where
  data : Nat
  size : Nat
deriving DecidableEq, Repr

/-- A default constructed `Buffer`. -/
def Window.null : Window := ⟨0, 0⟩

structure Buffers where
  buffer : Block UInt8
  read : Window
  write : Window
  /-- How many blocks have been allocated. -/
  allocations : Nat
deriving DecidableEq, Repr

section Primitives

variable {σ : Type}

def loadBytes (block : Block UInt8) (pointer count : Nat) : Call Fault σ (List UInt8) :=
  match block.load pointer count with
  | some bytes => pure bytes
  | none => throw (.undefined .readPastBuffer)

def storeBytes (block : Block UInt8) (pointer : Nat) (bytes : List UInt8) :
    Call Fault σ (Block UInt8) :=
  match block.store pointer bytes with
  | some block => pure block
  | none => throw (.undefined .writePastBuffer)

def Window.trimPrefix (window : Window) (n : Nat) : Call Fault σ Window :=
  let capacity := window.size
  if capacity < n then
    raise .invalidArgument s!"Cannot trim {n} bytes from buffer with {capacity} bytes."
  else pure ⟨window.data + n, window.size - n⟩

end Primitives

variable (flags : ReadFlags) (allocator : Allocator)

/-- `new` throws for a size that no object can have. -/
def allocate (size : Nat) : Call Fault Buffers (Block UInt8) := do
  let buffers ← get
  if 2 ^ 63 ≤ size then throw (.standard .badAlloc)
  else
    set { buffers with allocations := buffers.allocations + 1 }
    pure (allocator.allocate buffers.allocations size)

/-- `Buffer::copy` to the front of a block. -/
def copy {σ : Type} (target source : Block UInt8) (pointer count : Nat) :
    Call Fault σ (Block UInt8) := do
  let bytes ← loadBytes source pointer (min count target.cells.length)
  storeBytes target target.address bytes

/-- `while (new_size < desired_total_size) new_size *= 2;`. A size that has been doubled 64 times is
zero and stays zero, so that the loop ends within the first 65 rounds or never. -/
def growSize : (rounds size desired : Nat) → Option Nat
  | 0, _, _ => none
  | rounds + 1, size, desired =>
      if size < desired then growSize rounds (size * 2 % 2 ^ 64) desired else some size

def reallocBuffers (desired : Nat) : Call Fault Buffers Unit := do
  let maximum := flags.maximumReadBufferSize
  if maximum < desired then
    let limited := s!"CoReader buffer limited to --maximum-read-buffer-size ({maximum} bytes). "
    raise .resourceExhausted (limited ++ s!"{desired} bytes requested.")
  else
    let buffers ← get
    match growSize 65 (buffers.buffer.cells.length * 2 % 2 ^ 64) desired with
    | none => throw .diverged
    | some size =>
        let newBuff ← allocate allocator (min size maximum)
        let newBuff ← copy newBuff buffers.buffer buffers.read.data buffers.read.size
        let read : Window := ⟨newBuff.address, buffers.read.size⟩
        modify fun buffers => { buffers with read }
        let write ← Window.trimPrefix ⟨newBuff.address, newBuff.cells.length⟩ read.size
        modify fun buffers => { buffers with buffer := newBuff, write }

def slideBuffers : Call Fault Buffers Unit := do
  let buffers ← get
  let buffer ← copy buffers.buffer buffers.buffer buffers.read.data buffers.read.size
  let read : Window := ⟨buffer.address, buffers.read.size⟩
  modify fun buffers => { buffers with buffer, read }
  let write ← Window.trimPrefix ⟨buffer.address, buffer.cells.length⟩ read.size
  modify fun buffers => { buffers with write }

def adjustBuffers (desired : Nat) : Call Fault Buffers Unit := do
  let buffers ← get
  if desired ≤ buffers.write.size then pure ()
  else
    let additional := ((desired - buffers.write.size : Nat) : Int).bmod (2 ^ 64)
    if (buffers.read.data : Int) - buffers.buffer.address < additional then
      let total := (buffers.buffer.cells.length + additional) % 2 ^ 64
      reallocBuffers flags allocator total.toNat
    else slideBuffers

/-! ### The layout -/

namespace Buffers

/-- Nothing has been loaded yet: both windows are null. -/
def Unloaded (buffers : Buffers) : Prop :=
  buffers.read = .null ∧ buffers.write = .null

/-- The read window lies inside the block, and the write window goes from its end to the end of the
block. -/
structure Layout (buffers : Buffers) : Prop where
  start : buffers.buffer.address ≤ buffers.read.data
  adjacent : buffers.write.data = buffers.read.data + buffers.read.size
  finish : buffers.write.data + buffers.write.size =
    buffers.buffer.address + buffers.buffer.cells.length

/-- The contents of the read window. -/
def waiting (buffers : Buffers) : List UInt8 :=
  (buffers.buffer.load buffers.read.data buffers.read.size).getD []

/-- From a block of the length a block for so many bytes comes about: the doublings of the length
are held against the maximum, and that is a size a block can have, or the first doubling that is
enough is. -/
def Doubles (flags : ReadFlags) (length total : Nat) : Prop :=
  flags.maximumReadBufferSize < 2 ^ 63 ∨
    ∃ doublings < 64, 0 < doublings ∧ total ≤ length * 2 ^ doublings ∧
      length * 2 ^ doublings < 2 ^ 63

instance (flags : ReadFlags) (length total : Nat) : Decidable (Doubles flags length total) :=
  inferInstanceAs (Decidable (_ ∨ ∃ doublings < 64, _))

/-- `n` bytes in all may wait: the windows have the room for them, or sliding makes it, or a block
with that much more room is within the maximum and comes about. -/
def Allows (flags : ReadFlags) (buffers : Buffers) (n : Nat) : Prop :=
  n ≤ buffers.read.size + buffers.write.size ∨
    buffers.buffer.address + (n - (buffers.read.size + buffers.write.size)) ≤ buffers.read.data ∨
    (buffers.buffer.cells.length + (n - (buffers.read.size + buffers.write.size)) ≤
        flags.maximumReadBufferSize ∧
      Doubles flags buffers.buffer.cells.length
        (buffers.buffer.cells.length + (n - (buffers.read.size + buffers.write.size))))

instance (flags : ReadFlags) (buffers : Buffers) (n : Nat) : Decidable (buffers.Allows flags n) :=
  inferInstanceAs (Decidable (_ ∨ _ ∨ _ ∧ _))

/-! ### What `adjust_buffers` is for -/

/-- `adjust_buffers` refuses and leaves everything as it is, or there is the room: the same bytes
wait in the layout, and the block is no larger than it was or than the maximum. -/
def MakesRoom (buffers : Buffers) (desired : Nat) : Prop :=
  (∃ message, (adjustBuffers flags allocator desired).exec buffers =
      (.error (.thrown ⟨.resourceExhausted, message⟩), buffers)) ∨
    ∃ final, (adjustBuffers flags allocator desired).exec buffers = (.ok (), final) ∧
      desired ≤ final.write.size ∧ final.waiting = buffers.waiting ∧ final.Layout ∧
      final.buffer.cells.length ≤ max buffers.buffer.cells.length flags.maximumReadBufferSize

/-- The additional space is a positive `std::int64_t`, and it is in front of the read window, or
beyond the maximum, or the block that is allocated for it has a size that a block can have. -/
def Adjustable (buffers : Buffers) (desired : Nat) : Prop :=
  desired - buffers.write.size < 2 ^ 63 ∧
    (desired - buffers.write.size ≤ buffers.read.data - buffers.buffer.address ∨
      flags.maximumReadBufferSize <
        buffers.buffer.cells.length + (desired - buffers.write.size) ∨
      flags.maximumReadBufferSize < 2 ^ 63 ∨
      ∃ doublings, 0 < doublings ∧
        buffers.buffer.cells.length + (desired - buffers.write.size) ≤
          buffers.buffer.cells.length * 2 ^ doublings ∧
        buffers.buffer.cells.length * 2 ^ doublings < 2 ^ 63)

end Buffers

end Liblw.Io
