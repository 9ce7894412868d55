import Liblw.Error
import Liblw.Lib.Base64
import Liblw.Lib.Iterating
import Mathlib.Algebra.Order.Floor.Div

/-!
# Views of a buffer as text

`base64(buffer)` is a view whose iterators encode the buffer while they are incremented. An iterator
keeps the four characters of one block of three bytes, and loads the next block when it steps over
the fourth. The end iterator is made of the size of the buffer and never loads a block.

Sizes are `std::size_t` and their sums are taken modulo `2 ^ 64`. A difference of iterators is an
`std::int64_t`.
-/

namespace Liblw.Format

open Liblw.Lib

/-- A `Buffer` that does not own its bytes. No object has more bytes than `PTRDIFF_MAX`. -/
structure BufferView where
  data : Nat
  bytes : List UInt8
  length_lt : bytes.length < 2 ^ 63

namespace BufferView

def size (buffer : BufferView) : Nat := buffer.bytes.length

/-- `operator==`, which compares addresses and sizes and not what is there. -/
def same (buffer other : BufferView) : Bool :=
  buffer.data == other.data && buffer.size == other.size

def trimPrefix (buffer : BufferView) (n : Nat) : Result BufferView :=
  let capacity := buffer.size
  if capacity < n then
    raise .invalidArgument s!"Cannot trim {n} bytes from buffer with {capacity} bytes."
  else pure
    { data := buffer.data + n
      bytes := buffer.bytes.drop n
      length_lt := Nat.lt_of_le_of_lt (List.length_drop ▸ Nat.sub_le _ _) buffer.length_lt }

end BufferView

/-! ## One block -/

def b64BlockSize : Nat := 4

def b64Table : Text :=
  "ABCDEFGHIJKLMNOPQRSTUVWXYZabcdefghijklmnopqrstuvwxyz0123456789+/".toList

def tableAt (index : Nat) : Result Char :=
  match b64Table[index]? with
  | some c => pure c
  | none => throw (.undefined .readPastView)

/-- `out[outpos++] = c`, for the characters written so far. -/
def push (out : Text) (c : Char) : Result Text :=
  if out.length < b64BlockSize then pure (out ++ [c]) else throw (.undefined .writePastBuffer)

/-- The inner loop, which writes the groups of six bits that are complete. -/
def writeGroups : (bitsCollected accumulator : Nat) → Text → Result (Nat × Text)
  | bitsCollected + 6, accumulator, out => do
      let c ← tableAt ((accumulator >>> bitsCollected) &&& 0x3f)
      let out ← push out c
      writeGroups bitsCollected accumulator out
  | bitsCollected, _, out => pure (bitsCollected, out)

structure Collected where
  bitsCollected : Nat
  accumulator : Nat
  out : Text

/-- The loop over the bytes, which stops when the block is full. -/
def collectBytes : List UInt8 → Collected → Result Collected
  | [], collected => pure collected
  | byte :: bytes, ⟨bitsCollected, accumulator, out⟩ =>
      if out.length < b64BlockSize then do
        let accumulator := ((accumulator <<< 8) ||| (byte.toNat &&& 0xff)) % 2 ^ 32
        let (bitsCollected, out) ← writeGroups (bitsCollected + 8) accumulator out
        collectBytes bytes ⟨bitsCollected, accumulator, out⟩
      else pure ⟨bitsCollected, accumulator, out⟩

/-- The bits that are left over, filled up with zeros on the right. -/
def writeRest (collected : Collected) : Result Text :=
  if 0 < collected.bitsCollected then do
    let accumulator := (collected.accumulator <<< (6 - collected.bitsCollected)) % 2 ^ 32
    let c ← tableAt (accumulator &&& 0x3f)
    push collected.out c
  else pure collected.out

def toBase64 (buffer : BufferView) : Result Text := do
  let collected ← collectBytes buffer.bytes ⟨0, 0, []⟩
  let out ← writeRest collected
  pure (out ++ List.replicate (b64BlockSize - out.length) '=')

/-! ## The iterator -/

structure Base64Iterator where
  buffer : BufferView
  /-- Empty until it is written for the first time. -/
  block : Text
  index : Nat
  charIndex : Nat

namespace Base64Iterator

def loadChars (iterator : Base64Iterator) : Result Base64Iterator :=
  if iterator.buffer.size < iterator.index then
    pure { iterator with block := List.replicate b64BlockSize '\x00' }
  else do
    let trimmed ← iterator.buffer.trimPrefix iterator.index
    let block ← toBase64 trimmed
    pure { iterator with block }

/-- `operator++`. -/
def increment (iterator : Base64Iterator) : Result Base64Iterator :=
  if iterator.charIndex = 3 then
    let index := min ((iterator.index + 3) % 2 ^ 64) iterator.buffer.size
    loadChars { iterator with index, charIndex := 0 }
  else pure { iterator with charIndex := (iterator.charIndex + 1) % 2 ^ 8 }

/-- `operator--`, which goes back by a whole block. -/
def decrement (iterator : Base64Iterator) : Result Base64Iterator :=
  if iterator.charIndex = 0 then
    let index := (iterator.index + (2 ^ 64 - 3)) % 2 ^ 64
    loadChars { iterator with index, charIndex := 3 }
  else pure { iterator with charIndex := iterator.charIndex - 1 }

/-- `operator*`. -/
def value (iterator : Base64Iterator) : Result Char :=
  match iterator.block[iterator.charIndex]? with
  | some c => pure c
  | none => throw (.undefined .uninitialized)

/-- `operator==`. -/
def same (iterator other : Base64Iterator) : Bool :=
  iterator.buffer.same other.buffer && iterator.index == other.index &&
    iterator.charIndex == other.charIndex

def size (s : Nat) : Nat := (s + 2) % 2 ^ 64 / 3 * 4 % 2 ^ 64

def position (iterator : Base64Iterator) : Nat :=
  (size iterator.index + iterator.charIndex) % 2 ^ 64

/-- `operator-`: the difference of two `std::size_t`, read as an `std::int64_t`. -/
def difference (iterator other : Base64Iterator) : Int :=
  Int.bmod ((iterator.position : Int) - other.position) (2 ^ 64)

/-- The iterator after it has been incremented `count` times. -/
def advance : (count : Nat) → Base64Iterator → Result Base64Iterator
  | 0, iterator => pure iterator
  | count + 1, iterator => do
      let iterator ← advance count iterator
      iterator.increment

def iterating : Iterating Fault Base64Iterator Char where
  increment := increment
  decrement := decrement
  value := value
  same := same

/-- They compare equal and have the same character. -/
def Agrees (iterator other : Base64Iterator) : Prop :=
  iterator.same other = true ∧ ∃ c, iterator.value = .ok c ∧ other.value = .ok c

end Base64Iterator

/-! ## The view -/

/-- `BlobView<Base64Iterator>`. -/
structure Base64View where
  buffer : BufferView

namespace Base64View

def beginning (view : Base64View) : Result Base64Iterator :=
  Base64Iterator.loadChars ⟨view.buffer, [], 0, 0⟩

def ending (view : Base64View) : Base64Iterator := ⟨view.buffer, [], view.buffer.size, 0⟩

def size (view : Base64View) : Nat := Base64Iterator.size view.buffer.size

/-- The position that `begin()` reaches when it is incremented `count` times. -/
def reach (view : Base64View) (count : Nat) : Result Base64Iterator := do
  let first ← view.beginning
  first.advance count

/-- `operator-` of the positions after `count` and after `count'` steps. -/
def distance (view : Base64View) (count count' : Nat) : Result Int := do
  let iterator ← view.reach count
  let other ← view.reach count'
  pure (iterator.difference other)

/-- `operator<<`, in fewer than `fuel` rounds. -/
def stream (view : Base64View) (fuel : Nat) : Result Text := do
  let first ← view.beginning
  Base64Iterator.iterating.forwards .diverged fuel first view.ending

/-- From `end()` back to `begin()`, in fewer than `fuel` rounds. -/
def streamBackwards (view : Base64View) (fuel : Nat) : Result Text := do
  let first ← view.beginning
  Base64Iterator.iterating.backwards .diverged fuel first view.ending

/-- Backwards the characters come in the reverse order, up to `begin()`; and a step there and a step
back undo each other. -/
structure Reversible (view : Base64View) : Prop where
  backwards : ∀ fuel, view.size < fuel →
    ∃ text, view.stream fuel = .ok text ∧ view.streamBackwards fuel = .ok text.reverse
  forth : ∀ count ≤ view.size, ∃ iterator next back,
    view.reach count = .ok iterator ∧ iterator.increment = .ok next ∧ next.decrement = .ok back ∧
      back.Agrees iterator
  back : ∀ count ≤ view.size, ∀ first, view.beginning = .ok first →
    ∃ iterator, view.reach count = .ok iterator ∧ (iterator.same first = false →
      ∃ previous forth, iterator.decrement = .ok previous ∧ previous.increment = .ok forth ∧
        forth.Agrees iterator)

end Base64View

def base64 (buffer : BufferView) : Base64View := ⟨buffer⟩

end Liblw.Format
