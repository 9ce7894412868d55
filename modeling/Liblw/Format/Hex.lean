import Liblw.Format.Blobs
import Liblw.Lib.Iterating

/-!
# Views of a buffer in hexadecimal

The iterators of `hex(buffer)` keep the two digits of one byte. They load the digits of another byte
when they step over one of its ends, and between the two digits they only turn to the other one. The
end iterator never loads any.
-/

namespace Liblw.Format

open Liblw.Lib

def toHexChar (n : Nat) : Char :=
  if n < 10 then Char.ofNat ('0'.toNat + n) else Char.ofNat ('a'.toNat + n - 10)

structure HexIterator where
  buffer : BufferView
  /-- Empty until it is written for the first time. -/
  hex : Text
  index : Nat
  charIndex : Nat

namespace HexIterator

def loadChars (iterator : HexIterator) : HexIterator :=
  match iterator.buffer.bytes[iterator.index]? with
  | some byte =>
      { iterator with
        hex := [toHexChar ((byte.toNat >>> 4) &&& 0x0f), toHexChar (byte.toNat &&& 0x0f)] }
  | none => { iterator with hex := ['\x00', '\x00'] }

/-- `operator++`. -/
def increment (iterator : HexIterator) : HexIterator :=
  if iterator.charIndex = 1 then
    loadChars { iterator with index := (iterator.index + 1) % 2 ^ 64, charIndex := 0 }
  else { iterator with charIndex := 1 }

/-- `operator--`. -/
def decrement (iterator : HexIterator) : HexIterator :=
  if iterator.charIndex = 0 then
    loadChars { iterator with index := (iterator.index + (2 ^ 64 - 1)) % 2 ^ 64, charIndex := 1 }
  else { iterator with charIndex := 0 }

/-- `operator*`. -/
def value (iterator : HexIterator) : Result Char :=
  match iterator.hex[iterator.charIndex]? with
  | some c => pure c
  | none => throw (.undefined .uninitialized)

/-- `operator==`. -/
def same (iterator other : HexIterator) : Bool :=
  iterator.buffer.same other.buffer && iterator.index == other.index &&
    iterator.charIndex == other.charIndex

def size (s : Nat) : Nat := s * 2 % 2 ^ 64

def position (iterator : HexIterator) : Nat :=
  (size iterator.index + iterator.charIndex) % 2 ^ 64

/-- `operator-`: the difference of two `std::size_t`, read as an `std::int64_t`. -/
def difference (iterator other : HexIterator) : Int :=
  Int.bmod ((iterator.position : Int) - other.position) (2 ^ 64)

def iterating : Iterating Fault HexIterator Char where
  increment iterator := pure iterator.increment
  decrement iterator := pure iterator.decrement
  value := value
  same := same

/-- They compare equal and have the same character. -/
def Agrees (iterator other : HexIterator) : Prop :=
  iterator.same other = true ∧ ∃ c, iterator.value = .ok c ∧ other.value = .ok c

end HexIterator

/-- A byte in hexadecimal, its upper four bits first. -/
def hexPair (byte : UInt8) : Text :=
  [Nat.digitChar (byte.toNat / 16), Nat.digitChar (byte.toNat % 16)]

def hexDigits (bytes : List UInt8) : Text := bytes.flatMap hexPair

/-- `BlobView<HexIterator>`. -/
structure HexView where
  buffer : BufferView

namespace HexView

def beginning (view : HexView) : HexIterator := HexIterator.loadChars ⟨view.buffer, [], 0, 0⟩

def ending (view : HexView) : HexIterator := ⟨view.buffer, [], view.buffer.size, 0⟩

def size (view : HexView) : Nat := HexIterator.size view.buffer.size

/-- `operator<<`, in fewer than `fuel` rounds. -/
def stream (view : HexView) (fuel : Nat) : Result Text :=
  HexIterator.iterating.forwards .diverged fuel view.beginning view.ending

/-- From `end()` back to `begin()`, in fewer than `fuel` rounds. -/
def streamBackwards (view : HexView) (fuel : Nat) : Result Text :=
  HexIterator.iterating.backwards .diverged fuel view.beginning view.ending

/-- The iterators that steps in both directions lead to, from `begin()` or `end()` and never beyond
these, with the number of characters in front of them. -/
inductive Reached (view : HexView) : HexIterator → Nat → Prop where
  | beginning : Reached view view.beginning 0
  | ending : Reached view view.ending view.size
  | increment {iterator : HexIterator} {count : Nat} (hreached : Reached view iterator count)
      (hcount : count < view.size) : Reached view iterator.increment (count + 1)
  | decrement {iterator : HexIterator} {count : Nat}
      (hreached : Reached view iterator (count + 1)) : Reached view iterator.decrement count

/-- What an iterator with `count` characters in front of it does. It is at `end()` or `begin()` if
it has all or none of them in front of it, and anywhere between these a step and its reverse lead
back to it. -/
structure Bidirectional (view : HexView) (iterator : HexIterator) (count : Nat) : Prop where
  value : ∀ hcount : count < (hexDigits view.buffer.bytes).length,
    iterator.value = .ok (hexDigits view.buffer.bytes)[count]
  at_ending : iterator.same view.ending = true ↔ count = view.size
  at_beginning : iterator.same view.beginning = true ↔ count = 0
  forth_back : 0 < count → count < view.size → iterator.increment.decrement.Agrees iterator
  back_forth : 0 < count → count < view.size → iterator.decrement.increment.Agrees iterator

end HexView

def hex (buffer : BufferView) : HexView := ⟨buffer⟩

end Liblw.Format
