import Liblw.Io.Delivery
import Liblw.Lib.Search

/-!
# Reading up to a delimiter

The overloads of `read_until` are one loop: a byte is a string of one byte, and the loop looks at
the bytes of the read window one after the other. It looks without a check, so what it is for is
stated with the loop that checks.
-/

namespace Liblw.Io

open Liblw.Lib

/-- The limit that stands for no limit is the block size. -/
def ReadFlags.bound (flags : ReadFlags) (limit : Nat) : Nat :=
  if limit = 0 then flags.readBlockSize else limit

/-- What `read_until` can be given. -/
inductive Delimiter where
  | byte (c : UInt8)
  | string (str : List UInt8) (nonempty : str ≠ [])

namespace Delimiter

def bytes : Delimiter → List UInt8
  | byte c => [c]
  | string str _ => str

theorem bytes_ne_nil (delimiter : Delimiter) : delimiter.bytes ≠ [] := by
  cases delimiter with
  | byte c => exact List.cons_ne_nil c []
  | string str nonempty => exact nonempty

end Delimiter

variable {σ : Type} (flags : ReadFlags) (allocator : Allocator) (source : Source σ)

namespace CoReader

/-- `_read_window[i]`, if the window has that byte. -/
def byteWithin (i : Nat) : Call Fault (CoReader σ) UInt8 := do
  let reader ← get
  if i < reader.buffers.read.size then byteAt i else throw (.undefined .readPastBuffer)

/-- The loop of both overloads, which gets `_read_window[i]` by `look`. -/
def scanLoop (look : Nat → Call Fault (CoReader σ) UInt8) (str : List UInt8) (limit : Nat) :
    (pos i rounds : Nat) → Call Fault (CoReader σ) (List UInt8)
  | _, _, 0 => throw (.undefined .missingReturn)
  | pos, i, rounds + 1 => do
      let reader ← get
      if reader.buffers.read.size ≤ i ∧ ¬ reader.good source then pure []
      else
        Call.onlyIf (reader.buffers.read.size ≤ i)
          (loadBuffer flags allocator source (limit - i))
        let byte ← look i
        match str[pos]? with
        | none => throw (.undefined .readPastView)
        | some c =>
            if byte = c then
              if pos + 1 = str.length then onBuffers (takeFront (i + 1))
              else scanLoop look str limit (pos + 1) (i + 1) rounds
            else scanLoop look str limit 0 (i + 1) rounds

theorem readUntilStringLoop_eq (str : List UInt8) (limit pos i rounds : Nat) :
    readUntilStringLoop flags allocator source str limit pos i rounds =
      scanLoop flags allocator source byteAt str limit pos i rounds := by
  induction rounds generalizing pos i with
  | zero => rfl
  | succ rounds ih =>
    simp only [readUntilStringLoop, ih]
    rfl

theorem readUntilCharLoop_eq (c : UInt8) (limit i rounds : Nat) :
    readUntilCharLoop flags allocator source c limit i rounds =
      scanLoop flags allocator source byteAt [c] limit 0 i rounds := by
  induction rounds generalizing i with
  | zero => rfl
  | succ rounds ih =>
    simp only [readUntilCharLoop, scanLoop, ih, List.getElem?_cons_zero, List.length_singleton,
      Nat.zero_add, if_true]

/-- The loads that it takes until `n` bytes wait, and the reader that they lead to: each returns,
and each brings some bytes. -/
inductive Fetches (limit : Nat) : (reader : CoReader σ) → (n : Nat) → (last : CoReader σ) → Prop
  | waiting {reader : CoReader σ} {n : Nat} :
      n ≤ reader.buffers.read.size → Fetches limit reader n reader
  | load {reader next last : CoReader σ} {n : Nat} :
      reader.buffers.read.size < n →
      (loadBuffer flags allocator source (limit - reader.buffers.read.size)).exec reader =
        (.ok (), next) →
      reader.buffers.read.size < next.buffers.read.size →
      Fetches limit next n last → Fetches limit reader n last

end CoReader

namespace Delimiter

def readUntil (limit : Nat) : Delimiter → Call Fault (CoReader σ) (List UInt8)
  | byte c => CoReader.readUntilChar flags allocator source c limit
  | string str _ => CoReader.readUntilString flags allocator source str limit

/-- The same, where each look at a byte is checked. -/
def readUntilWithin (delimiter : Delimiter) (limit : Nat) : Call Fault (CoReader σ) (List UInt8) :=
  CoReader.scanLoop flags allocator source CoReader.byteWithin delimiter.bytes
    (flags.bound limit) 0 0 (flags.bound limit)

theorem readUntil_eq (delimiter : Delimiter) (limit : Nat) :
    delimiter.readUntil flags allocator source limit =
      CoReader.scanLoop flags allocator source CoReader.byteAt delimiter.bytes
        (flags.bound limit) 0 0 (flags.bound limit) := by
  cases delimiter with
  | byte c => exact CoReader.readUntilCharLoop_eq flags allocator source c _ _ _
  | string str nonempty => exact CoReader.readUntilStringLoop_eq flags allocator source str _ _ _ _

end Delimiter

/-! ### What `read_until` is for -/

section Purpose

variable {source} (delivery : Delivery source)

/-- The call finishes with a `Buffer`, after looks at bytes of the read window only. Where the
delimiter does not end within the limit, that `Buffer` is empty and nothing has been consumed. -/
def Delimiter.Finishes (delimiter : Delimiter) (limit : Nat) (reader : CoReader σ) : Prop :=
  ∃ bytes final,
    (delimiter.readUntil flags allocator source limit).exec reader = (.ok bytes, final) ∧
    (delimiter.readUntilWithin flags allocator source limit).exec reader = (.ok bytes, final) ∧
    ((∀ stop ≤ flags.bound limit,
        ¬ Search.EndsAt delimiter.bytes (delivery.unread reader) stop) →
      bytes = [] ∧ delivery.unread final = delivery.unread reader)

end Purpose

end Liblw.Io
