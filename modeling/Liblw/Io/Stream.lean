import Liblw.Io.Reader

/-!
# Sources

Two sources to put under a reader. A stream delivers a fixed text, cut into reads by a schedule. A
recorded source is any source together with the list of what its reads have delivered; the reader
cannot tell the two apart.
-/

namespace Liblw.Io

open Liblw.Lib

/-- The bytes that are left, the cut that the transport makes at each read, and the number of the
next read. -/
structure Stream where
  rest : List UInt8
  cuts : Nat → Nat
  reads : Nat

namespace Stream

/-- How many bytes the next read delivers into a buffer of the given size: at least one, unless the
buffer has no room or the stream is at its end. -/
def delivers (stream : Stream) (size : Nat) : Nat :=
  min (max 1 (stream.cuts stream.reads)) (min size stream.rest.length)

def next (stream : Stream) (size : Nat) : Stream :=
  { stream with rest := stream.rest.drop (stream.delivers size), reads := stream.reads + 1 }

def read (size : Nat) : Call Fault Stream (List UInt8) := do
  let stream ← get
  set (stream.next size)
  pure (stream.rest.take (stream.delivers size))

theorem exec_read (size : Nat) (stream : Stream) :
    (read size).exec stream =
      (.ok (stream.rest.take (stream.delivers size)), stream.next size) := rfl

def asSource : Source Stream where
  eof stream := stream.rest.isEmpty
  good stream := !stream.rest.isEmpty
  read := read
  read_length := by
    intro size stream next bytes hread
    rw [exec_read, Prod.mk.injEq, Except.ok.injEq] at hread
    rw [← hread.1, List.length_take, delivers]
    omega

theorem exec_asSource_read (size : Nat) (stream : Stream) :
    (asSource.read size).exec stream =
      (.ok (stream.rest.take (stream.delivers size)), stream.next size) := rfl

/-- How many bytes have arrived when `need` of them have, and the stream after the reads that have
brought them. `got` bytes are there already, and a read asks for what is left of the limit. -/
def arrive (limit need : Nat) : (rounds got : Nat) → Stream → Nat × Stream
  | 0, got, stream => (got, stream)
  | rounds + 1, got, stream =>
      if need ≤ got then (got, stream)
      else
        arrive limit need rounds (got + stream.delivers (limit - got)) (stream.next (limit - got))

end Stream

namespace Source

variable {σ : Type} (source : Source σ)

def recordedRead (size : Nat) : Call Fault (σ × List (List UInt8)) (List UInt8) := do
  let bytes ← (source.read size).within Prod.fst fun state recorded => (state, recorded.2)
  modify fun recorded => (recorded.1, recorded.2 ++ [bytes])
  pure bytes

theorem recordedRead_eq_ok {size : Nat} {state next : σ} {log log' : List (List UInt8)}
    {bytes : List UInt8}
    (hread : (source.recordedRead size).exec (state, log) = (.ok bytes, (next, log'))) :
    (source.read size).exec state = (.ok bytes, next) ∧ log' = log ++ [bytes] := by
  obtain ⟨first, middle, hsource, hrest⟩ := Call.exec_bind_eq_ok hread
  obtain ⟨inner, hinner, rfl⟩ := Call.exec_within_eq_ok hsource
  rw [Call.exec_modify_bind, Call.exec_pure, Prod.mk.injEq, Except.ok.injEq, Prod.mk.injEq] at hrest
  obtain ⟨rfl, rfl, rfl⟩ := hrest
  exact ⟨hinner, rfl⟩

/-- The source, with a list of what each of its reads has delivered. -/
def recorded : Source (σ × List (List UInt8)) where
  eof state := source.eof state.1
  good state := source.good state.1
  read := source.recordedRead
  read_length := by
    rintro size ⟨state, log⟩ ⟨next, log'⟩ bytes hread
    exact source.read_length (source.recordedRead_eq_ok hread).1

end Source

end Liblw.Io
