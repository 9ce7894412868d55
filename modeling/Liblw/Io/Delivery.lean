import Liblw.Io.Stream

/-!
# Sources that deliver a text

What the results about delimiters need to know of a source: a state has the bytes that it still
delivers, a read brings a part of them from the front, and none only when there are none. What a
source says and does at its end is left open. A stream says that it is at its end; a socket finds
out by a read that brings no bytes, and throws from then on.
-/

namespace Liblw.Io

open Liblw.Lib

variable {σ : Type}

structure Delivery (source : Source σ) where
  rest : σ → List UInt8
  delivers : ∀ {size : Nat} {state : σ}, 0 < size → rest state ≠ [] →
    ∃ bytes next, (source.read size).exec state = (.ok bytes, next) ∧ bytes ≠ []
  conserves : ∀ {size : Nat} {state next : σ} {bytes : List UInt8},
    (source.read size).exec state = (.ok bytes, next) → rest state = bytes ++ rest next
  good : ∀ {state : σ}, rest state ≠ [] → source.good state = true

/-- The bytes that the caller has not seen yet. -/
def Delivery.unread {source : Source σ} (delivery : Delivery source) (reader : CoReader σ) :
    List UInt8 :=
  reader.buffers.waiting ++ delivery.rest reader.source

namespace Stream

theorem take_delivers_ne_nil {stream : Stream} {size : Nat} (hsize : 0 < size)
    (hrest : stream.rest ≠ []) : stream.rest.take (stream.delivers size) ≠ [] := by
  have hlength := List.length_pos_iff.2 hrest
  apply List.ne_nil_of_length_pos
  rw [List.length_take, delivers]
  omega

def delivery : Delivery asSource where
  rest stream := stream.rest
  delivers hsize hrest := ⟨_, _, exec_asSource_read _ _, take_delivers_ne_nil hsize hrest⟩
  conserves := by
    intro size stream next bytes hread
    rw [exec_asSource_read, Prod.mk.injEq, Except.ok.injEq] at hread
    obtain ⟨rfl, rfl⟩ := hread
    exact (List.take_append_drop _ _).symm
  good := by
    intro stream hrest
    change (!stream.rest.isEmpty) = true
    rwa [Bool.not_eq_true', List.isEmpty_eq_false_iff]

end Stream

/-- A `Socket` whose peer sends a text and then closes. -/
structure SocketStream where
  stream : Stream
  isOpen : Bool

namespace SocketStream

/-- `Socket::receive`. Receiving no bytes means that the peer has closed, and closes the socket. -/
def receive (size : Nat) : Call Fault SocketStream (List UInt8) := do
  let socket ← get
  if socket.isOpen = false then
    raise .failedPrecondition "Socket is not open before receiving."
  else if size = 0 then
    raise .invalidArgument "Buffer must have capacity for at least 1 byte."
  else
    let bytes := socket.stream.rest.take (socket.stream.delivers size)
    set { socket with stream := socket.stream.next size, isOpen := !bytes.isEmpty }
    pure bytes

theorem exec_receive {size : Nat} {socket : SocketStream} (hopen : socket.isOpen = true)
    (hsize : 0 < size) :
    let bytes := socket.stream.rest.take (socket.stream.delivers size)
    (receive size).exec socket = (.ok bytes, ⟨socket.stream.next size, !bytes.isEmpty⟩) := by
  intro bytes
  rw [receive, Call.exec_get_bind, if_neg (by simp [hopen]), if_neg (by omega)]
  rfl

theorem receive_eq_ok {size : Nat} {socket next : SocketStream} {bytes : List UInt8}
    (hreceive : (receive size).exec socket = (.ok bytes, next)) :
    socket.isOpen = true ∧ 0 < size ∧
      bytes = socket.stream.rest.take (socket.stream.delivers size) ∧
      next = ⟨socket.stream.next size, !bytes.isEmpty⟩ := by
  rw [receive, Call.exec_get_bind] at hreceive
  split_ifs at hreceive with hclosed hsize
  · cases hreceive
  · cases hreceive
  · rw [Call.exec_set_bind, Call.exec_pure, Prod.mk.injEq, Except.ok.injEq] at hreceive
    obtain ⟨rfl, rfl⟩ := hreceive
    exact ⟨eq_true_of_ne_false hclosed, Nat.pos_of_ne_zero hsize, rfl, rfl⟩

/-- `eof` is what the source has for it. -/
def asSource : Source SocketStream where
  eof socket := socket.isOpen
  good socket := socket.isOpen
  read := receive
  read_length := by
    intro size socket next bytes hreceive
    obtain ⟨-, -, rfl, -⟩ := receive_eq_ok hreceive
    rw [List.length_take, Stream.delivers]
    omega

/-- A closed socket delivers nothing more. -/
def rest (socket : SocketStream) : List UInt8 :=
  if socket.isOpen then socket.stream.rest else []

theorem isOpen_of_rest {socket : SocketStream} (hrest : socket.rest ≠ []) :
    socket.isOpen = true := by
  by_contra hclosed
  exact hrest (if_neg hclosed)

def delivery : Delivery asSource where
  rest := rest
  delivers := by
    intro size socket hsize hrest
    have hopen := isOpen_of_rest hrest
    rw [rest, if_pos hopen] at hrest
    exact ⟨_, _, exec_receive hopen hsize, Stream.take_delivers_ne_nil hsize hrest⟩
  conserves := by
    intro size socket next bytes hreceive
    obtain ⟨hopen, hsize, hbytes, rfl⟩ := receive_eq_ok hreceive
    rw [rest, if_pos hopen]
    by_cases hnone : bytes = []
    · have hend : socket.stream.rest = [] := by
        by_contra hrest
        exact Stream.take_delivers_ne_nil hsize hrest (hbytes ▸ hnone)
      rw [hnone, hend]
      rfl
    · have hstill : (!bytes.isEmpty) = true := by
        rwa [Bool.not_eq_true', List.isEmpty_eq_false_iff]
      rw [rest, if_pos hstill, hbytes]
      exact (List.take_append_drop _ _).symm
  good := isOpen_of_rest

end SocketStream

end Liblw.Io
