import Mathlib.Data.Fintype.Card
import Liblw.Co.Scheduler
import Liblw.Lib.Ownership
import Liblw.Net.Socket

/-!
# Sockets and their descriptors

A `Socket` owns a descriptor or none. It gets one by `connect`, `listen` and `accept`, which may
also hold one while they run, and `connect` does so while it waits. The kernel numbers a new
descriptor by the lowest number that is free, and what else is open belongs to other code.
-/

namespace Liblw.Net

open Liblw.Lib
open Co (Handle)

/-! ### The kernel -/

/-- The number of the next descriptor. -/
def lowestFree (opened : Finset Handle) : Handle :=
  Nat.find (Infinite.exists_notMem_finset opened)

theorem lowestFree_notMem (opened : Finset Handle) : lowestFree opened ∉ opened :=
  Nat.find_spec (Infinite.exists_notMem_finset opened)

inductive SocketError where
  | failedPrecondition (message : String)
  | internal (message : String)
  | unavailable (message : String)
  | addressInfo (code : Int)
  | alreadyExists (message : String)
  | system (errno : Errno)
deriving DecidableEq, Repr

/-- How the attempt for one of the addresses goes: `::socket` fails, or `::connect` is done with the
new descriptor, has failed, or is in progress. Where it is in progress, EPoll may refuse to watch
the descriptor, and then `co_await` throws. -/
inductive Attempt where
  | noSocket
  | connected
  | refused
  | inProgress
  | unwatched (error : SocketError)
deriving DecidableEq, Repr

/-- The same for `listen`, which sets an option of the new descriptor and binds it. -/
inductive Binding where
  | noSocket
  | optionFails (errno : Errno)
  | bindFails
  | bound
deriving DecidableEq, Repr

/-- A `connect` that waits: its socket, the descriptor it waits for, and how the attempts for the
addresses behind that will go. -/
structure Connecting where
  socket : Nat
  fd : Handle
  positive : 0 < fd
  rest : List Attempt
deriving DecidableEq, Repr

/-- `socketFd` is `_socket_fd` of each socket, and zero where there is no such socket. -/
structure Descriptors where
  socketFd : Nat → Handle
  connecting : Nat → Option Connecting
  opened : Finset Handle
  elsewhere : Finset Handle

/-- What a system call that failed makes its caller throw, `check_system_error` coming first. -/
def checkedError (errno : Errno) (unknown : String) : SocketError :=
  if errno = .none then .internal unknown else .system errno

abbrev SocketCall := Call SocketError Descriptors

/-- `::socket` and `::accept`, where they do not fail. -/
def newDescriptor : SocketCall Handle :=
  .ofFunction fun state =>
    (lowestFree state.opened,
      { state with opened := insert (lowestFree state.opened) state.opened })

/-- `::close`. -/
def closeDescriptor (fd : Handle) : SocketCall Unit :=
  modify fun state => { state with opened := state.opened.erase fd }

/-! ### Sockets -/

namespace Descriptors

def isOpen (state : Descriptors) (socket : Nat) : Bool := 0 < state.socketFd socket

def withFd (state : Descriptors) (socket : Nat) (fd : Handle) : Descriptors :=
  { state with socketFd := Function.update state.socketFd socket fd }

def setFd (socket : Nat) (fd : Handle) : SocketCall Unit :=
  modify fun state => state.withFd socket fd

def setConnecting (call : Nat) (waits : Option Connecting) : SocketCall Unit :=
  modify fun state => { state with connecting := Function.update state.connecting call waits }

def close (socket : Nat) : SocketCall Unit := do
  let state ← get
  if state.socketFd socket = 0 then
    throw (.failedPrecondition "Socket is already closed, cannot close again.")
  else do
    closeDescriptor (state.socketFd socket)
    setFd socket 0

/-- `~Socket`. -/
def destroy (socket : Nat) : SocketCall Unit := do
  let state ← get
  if state.socketFd socket ≠ 0 then close socket

def moveConstruct (target source : Nat) : SocketCall Unit := do
  let state ← get
  setFd target (state.socketFd source)
  setFd source 0

/-- `operator=`. -/
def moveAssign (target source : Nat) : SocketCall Unit := do
  let state ← get
  if state.isOpen target then close target
  let state ← get
  setFd target (state.socketFd source)
  setFd source 0

section Connect

variable (socket call : Nat) (address : String)

/-- The loop over the addresses, up to where it waits. -/
def connectLoop : List Attempt → SocketCall Unit
  | [] => do
      let state ← get
      if state.socketFd socket = 0 then throw (.internal s!"Failed to connect to {address}")
  | .noSocket :: rest => connectLoop rest
  | attempt :: rest => do
      let fd ← newDescriptor
      if hzero : fd = 0 then connectLoop rest
      else
        match attempt with
        | .connected => setFd socket fd
        | .inProgress => setConnecting call (some ⟨socket, fd, Nat.pos_of_ne_zero hzero, rest⟩)
        | .unwatched error => throw error
        | _ => do
            closeDescriptor fd
            connectLoop rest

def connect (addresses : Except Int (List Attempt)) : SocketCall Unit := do
  let state ← get
  if state.isOpen socket then
    throw (.failedPrecondition "Socket is already open before connecting.")
  else
    match addresses with
    | .error code => throw (.addressInfo code)
    | .ok attempts => connectLoop socket call address attempts

end Connect

/-- What `::getsockopt` says of the descriptor that `connect` waited for: it fails, or there is an
error of the connection or none. -/
inductive Outcome where
  | optionFails (errno : Errno)
  | refused
  | connected
deriving DecidableEq, Repr

/-- `connect` goes on behind its `co_await`. -/
def resumeConnect (call : Nat) (address : String) (waits : Connecting) (outcome : Outcome) :
    SocketCall Unit := do
  setConnecting call none
  match outcome with
  | .optionFails errno =>
      throw (checkedError errno "Unknown error retrieving socket options.")
  | .refused => do
      closeDescriptor waits.fd
      connectLoop waits.socket call address waits.rest
  | .connected => setFd waits.socket waits.fd

def bindLoop (socket : Nat) : List Binding → SocketCall Unit
  | [] => pure ()
  | .noSocket :: rest => bindLoop socket rest
  | binding :: rest => do
      let fd ← newDescriptor
      if fd = 0 then bindLoop socket rest
      else
        match binding with
        | .optionFails errno => throw (checkedError errno "Unknown system error in setsockopt.")
        | .bound => setFd socket fd
        | _ => do
            closeDescriptor fd
            bindLoop socket rest

/-- `answer` is the `errno` of `::listen`, where it fails. -/
def listen (socket : Nat) (address service : String) (addresses : Except Int (List Binding))
    (answer : Option Errno) : SocketCall Unit := do
  let state ← get
  if state.isOpen socket then
    throw (.failedPrecondition "Socket is already open before listening.")
  else
    match addresses with
    | .error code => throw (.addressInfo code)
    | .ok bindings => do
        bindLoop socket bindings
        let state ← get
        if !state.isOpen socket then
          throw (.unavailable s!"Unable to bind to address \"{address}\" for service {service}")
        else
          match answer with
          | some errno => throw (checkedError errno "Unknown system error in listen.")
          | none => pure ()

/-- What `::accept` comes to, and `::fcntl` with the new descriptor. A call that succeeds leaves
`errno` with what it happens to hold. -/
inductive Arrival where
  | fails (errno : Errno)
  | optionFails (errno : Errno)
  | accepted (errno : Errno)
deriving DecidableEq, Repr

def Arrival.errno : Arrival → Errno
  | .fails errno | .optionFails errno | .accepted errno => errno

/-- The end of a round that has no new socket. It waits, or the call throws. -/
def notAccepted (errno : Errno) : SocketCall Unit :=
  if shouldWait errno then pure ()
  else throw (checkedError errno "Unknown system error in accept.")

/-- A round of `_do_accept`. The new socket comes into the place of `into`, and a descriptor that is
zero is taken for an error. -/
def doAccept (into : Nat) : Arrival → SocketCall Unit
  | .fails errno => notAccepted errno
  | arrival => do
      let fd ← newDescriptor
      if fd = 0 then notAccepted arrival.errno
      else
        match arrival with
        | .optionFails errno =>
            throw (checkedError errno "Unknown system error getting socket flags.")
        | _ => setFd into fd

/-- Up to the end of the first round. -/
def accept (listener into : Nat) (arrival : Arrival) : SocketCall Unit := do
  let state ← get
  if !state.isOpen listener then
    throw (.failedPrecondition "Socket is not open before accepting new connections.")
  else doAccept into arrival

/-! ### What happens to the sockets -/

inductive Action where
  | close (socket : Nat)
  | destroy (socket : Nat)
  | moveConstruct (target source : Nat)
  | moveAssign (target source : Nat)
  | connect (socket call : Nat) (address : String) (addresses : Except Int (List Attempt))
  | resume (call : Nat) (address : String) (outcome : Outcome)
  | listen (socket : Nat) (address service : String) (addresses : Except Int (List Binding))
      (answer : Option Errno)
  | accept (listener into : Nat) (arrival : Arrival)
  | acceptAgain (into : Nat) (arrival : Arrival)
  | openElsewhere
  | closeElsewhere (fd : Handle)

/-- The state that the call leaves, whether it returns or throws. -/
def after (state : Descriptors) (call : SocketCall Unit) : Descriptors := (call.exec state).2

/-- A socket outlives the calls of `connect` that wait for it, and a new one comes into a place that
has none. Closing is also what `receive` does when the peer is gone. -/
inductive Step : Descriptors → Action → Descriptors → Prop where
  | close (state : Descriptors) (socket : Nat) :
      Step state (.close socket) (state.after (close socket))
  | destroy {state : Descriptors} {socket : Nat}
      (hidle : ∀ call waits, state.connecting call = some waits → waits.socket ≠ socket) :
      Step state (.destroy socket) (state.after (destroy socket))
  | moveConstruct {state : Descriptors} {target : Nat} (hnew : state.socketFd target = 0)
      (source : Nat) :
      Step state (.moveConstruct target source) (state.after (moveConstruct target source))
  | moveAssign (state : Descriptors) (target source : Nat) :
      Step state (.moveAssign target source) (state.after (moveAssign target source))
  | connect {state : Descriptors} {call : Nat} (hcall : state.connecting call = none)
      (socket : Nat) (address : String) (addresses : Except Int (List Attempt)) :
      Step state (.connect socket call address addresses)
        (state.after (connect socket call address addresses))
  | resume {state : Descriptors} {call : Nat} {waits : Connecting}
      (hcall : state.connecting call = some waits) (address : String) (outcome : Outcome) :
      Step state (.resume call address outcome)
        (state.after (resumeConnect call address waits outcome))
  | listen (state : Descriptors) (socket : Nat) (address service : String)
      (addresses : Except Int (List Binding)) (answer : Option Errno) :
      Step state (.listen socket address service addresses answer)
        (state.after (listen socket address service addresses answer))
  | accept {state : Descriptors} {into : Nat} (hnew : state.socketFd into = 0) (listener : Nat)
      (arrival : Arrival) :
      Step state (.accept listener into arrival) (state.after (accept listener into arrival))
  | acceptAgain {state : Descriptors} {into : Nat} (hnew : state.socketFd into = 0)
      (arrival : Arrival) :
      Step state (.acceptAgain into arrival) (state.after (doAccept into arrival))
  | openElsewhere (state : Descriptors) :
      Step state .openElsewhere
        { state with
          opened := insert (lowestFree state.opened) state.opened
          elsewhere := insert (lowestFree state.opened) state.elsewhere }
  | closeElsewhere {state : Descriptors} {fd : Handle} (hfd : fd ∈ state.elsewhere) :
      Step state (.closeElsewhere fd)
        { state with opened := state.opened.erase fd, elsewhere := state.elsewhere.erase fd }

/-- No socket yet. What is open belongs to other code. -/
def start (opened : Finset Handle) : Descriptors := ⟨fun _ => 0, fun _ => none, opened, opened⟩

/-! ### Who owns what -/

inductive Owner where
  | socket (name : Nat)
  | connect (call : Nat)
  | elsewhere (fd : Handle)
deriving DecidableEq, Repr

def holdings (state : Descriptors) : Holdings Owner Handle where
  holds
    | .socket name => if state.socketFd name = 0 then none else some (state.socketFd name)
    | .connect call => (state.connecting call).map Connecting.fd
    | .elsewhere fd => if fd ∈ state.elsewhere then some fd else none
  live := ↑state.opened

/-- EPoll watches every descriptor that the attempts are to wait for. -/
def Watched (attempts : List Attempt) : Prop := ∀ error, .unwatched error ∉ attempts

/-- The calls that ask for a descriptor find zero taken. No option of a new descriptor fails, EPoll
watches those that `connect` waits for, and `connect` finds its socket without a descriptor when it
is done. -/
def Tidy (state : Descriptors) : Action → Prop
  | .connect _ _ _ addresses =>
      0 ∈ state.opened ∧ ∀ attempts, addresses = .ok attempts → Watched attempts
  | .resume call _ outcome =>
      0 ∈ state.opened ∧ (∀ errno, outcome ≠ .optionFails errno) ∧
        ∀ waits, state.connecting call = some waits →
          state.socketFd waits.socket = 0 ∧ Watched waits.rest
  | .listen _ _ _ addresses _ =>
      0 ∈ state.opened ∧ ∀ bindings errno, addresses = .ok bindings →
        .optionFails errno ∉ bindings
  | .accept _ _ arrival | .acceptAgain _ arrival =>
      0 ∈ state.opened ∧ ∀ errno, arrival ≠ .optionFails errno
  | _ => True

end Descriptors

end Liblw.Net
