import Mathlib.Data.BitVec
import Liblw.Co.Scheduler

/-!
# EPoll and the kernel

`EPoll` keeps the callbacks and the kernel keeps what it watches. The two are changed by separate
calls, and a handle that is closed goes out of the kernel's list only. The events of one
`epoll_wait` are a batch that `_wait` works off, and whatever a callback does meanwhile, it does
with the rest of the batch still ahead: it may register, remove and close handles, wait once more,
or throw, which gives up the rest.
-/

namespace Liblw.Co

open Liblw.Lib

/-! ### Events -/

abbrev Event := BitVec 16

namespace Event

def readable : Event := 0b0000000000000001
def writable : Event := 0b0000000000000010
def readClosed : Event := 0b0000000000000100
def peerClosed : Event := 0b0000000000001000
def pollpri : Event := 0b0000000000010000
def error : Event := 0b0000000000100000
def edgeTrigger : Event := 0b0000000001000000
def oneShot : Event := 0b0000000010000000
def wakeUp : Event := 0b0000000100000000
def exclusive : Event := 0b0000001000000000

/-- `operator&`. -/
def has (lhs rhs : Event) : Bool := lhs &&& rhs != 0

end Event

def EPOLLIN : BitVec 32 := 0x001
def EPOLLPRI : BitVec 32 := 0x002
def EPOLLOUT : BitVec 32 := 0x004
def EPOLLERR : BitVec 32 := 0x008
def EPOLLHUP : BitVec 32 := 0x010
def EPOLLRDHUP : BitVec 32 := 0x2000
def EPOLLEXCLUSIVE : BitVec 32 := 0x10000000
def EPOLLWAKEUP : BitVec 32 := 0x20000000
def EPOLLONESHOT : BitVec 32 := 0x40000000
def EPOLLET : BitVec 32 := 0x80000000

def coEventToEpollEvent (events : Event) : BitVec 32 :=
  let put (event : Event) (flag : BitVec 32) : BitVec 32 := if events.has event then flag else 0
  put .readable EPOLLIN ||| put .writable EPOLLOUT ||| put .readClosed EPOLLRDHUP |||
    put .peerClosed EPOLLHUP ||| put .pollpri EPOLLPRI ||| put .error EPOLLERR |||
    put .edgeTrigger EPOLLET ||| put .oneShot EPOLLONESHOT ||| put .wakeUp EPOLLWAKEUP |||
    put .exclusive EPOLLEXCLUSIVE

/-! ### The two lists -/

/-- A callback is told by the number of callbacks that were registered before it. -/
structure Registration where
  fd : Handle
  number : Nat
  oneShot : Bool
deriving DecidableEq, Repr

/-- What the kernel keeps of a handle. It watches a handle with `EPOLLONESHOT` until it has
reported it. -/
structure Watch where
  fd : Handle
  events : BitVec 32
  armed : Bool
deriving DecidableEq, Repr

def Watch.oneShot (watch : Watch) : Bool := watch.events &&& EPOLLONESHOT != 0

structure Poll where
  callbacks : List Registration
  watches : List Watch
  registered : Nat
deriving DecidableEq, Repr

namespace Poll

def make : Poll := ⟨[], [], 0⟩

def contains (poll : Poll) (fd : Handle) : Bool := poll.callbacks.any fun entry => entry.fd = fd

def watched (poll : Poll) (fd : Handle) : Bool := poll.watches.any fun watch => watch.fd = fd

def hasPendingItems (poll : Poll) : Bool := !poll.callbacks.isEmpty

variable (systemError : Nat → Option Error)

/-- What a system call that failed makes its caller throw, `check_system_error` coming first. -/
def systemFault (errno : Nat) (unknown : String) : Fault :=
  match systemError errno with
  | some error => .thrown error
  | none => .thrown ⟨.internal, unknown⟩

/-- `EPOLL_CTL_ADD`, which may fail. -/
def ctlAdd (fd : Handle) (events : BitVec 32) (answer : Option Nat) : Call Fault Poll Unit :=
  match answer with
  | some errno =>
      throw (systemFault systemError errno "Unknown error from epoll_ctl when adding handle.")
  | none => modify fun poll => { poll with watches := poll.watches ++ [⟨fd, events, true⟩] }

/-- `EPOLL_CTL_DEL`, which fails if and only if the handle is not watched. -/
def ctlDel (fd : Handle) (errno : Nat) : Call Fault Poll Unit := do
  let poll ← get
  if poll.watched fd then
    set { poll with watches := poll.watches.filter fun watch => watch.fd ≠ fd }
  else throw (systemFault systemError errno "Unknown error from epoll_ctl when removing handle.")

def add (fd : Handle) (events : Event) (answer : Option Nat) : Call Fault Poll Unit := do
  let poll ← get
  if poll.contains fd then raise .alreadyExists "Handle already registered with epoll."
  else do
    ctlAdd systemError fd (coEventToEpollEvent events) answer
    modify fun poll =>
      { poll with
        callbacks := poll.callbacks ++ [⟨fd, poll.registered, events.has .oneShot⟩]
        registered := poll.registered + 1 }

def remove (fd : Handle) (errno : Nat) : Call Fault Poll Unit := do
  let poll ← get
  if !poll.contains fd then raise .failedPrecondition "Handle not registered with epoll."
  else do
    set { poll with callbacks := poll.callbacks.filter fun entry => entry.fd ≠ fd }
    ctlDel systemError fd errno

/-- An error that comes out of a callback, or out of `remove` in its place. -/
def thrownByCallback : Fault → Fault
  | .thrown error =>
      let what := error.message
      .thrown ⟨.internal, s!"Error thrown by callback:\n\t{what}"⟩
  | fault => fault

/-- The round of `_wait` for an event, up to where it calls the callback. -/
def dispatch (fd : Handle) (errno : Nat) : Call Fault Poll Registration := do
  let poll ← get
  match poll.callbacks.find? fun entry => entry.fd = fd with
  | none => raise .internal "Received event trigger for handle not in callbacks map."
  | some entry =>
      if entry.oneShot then
        tryCatch (remove systemError fd errno) fun fault => throw (thrownByCallback fault)
      pure entry

/-- The handle is closed, which `EPoll` is not told. -/
def close (fd : Handle) (poll : Poll) : Poll :=
  { poll with watches := poll.watches.filter fun watch => watch.fd ≠ fd }

/-- The kernel reports the handles. -/
def report (events : List Handle) (poll : Poll) : Poll :=
  { poll with
    watches := poll.watches.map fun watch =>
      if watch.fd ∈ events ∧ watch.oneShot = true then { watch with armed := false } else watch }

end Poll

/-! ### Waiting -/

/-- A call of `_wait`: the events of its batch that it has not come to, and whether the callback of
the one before them is running. -/
structure Wait where
  events : List Handle
  calling : Bool
deriving DecidableEq, Repr

/-- The calls of `_wait` that are on, the innermost first, the numbers of the callbacks that were
called, and what became of the callbacks that are not registered any more: they were called for
their one event, they were removed, or a call of `_wait` that failed has taken them out. -/
structure Poller where
  poll : Poll
  waits : List Wait
  called : List Nat
  fired : List Registration
  removed : List Registration
  dropped : List Registration
deriving DecidableEq, Repr

/-! ### The ledger -/

/-- What `Poller` says about callbacks, apart from the kernel and the batches. -/
structure Ledger where
  registrations : List Registration
  registered : Nat
  called : List Nat
  fired : List Registration
  removed : List Registration
  dropped : List Registration
deriving DecidableEq, Repr

namespace Ledger

def make : Ledger := ⟨[], 0, [], [], [], []⟩

def entriesOf (ledger : Ledger) (fd : Handle) : List Registration :=
  ledger.registrations.filter fun entry => entry.fd = fd

def without (ledger : Ledger) (fd : Handle) : List Registration :=
  ledger.registrations.filter fun entry => entry.fd ≠ fd

/-- All callbacks that ever were registered. -/
def entries (ledger : Ledger) : List Registration :=
  ledger.registrations ++ ledger.fired ++ ledger.removed ++ ledger.dropped

/-- The steps of a ledger: a callback is registered for a handle that has none, the callback of a
handle is taken out, or a callback is called, which takes it out if it is for one event. -/
inductive Step : Ledger → Ledger → Prop where
  | register {ledger : Ledger} {fd : Handle} (hfree : ledger.entriesOf fd = []) (oneShot : Bool) :
      Step ledger { ledger with
        registrations := ledger.registrations ++ [⟨fd, ledger.registered, oneShot⟩]
        registered := ledger.registered + 1 }
  | remove (ledger : Ledger) (fd : Handle) :
      Step ledger { ledger with
        registrations := ledger.without fd
        removed := ledger.removed ++ ledger.entriesOf fd }
  | drop (ledger : Ledger) (fd : Handle) :
      Step ledger { ledger with
        registrations := ledger.without fd
        dropped := ledger.dropped ++ ledger.entriesOf fd }
  | call {ledger : Ledger} {entry : Registration} (hentry : entry ∈ ledger.registrations)
      (honeShot : entry.oneShot = false) :
      Step ledger { ledger with called := ledger.called ++ [entry.number] }
  | fire {ledger : Ledger} {entry : Registration} (hentry : entry ∈ ledger.registrations)
      (honeShot : entry.oneShot = true) :
      Step ledger { ledger with
        registrations := ledger.without entry.fd
        called := ledger.called ++ [entry.number]
        fired := ledger.fired ++ [entry] }

/-- Every callback stands in one place and once, and those for one event are called exactly if they
have fired, and then once. -/
structure Balanced (ledger : Ledger) : Prop where
  distinct : (ledger.registrations.map Registration.fd).Nodup
  each : (ledger.entries.map Registration.number).Perm (List.range ledger.registered)
  called : ∀ number ∈ ledger.called, number < ledger.registered
  fired : ∀ entry ∈ ledger.fired, entry.oneShot = true ∧ ledger.called.count entry.number = 1
  waiting : ∀ entry ∈ ledger.registrations ++ ledger.removed ++ ledger.dropped,
    entry.oneShot = true → entry.number ∉ ledger.called

end Ledger

namespace Poller

def ledger (poller : Poller) : Ledger :=
  ⟨poller.poll.callbacks, poller.poll.registered, poller.called, poller.fired, poller.removed,
    poller.dropped⟩

def make : Poller := ⟨.make, [], [], [], [], []⟩

inductive Action where
  | add (fd : Handle) (events : Event) (answer : Option Nat)
  | remove (fd : Handle) (errno : Nat)
  | close (fd : Handle)
  | wait (events : List Handle)
  | dispatch (errno : Nat)
  | returns
  | throws
  | finish
deriving DecidableEq, Repr

/-- Code outside of EPoll runs: a callback does, or no call of `_wait` is on. -/
def free (poller : Poller) : Bool :=
  match poller.waits with
  | [] => true
  | wait :: _ => wait.calling

/-- The events that were reported and not come to yet. -/
def pending (poller : Poller) : List Handle := poller.waits.flatMap Wait.events

section Step

variable (systemError : Nat → Option Error) (bufferSize : Nat)

/-- The kernel adds no handle twice, and reports handles that it watches, each once and as many as
the buffer takes. A call of `_wait` that fails by itself is over, and its caller goes on. -/
inductive Step : Poller → Action → Poller → Prop where
  | add {poller : Poller} {fd : Handle} {answer : Option Nat} (hfree : poller.free = true)
      (events : Event) (hkernel : answer = none → poller.poll.watched fd = false) :
      Step poller (.add fd events answer)
        { poller with poll := ((Poll.add systemError fd events answer).exec poller.poll).2 }
  | remove {poller : Poller} (hfree : poller.free = true) (fd : Handle) (errno : Nat) :
      Step poller (.remove fd errno)
        { poller with
          poll := ((Poll.remove systemError fd errno).exec poller.poll).2
          removed := poller.removed ++ poller.ledger.entriesOf fd }
  | close {poller : Poller} (hfree : poller.free = true) (fd : Handle) :
      Step poller (.close fd) { poller with poll := poller.poll.close fd }
  | wait {poller : Poller} {events : List Handle} (hfree : poller.free = true)
      (hbuffer : 0 < bufferSize) (hnodup : events.Nodup) (hsize : events.length ≤ bufferSize)
      (hwatched : ∀ fd ∈ events, ∃ watch ∈ poller.poll.watches, watch.fd = fd ∧
        watch.armed = true) :
      Step poller (.wait events)
        { poller with
          poll := poller.poll.report events
          waits := ⟨events, false⟩ :: poller.waits }
  | dispatch {poller : Poller} {fd : Handle} {events : List Handle} {waits : List Wait}
      {errno : Nat} {entry : Registration} {poll : Poll}
      (hwaits : poller.waits = ⟨fd :: events, false⟩ :: waits)
      (hdispatch : (Poll.dispatch systemError fd errno).exec poller.poll = (.ok entry, poll)) :
      Step poller (.dispatch errno)
        { poller with
          poll
          waits := ⟨events, true⟩ :: waits
          called := poller.called ++ [entry.number]
          fired := if entry.oneShot then poller.fired ++ [entry] else poller.fired }
  | dispatchFails {poller : Poller} {fd : Handle} {events : List Handle} {waits : List Wait}
      {errno : Nat} {fault : Fault} {poll : Poll}
      (hwaits : poller.waits = ⟨fd :: events, false⟩ :: waits)
      (hdispatch : (Poll.dispatch systemError fd errno).exec poller.poll = (.error fault, poll)) :
      Step poller (.dispatch errno)
        { poller with poll, waits, dropped := poller.dropped ++ poller.ledger.entriesOf fd }
  | returns {poller : Poller} {events : List Handle} {waits : List Wait}
      (hwaits : poller.waits = ⟨events, true⟩ :: waits) :
      Step poller .returns { poller with waits := ⟨events, false⟩ :: waits }
  | throws {poller : Poller} {events : List Handle} {waits : List Wait}
      (hwaits : poller.waits = ⟨events, true⟩ :: waits) :
      Step poller .throws { poller with waits }
  | finish {poller : Poller} {waits : List Wait} (hwaits : poller.waits = ⟨[], false⟩ :: waits) :
      Step poller .finish { poller with waits }

end Step

/-- The kernel watches handles that have a callback, each once, both know alike whether it is for
one event, and only what is for one event is ever disarmed. -/
structure Agrees (poller : Poller) : Prop where
  distinct : (poller.poll.watches.map Watch.fd).Nodup
  registered : ∀ watch ∈ poller.poll.watches, ∃ entry ∈ poller.poll.callbacks,
    entry.fd = watch.fd ∧ entry.oneShot = watch.oneShot
  disarmed : ∀ watch ∈ poller.poll.watches, watch.armed = false → watch.oneShot = true

/-- The round of the innermost `_wait` that comes next finds the callback of its event. -/
def Dispatches (systemError : Nat → Option Error) (poller : Poller) : Prop :=
  ∀ fd events waits errno, poller.waits = ⟨fd :: events, false⟩ :: waits →
    ∃ entry poll, (Poll.dispatch systemError fd errno).exec poller.poll = (.ok entry, poll)

/-- No handle is removed or closed while an event for it waits in a batch. -/
def Orderly (poller : Poller) : Action → Prop
  | .remove fd _ => fd ∉ poller.pending
  | .close fd => fd ∉ poller.pending
  | _ => True

/-- A callback that is registered, without the kernel watching out for its event and without an
event for it in a batch. -/
structure Stranded (poller : Poller) (entry : Registration) : Prop where
  registered : entry ∈ poller.poll.callbacks
  disarmed : ∀ watch ∈ poller.poll.watches, watch.fd = entry.fd → watch.armed = false
  gone : entry.fd ∉ poller.pending

/-- Apart from that, no handle is closed that the kernel watches, and no callback throws while
events of its batch are left whose handles are watched for one event only. -/
def Careful (poller : Poller) : Action → Prop
  | .remove fd _ => fd ∉ poller.pending
  | .close fd => poller.poll.watched fd = false
  | .throws => ∀ wait ∈ poller.waits.head?, ∀ watch ∈ poller.poll.watches,
      watch.fd ∈ wait.events → watch.armed = true
  | _ => True

end Poller

end Liblw.Co
