import Liblw.Lib.Run
import Liblw.Memory.CircularQueue

/-!
# The scheduler

A scheduler keeps the coroutines to resume in a queue, and a callback that drains the queue is
registered with EPoll for an eventfd. The callback is registered for one event only, is taken out
before it is called, and comes back with the next coroutine that is scheduled. A drain resumes as
many coroutines as were in the queue at its start, and these may schedule others meanwhile.
-/

namespace Liblw.Co

open Liblw.Lib Liblw.Memory

abbrev Handle := Nat

/-- A `std::coroutine_handle`. -/
abbrev Coro := Nat

/-! ### EPoll -/

/-- The callbacks that are registered: the scheduler's own, or one that resumes a coroutine. -/
inductive Callback where
  | drainQueue
  | resume (coro : Coro)
deriving DecidableEq, Repr

/-- The callbacks by their handle, with whether they are for one event only. What `epoll_ctl` is
told goes with them: it is taken to succeed here, and `::eventfd` to give a handle. -/
structure EPoll where
  callbacks : List (Handle × Callback × Bool)
deriving DecidableEq, Repr

namespace EPoll

def contains (epoll : EPoll) (fd : Handle) : Bool := epoll.callbacks.any fun entry => entry.1 = fd

def hasPendingItems (epoll : EPoll) : Bool := !epoll.callbacks.isEmpty

def add (fd : Handle) (oneShot : Bool) (callback : Callback) : Call Fault EPoll Unit := do
  let epoll ← get
  if epoll.contains fd then raise .alreadyExists "Handle already registered with epoll."
  else set (EPoll.mk (epoll.callbacks ++ [(fd, callback, oneShot)]))

def remove (fd : Handle) : Call Fault EPoll Unit := do
  let epoll ← get
  if !epoll.contains fd then raise .failedPrecondition "Handle not registered with epoll."
  else set (EPoll.mk (epoll.callbacks.filter fun entry => entry.1 ≠ fd))

end EPoll

/-! ### The eventfd -/

def eventfdFault : Fault :=
  .thrown ⟨.aborted, "System error 11: Resource temporarily unavailable"⟩

def clearEventfd (counter : Nat) : Result Nat :=
  if counter = 0 then .error eventfdFault else .ok 0

def pingEventfd (counter : Nat) : Result Nat :=
  if 2 ^ 64 - 2 < counter + 1 then .error eventfdFault else .ok (counter + 1)

/-! ### The scheduler -/

/-- `counter` is the eventfd's, which the notification handle is for. The handle is zero before it
is made. -/
structure Scheduler where
  epoll : EPoll
  coroQueue : CircularQueue Coro
  queueNotificationFd : Handle
  counter : Nat
deriving DecidableEq, Repr

namespace Scheduler

/-- The queue reserves its slots, of eight bytes each. -/
def make (capacity : Nat) : Result Scheduler :=
  if 2 ^ 60 ≤ capacity then .error (.standard .lengthError)
  else .ok ⟨⟨[]⟩, .make capacity, 0, 0⟩

def onEpoll (call : Call Fault EPoll Unit) : Call Fault Scheduler Unit :=
  call.within epoll fun epoll scheduler => { scheduler with epoll }

/-- The wakeup is scheduled already. -/
def ignoreAlreadyExists : Fault → Call Fault Scheduler Unit
  | .thrown ⟨.alreadyExists, _⟩ => pure ()
  | fault => throw fault

variable (eventfd : Handle)

/-- `eventfd` is the handle that `create_eventfd` gets. -/
def scheduleQueueDrain : Call Fault Scheduler Unit := do
  modify fun scheduler =>
    if scheduler.queueNotificationFd = 0 then { scheduler with queueNotificationFd := eventfd }
    else scheduler
  let scheduler ← get
  tryCatch (onEpoll (EPoll.add scheduler.queueNotificationFd true .drainQueue)) ignoreAlreadyExists
  let scheduler ← get
  match pingEventfd scheduler.counter with
  | .ok counter => set { scheduler with counter }
  | .error fault => throw fault

def addToQueue (coro : Coro) : Call Fault Scheduler Unit := do
  let scheduler ← get
  match scheduler.coroQueue.pushBack coro with
  | .ok coroQueue => set { scheduler with coroQueue }
  | .error fault => throw fault
  scheduleQueueDrain eventfd

/-- What comes before the loop of the drain: `EPoll::_wait` takes the callback out and calls it. The
result is the number of coroutines that the loop resumes. -/
def beginDrain : Call Fault Scheduler Nat := do
  let scheduler ← get
  onEpoll (EPoll.remove scheduler.queueNotificationFd)
  let scheduler ← get
  match clearEventfd scheduler.counter with
  | .ok counter =>
      set { scheduler with counter }
      pure scheduler.coroQueue.size
  | .error fault => throw fault

/-- One round of the loop up to where it resumes a coroutine. -/
def popCoro : Call Fault Scheduler Coro := do
  let scheduler ← get
  match scheduler.coroQueue.popFront with
  | .ok (coro, coroQueue) =>
      set { scheduler with coroQueue }
      pure coro
  | .error fault => throw fault

end Scheduler

/-! ### The event loop -/

/-- Whether a drain is going on, and how many rounds it has left. -/
inductive Phase where
  | idle
  | draining (left : Nat)
deriving DecidableEq, Repr

/-- A scheduler, what it is at, and the coroutines that were scheduled and resumed so far. -/
structure EventLoop where
  scheduler : Scheduler
  phase : Phase
  scheduled : List Coro
  resumed : List Coro
deriving DecidableEq, Repr

def Phase.left : Phase → Nat
  | idle => 0
  | draining left => left

namespace EventLoop

/-- A coroutine is scheduled, from outside or by the coroutine that was resumed last; a callback for
another handle is registered, removed or called; or the drain goes on. -/
inductive Action where
  | schedule (coro : Coro)
  | register (fd : Handle) (coro : Coro) (oneShot : Bool)
  | unregister (fd : Handle)
  | fire (fd : Handle)
  | beginDrain
  | resume
  | endDrain
deriving DecidableEq, Repr

def onScheduler (loop : EventLoop) (call : Call Fault Scheduler Unit) : EventLoop :=
  { loop with scheduler := (call.exec loop.scheduler).2 }

variable (eventfd : Handle)

/-- A coroutine is only scheduled where the queue has room for it. Epoll reports the eventfd while
its counter is positive and it is registered, and reports no handle that is not. -/
inductive Step : EventLoop → Action → EventLoop → Prop where
  | schedule {loop : EventLoop} (hroom : loop.scheduler.coroQueue.full = false) (coro : Coro) :
      Step loop (.schedule coro)
        { loop.onScheduler (Scheduler.addToQueue eventfd coro) with
          scheduled := loop.scheduled ++ [coro] }
  | register {loop : EventLoop} {fd : Handle} (hfd : fd ≠ eventfd) (coro : Coro)
      (oneShot : Bool) :
      Step loop (.register fd coro oneShot)
        (loop.onScheduler (Scheduler.onEpoll (EPoll.add fd oneShot (.resume coro))))
  | unregister {loop : EventLoop} {fd : Handle} (hfd : fd ≠ eventfd) :
      Step loop (.unregister fd) (loop.onScheduler (Scheduler.onEpoll (EPoll.remove fd)))
  | fireOnce {loop : EventLoop} {fd : Handle} {coro : Coro} (hidle : loop.phase = .idle)
      (hfd : (fd, .resume coro, true) ∈ loop.scheduler.epoll.callbacks) :
      Step loop (.fire fd) (loop.onScheduler (Scheduler.onEpoll (EPoll.remove fd)))
  | fire {loop : EventLoop} {fd : Handle} {coro : Coro} (hidle : loop.phase = .idle)
      (hfd : (fd, .resume coro, false) ∈ loop.scheduler.epoll.callbacks) :
      Step loop (.fire fd) loop
  | beginDrain {loop : EventLoop} {left : Nat} {scheduler : Scheduler}
      (hidle : loop.phase = .idle) (hcounter : 0 < loop.scheduler.counter)
      (hregistered :
        (loop.scheduler.queueNotificationFd, .drainQueue, true) ∈ loop.scheduler.epoll.callbacks)
      (hbegin : Scheduler.beginDrain.exec loop.scheduler = (.ok left, scheduler)) :
      Step loop .beginDrain { loop with scheduler, phase := .draining left }
  | resume {loop : EventLoop} {left : Nat} {coro : Coro} {scheduler : Scheduler}
      (hphase : loop.phase = .draining (left + 1))
      (hempty : loop.scheduler.coroQueue.empty = false)
      (hpop : Scheduler.popCoro.exec loop.scheduler = (.ok coro, scheduler)) :
      Step loop .resume
        { loop with scheduler, phase := .draining left, resumed := loop.resumed ++ [coro] }
  | endDrain {loop : EventLoop} {left : Nat} (hphase : loop.phase = .draining left)
      (hdone : left = 0 ∨ loop.scheduler.coroQueue.empty = true) :
      Step loop .endDrain { loop with phase := .idle }

/-- The loop of `run` goes on, where nothing stops it. -/
def goesOn (loop : EventLoop) : Bool := loop.scheduler.epoll.hasPendingItems

end EventLoop

end Liblw.Co
