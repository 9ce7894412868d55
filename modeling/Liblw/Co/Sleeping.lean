import Mathlib.Data.Finset.Card
import Liblw.Co.Polling

/-!
# Sleeping

A coroutine that awaits `sleep_for` or `sleep_until` makes a timer of the kernel, has EPoll resume
it once the timer is readable, and closes the timer when it goes on. Meanwhile other coroutines
sleep, other code opens, registers and closes descriptors of its own, and time passes.
-/

namespace Liblw.Co

open Liblw.Lib

/-! ### Timers -/

structure Timespec where
  tvSec : Int
  tvNsec : Int
deriving DecidableEq, Repr

/-- The count of `std::chrono::nanoseconds` is an `std::int64_t`. -/
def FitsNanoseconds (duration : Int) : Prop := -2 ^ 63 ≤ duration ∧ duration < 2 ^ 63

instance (duration : Int) : Decidable (FitsNanoseconds duration) :=
  inferInstanceAs (Decidable (_ ∧ _))

/-- What `create_timerfd` makes of a number of nanoseconds. `duration_cast` drops the fraction. -/
def itValue (duration : Int) : Timespec :=
  let seconds := duration.tdiv 1000000000
  ⟨seconds, duration - seconds * 1000000000⟩

def EINVAL : Nat := 22

/-- `::timerfd_settime` with a relative value: when the timer expires, or none if that disarms it.
The kernel refuses what is negative or no fraction of a second. -/
def timerfdSettime (now : Nat) (value : Timespec) : Except Nat (Option Nat) :=
  if value.tvSec < 0 ∨ value.tvNsec < 0 ∨ 1000000000 ≤ value.tvNsec then .error EINVAL
  else if value.tvSec = 0 ∧ value.tvNsec = 0 then .ok none
  else .ok (some (now + (value.tvSec * 1000000000 + value.tvNsec).toNat))

/-! ### Coroutines that sleep -/

/-- An await of a `SuspendFor` at the time `since`, told by the number of those before it. The
duration is in nanoseconds. -/
structure Sleep where
  number : Nat
  fd : Handle
  since : Nat
  duration : Int
deriving DecidableEq, Repr

/-- When the timer expires. -/
def Sleep.due (sleep : Sleep) : Option Nat :=
  if sleep.duration = 0 then none else some (sleep.since + sleep.duration.toNat)

/-- The time, the descriptors that are open and when those that are timers expire, which of them
belong to other code, the sleeps that are on, those that are over with the time of that, and how
many timers were left behind by awaits that have thrown. -/
structure Sleeping where
  poller : Poller
  now : Nat
  opened : Finset Handle
  timers : Handle → Option Nat
  elsewhere : Finset Handle
  begun : Nat
  asleep : List Sleep
  woken : List (Sleep × Nat)
  failed : Nat

namespace Sleeping

section Calls

variable (systemError : Nat → Option Error)

def onPoll {α : Type} (call : Call Fault Poll α) : Call Fault Sleeping α :=
  call.within (fun state => state.poller.poll) fun poll state =>
    { state with poller := { state.poller with poll } }

/-- The conversion of a duration with a signed count, in whatever unit, to nanoseconds. -/
def toNanoseconds (duration : Int) : Call Fault Sleeping Int :=
  if FitsNanoseconds duration then pure duration else throw (.undefined .signedOverflow)

/-- `created` is the descriptor that `::timerfd_create` gives, if any, and `errno` what it leaves
there. A descriptor that is zero is taken for an error. -/
def createTimerfd (duration : Int) (created : Option Handle) (errno : Nat) :
    Call Fault Sleeping Handle :=
  match created with
  | none =>
      throw (Poll.systemFault systemError errno "Unknown system error while creating timer.")
  | some timer => do
      modify fun state => { state with opened := insert timer state.opened }
      if timer = 0 then
        throw (Poll.systemFault systemError errno "Unknown system error while creating timer.")
      else do
        let state ← get
        match timerfdSettime state.now (itValue duration) with
        | .error errno =>
            throw (Poll.systemFault systemError errno
              "Unknown system error setting expiration of timer.")
        | .ok expiry => do
            modify fun state =>
              { state with timers := Function.update state.timers timer expiry }
            pure timer

/-- `SuspendFor::await_suspend`. `held` is what `_timer` is: zero, or the timer that was made when
the same object was awaited before. -/
def awaitSuspend (held : Handle) (duration : Int) (created : Option Handle) (errno : Nat)
    (answer : Option Nat) : Call Fault Sleeping Unit := do
  let timer ←
    if held = 0 then do
      let nanoseconds ← toNanoseconds duration
      createTimerfd systemError nanoseconds created errno
    else pure held
  onPoll (Poll.add systemError timer (Event.readable ||| Event.oneShot) answer)
  modify fun state =>
    { state with
      begun := state.begun + 1
      asleep := state.asleep ++ [⟨state.begun, timer, state.now, duration⟩] }

/-- What a call of it that throws has opened has no one to close it. -/
def sleep (held : Handle) (duration : Int) (created : Option Handle) (errno : Nat)
    (answer : Option Nat) (state : Sleeping) : Sleeping :=
  match (awaitSuspend systemError held duration created errno answer).exec state with
  | (.ok _, next) => next
  | (.error _, next) =>
      { next with failed := next.failed + (next.opened.card - state.opened.card) }

end Calls

/-- `SuspendFor::await_resume`. -/
def awaitResume (sleep : Sleep) (state : Sleeping) : Sleeping :=
  { state with
    poller := { state.poller with poll := state.poller.poll.close sleep.fd }
    opened := state.opened.erase sleep.fd
    timers := Function.update state.timers sleep.fd none
    asleep := state.asleep.erase sleep
    woken := state.woken ++ [(sleep, state.now)] }

/-- EPoll calls the callback of an entry that it has found. -/
def calls (entry : Registration) (poll : Poll) (events : List Handle) (waits : List Wait)
    (state : Sleeping) : Sleeping :=
  { state with
    poller :=
      { state.poller with
        poll
        waits := ⟨events, true⟩ :: waits
        called := state.poller.called ++ [entry.number]
        fired :=
          if entry.oneShot then state.poller.fired ++ [entry] else state.poller.fired } }

/-! ### What happens -/

inductive Action where
  | sleep (held : Handle) (duration : Int) (created : Option Handle) (errno : Nat)
      (answer : Option Nat)
  | wake (errno : Nat)
  | tick (elapsed : Nat)
  | openElsewhere (fd : Handle)
  | closeElsewhere (fd : Handle)
  | poll (action : Poller.Action)
deriving DecidableEq, Repr

/-- What EPoll does apart from waking a sleep, and other code with it. That registers and removes
descriptors of its own. A timer is readable once it has expired. -/
def Permits (systemError : Nat → Option Error) (state : Sleeping) : Poller.Action → Prop
  | .add fd _ _ => fd ∈ state.elsewhere
  | .remove fd _ => fd ∈ state.elsewhere
  | .close _ => False
  | .wait events => ∀ fd ∈ events, fd ∈ state.elsewhere ∨
      ∃ due, state.timers fd = some due ∧ due ≤ state.now
  | .dispatch errno => ∀ fd events waits entry poll,
      state.poller.waits = ⟨fd :: events, false⟩ :: waits →
      (Poll.dispatch systemError fd errno).exec state.poller.poll = (.ok entry, poll) →
      ∀ sleep ∈ state.asleep, sleep.fd ≠ fd
  | .returns | .throws | .finish => True

section Step

variable (systemError : Nat → Option Error) (bufferSize : Nat)

/-- A new descriptor is one that is not open, and the kernel watches out for open ones only. Other
code closes descriptors of its own. -/
inductive Step : Sleeping → Action → Sleeping → Prop where
  | sleep {state : Sleeping} {held : Handle} {created answer : Option Nat}
      (hfree : state.poller.free = true)
      (hfresh : ∀ timer, created = some timer → timer ∉ state.opened)
      (hkernel : held ≠ 0 → answer = none →
        held ∈ state.opened ∧ state.poller.poll.watched held = false)
      (duration : Int) (errno : Nat) :
      Step state (.sleep held duration created errno answer)
        (state.sleep systemError held duration created errno answer)
  | wake {state : Sleeping} {sleep : Sleep} {events : List Handle} {waits : List Wait}
      {errno : Nat} {entry : Registration} {poll : Poll}
      (hwaits : state.poller.waits = ⟨sleep.fd :: events, false⟩ :: waits)
      (hsleep : sleep ∈ state.asleep)
      (hdispatch : (Poll.dispatch systemError sleep.fd errno).exec state.poller.poll =
        (.ok entry, poll)) :
      Step state (.wake errno) ((state.calls entry poll events waits).awaitResume sleep)
  | tick (state : Sleeping) (elapsed : Nat) :
      Step state (.tick elapsed) { state with now := state.now + elapsed }
  | openElsewhere {state : Sleeping} {fd : Handle} (hfresh : fd ∉ state.opened) :
      Step state (.openElsewhere fd)
        { state with
          opened := insert fd state.opened
          elsewhere := insert fd state.elsewhere }
  | closeElsewhere {state : Sleeping} {fd : Handle} (hfree : state.poller.free = true)
      (hfd : fd ∈ state.elsewhere) :
      Step state (.closeElsewhere fd)
        { state with
          poller := { state.poller with poll := state.poller.poll.close fd }
          opened := state.opened.erase fd
          elsewhere := state.elsewhere.erase fd }
  | poll {state : Sleeping} {action : Poller.Action} {poller : Poller}
      (hpermits : state.Permits systemError action)
      (hstep : Poller.Step systemError bufferSize state.poller action poller) :
      Step state (.poll action) { state with poller }

end Step

/-- Nothing is registered yet. What is open belongs to other code. -/
def start (opened : Finset Handle) : Sleeping :=
  ⟨.make, 0, opened, fun _ => none, opened, 0, [], [], 0⟩

/-- No object is awaited again that has made its timer, durations can be counted in nanoseconds, and
what other code does takes care of the batches. It removes no descriptor for which an event waits,
closes none that EPoll has the kernel watch, and throws out of no callback while events are left in
its batch whose handles are watched for one event only. -/
def Careful (state : Sleeping) : Action → Prop
  | .sleep held duration _ _ _ => held = 0 ∧ FitsNanoseconds duration
  | .closeElsewhere fd => state.poller.Careful (.close fd)
  | .poll action => state.poller.Careful action
  | .wake _ | .tick _ | .openElsewhere _ => True

def CarefulStep (systemError : Nat → Option Error) (bufferSize : Nat) (state : Sleeping)
    (action : Action) (next : Sleeping) : Prop :=
  state.Careful action ∧ Step systemError bufferSize state action next

/-! ### What sleeping is for -/

def sleeps (state : Sleeping) : List Sleep := state.asleep ++ state.woken.map Prod.fst

/-- Each sleep that has begun is on or over, and once. None is over before its time. One that is on
has its timer, and EPoll has it watched or has its event in a batch. -/
structure Sound (state : Sleeping) : Prop where
  each : (state.sleeps.map Sleep.number).Perm (List.range state.begun)
  timely : ∀ entry ∈ state.woken,
    0 < entry.1.duration ∧ entry.1.since + entry.1.duration ≤ entry.2
  served : ∀ sleep ∈ state.asleep, 0 ≤ sleep.duration ∧ state.timers sleep.fd = sleep.due ∧
    ∃ watch ∈ state.poller.poll.watches, watch.fd = sleep.fd ∧
      (watch.armed = true ∨ sleep.fd ∈ state.poller.pending)

/-- The event loop has nothing to do: no batch is on, and no timer that it watches has expired. -/
structure Quiet (state : Sleeping) : Prop where
  between : state.poller.waits = []
  unexpired : ∀ watch ∈ state.poller.poll.watches, watch.armed = true →
    ∀ due, state.timers watch.fd = some due → state.now < due

/-- The open descriptors are those of other code, one for each sleep that is on, and one for each
that has thrown after it had made its timer. -/
structure Closes (state : Sleeping) : Prop where
  elsewhere : state.elsewhere ⊆ state.opened
  asleep : ∀ sleep ∈ state.asleep, sleep.fd ∈ state.opened ∧ sleep.fd ∉ state.elsewhere
  distinct : (state.asleep.map Sleep.fd).Nodup
  count : state.opened.card = state.elsewhere.card + state.asleep.length + state.failed

end Sleeping

end Liblw.Co
