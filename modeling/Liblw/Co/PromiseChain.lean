import Liblw.Co.Future

/-!
# A chain of promises

Each promise of the chain but the innermost is resolved by returning the future of the next. The
coroutines that do so end in any order, and the innermost promise may be resolved and the outermost
future awaited at any point between. Other coroutines go through the scheduler's queue meanwhile.
-/

namespace Liblw.Co

open Liblw.Lib

variable {X T : Type}

/-- Where the coroutine is that awaits the outermost future. When it has finished, it was woken if
it had been suspended. -/
inductive Awaiter (X T : Type) where
  | absent
  | suspended (coro : Coro)
  | finished (woken : Option Coro) (result : Result (Except X T))

/-- The coroutine, if the await suspended it. -/
def Awaiter.suspendedCoro : Awaiter X T → Option Coro
  | absent => none
  | suspended coro => some coro
  | finished woken _ => woken

def Awaiter.ofAwait (coro : Coro) : Result (Option (Except X T)) → Awaiter X T
  | .ok none => suspended coro
  | .ok (some outcome) => finished none (.ok outcome)
  | .error fault => finished none (.error fault)

/-- The promises are those of the places in the store, the outermost first. `linked` has the
promises that were linked to the next, and `resolved` is what the innermost was resolved with. -/
structure PromiseChain (X T : Type) where
  store : Store X T
  linked : List Nat
  resolved : Option (Except X T)
  awaiter : Awaiter X T

namespace PromiseChain

def start (innermost : Nat) (room : Option Room) : PromiseChain X T where
  store := ⟨List.replicate (innermost + 1) .make, [], room⟩
  linked := []
  resolved := none
  awaiter := .absent

/-- Every promise from the one to the other, which is left out, is linked to its next. -/
def Joined (linked : List Nat) (first last : Nat) : Prop :=
  ∀ promise, first ≤ promise → promise < last → promise ∈ linked

/-- What the innermost promise was resolved with has come as far as the promise. -/
def Reached (innermost : Nat) (linked : List Nat) (resolved : Option (Except X T))
    (promise : Nat) : Prop :=
  resolved.isSome ∧ Joined linked promise innermost

inductive Action (X T : Type) where
  | link (promise : Nat)
  | resolve (outcome : Except X T)
  | setAgain (promise : Nat) (outcome : Except X T)
  | await (coro : Coro)
  | resume
  | others (free : Nat)

/-- No awaiter has to go into a full queue for the action. A link to a future that is not set
schedules nothing. -/
def Action.Fits (innermost : Nat) (chain : PromiseChain X T) : Action X T → Prop
  | .link promise => ∀ state, chain.store.states[promise + 1]? = some state →
      state.stateSet = true → chain.store.Fits promise
  | .resolve _ => chain.store.Fits innermost
  | _ => True

/-- A step is taken whether or not the call of it throws. -/
inductive Step (innermost : Nat) : PromiseChain X T → Action X T → PromiseChain X T → Prop where
  | link {chain : PromiseChain X T} {promise : Nat} {result : Result Unit} {store : Store X T}
      (hpromise : promise < innermost) (hfresh : promise ∉ chain.linked)
      (hlink : (Promise.returnFuture promise (promise + 1)).exec chain.store = (result, store)) :
      Step innermost chain (.link promise)
        { chain with store, linked := promise :: chain.linked }
  | resolve {chain : PromiseChain X T} {outcome : Except X T} {result : Result Unit}
      {store : Store X T} (hfresh : chain.resolved = none)
      (hset : (Promise.setOutcome innermost outcome).exec chain.store = (result, store)) :
      Step innermost chain (.resolve outcome) { chain with store, resolved := some outcome }
  | setAgain {chain : PromiseChain X T} {promise : Nat} {outcome : Except X T}
      {result : Result Unit} {store : Store X T} (hpromise : promise ≤ innermost)
      (hreached : Reached innermost chain.linked chain.resolved promise)
      (hset : (Promise.setOutcome promise outcome).exec chain.store = (result, store)) :
      Step innermost chain (.setAgain promise outcome) { chain with store }
  | await {chain : PromiseChain X T} {coro : Coro} {result : Result (Option (Except X T))}
      {store : Store X T} (habsent : chain.awaiter = .absent)
      (hawait : (Future.await 0 coro).exec chain.store = (result, store)) :
      Step innermost chain (.await coro) { chain with store, awaiter := .ofAwait coro result }
  | resume {chain : PromiseChain X T} {coro : Coro} {result : Result (Except X T)}
      {store : Store X T} (hsuspended : chain.awaiter = .suspended coro)
      (hscheduled : coro ∈ chain.store.scheduled)
      (hresume : (Future.awaitResume 0).exec chain.store.popped = (result, store)) :
      Step innermost chain .resume { chain with store, awaiter := .finished (some coro) result }
  | others {chain : PromiseChain X T} {room : Room} (hroom : chain.store.room = some room)
      (free : Nat) (hfree : free ≤ room.capacity) :
      Step innermost chain (.others free)
        { chain with store := { chain.store with room := some { room with free } } }

end PromiseChain

end Liblw.Co
