import Liblw.Co.Scheduler

/-!
# Tasks

A task is a coroutine that is suspended at its start and at its end, with a callback for when it
returns. What its body does is up to it: whenever it is resumed it runs to a suspension, it returns,
or an exception escapes from it. A coroutine that awaits the completion of a task sets a callback
that schedules it.
-/

namespace Liblw.Co

open Liblw.Lib

variable {X : Type}

/-- A function that a task can call: the one of `TaskAwaitable`, or another one, which returns or
throws an error. What another one does to the event loop are steps of the loop. -/
inductive TaskCallback where
  | completion (coro : Coro)
  | function (name : Nat) (error : Option Error)

/-- `TaskPromise::State`. -/
structure TaskState (X : Type) where
  error : Option X
  callback : Option TaskCallback
  finished : Bool

/-- A task in an event loop. `done` says that it is at its final suspension. On record are the
callbacks it has called, and the coroutines that were put into the queue by that. -/
structure TaskRun (X : Type) where
  state : TaskState X
  done : Bool
  loop : EventLoop
  invoked : List TaskCallback
  woken : List Coro

/-- What the body does after it is resumed. -/
inductive Leg (X : Type) where
  | suspends
  | returns
  | throws (exception : X)

namespace TaskRun

def start (scheduler : Scheduler) : TaskRun X where
  state := ⟨none, none, false⟩
  done := false
  loop := ⟨scheduler, .idle, [], []⟩
  invoked := []
  woken := []

def onScheduler (call : Call Fault Scheduler Unit) : Call Fault (TaskRun X) Unit :=
  call.within (fun run => run.loop.scheduler) fun scheduler run =>
    { run with loop := { run.loop with scheduler } }

variable (eventfd : Handle)

/-- `Scheduler::schedule`. -/
def schedule (coro : Coro) : Call Fault (TaskRun X) Unit := do
  onScheduler (Scheduler.addToQueue eventfd coro)
  modify fun run => { run with loop := { run.loop with scheduled := run.loop.scheduled ++ [coro] } }

def call : TaskCallback → Call Fault (TaskRun X) Unit
  | .completion coro => do
      schedule eventfd coro
      modify fun run => { run with woken := run.woken ++ [coro] }
  | .function _ none => pure ()
  | .function _ (some error) => throw (.thrown error)

/-! ### The promise -/

def unhandledException (exception : X) : Call Fault (TaskRun X) Unit :=
  modify fun run => { run with state := { run.state with error := some exception } }

def returnVoid : Call Fault (TaskRun X) Unit := do
  modify fun run => { run with state := { run.state with finished := true } }
  let run ← get
  match run.state.callback with
  | some callback => do
      modify fun run => { run with invoked := run.invoked ++ [callback] }
      call eventfd callback
  | none => pure ()

/-- What the hooks throw within the body. `caught` is the exception that is thrown for a fault. What
has no meaning is not caught. -/
def catching (caught : Fault → X) : Fault → Call Fault (TaskRun X) Unit
  | .thrown error => unhandledException (caught (.thrown error))
  | .standard exception => unhandledException (caught (.standard exception))
  | fault => throw fault

/-! ### The task -/

/-- The coroutine is resumed, and its body does so much. -/
def resume (caught : Fault → X) : Leg X → Call Fault (TaskRun X) Unit
  | .suspends => pure ()
  | .returns => do
      tryCatch (returnVoid eventfd) (catching caught)
      modify fun run => { run with done := true }
  | .throws exception => do
      unhandledException exception
      modify fun run => { run with done := true }

/-- `Task::then`. -/
def thenCall (callback : TaskCallback) : Call Fault (TaskRun X) Unit :=
  modify fun run => { run with state := { run.state with callback := some callback } }

/-- `TaskAwaitable::await_suspend`, for the coroutine that awaits the task with the handle. -/
def awaitSuspend (handle coro : Coro) : Call Fault (TaskRun X) Unit := do
  thenCall (.completion coro)
  schedule eventfd handle

/-! ### Runs -/

inductive Action (X : Type) where
  | thenCall (callback : TaskCallback)
  | await (coro : Coro)
  | resume (leg : Leg X)
  | loop (action : EventLoop.Action)

/-- The callback that the action sets. -/
def Action.sets : Action X → Option TaskCallback
  | .thenCall callback => some callback
  | .await coro => some (.completion coro)
  | _ => none

/-- The callbacks that are set, in order. Each replaces the one before it. -/
def settings (actions : List (Action X)) : List TaskCallback := actions.filterMap Action.sets

def after {α : Type} (run : TaskRun X) (call : Call Fault (TaskRun X) α) : TaskRun X :=
  (call.exec run).2

/-- The task may be resumed until it is done, which is also when it is not awaited any more. -/
inductive Step (eventfd : Handle) (caught : Fault → X) (handle : Coro) :
    TaskRun X → Action X → TaskRun X → Prop where
  | thenCall {run : TaskRun X} (callback : TaskCallback) :
      Step eventfd caught handle run (.thenCall callback) (run.after (thenCall callback))
  | await {run : TaskRun X} (hready : run.done = false) (coro : Coro) :
      Step eventfd caught handle run (.await coro) (run.after (awaitSuspend eventfd handle coro))
  | resume {run : TaskRun X} (hdone : run.done = false) (leg : Leg X) :
      Step eventfd caught handle run (.resume leg) (run.after (resume eventfd caught leg))
  | loop {run : TaskRun X} {action : EventLoop.Action} {loop : EventLoop}
      (hstep : EventLoop.Step eventfd run.loop action loop) :
      Step eventfd caught handle run (.loop action) { run with loop }

end TaskRun

end Liblw.Co
