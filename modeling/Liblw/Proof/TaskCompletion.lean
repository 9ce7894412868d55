import Liblw.Co.Task
import Liblw.Proof.SchedulerQueue

/-!
# When a task has completed

Only the hook for a body that returns calls the callback. An exception that escapes from the body is
stored, and whoever awaits the task is never scheduled.
-/

namespace Liblw.Co

open Liblw.Lib Liblw.Memory

variable {X : Type}

namespace TaskRun

variable {eventfd handle : Handle} {caught : Fault → X} {run next before after final : TaskRun X}
  {callback : TaskCallback} {coro : Coro} {leg : Leg X} {items : List Coro}
  {action : Action X} {actions earlier later : List (Action X)}

/-- What the loop and the promise are does not change what was called. -/
def Keeps (run next : TaskRun X) : Prop :=
  next.done = run.done ∧ next.invoked = run.invoked ∧ next.woken = run.woken

/-! ### The calls -/

theorem exec_onScheduler_eq {call : Call Fault Scheduler Unit} {result : Result Unit}
    {scheduler : Scheduler} (hexec : call.exec run.loop.scheduler = (result, scheduler)) :
    (onScheduler call).exec run =
      (result, { run with loop := { run.loop with scheduler } }) := by
  unfold onScheduler
  rw [Call.exec_within, hexec]

/-- The coroutine is put into the queue. -/
theorem exec_schedule (hfd : eventfd ≠ 0) (hinv : EventLoop.Invariant eventfd run.loop items)
    (hroom : run.loop.scheduler.coroQueue.full = false) (coro : Coro) :
    ∃ loop, (schedule eventfd coro).exec run = (.ok (), { run with loop }) ∧
      EventLoop.Invariant eventfd loop (items ++ [coro]) := by
  obtain ⟨queue, -, -, hadd⟩ := hinv.exec_schedule hfd hroom coro
  have hloop := hinv.schedule hfd hroom coro
  refine ⟨_, ?_, hloop⟩
  unfold schedule EventLoop.onScheduler
  rw [Call.exec_bind_ok (exec_onScheduler_eq hadd), hadd]
  rfl

theorem exec_schedule_full (hfull : run.loop.scheduler.coroQueue.full = true) (coro : Coro) :
    (schedule eventfd coro).exec run =
      (.error (CircularQueue.refusal run.loop.scheduler.coroQueue.capacity), run) := by
  have hadd := Scheduler.exec_addToQueue_full eventfd hfull coro
  unfold schedule
  rw [Call.exec_bind_error (exec_onScheduler_eq hadd)]

/-- The callback of `TaskAwaitable`. -/
theorem exec_call_completion (hfd : eventfd ≠ 0)
    (hinv : EventLoop.Invariant eventfd run.loop items)
    (hroom : run.loop.scheduler.coroQueue.full = false) (coro : Coro) :
    ∃ loop, (call eventfd (.completion coro)).exec run =
        (.ok (), { run with loop, woken := run.woken ++ [coro] }) ∧
      EventLoop.Invariant eventfd loop (items ++ [coro]) := by
  obtain ⟨loop, hschedule, hloop⟩ := exec_schedule hfd hinv hroom coro
  refine ⟨loop, ?_, hloop⟩
  unfold call
  rw [Call.exec_bind_ok hschedule]
  rfl

theorem exec_call_completion_full (hfull : run.loop.scheduler.coroQueue.full = true)
    (coro : Coro) :
    ∃ error, (call eventfd (.completion coro)).exec run = (.error (.thrown error), run) := by
  unfold call
  exact ⟨_, Call.exec_bind_error (exec_schedule_full hfull coro)⟩

/-- What the call of a callback leaves: its coroutine is in the queue, or nothing is changed. -/
theorem exec_call (hfd : eventfd ≠ 0) (hinv : EventLoop.Invariant eventfd run.loop items)
    (callback : TaskCallback) :
    (∃ coro loop, callback = .completion coro ∧
      run.loop.scheduler.coroQueue.full = false ∧
      (call eventfd callback).exec run = (.ok (), { run with loop, woken := run.woken ++ [coro] }) ∧
      EventLoop.Invariant eventfd loop (items ++ [coro])) ∨
    (∀ coro, callback = .completion coro → run.loop.scheduler.coroQueue.full = true) ∧
      ((call eventfd callback).exec run = (.ok (), run) ∨
        ∃ error, (call eventfd callback).exec run = (.error (.thrown error), run)) := by
  cases callback with
  | function name error =>
      refine .inr ⟨nofun, ?_⟩
      cases error with
      | none => exact .inl rfl
      | some error => exact .inr ⟨error, rfl⟩
  | completion coro =>
      cases hfull : run.loop.scheduler.coroQueue.full with
      | false =>
          obtain ⟨loop, hexec, hloop⟩ := exec_call_completion hfd hinv hfull coro
          exact .inl ⟨coro, loop, rfl, rfl, hexec, hloop⟩
      | true => exact .inr ⟨fun _ _ => rfl, .inr (exec_call_completion_full hfull coro)⟩

/-! ### The end of the body -/

/-- The callback was called. The coroutine that awaits the task is in the queue where there was room
for it. -/
structure Returned (eventfd : Handle) (callback : TaskCallback) (items : List Coro)
    (run next : TaskRun X) : Prop where
  done : next.done = true
  kept : next.state.callback = run.state.callback
  invoked : next.invoked = run.invoked ++ [callback]
  woken : (∃ coro, callback = .completion coro ∧ run.loop.scheduler.coroQueue.full = false ∧
      next.woken = run.woken ++ [coro] ∧
      EventLoop.Invariant eventfd next.loop (items ++ [coro])) ∨
    (∀ coro, callback = .completion coro → run.loop.scheduler.coroQueue.full = true) ∧
      next.woken = run.woken ∧ next.loop = run.loop

theorem exec_returnVoid (hcallback : run.state.callback = some callback) :
    (returnVoid eventfd).exec run = (call eventfd callback).exec { run with
      state := { run.state with finished := true }
      invoked := run.invoked ++ [callback] } := by
  unfold returnVoid
  rw [Call.exec_modify_bind, Call.exec_get_bind]
  dsimp only
  rw [hcallback]
  rfl

/-- An error of the callback is caught, and the task is done as well. -/
theorem after_returns {result : Result Unit} {next : TaskRun X}
    (hexec : (returnVoid eventfd).exec run = (result, next))
    (hresult : result = .ok () ∨ ∃ error, result = .error (.thrown error)) :
    ∃ state, run.after (resume eventfd caught .returns) = { next with state, done := true } ∧
      state.callback = next.state.callback := by
  unfold TaskRun.after resume
  obtain rfl | ⟨error, rfl⟩ := hresult
  · have hcatch : (tryCatch (returnVoid eventfd) (catching caught)).exec run = (.ok (), next) := by
      rw [Call.exec_tryCatch, hexec]
    rw [Call.exec_bind_ok hcatch]
    exact ⟨next.state, rfl, rfl⟩
  · have hcatch : (tryCatch (returnVoid eventfd) (catching caught)).exec run =
        (.ok (), { next with
          state := { next.state with error := some (caught (.thrown error)) } }) := by
      rw [Call.exec_tryCatch, hexec]
      rfl
    rw [Call.exec_bind_ok hcatch]
    exact ⟨_, rfl, rfl⟩

theorem returned (hfd : eventfd ≠ 0) (hinv : EventLoop.Invariant eventfd run.loop items)
    (hcallback : run.state.callback = some callback) :
    Returned eventfd callback items run (run.after (resume eventfd caught .returns)) := by
  have hvoid := @exec_returnVoid X eventfd run callback hcallback
  obtain ⟨coro, loop, heq, hroom, hcall, hloop⟩ | ⟨hfull, hcall⟩ := @exec_call X eventfd
    { run with
      state := { run.state with finished := true }
      invoked := run.invoked ++ [callback] } items hfd hinv callback
  · rw [hcall] at hvoid
    obtain ⟨state, hafter, hkept⟩ := @after_returns X eventfd caught run _ _ hvoid (.inl rfl)
    rw [hafter]
    exact ⟨rfl, hkept, rfl, .inl ⟨coro, heq, hroom, rfl, hloop⟩⟩
  · have hresult : ∃ result, (call eventfd callback).exec { run with
        state := { run.state with finished := true }
        invoked := run.invoked ++ [callback] } = (result, { run with
          state := { run.state with finished := true }
          invoked := run.invoked ++ [callback] }) ∧
        (result = .ok () ∨ ∃ error, result = .error (.thrown error)) := by
      obtain hok | ⟨error, herror⟩ := hcall
      · exact ⟨_, hok, .inl rfl⟩
      · exact ⟨_, herror, .inr ⟨error, rfl⟩⟩
    obtain ⟨result, hcall, hresult⟩ := hresult
    rw [hcall] at hvoid
    obtain ⟨state, hafter, hkept⟩ := @after_returns X eventfd caught run _ _ hvoid hresult
    rw [hafter]
    exact ⟨rfl, hkept, rfl, .inr ⟨hfull, rfl, rfl⟩⟩

/-- Without a callback there is nothing to call. -/
theorem after_returns_none (hcallback : run.state.callback = none) :
    ∃ state, run.after (resume eventfd caught .returns) = { run with state, done := true } ∧
      state.callback = none := by
  have hvoid : (returnVoid eventfd).exec run =
      (.ok (), { run with state := { run.state with finished := true } }) := by
    unfold returnVoid
    rw [Call.exec_modify_bind, Call.exec_get_bind]
    dsimp only
    rw [hcallback]
    rfl
  obtain ⟨state, hafter, hkept⟩ := @after_returns X eventfd caught run _ _ hvoid (.inl rfl)
  exact ⟨state, hafter, hkept.trans hcallback⟩

/-! ### Runs -/

/-- Until the task is done nothing was called. -/
structure Invariant (eventfd : Handle) (run : TaskRun X) : Prop where
  loop : ∃ items, EventLoop.Invariant eventfd run.loop items
  uncalled : run.done = false → run.invoked = [] ∧ run.woken = []

theorem Invariant.start {scheduler : Scheduler} {capacity : Nat}
    (hmake : Scheduler.make capacity = .ok scheduler) :
    Invariant eventfd (TaskRun.start scheduler : TaskRun X) where
  loop := ⟨[], EventLoop.invariant_start hmake⟩
  uncalled _ := ⟨rfl, rfl⟩

theorem Invariant.await (hfd : eventfd ≠ 0) (hinv : Invariant eventfd run) (coro : Coro) :
    (∃ items,
        EventLoop.Invariant eventfd (run.after (awaitSuspend eventfd handle coro)).loop items) ∧
      Keeps run (run.after (awaitSuspend eventfd handle coro)) ∧
      (run.after (awaitSuspend eventfd handle coro)).state.callback = some (.completion coro) := by
  obtain ⟨items, hloop⟩ := hinv.loop
  unfold TaskRun.after awaitSuspend thenCall
  rw [Call.exec_modify_bind]
  cases hfull : run.loop.scheduler.coroQueue.full with
  | false =>
      obtain ⟨loop, hexec, hnext⟩ := @exec_schedule X eventfd { run with
        state := { run.state with callback := some (.completion coro) } } items hfd hloop hfull
        handle
      rw [hexec]
      exact ⟨⟨_, hnext⟩, ⟨rfl, rfl, rfl⟩, rfl⟩
  | true =>
      have hexec := @exec_schedule_full X eventfd { run with
        state := { run.state with callback := some (.completion coro) } } hfull handle
      rw [hexec]
      exact ⟨⟨items, hloop⟩, ⟨rfl, rfl, rfl⟩, rfl⟩

theorem Step.invariant (hfd : eventfd ≠ 0) (hstep : Step eventfd caught handle run action next)
    (hinv : Invariant eventfd run) : Invariant eventfd next := by
  cases hstep with
  | thenCall callback => exact ⟨hinv.loop, hinv.uncalled⟩
  | await hready coro =>
      obtain ⟨hloop, ⟨hdone, hinvoked, hwoken⟩, -⟩ := hinv.await hfd coro
      refine ⟨hloop, ?_⟩
      rw [hdone, hinvoked, hwoken]
      exact hinv.uncalled
  | resume hdone leg =>
      obtain ⟨items, hloop⟩ := hinv.loop
      cases leg with
      | suspends => exact hinv
      | throws exception => exact ⟨⟨items, hloop⟩, nofun⟩
      | returns =>
          cases hcallback : run.state.callback with
          | none =>
              obtain ⟨state, hafter, -⟩ := @after_returns_none X eventfd caught run hcallback
              rw [hafter]
              exact ⟨⟨items, hloop⟩, nofun⟩
          | some callback =>
              have hreturned := @returned X eventfd caught run callback items hfd hloop hcallback
              refine ⟨?_, fun hnot => ?_⟩
              · obtain ⟨coro, -, -, -, hnext⟩ | ⟨-, -, hsame⟩ := hreturned.woken
                · exact ⟨_, hnext⟩
                · rw [hsame]
                  exact ⟨items, hloop⟩
              · rw [hreturned.done] at hnot
                cases hnot
  | loop hstep => exact ⟨hstep.invariant hfd hinv.loop, hinv.uncalled⟩

/-- Nothing is called any more once the task is done. -/
theorem Step.keeps (hdone : run.done = true)
    (hstep : Step eventfd caught handle run action next) : Keeps run next := by
  cases hstep with
  | thenCall callback => exact ⟨rfl, rfl, rfl⟩
  | await hready =>
      rw [hdone] at hready
      cases hready
  | resume hnot =>
      rw [hdone] at hnot
      cases hnot
  | loop hstep => exact ⟨rfl, rfl, rfl⟩

theorem keeps_of_run (hdone : run.done = true)
    (hrun : Run (Step eventfd caught handle) run actions final) : Keeps run final := by
  induction hrun with
  | nil => exact ⟨rfl, rfl, rfl⟩
  | cons hstep _ ih =>
      obtain ⟨hsame, hinvoked, hwoken⟩ := hstep.keeps hdone
      obtain ⟨hlast, hcalled, hwaked⟩ := ih (hsame.trans hdone)
      exact ⟨hlast.trans hsame, hcalled.trans hinvoked, hwaked.trans hwoken⟩

/-! ### The callback in place -/

theorem Step.callback_eq (hfd : eventfd ≠ 0) (hinv : Invariant eventfd run)
    (hstep : Step eventfd caught handle run action next) :
    next.state.callback = action.sets.or run.state.callback := by
  cases hstep with
  | thenCall callback => rfl
  | await hready coro => exact (hinv.await hfd coro).2.2
  | resume hdone leg =>
      cases leg with
      | suspends => rfl
      | throws exception => rfl
      | returns =>
          cases hcallback : run.state.callback with
          | none =>
              obtain ⟨state, hafter, hkept⟩ := @after_returns_none X eventfd caught run hcallback
              rw [hafter]
              exact hkept
          | some callback =>
              obtain ⟨items, hloop⟩ := hinv.loop
              have hreturned := @returned X eventfd caught run callback items hfd hloop hcallback
              rw [hreturned.kept, hcallback]
              rfl
  | loop hstep => rfl

/-- What is in place is what was set last. -/
theorem callback_of_run (hfd : eventfd ≠ 0) (hinv : Invariant eventfd run)
    (hrun : Run (Step eventfd caught handle) run actions final) :
    final.state.callback = (settings actions).getLast?.or run.state.callback := by
  induction hrun with
  | nil => rfl
  | @cons run middle final action actions hstep _ ih =>
      rw [ih (hstep.invariant hfd hinv), hstep.callback_eq hfd hinv]
      cases hsets : action.sets with
      | none => rw [settings, settings, List.filterMap_cons_none hsets, Option.none_or]
      | some callback =>
          rw [settings, settings, List.filterMap_cons_some hsets, List.getLast?_cons]
          cases (actions.filterMap Action.sets).getLast? <;> rfl

/-- **Completion.** In every run in which the body of a task ends, a callback that was set before is
called exactly once if the body returned and no other has replaced it, and never otherwise. A
coroutine that awaits the completion is put into the queue exactly once if, moreover, there was room
for it, and never otherwise. -/
theorem completes_iff {scheduler : Scheduler} {capacity : Nat} (hfd : eventfd ≠ 0)
    (hmake : Scheduler.make capacity = .ok scheduler)
    (hearlier : Run (Step eventfd caught handle) (start scheduler) earlier before)
    (hend : Step eventfd caught handle before (.resume leg) after) (hdone : after.done = true)
    (hlater : Run (Step eventfd caught handle) after later final) :
    (before.invoked = [] ∧ before.woken = []) ∧
      (∀ callback ∈ settings earlier,
        (final.invoked = [callback] ↔
            leg = .returns ∧ (settings earlier).getLast? = some callback) ∧
          (callback ∈ final.invoked → final.invoked = [callback])) ∧
      ∀ coro, .await coro ∈ earlier →
        ((final.woken = [coro] ∧ ∃ items, before.loop.scheduler.coroQueue.Holds items ∧
            after.loop.scheduler.coroQueue.Holds (items ++ [coro])) ↔
          leg = .returns ∧ (settings earlier).getLast? = some (.completion coro) ∧
            before.loop.scheduler.coroQueue.full = false) ∧
          (coro ∈ final.woken → final.woken = [coro]) := by
  have hinv : Invariant eventfd before :=
    hearlier.preserves (Invariant eventfd) (fun _ hstep hinv => hstep.invariant hfd hinv)
      (fun _ _ => trivial) (.start hmake)
  have hset : before.state.callback = (settings earlier).getLast? := by
    rw [callback_of_run hfd (.start hmake) hearlier]
    exact Option.or_none
  obtain ⟨-, hinvoked, hwoken⟩ := keeps_of_run hdone hlater
  obtain ⟨items, hloop⟩ := hinv.loop
  rw [hinvoked, hwoken, ← hset]
  cases hend with
  | resume hnot =>
      obtain ⟨hnone, hasleep⟩ := hinv.uncalled hnot
      refine ⟨⟨hnone, hasleep⟩, ?_⟩
      cases leg with
      | suspends =>
          rw [show before.after (resume eventfd caught .suspends) = before from rfl, hnot] at hdone
          cases hdone
      | throws exception =>
          have hsame : (before.after (resume eventfd caught (.throws exception))).invoked = [] :=
            hnone
          have hnobody : (before.after (resume eventfd caught (.throws exception))).woken = [] :=
            hasleep
          rw [hsame, hnobody]
          refine ⟨fun callback _ => ⟨iff_of_false nofun nofun, nofun⟩, fun coro _ => ⟨?_, nofun⟩⟩
          exact iff_of_false (fun hwaked => nomatch hwaked.1) fun hreturns => nomatch hreturns.1
      | returns =>
          cases hcallback : before.state.callback with
          | none =>
              have hnothing : settings earlier = [] :=
                List.getLast?_eq_none_iff.mp (hset.symm.trans hcallback)
              refine ⟨fun callback hmem => ?_, fun coro hmem => ?_⟩
              · rw [hnothing] at hmem
                cases hmem
              · have hmem' : .completion coro ∈ settings earlier :=
                  List.mem_filterMap.mpr ⟨_, hmem, rfl⟩
                rw [hnothing] at hmem'
                cases hmem'
          | some present =>
              have hreturned := @returned X eventfd caught before present items hfd hloop hcallback
              have hcalled : (before.after (resume eventfd caught .returns)).invoked =
                  [present] := by
                rw [hreturned.invoked, hnone]
                rfl
              rw [hcalled]
              refine ⟨fun callback _ => ?_, fun coro _ => ?_⟩
              · rw [List.cons_eq_cons, Option.some.injEq, List.mem_singleton, eq_comm]
                simp [eq_comm]
              · obtain ⟨coro', rfl, hroom, hwaked, hnext⟩ | ⟨hfull, hwaked, -⟩ := hreturned.woken
                · rw [hwaked, hasleep]
                  refine ⟨⟨?_, ?_⟩, fun hmem => by rw [List.mem_singleton.mp hmem]; rfl⟩
                  · rintro ⟨hwoken, -⟩
                    cases hwoken
                    exact ⟨rfl, rfl, hroom⟩
                  · rintro ⟨-, hlast, -⟩
                    cases hlast
                    exact ⟨rfl, items, hloop.holds, hnext.holds⟩
                · rw [hwaked, hasleep]
                  refine ⟨iff_of_false (fun hwaked => nomatch hwaked.1) ?_, nofun⟩
                  rintro ⟨-, hlast, hroom⟩
                  rw [hfull coro (Option.some.inj hlast)] at hroom
                  cases hroom

/-- A function is set for a task in a loop of two slots, and replaced when a coroutine awaits it. -/
def awaited : TaskRun Unit :=
  ((start EventLoop.forTwo).after (thenCall (.function 7 none))).after (awaitSuspend 5 9 1)

theorem completes_awaited :
    (awaited.invoked = [] ∧ awaited.woken = []) ∧
      (∀ callback ∈ settings [.thenCall (.function 7 none), (.await 1 : Action Unit)],
        ((awaited.after (resume 5 (fun _ => ()) .returns)).invoked = [callback] ↔
            (Leg.returns : Leg Unit) = .returns ∧
              (settings [.thenCall (.function 7 none), (.await 1 : Action Unit)]).getLast? =
                some callback) ∧
          (callback ∈ (awaited.after (resume 5 (fun _ => ()) .returns)).invoked →
            (awaited.after (resume 5 (fun _ => ()) .returns)).invoked = [callback])) ∧
      ∀ coro, (.await coro : Action Unit) ∈ [.thenCall (.function 7 none), .await 1] →
        (((awaited.after (resume 5 (fun _ => ()) .returns)).woken = [coro] ∧
            ∃ items, awaited.loop.scheduler.coroQueue.Holds items ∧
              (awaited.after (resume 5 (fun _ => ()) .returns)).loop.scheduler.coroQueue.Holds
                (items ++ [coro])) ↔
          (Leg.returns : Leg Unit) = .returns ∧
            (settings [.thenCall (.function 7 none), (.await 1 : Action Unit)]).getLast? =
              some (.completion coro) ∧
            awaited.loop.scheduler.coroQueue.full = false) ∧
          (coro ∈ (awaited.after (resume 5 (fun _ => ()) .returns)).woken →
            (awaited.after (resume 5 (fun _ => ()) .returns)).woken = [coro]) :=
  completes_iff (by decide) (show Scheduler.make 2 = .ok EventLoop.forTwo from if_neg (by decide))
    (.cons (.thenCall (.function 7 none)) (.cons (.await rfl 1) (.nil awaited)))
    (.resume rfl .returns) (show (awaited.after (resume 5 (fun _ => ()) .returns)).done = true by
      decide) (.nil _)

/-- An exception escapes from the body: the task is done, and the coroutine is not scheduled. -/
theorem not_completed :
    ∃ actions final, Run (Step 5 (fun _ => ()) 9) (start EventLoop.forTwo) actions final ∧
      final.done = true ∧ final.state.error = some () ∧
      final.state.callback = some (.completion 1) ∧ final.invoked = [] ∧ final.woken = [] :=
  ⟨_, _, .cons (.await rfl 1) (.cons (.resume rfl (.throws ())) (.nil _)), rfl, rfl, rfl, rfl, rfl⟩

end TaskRun

end Liblw.Co
