import Liblw.Co.Scheduler

/-!
# No wakeup is lost

The eventfd counts the coroutines that were scheduled since the last drain began, and the callback
is registered while there are any. With that the queue, the callbacks and the counter stay in step
over every run.
-/

namespace Liblw.Co

open Liblw.Lib Liblw.Memory

/-! ### The calls -/

namespace EPoll

variable {epoll : EPoll} {fd other : Handle} {oneShot : Bool} {callback : Callback}

theorem contains_iff : epoll.contains fd = true ↔ ∃ entry ∈ epoll.callbacks, entry.1 = fd := by
  unfold contains
  rw [List.any_eq_true]
  simp only [decide_eq_true_eq]

theorem exec_add (hfree : epoll.contains fd = false) :
    (add fd oneShot callback).exec epoll =
      (.ok (), ⟨epoll.callbacks ++ [(fd, callback, oneShot)]⟩) := by
  unfold add
  rw [Call.exec_get_bind, hfree]
  rfl

theorem exec_add_exists (htaken : epoll.contains fd = true) :
    (add fd oneShot callback).exec epoll =
      (.error (.thrown ⟨.alreadyExists, "Handle already registered with epoll."⟩), epoll) := by
  unfold add
  rw [Call.exec_get_bind, htaken]
  rfl

theorem exec_remove (htaken : epoll.contains fd = true) :
    (remove fd).exec epoll = (.ok (), ⟨epoll.callbacks.filter fun entry => entry.1 ≠ fd⟩) := by
  unfold remove
  rw [Call.exec_get_bind, htaken]
  rfl

theorem exec_remove_missing (hfree : epoll.contains fd = false) :
    ((remove fd).exec epoll).2 = epoll := by
  unfold remove
  rw [Call.exec_get_bind, hfree]
  rfl

end EPoll

namespace Scheduler

variable {eventfd : Handle} {scheduler : Scheduler} {items : List Coro} {coro : Coro}

theorem exec_onEpoll {call : Call Fault EPoll Unit} {result : Result Unit} {epoll : EPoll}
    (hexec : call.exec scheduler.epoll = (result, epoll)) :
    (onEpoll call).exec scheduler = (result, { scheduler with epoll }) := by
  unfold onEpoll
  rw [Call.exec_within, hexec]

/-- The callbacks once the drain is sure to be among them. -/
def withDrain (eventfd : Handle) (epoll : EPoll) : EPoll :=
  if epoll.contains eventfd then epoll else ⟨epoll.callbacks ++ [(eventfd, .drainQueue, true)]⟩

theorem exec_scheduleQueueDrain (hfd : eventfd ≠ 0)
    (hnotification : scheduler.queueNotificationFd = 0 ∨ scheduler.queueNotificationFd = eventfd)
    (hcounter : scheduler.counter + 1 ≤ 2 ^ 64 - 2) :
    (scheduleQueueDrain eventfd).exec scheduler = (.ok (), { scheduler with
      epoll := withDrain eventfd scheduler.epoll
      queueNotificationFd := eventfd
      counter := scheduler.counter + 1 }) := by
  have hmade : (if scheduler.queueNotificationFd = 0 then
      { scheduler with queueNotificationFd := eventfd } else scheduler) =
        { scheduler with queueNotificationFd := eventfd } := by
    rcases hnotification with hzero | hmade
    · rw [if_pos hzero]
    · rw [← hmade] at hfd ⊢
      rw [if_neg hfd]
  have hping : pingEventfd scheduler.counter = .ok (scheduler.counter + 1) :=
    if_neg (Nat.not_lt_of_le hcounter)
  have hadd : (tryCatch (onEpoll (EPoll.add eventfd true .drainQueue)) ignoreAlreadyExists :
      Call Fault Scheduler Unit).exec { scheduler with queueNotificationFd := eventfd } =
          (.ok (), { scheduler with
            epoll := withDrain eventfd scheduler.epoll
            queueNotificationFd := eventfd }) := by
    rw [Call.exec_tryCatch]
    unfold withDrain
    cases hcontains : scheduler.epoll.contains eventfd with
    | true =>
        have htaken : (onEpoll (EPoll.add eventfd true .drainQueue)).exec
            { scheduler with queueNotificationFd := eventfd } = _ :=
          exec_onEpoll (EPoll.exec_add_exists hcontains)
        rw [htaken]
        rfl
    | false =>
        have hadded : (onEpoll (EPoll.add eventfd true .drainQueue)).exec
            { scheduler with queueNotificationFd := eventfd } = _ :=
          exec_onEpoll (EPoll.exec_add hcontains)
        rw [hadded]
        rfl
  unfold scheduleQueueDrain
  rw [Call.exec_modify_bind, hmade, Call.exec_get_bind]
  dsimp only
  rw [Call.exec_bind_ok hadd, Call.exec_get_bind]
  dsimp only
  rw [hping]
  rfl

theorem exec_addToQueue {queue : CircularQueue Coro} (hfd : eventfd ≠ 0)
    (hnotification : scheduler.queueNotificationFd = 0 ∨ scheduler.queueNotificationFd = eventfd)
    (hcounter : scheduler.counter + 1 ≤ 2 ^ 64 - 2)
    (hpush : scheduler.coroQueue.pushBack coro = .ok queue) :
    (addToQueue eventfd coro).exec scheduler = (.ok (), { scheduler with
      epoll := withDrain eventfd scheduler.epoll
      coroQueue := queue
      queueNotificationFd := eventfd
      counter := scheduler.counter + 1 }) := by
  unfold addToQueue
  rw [Call.exec_get_bind, hpush]
  dsimp only
  rw [Call.exec_set_bind]
  exact exec_scheduleQueueDrain hfd hnotification hcounter

/-- A full queue takes no coroutine, and nothing is changed. -/
theorem exec_addToQueue_full (eventfd : Handle) (hfull : scheduler.coroQueue.full = true)
    (coro : Coro) :
    (addToQueue eventfd coro).exec scheduler =
      (.error (CircularQueue.refusal scheduler.coroQueue.capacity), scheduler) := by
  unfold addToQueue
  rw [Call.exec_get_bind, CircularQueue.pushBack_of_full hfull]
  rfl

theorem exec_beginDrain
    (hregistered : scheduler.epoll.contains scheduler.queueNotificationFd = true)
    (hcounter : 0 < scheduler.counter) :
    beginDrain.exec scheduler = (.ok scheduler.coroQueue.size, { scheduler with
      epoll := ⟨scheduler.epoll.callbacks.filter fun entry =>
        entry.1 ≠ scheduler.queueNotificationFd⟩
      counter := 0 }) := by
  have hclear : clearEventfd scheduler.counter = .ok 0 := if_neg (Nat.ne_of_gt hcounter)
  unfold beginDrain
  rw [Call.exec_get_bind, Call.exec_bind_ok (exec_onEpoll (EPoll.exec_remove hregistered)),
    Call.exec_get_bind]
  dsimp only
  rw [hclear]
  rfl

theorem exec_popCoro {queue : CircularQueue Coro}
    (hpop : scheduler.coroQueue.popFront = .ok (coro, queue)) :
    popCoro.exec scheduler = (.ok coro, { scheduler with coroQueue := queue }) := by
  unfold popCoro
  rw [Call.exec_get_bind, hpop]
  rfl

end Scheduler

/-! ### The event loop in step -/

namespace EventLoop

/-- The queue of the loop is the list. The eventfd has counted what was scheduled since the last
drain began, and the callback is registered exactly then. -/
structure Invariant (eventfd : Handle) (loop : EventLoop) (items : List Coro) : Prop where
  holds : loop.scheduler.coroQueue.Holds items
  capacity : loop.scheduler.coroQueue.capacity < 2 ^ 60
  order : loop.scheduled = loop.resumed ++ items
  counter : loop.scheduler.counter + loop.phase.left = items.length
  notification : loop.scheduler.queueNotificationFd = 0 ∨
    loop.scheduler.queueNotificationFd = eventfd
  own : ∀ entry ∈ loop.scheduler.epoll.callbacks, entry.1 = eventfd →
    entry = (eventfd, .drainQueue, true)
  registered : 0 < loop.scheduler.counter → loop.scheduler.queueNotificationFd = eventfd ∧
    (eventfd, .drainQueue, true) ∈ loop.scheduler.epoll.callbacks
  unregistered : loop.scheduler.counter = 0 → loop.scheduler.epoll.contains eventfd = false

section Steps

variable {eventfd : Handle} {loop before after : EventLoop} {action : Action} {items : List Coro}

theorem Invariant.exec_schedule (hfd : eventfd ≠ 0) (hinv : Invariant eventfd loop items)
    (hroom : loop.scheduler.coroQueue.full = false) (coro : Coro) :
    ∃ queue, queue.Holds (items ++ [coro]) ∧
      queue.capacity = loop.scheduler.coroQueue.capacity ∧
        (Scheduler.addToQueue eventfd coro).exec loop.scheduler = (.ok (), { loop.scheduler with
          epoll := Scheduler.withDrain eventfd loop.scheduler.epoll
          coroQueue := queue
          queueNotificationFd := eventfd
          counter := loop.scheduler.counter + 1 }) := by
  have hne : items.length ≠ loop.scheduler.coroQueue.capacity := by
    rw [Ne, ← hinv.holds.full_iff, hroom]
    exact Bool.false_ne_true
  have hlength : items.length < loop.scheduler.coroQueue.capacity :=
    lt_of_le_of_ne hinv.holds.fits hne
  obtain ⟨queue, hpush, hholds, hcapacity⟩ := hinv.holds.pushBack hlength coro
  have hbound := hinv.capacity
  have hcounter := hinv.counter
  exact ⟨queue, hholds, hcapacity,
    Scheduler.exec_addToQueue hfd hinv.notification (by omega) hpush⟩

theorem mem_withDrain (epoll : EPoll)
    (hown : ∀ entry ∈ epoll.callbacks, entry.1 = eventfd → entry = (eventfd, .drainQueue, true)) :
    (eventfd, .drainQueue, true) ∈ (Scheduler.withDrain eventfd epoll).callbacks ∧
      ∀ entry ∈ (Scheduler.withDrain eventfd epoll).callbacks, entry.1 = eventfd →
        entry = (eventfd, .drainQueue, true) := by
  unfold Scheduler.withDrain
  split_ifs with hcontains
  · obtain ⟨entry, hmem, heq⟩ := EPoll.contains_iff.mp hcontains
    have hentry := hown entry hmem heq
    rw [hentry] at hmem
    exact ⟨hmem, hown⟩
  · refine ⟨List.mem_append_right _ (List.mem_singleton.mpr rfl), ?_⟩
    intro entry hmem heq
    rcases List.mem_append.mp hmem with hold | hnew
    · exact hown entry hold heq
    · exact List.mem_singleton.mp hnew

theorem Invariant.schedule (hfd : eventfd ≠ 0) (hinv : Invariant eventfd loop items)
    (hroom : loop.scheduler.coroQueue.full = false) (coro : Coro) :
    Invariant eventfd { loop.onScheduler (Scheduler.addToQueue eventfd coro) with
      scheduled := loop.scheduled ++ [coro] } (items ++ [coro]) := by
  obtain ⟨queue, hholds, hcapacity, hexec⟩ := hinv.exec_schedule hfd hroom coro
  obtain ⟨hmem, hown⟩ := mem_withDrain loop.scheduler.epoll hinv.own
  unfold onScheduler
  rw [hexec]
  refine ⟨hholds, ?_, ?_, ?_, .inr rfl, hown, fun _ => ⟨rfl, hmem⟩, nofun⟩
  · rw [hcapacity]
    exact hinv.capacity
  · rw [hinv.order, List.append_assoc]
  · have hcounter := hinv.counter
    rw [List.length_append, List.length_singleton]
    dsimp only
    omega

/-- Another handle's callback comes or goes. -/
theorem Invariant.withCallbacks (hinv : Invariant eventfd loop items) {epoll : EPoll}
    (hown : ∀ entry, entry.1 = eventfd →
      (entry ∈ epoll.callbacks ↔ entry ∈ loop.scheduler.epoll.callbacks)) :
    Invariant eventfd { loop with scheduler := { loop.scheduler with epoll } } items where
  holds := hinv.holds
  capacity := hinv.capacity
  order := hinv.order
  counter := hinv.counter
  notification := hinv.notification
  own entry hmem heq := hinv.own entry ((hown entry heq).mp hmem) heq
  registered hcounter :=
    ⟨(hinv.registered hcounter).1, (hown _ rfl).mpr (hinv.registered hcounter).2⟩
  unregistered hcounter := by
    rw [Bool.eq_false_iff, Ne, EPoll.contains_iff]
    rintro ⟨entry, hmem, heq⟩
    have hcontains := EPoll.contains_iff.mpr ⟨entry, (hown entry heq).mp hmem, heq⟩
    rw [hinv.unregistered hcounter] at hcontains
    cases hcontains

theorem Invariant.add (hinv : Invariant eventfd loop items) {fd : Handle} (hfd : fd ≠ eventfd)
    (oneShot : Bool) (callback : Callback) :
    Invariant eventfd (loop.onScheduler (Scheduler.onEpoll (EPoll.add fd oneShot callback)))
      items := by
  unfold onScheduler
  cases hcontains : loop.scheduler.epoll.contains fd with
  | true =>
      rw [Scheduler.exec_onEpoll (EPoll.exec_add_exists hcontains)]
      exact hinv
  | false =>
      rw [Scheduler.exec_onEpoll (EPoll.exec_add hcontains)]
      apply hinv.withCallbacks
      rintro entry rfl
      rw [List.mem_append, List.mem_singleton]
      constructor
      · rintro (hmem | rfl)
        · exact hmem
        · exact absurd rfl hfd
      · exact Or.inl

theorem Invariant.remove (hinv : Invariant eventfd loop items) {fd : Handle} (hfd : fd ≠ eventfd) :
    Invariant eventfd (loop.onScheduler (Scheduler.onEpoll (EPoll.remove fd))) items := by
  unfold onScheduler
  cases hcontains : loop.scheduler.epoll.contains fd with
  | true =>
      rw [Scheduler.exec_onEpoll (EPoll.exec_remove hcontains)]
      apply hinv.withCallbacks
      rintro entry rfl
      rw [List.mem_filter, decide_eq_true_eq]
      exact ⟨And.left, fun hmem => ⟨hmem, hfd.symm⟩⟩
  | false =>
      have hsame : (Scheduler.onEpoll (EPoll.remove fd)).exec loop.scheduler =
          (_, { loop.scheduler with epoll := loop.scheduler.epoll }) :=
        Scheduler.exec_onEpoll (Prod.ext rfl (EPoll.exec_remove_missing hcontains))
      rw [hsame]
      exact hinv

theorem Invariant.exec_beginDrain (hinv : Invariant eventfd loop items)
    (hcounter : 0 < loop.scheduler.counter) :
    Scheduler.beginDrain.exec loop.scheduler = (.ok items.length, { loop.scheduler with
      epoll := ⟨loop.scheduler.epoll.callbacks.filter fun entry => entry.1 ≠ eventfd⟩
      counter := 0 }) := by
  obtain ⟨hnotification, hmem⟩ := hinv.registered hcounter
  have hcontains : loop.scheduler.epoll.contains loop.scheduler.queueNotificationFd = true :=
    EPoll.contains_iff.mpr ⟨_, hmem, hnotification.symm⟩
  rw [Scheduler.exec_beginDrain hcontains hcounter, hinv.holds.size]
  simp only [hnotification]

theorem Invariant.beginDrain (hinv : Invariant eventfd loop items) {left : Nat}
    {scheduler : Scheduler} (hcounter : 0 < loop.scheduler.counter)
    (hbegin : Scheduler.beginDrain.exec loop.scheduler = (.ok left, scheduler)) :
    Invariant eventfd { loop with scheduler, phase := .draining left } items ∧
      left = items.length := by
  rw [hinv.exec_beginDrain hcounter, Prod.mk.injEq, Except.ok.injEq] at hbegin
  obtain ⟨rfl, rfl⟩ := hbegin
  refine ⟨⟨hinv.holds, hinv.capacity, hinv.order, Nat.zero_add _, hinv.notification, ?_, nofun, ?_⟩,
    rfl⟩
  · intro entry hmem heq
    exact hinv.own entry (List.mem_filter.mp hmem).1 heq
  · intro _
    rw [Bool.eq_false_iff, Ne, EPoll.contains_iff]
    rintro ⟨entry, hmem, heq⟩
    have hne := (List.mem_filter.mp hmem).2
    rw [decide_eq_true_eq] at hne
    exact hne heq

/-- A round that is left has a coroutine to resume. -/
theorem Invariant.exec_popCoro (hinv : Invariant eventfd loop items) (hleft : 0 < loop.phase.left) :
    ∃ coro rest queue, items = coro :: rest ∧ queue.Holds rest ∧
      queue.capacity = loop.scheduler.coroQueue.capacity ∧
        Scheduler.popCoro.exec loop.scheduler =
          (.ok coro, { loop.scheduler with coroQueue := queue }) := by
  have hcounter := hinv.counter
  cases items with
  | nil =>
      rw [List.length_nil] at hcounter
      omega
  | cons coro rest =>
      obtain ⟨queue, hpop, hholds, hcapacity⟩ := hinv.holds.popFront
      exact ⟨coro, rest, queue, rfl, hholds, hcapacity, Scheduler.exec_popCoro hpop⟩

theorem Invariant.resume (hinv : Invariant eventfd loop items) {left : Nat} {coro : Coro}
    {scheduler : Scheduler} (hphase : loop.phase = .draining (left + 1))
    (hpop : Scheduler.popCoro.exec loop.scheduler = (.ok coro, scheduler)) :
    ∃ rest, items = coro :: rest ∧ Invariant eventfd
      { loop with scheduler, phase := .draining left, resumed := loop.resumed ++ [coro] } rest := by
  have hleft : loop.phase.left = left + 1 := by
    rw [hphase]
    rfl
  obtain ⟨first, rest, queue, rfl, hholds, hcapacity, hexec⟩ :=
    hinv.exec_popCoro (by rw [hleft]; exact Nat.succ_pos left)
  rw [hexec, Prod.mk.injEq, Except.ok.injEq] at hpop
  obtain ⟨rfl, rfl⟩ := hpop
  refine ⟨rest, rfl, hholds, ?_, ?_, ?_, hinv.notification, hinv.own, hinv.registered,
    hinv.unregistered⟩
  · dsimp only
    rw [hcapacity]
    exact hinv.capacity
  · rw [hinv.order, List.append_assoc]
    rfl
  · have hcounter := hinv.counter
    rw [hleft, List.length_cons] at hcounter
    change loop.scheduler.counter + left = rest.length
    omega

theorem Invariant.empty_iff (hinv : Invariant eventfd loop items) :
    loop.scheduler.coroQueue.empty = true ↔ items = [] := by
  unfold CircularQueue.empty
  rw [hinv.holds.size, decide_eq_true_eq, List.length_eq_zero_iff]

/-- A drain that ends has no round left, for want of rounds or of coroutines. -/
theorem Invariant.left_of_done (hinv : Invariant eventfd loop items) {left : Nat}
    (hphase : loop.phase = .draining left)
    (hdone : left = 0 ∨ loop.scheduler.coroQueue.empty = true) : left = 0 := by
  rcases hdone with hzero | hempty
  · exact hzero
  · have hcounter := hinv.counter
    rw [hphase, hinv.empty_iff.mp hempty] at hcounter
    change loop.scheduler.counter + left = 0 at hcounter
    omega

theorem Invariant.endDrain (hinv : Invariant eventfd loop items) {left : Nat}
    (hphase : loop.phase = .draining left)
    (hdone : left = 0 ∨ loop.scheduler.coroQueue.empty = true) :
    Invariant eventfd { loop with phase := .idle } items := by
  have hzero := hinv.left_of_done hphase hdone
  have hcounter := hinv.counter
  rw [hphase, hzero] at hcounter
  exact ⟨hinv.holds, hinv.capacity, hinv.order, hcounter, hinv.notification, hinv.own,
    hinv.registered, hinv.unregistered⟩

theorem Step.invariant (hfd : eventfd ≠ 0) (hstep : Step eventfd before action after)
    (hinv : ∃ items, Invariant eventfd before items) : ∃ items, Invariant eventfd after items := by
  obtain ⟨items, hinv⟩ := hinv
  cases hstep with
  | schedule hroom coro => exact ⟨_, hinv.schedule hfd hroom coro⟩
  | register hother coro oneShot => exact ⟨items, hinv.add hother oneShot _⟩
  | unregister hother => exact ⟨items, hinv.remove hother⟩
  | fireOnce hidle hmem =>
      refine ⟨items, hinv.remove ?_⟩
      intro heq
      cases hinv.own _ hmem heq
  | fire hidle hmem => exact ⟨items, hinv⟩
  | beginDrain hidle hcounter hregistered hbegin =>
      exact ⟨items, (hinv.beginDrain hcounter hbegin).1⟩
  | resume hphase hempty hpop =>
      obtain ⟨rest, -, hrest⟩ := hinv.resume hphase hpop
      exact ⟨rest, hrest⟩
  | endDrain hphase hdone => exact ⟨items, hinv.endDrain hphase hdone⟩

end Steps

/-! ### Runs -/

section Runs

variable {eventfd : Handle} {scheduler : Scheduler}
  {loop before begun ended after final : EventLoop}
  {actions : List Action} {items : List Coro}

/-- The loop of a new scheduler. -/
def start (scheduler : Scheduler) : EventLoop := ⟨scheduler, .idle, [], []⟩

theorem invariant_start {capacity : Nat} (hmake : Scheduler.make capacity = .ok scheduler) :
    Invariant eventfd (start scheduler) [] := by
  unfold Scheduler.make at hmake
  split_ifs at hmake with hcapacity
  cases hmake
  exact ⟨CircularQueue.holds_make capacity, Nat.lt_of_not_le hcapacity, rfl, rfl, .inl rfl, nofun,
    nofun, fun _ => rfl⟩

/-- The queue of the loop is the list, which is what was scheduled and not resumed yet. It is never
forgotten. -/
structure Sound (eventfd : Handle) (loop : EventLoop) (items : List Coro) : Prop where
  holds : loop.scheduler.coroQueue.Holds items
  order : loop.scheduled = loop.resumed ++ items
  /-- Between drains for any coroutine in the queue, in a drain for one scheduled since it began. -/
  notified : items.drop loop.phase.left ≠ [] → 0 < loop.scheduler.counter ∧
    (loop.scheduler.queueNotificationFd, .drainQueue, true) ∈ loop.scheduler.epoll.callbacks
  schedules : loop.scheduler.coroQueue.full = false → ∀ coro,
    ((Scheduler.addToQueue eventfd coro).exec loop.scheduler).1 = .ok ()
  drains : loop.phase = .idle → items ≠ [] → ∃ after, Step eventfd loop .beginDrain after
  resumes : 0 < loop.phase.left → ∃ after, Step eventfd loop .resume after
  returns : loop.phase = .idle → loop.goesOn = false → items = []

theorem Invariant.notified (hinv : Invariant eventfd loop items)
    (hnew : items.drop loop.phase.left ≠ []) : 0 < loop.scheduler.counter ∧
      (loop.scheduler.queueNotificationFd, .drainQueue, true) ∈ loop.scheduler.epoll.callbacks := by
  have hcounter := hinv.counter
  have hpos : 0 < loop.scheduler.counter := by
    rw [← List.length_pos_iff, List.length_drop] at hnew
    omega
  obtain ⟨hnotification, hmem⟩ := hinv.registered hpos
  rw [hnotification]
  exact ⟨hpos, hmem⟩

theorem Invariant.sound (hfd : eventfd ≠ 0) (hinv : Invariant eventfd loop items) :
    Sound eventfd loop items where
  holds := hinv.holds
  order := hinv.order
  notified := hinv.notified
  schedules hroom coro := by
    obtain ⟨queue, -, -, hexec⟩ := hinv.exec_schedule hfd hroom coro
    rw [hexec]
  drains hidle hne := by
    have hall : items.drop loop.phase.left ≠ [] := by
      rw [hidle]
      exact hne
    obtain ⟨hpos, hmem⟩ := hinv.notified hall
    exact ⟨_, .beginDrain hidle hpos hmem (hinv.exec_beginDrain hpos)⟩
  resumes hleft := by
    obtain ⟨coro, rest, queue, hitems, -, -, hexec⟩ := hinv.exec_popCoro hleft
    have hempty : loop.scheduler.coroQueue.empty = false := by
      rw [Bool.eq_false_iff, Ne, hinv.empty_iff, hitems]
      exact List.cons_ne_nil coro rest
    cases hphase : loop.phase with
    | idle =>
        rw [hphase] at hleft
        exact absurd hleft (Nat.lt_irrefl 0)
    | draining left =>
        rw [hphase] at hleft
        obtain ⟨less, rfl⟩ := Nat.exists_eq_succ_of_ne_zero (Nat.ne_of_gt hleft)
        exact ⟨_, .resume hphase hempty hexec⟩
  returns hidle hstops := by
    by_contra hne
    have hall : items.drop loop.phase.left ≠ [] := by
      rw [hidle]
      exact hne
    obtain ⟨-, hmem⟩ := hinv.notified hall
    unfold goesOn EPoll.hasPendingItems at hstops
    rw [Bool.not_eq_false', List.isEmpty_iff] at hstops
    rw [hstops] at hmem
    cases hmem

/-- A drain that is going on has resumed the front of what it found, and still has the rest in
front of what was scheduled meanwhile. -/
def Draining (eventfd : Handle) (resumed found : List Coro) (loop : EventLoop) : Prop :=
  ∃ done left new, found = done ++ left ∧ Invariant eventfd loop (left ++ new) ∧
    loop.phase = .draining left.length ∧ loop.resumed = resumed ++ done

theorem Draining.step {resumed found : List Coro} {action : Action} (hfd : eventfd ≠ 0)
    (hend : action ≠ .endDrain) (hstep : Step eventfd before action after)
    (hdraining : Draining eventfd resumed found before) : Draining eventfd resumed found after := by
  obtain ⟨done, left, new, hfound, hinv, hphase, hresumed⟩ := hdraining
  cases hstep with
  | schedule hroom coro =>
      refine ⟨done, left, new ++ [coro], hfound, ?_, hphase, hresumed⟩
      rw [← List.append_assoc]
      exact hinv.schedule hfd hroom coro
  | register hother coro oneShot =>
      exact ⟨done, left, new, hfound, hinv.add hother oneShot _, hphase, hresumed⟩
  | unregister hother => exact ⟨done, left, new, hfound, hinv.remove hother, hphase, hresumed⟩
  | fireOnce hidle hmem =>
      rw [hidle] at hphase
      cases hphase
  | fire hidle hmem =>
      rw [hidle] at hphase
      cases hphase
  | beginDrain hidle hcounter hregistered hbegin =>
      rw [hidle] at hphase
      cases hphase
  | resume hround hempty hpop =>
      obtain ⟨rest, hitems, hrest⟩ := hinv.resume hround hpop
      rw [hround, Phase.draining.injEq] at hphase
      cases left with
      | nil => cases hphase
      | cons coro left =>
          obtain ⟨rfl, rfl⟩ := List.cons.inj hitems
          refine ⟨done ++ [coro], left, new, ?_, hrest, ?_, ?_⟩
          · rw [hfound, List.append_assoc]
            rfl
          · rw [Nat.succ.inj hphase]
          · dsimp only
            rw [hresumed, List.append_assoc]
  | endDrain hround hdone => exact absurd rfl hend

theorem invariant_of_run {capacity : Nat} (hfd : eventfd ≠ 0)
    (hmake : Scheduler.make capacity = .ok scheduler)
    (hrun : Run (Step eventfd) (start scheduler) actions loop) :
    ∃ items, Invariant eventfd loop items := by
  apply hrun.preserves (fun loop => ∃ items, Invariant eventfd loop items)
    (fun _ hstep => hstep.invariant hfd) (fun _ _ => trivial)
  exact ⟨[], invariant_start hmake⟩

/-- From its start to its end a drain resumes what it found in the queue. -/
theorem drain_resumes (hfd : eventfd ≠ 0) (hinv : Invariant eventfd before items)
    (hbegin : Step eventfd before .beginDrain begun) (hrun : Run (Step eventfd) begun actions ended)
    (hactions : .endDrain ∉ actions) (hend : Step eventfd ended .endDrain after) :
    after.resumed = before.resumed ++ items := by
  have hbegun : Draining eventfd before.resumed items begun := by
    cases hbegin with
    | beginDrain hidle hcounter hregistered hexec =>
        obtain ⟨hbegun, rfl⟩ := hinv.beginDrain hcounter hexec
        refine ⟨[], items, [], rfl, ?_, rfl, (List.append_nil _).symm⟩
        rw [List.append_nil]
        exact hbegun
  have hended : Draining eventfd before.resumed items ended := by
    apply hrun.preserves (Draining eventfd before.resumed items) (Draining.step hfd) _ hbegun
    rintro action hmem rfl
    exact hactions hmem
  obtain ⟨done, left, new, hfound, hleft, hphase, hresumed⟩ := hended
  cases hend with
  | endDrain hround hdone =>
      have hzero := hleft.left_of_done hround hdone
      rw [hround, hzero, Phase.draining.injEq] at hphase
      rw [List.length_eq_zero_iff.mp hphase.symm, List.append_nil] at hfound
      rw [hfound]
      exact hresumed

/-- Every state that a run reaches is sound, and every drain resumes exactly what it found. -/
theorem sound_of_run {capacity : Nat} (hfd : eventfd ≠ 0)
    (hmake : Scheduler.make capacity = .ok scheduler) :
    (∀ actions loop, Run (Step eventfd) (start scheduler) actions loop →
        ∃ items, Sound eventfd loop items) ∧
      ∀ earlier drain before begun ended after items,
        Run (Step eventfd) (start scheduler) earlier before → Sound eventfd before items →
          Step eventfd before .beginDrain begun → Run (Step eventfd) begun drain ended →
            .endDrain ∉ drain → Step eventfd ended .endDrain after →
              after.resumed = before.resumed ++ items := by
  constructor
  · intro actions loop hrun
    obtain ⟨items, hinv⟩ := invariant_of_run hfd hmake hrun
    exact ⟨items, hinv.sound hfd⟩
  · intro earlier drain before begun ended after items hrun hsound hbegin hdrain hactions hend
    obtain ⟨found, hinv⟩ := invariant_of_run hfd hmake hrun
    have hsame : found = items := List.append_cancel_left (hinv.order.symm.trans hsound.order)
    rw [← hsame]
    exact drain_resumes hfd hinv hbegin hdrain hactions hend

end Runs

/-- A scheduler for two coroutines. -/
def forTwo : Scheduler := ⟨⟨[]⟩, .make 2, 0, 0⟩

theorem sound_of_run_forTwo :
    (∀ actions loop, Run (Step 5) (start forTwo) actions loop → ∃ items, Sound 5 loop items) ∧
      ∀ earlier drain before begun ended after items,
        Run (Step 5) (start forTwo) earlier before → Sound 5 before items →
          Step 5 before .beginDrain begun → Run (Step 5) begun drain ended →
            .endDrain ∉ drain → Step 5 ended .endDrain after →
              after.resumed = before.resumed ++ items :=
  sound_of_run (by decide) (show Scheduler.make 2 = .ok forTwo from if_neg (by decide))

/-- Two coroutines are scheduled; or the first of them was. -/
def oneWaits : EventLoop :=
  ⟨⟨⟨[(5, .drainQueue, true)]⟩, ⟨1, 2, [some 1, none], 1, 0⟩, 5, 1⟩, .idle, [1], []⟩

def twoWait : EventLoop :=
  ⟨⟨⟨[(5, .drainQueue, true)]⟩, ⟨2, 2, [some 1, some 2], 0, 0⟩, 5, 2⟩, .idle, [1, 2], []⟩

/-- The drain of the two has begun; or it has resumed the first. -/
def drainBegun : EventLoop :=
  ⟨⟨⟨[]⟩, ⟨2, 2, [some 1, some 2], 0, 0⟩, 5, 0⟩, .draining 2, [1, 2], []⟩

def oneResumed : EventLoop :=
  ⟨⟨⟨[]⟩, ⟨1, 2, [some 1, some 2], 0, 1⟩, 5, 0⟩, .draining 1, [1, 2], [1]⟩

/-- Within a drain the coroutine that is next in the queue has no callback and no count. -/
theorem not_notified :
    ¬ ∀ actions loop, Run (Step 5) (start forTwo) actions loop →
      loop.scheduler.coroQueue.empty = false → 0 < loop.scheduler.counter ∧
        (loop.scheduler.queueNotificationFd, .drainQueue, true) ∈
          loop.scheduler.epoll.callbacks := by
  intro hnotified
  have hfirst : Step 5 (start forTwo) (.schedule 1) oneWaits := by
    rw [show oneWaits = { (start forTwo).onScheduler (Scheduler.addToQueue 5 1) with
      scheduled := (start forTwo).scheduled ++ [1] } by decide]
    exact .schedule (by decide) 1
  have hsecond : Step 5 oneWaits (.schedule 2) twoWait := by
    rw [show twoWait = { oneWaits.onScheduler (Scheduler.addToQueue 5 2) with
      scheduled := oneWaits.scheduled ++ [2] } by decide]
    exact .schedule (by decide) 2
  have hbegin : Step 5 twoWait .beginDrain drainBegun := by
    have hexec : Scheduler.beginDrain.exec twoWait.scheduler = (.ok 2, drainBegun.scheduler) :=
      Prod.ext (by decide) (by decide)
    exact .beginDrain rfl (by decide) (by decide) hexec
  have hresume : Step 5 drainBegun .resume oneResumed := by
    have hexec : Scheduler.popCoro.exec drainBegun.scheduler = (.ok 1, oneResumed.scheduler) :=
      Prod.ext (by decide) (by decide)
    exact .resume rfl (by decide) hexec
  have hrun := Run.cons hfirst (.cons hsecond (.cons hbegin (.cons hresume (.nil oneResumed))))
  exact absurd (hnotified _ _ hrun (by decide)).1 (by decide)

end EventLoop

end Liblw.Co
