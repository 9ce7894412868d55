import Liblw.Proof.PollLedger

/-!
# Events that wait in a batch

The kernel watches no handle without a callback. While no handle is removed or closed that an event
waits for, the event finds its callback. A callback that nothing can call any more stays that way:
its handle is taken, and the event loop does not end.
-/

namespace Liblw.Co

open Liblw.Lib

namespace Poll

variable {poll : Poll} {fd other : Handle}

theorem watched_erase (hne : other ≠ fd) (hwatched : poll.watched other = true) :
    (poll.erase fd).watched other = true := by
  obtain ⟨watch, hwatch, rfl⟩ := watched_iff.mp hwatched
  exact watched_iff.mpr ⟨watch, List.mem_filter.mpr ⟨hwatch, by simpa using hne⟩, rfl⟩

theorem mem_erase_callbacks {entry : Registration} :
    entry ∈ (poll.erase fd).callbacks ↔ entry ∈ poll.callbacks ∧ entry.fd ≠ fd := by
  simp [erase]

theorem mem_erase_watches {watch : Watch} :
    watch ∈ (poll.erase fd).watches ↔ watch ∈ poll.watches ∧ watch.fd ≠ fd := by
  simp [erase]

theorem mem_close_watches {watch : Watch} :
    watch ∈ (poll.close fd).watches ↔ watch ∈ poll.watches ∧ watch.fd ≠ fd := by
  simp [close]

/-- A watch behind a report is one from before, disarmed if it was reported for its one event. -/
theorem mem_report_watches {events : List Handle} {watch : Watch}
    (hwatch : watch ∈ (poll.report events).watches) :
    ∃ before ∈ poll.watches, watch.fd = before.fd ∧ watch.oneShot = before.oneShot ∧
      watch.armed = (before.armed && !(decide (before.fd ∈ events) && before.oneShot)) := by
  obtain ⟨before, hbefore, rfl⟩ := List.mem_map.mp hwatch
  refine ⟨before, hbefore, ?_⟩
  split
  · rename_i hreported
    exact ⟨rfl, rfl, by simp [hreported]⟩
  · rename_i hreported
    refine ⟨rfl, rfl, ?_⟩
    rw [not_and_or] at hreported
    rcases hreported with hevents | honeShot
    · simp [hevents]
    · simp [Bool.eq_false_iff.mpr honeShot]

theorem watched_report (events : List Handle) :
    (poll.report events).watched fd = poll.watched fd := by
  unfold watched report
  rw [List.any_map]
  congr 1
  funext watch
  simp only [Function.comp_apply]
  split <;> rfl

end Poll

namespace Poller

variable {systemError : Nat → Option Error} {bufferSize : Nat} {poller next : Poller}
  {action : Action}

/-! ### The two lists -/

theorem agrees_make : Agrees make where
  distinct := List.nodup_nil
  registered := nofun
  disarmed := nofun

/-- What becomes of the agreement when handles go out of both lists, or out of the kernel's. -/
theorem Agrees.erase (hagrees : poller.Agrees) (fd : Handle) :
    Agrees { poller with poll := poller.poll.erase fd } where
  distinct := hagrees.distinct.sublist (List.filter_sublist.map Watch.fd)
  registered := by
    intro watch hwatch
    obtain ⟨hwatch, hne⟩ := Poll.mem_erase_watches.mp hwatch
    obtain ⟨entry, hentry, hfd, honeShot⟩ := hagrees.registered watch hwatch
    exact ⟨entry, Poll.mem_erase_callbacks.mpr ⟨hentry, hfd ▸ hne⟩, hfd, honeShot⟩
  disarmed := fun watch hwatch => hagrees.disarmed watch (Poll.mem_erase_watches.mp hwatch).1

theorem Agrees.close (hagrees : poller.Agrees) (fd : Handle) :
    Agrees { poller with poll := poller.poll.close fd } where
  distinct := hagrees.distinct.sublist (List.filter_sublist.map Watch.fd)
  registered := fun watch hwatch => hagrees.registered watch (Poll.mem_close_watches.mp hwatch).1
  disarmed := fun watch hwatch => hagrees.disarmed watch (Poll.mem_close_watches.mp hwatch).1

theorem Agrees.insert (hagrees : poller.Agrees) {fd : Handle} (events : Event)
    (hfree : poller.poll.watched fd = false) :
    Agrees { poller with poll := poller.poll.insert fd events } where
  distinct := by
    change ((poller.poll.watches ++
      [Watch.mk fd (coEventToEpollEvent events) true]).map Watch.fd).Nodup
    rw [List.map_append, List.map_singleton, List.nodup_append]
    refine ⟨hagrees.distinct, List.nodup_singleton _, ?_⟩
    rintro other hother found hfound rfl
    rw [List.mem_singleton.mp hfound, List.mem_map] at hother
    rw [Poll.watched_iff.mpr hother] at hfree
    cases hfree
  registered := by
    intro watch hwatch
    rcases List.mem_append.mp hwatch with hwatch | hwatch
    · obtain ⟨entry, hentry, hagree⟩ := hagrees.registered watch hwatch
      exact ⟨entry, List.mem_append_left _ hentry, hagree⟩
    · obtain rfl := List.mem_singleton.mp hwatch
      exact ⟨_, List.mem_append_right _ List.mem_cons_self, rfl,
        (oneShot_coEventToEpollEvent fd events true).symm⟩
  disarmed := by
    intro watch hwatch harmed
    rcases List.mem_append.mp hwatch with hwatch | hwatch
    · exact hagrees.disarmed watch hwatch harmed
    · obtain rfl := List.mem_singleton.mp hwatch
      cases harmed

theorem Agrees.report (hagrees : poller.Agrees) (events : List Handle) :
    Agrees { poller with poll := poller.poll.report events } where
  distinct := by
    have hfds : (poller.poll.report events).watches.map Watch.fd =
        poller.poll.watches.map Watch.fd := by
      rw [Poll.report, List.map_map]
      refine List.map_congr_left fun watch _ => ?_
      rw [Function.comp_apply]
      split <;> rfl
    change ((poller.poll.report events).watches.map Watch.fd).Nodup
    rw [hfds]
    exact hagrees.distinct
  registered := by
    intro watch hwatch
    obtain ⟨before, hbefore, hfd, honeShot, -⟩ := Poll.mem_report_watches hwatch
    rw [hfd, honeShot]
    exact hagrees.registered before hbefore
  disarmed := by
    intro watch hwatch harmed
    obtain ⟨before, hbefore, -, honeShot, harmed'⟩ := Poll.mem_report_watches hwatch
    rw [honeShot]
    rw [harmed', Bool.and_eq_false_iff] at harmed
    rcases harmed with harmed | hreported
    · exact hagrees.disarmed before hbefore harmed
    · simp only [Bool.not_eq_false', Bool.and_eq_true] at hreported
      exact hreported.2

/-- Only the poll matters. -/
theorem Agrees.congr (hagrees : poller.Agrees) (hpoll : next.poll = poller.poll) : next.Agrees := by
  obtain ⟨hdistinct, hregistered, hdisarmed⟩ := hagrees
  rw [← hpoll] at hdistinct hregistered hdisarmed
  exact ⟨hdistinct, hregistered, hdisarmed⟩

theorem agrees_step (hagrees : poller.Agrees)
    (hstep : Step systemError bufferSize poller action next) : next.Agrees := by
  cases hstep with
  | @add fd answer hfree events hkernel =>
      rcases @Poll.exec_add_cases systemError poller.poll fd events answer with
        hsame | ⟨hanswer, -, hadded⟩
      · exact hagrees.congr hsame
      · exact (hagrees.insert events (hkernel hanswer)).congr hadded
  | remove hfree fd errno =>
      rcases @Poll.exec_remove_cases systemError poller.poll fd errno with
        ⟨-, hsame⟩ | ⟨-, hremoved⟩
      · exact hagrees.congr hsame
      · exact (hagrees.erase fd).congr hremoved
  | close hfree fd => exact hagrees.close fd
  | wait hfree hbuffer hnodup hsize hwatched => exact (hagrees.report _).congr rfl
  | @dispatch fd events waits errno entry poll hwaits hdispatch =>
      obtain ⟨-, -, -, rfl⟩ := Poll.dispatch_eq_ok hdispatch
      split
      · exact (hagrees.erase fd).congr rfl
      · exact hagrees.congr rfl
  | @dispatchFails fd events waits errno fault poll hwaits hdispatch =>
      rcases Poll.dispatch_eq_error hdispatch with ⟨-, rfl⟩ | ⟨-, rfl⟩
      · exact hagrees.congr rfl
      · exact (hagrees.erase fd).congr rfl
  | returns hwaits => exact hagrees.congr rfl
  | throws hwaits => exact hagrees.congr rfl
  | finish hwaits => exact hagrees.congr rfl

/-! ### Batches -/

/-- The kernel watches the handles that an event waits for. Where a handle is watched for one event,
it waits for no event while it is armed, and for one at most. -/
structure Ready (poller : Poller) : Prop where
  watched : ∀ fd ∈ poller.pending, poller.poll.watched fd = true
  armed : ∀ watch ∈ poller.poll.watches, watch.oneShot = true → watch.armed = true →
    watch.fd ∉ poller.pending
  single : ∀ watch ∈ poller.poll.watches, watch.oneShot = true →
    poller.pending.count watch.fd ≤ 1

theorem ready_make : Ready make where
  watched := nofun
  armed := nofun
  single := nofun

theorem pending_of_waits {wait : Wait} {waits : List Wait} (hwaits : poller.waits = wait :: waits) :
    poller.pending = wait.events ++ waits.flatMap Wait.events := by
  rw [pending, hwaits, List.flatMap_cons]

/-- Events only go out of the batches. -/
theorem Ready.sublist (hready : poller.Ready) (hpoll : next.poll = poller.poll)
    (hpending : next.pending.Sublist poller.pending) : next.Ready where
  watched := by
    intro fd hfd
    rw [hpoll]
    exact hready.watched fd (hpending.subset hfd)
  armed := by
    intro watch hwatch honeShot harmed hfd
    rw [hpoll] at hwatch
    exact hready.armed watch hwatch honeShot harmed (hpending.subset hfd)
  single := by
    intro watch hwatch honeShot
    rw [hpoll] at hwatch
    exact (hpending.count_le watch.fd).trans (hready.single watch hwatch honeShot)

/-- A handle for which no event waits goes out of the lists. -/
theorem Ready.erase (hready : poller.Ready) {fd : Handle} (hpoll : next.poll = poller.poll.erase fd)
    (hpending : next.pending.Sublist poller.pending) (hfd : fd ∉ next.pending) : next.Ready where
  watched := by
    intro other hother
    rw [hpoll]
    exact Poll.watched_erase (fun heq => hfd (heq ▸ hother))
      (hready.watched other (hpending.subset hother))
  armed := by
    intro watch hwatch honeShot harmed hmem
    rw [hpoll] at hwatch
    exact hready.armed watch (Poll.mem_erase_watches.mp hwatch).1 honeShot harmed
      (hpending.subset hmem)
  single := by
    intro watch hwatch honeShot
    rw [hpoll] at hwatch
    exact (hpending.count_le watch.fd).trans
      (hready.single watch (Poll.mem_erase_watches.mp hwatch).1 honeShot)

theorem Ready.close (hready : poller.Ready) {fd : Handle} (hfd : fd ∉ poller.pending) :
    Ready { poller with poll := poller.poll.close fd } where
  watched := fun other hother =>
    Poll.watched_erase (fun heq => hfd (heq ▸ hother)) (hready.watched other hother)
  armed := fun watch hwatch => hready.armed watch (Poll.mem_close_watches.mp hwatch).1
  single := fun watch hwatch => hready.single watch (Poll.mem_close_watches.mp hwatch).1

theorem Ready.insert (hready : poller.Ready) {fd : Handle} (events : Event)
    (hfree : poller.poll.watched fd = false) :
    Ready { poller with poll := poller.poll.insert fd events } := by
  have hfd : fd ∉ poller.pending := by
    intro hfd
    rw [hready.watched fd hfd] at hfree
    cases hfree
  constructor
  · intro other hother
    obtain ⟨watch, hwatch, heq⟩ := Poll.watched_iff.mp (hready.watched other hother)
    exact Poll.watched_iff.mpr ⟨watch, List.mem_append_left _ hwatch, heq⟩
  · intro watch hwatch honeShot harmed
    rcases List.mem_append.mp hwatch with hwatch | hwatch
    · exact hready.armed watch hwatch honeShot harmed
    · obtain rfl := List.mem_singleton.mp hwatch
      exact hfd
  · intro watch hwatch honeShot
    rcases List.mem_append.mp hwatch with hwatch | hwatch
    · exact hready.single watch hwatch honeShot
    · obtain rfl := List.mem_singleton.mp hwatch
      exact (List.count_eq_zero_of_not_mem hfd).trans_le (Nat.zero_le 1)

/-- A batch comes in, of handles that are armed. -/
theorem Ready.wait (hready : poller.Ready) (hagrees : poller.Agrees) {events : List Handle}
    (hnodup : events.Nodup) (hwatched : ∀ fd ∈ events, ∃ watch ∈ poller.poll.watches,
      watch.fd = fd ∧ watch.armed = true) :
    Ready { poller with
      poll := poller.poll.report events
      waits := ⟨events, false⟩ :: poller.waits } := by
  have hpending : ({ poller with
      poll := poller.poll.report events
      waits := ⟨events, false⟩ :: poller.waits } : Poller).pending = events ++ poller.pending := rfl
  have harmed : ∀ watch ∈ poller.poll.watches, watch.fd ∈ events → watch.armed = true := by
    intro watch hwatch hmem
    obtain ⟨other, hother, hfd, harmed⟩ := hwatched watch.fd hmem
    obtain rfl := List.inj_on_of_nodup_map hagrees.distinct hother hwatch hfd
    exact harmed
  constructor
  · intro fd hfd
    rw [Poll.watched_report]
    rcases List.mem_append.mp (hpending ▸ hfd) with hfd | hfd
    · obtain ⟨watch, hwatch, heq, -⟩ := hwatched fd hfd
      exact Poll.watched_iff.mpr ⟨watch, hwatch, heq⟩
    · exact hready.watched fd hfd
  · intro watch hwatch honeShot hstill hmem
    obtain ⟨before, hbefore, hfd, honeShot', harmed'⟩ := Poll.mem_report_watches hwatch
    rw [honeShot'] at honeShot
    rw [harmed', honeShot, Bool.and_true, Bool.and_eq_true, Bool.not_eq_true',
      decide_eq_false_iff_not] at hstill
    rw [hpending, hfd, List.mem_append] at hmem
    rcases hmem with hmem | hmem
    · exact hstill.2 hmem
    · exact hready.armed before hbefore honeShot hstill.1 hmem
  · intro watch hwatch honeShot
    obtain ⟨before, hbefore, hfd, honeShot', -⟩ := Poll.mem_report_watches hwatch
    rw [honeShot'] at honeShot
    rw [hpending, hfd, List.count_append]
    by_cases hmem : before.fd ∈ events
    · have hgone := hready.armed before hbefore honeShot (harmed before hbefore hmem)
      have honce := List.nodup_iff_count_le_one.mp hnodup before.fd
      rw [List.count_eq_zero_of_not_mem hgone]
      exact honce
    · rw [List.count_eq_zero_of_not_mem hmem, Nat.zero_add]
      exact hready.single before hbefore honeShot

theorem contains_of_watched (hagrees : poller.Agrees) {fd : Handle}
    (hwatched : poller.poll.watched fd = true) : poller.poll.contains fd = true := by
  obtain ⟨watch, hwatch, rfl⟩ := Poll.watched_iff.mp hwatched
  obtain ⟨entry, hentry, hfd, -⟩ := hagrees.registered watch hwatch
  exact Poll.contains_iff.mpr ⟨entry, hentry, hfd⟩

theorem dispatches_of_ready (hagrees : poller.Agrees) (hready : poller.Ready) :
    poller.Dispatches systemError := by
  intro fd events waits errno hwaits
  have hfd : fd ∈ poller.pending := by
    rw [pending_of_waits hwaits]
    exact List.mem_append_left _ List.mem_cons_self
  have hwatched := hready.watched fd hfd
  exact Poll.dispatch_of_watched (contains_of_watched hagrees hwatched) hwatched

/-- An event for which a handle is watched once waits only once. -/
theorem Ready.notMem_of_oneShot (hready : poller.Ready) (hagrees : poller.Agrees)
    (hbalanced : poller.ledger.Balanced) {entry : Registration} {events : List Handle}
    {waits : List Wait} {calling : Bool}
    (hwaits : poller.waits = ⟨entry.fd :: events, calling⟩ :: waits)
    (hentry : entry ∈ poller.poll.callbacks) (honeShot : entry.oneShot = true) :
    entry.fd ∉ events ++ waits.flatMap Wait.events := by
  have hpending := pending_of_waits hwaits
  obtain ⟨watch, hwatch, hfd⟩ := Poll.watched_iff.mp
    (hready.watched entry.fd (by rw [hpending]; exact List.mem_append_left _ List.mem_cons_self))
  obtain ⟨other, hother, hsame, honeShot'⟩ := hagrees.registered watch hwatch
  obtain rfl := List.inj_on_of_nodup_map hbalanced.distinct hother hentry (hsame.trans hfd)
  have hsingle := hready.single watch hwatch (honeShot' ▸ honeShot)
  rw [hpending, hfd, List.cons_append, List.count_cons_self] at hsingle
  exact List.count_eq_zero.mp (by omega)

theorem ready_step (hbalanced : poller.ledger.Balanced) (hagrees : poller.Agrees)
    (hready : poller.Ready) (horderly : poller.Orderly action)
    (hstep : Step systemError bufferSize poller action next) :
    next.Ready ∧ next.dropped = poller.dropped := by
  cases hstep with
  | @add fd answer hfree events hkernel =>
      refine ⟨?_, rfl⟩
      rcases @Poll.exec_add_cases systemError poller.poll fd events answer with
        hsame | ⟨hanswer, -, hadded⟩
      · exact hready.sublist hsame (List.Sublist.refl _)
      · rw [hadded]
        exact hready.insert events (hkernel hanswer)
  | remove hfree fd errno =>
      refine ⟨?_, rfl⟩
      rcases @Poll.exec_remove_cases systemError poller.poll fd errno with
        ⟨-, hsame⟩ | ⟨-, hremoved⟩
      · exact hready.sublist hsame (List.Sublist.refl _)
      · exact hready.erase hremoved (List.Sublist.refl _) horderly
  | close hfree fd => exact ⟨hready.close horderly, rfl⟩
  | wait hfree hbuffer hnodup hsize hwatched => exact ⟨hready.wait hagrees hnodup hwatched, rfl⟩
  | @dispatch fd events waits errno entry poll hwaits hdispatch =>
      obtain ⟨hmem, rfl, -, rfl⟩ := Poll.dispatch_eq_ok hdispatch
      refine ⟨?_, rfl⟩
      have hpending : (events ++ waits.flatMap Wait.events).Sublist poller.pending := by
        rw [pending_of_waits hwaits]
        exact List.sublist_cons_self _ _
      cases honeShot : entry.oneShot with
      | false => exact hready.sublist rfl hpending
      | true =>
          exact hready.erase rfl hpending
            (hready.notMem_of_oneShot hagrees hbalanced hwaits hmem honeShot)
  | @dispatchFails fd events waits errno fault poll hwaits hdispatch =>
      obtain ⟨entry, poll', hok⟩ : ∃ entry poll',
          (Poll.dispatch systemError fd errno).exec poller.poll = (.ok entry, poll') :=
        dispatches_of_ready hagrees hready fd events waits errno hwaits
      rw [hok] at hdispatch
      cases hdispatch
  | @returns events waits hwaits =>
      refine ⟨hready.sublist rfl ?_, rfl⟩
      rw [pending_of_waits hwaits]
      exact List.Sublist.refl _
  | @throws events waits hwaits =>
      refine ⟨hready.sublist rfl ?_, rfl⟩
      rw [pending_of_waits hwaits]
      exact List.sublist_append_right _ _
  | @finish waits hwaits =>
      refine ⟨hready.sublist rfl ?_, rfl⟩
      rw [pending_of_waits hwaits]
      exact List.sublist_append_right _ _

/-! ### Runs -/

/-- **Every callback once.** Whatever the callbacks do and the kernel answers, each callback that
was registered is registered still, has fired, was removed or was dropped, and one that is for one
event has been called exactly if it has fired. The kernel watches no handle without a callback. -/
theorem dispatchSound_of_run {actions : List Action}
    (hrun : Run (Step systemError bufferSize) make actions poller) :
    poller.ledger.Balanced ∧ poller.Agrees :=
  ⟨balanced_of_run hrun, hrun.preserves Agrees
    (fun _ hstep hagrees => agrees_step hagrees hstep) (fun _ _ => trivial) agrees_make⟩

theorem step_unique {other : Poller} (hstep : Step systemError bufferSize poller action next)
    (hother : Step systemError bufferSize poller action other) : next = other := by
  cases hstep with
  | add hfree events hkernel => cases hother; rfl
  | remove hfree fd errno => cases hother; rfl
  | close hfree fd => cases hother; rfl
  | wait hfree hbuffer hnodup hsize hwatched => cases hother; rfl
  | dispatch hwaits hdispatch => cases hother <;> grind
  | dispatchFails hwaits hdispatch => cases hother <;> grind
  | returns hwaits => cases hother; grind
  | throws hwaits => cases hother; grind
  | finish hwaits => cases hother; grind

/-- The run keeps to the condition at each of its steps. -/
def KeepsTo (systemError : Nat → Option Error) (bufferSize : Nat)
    (condition : Poller → Action → Prop) (actions : List Action) (final : Poller) : Prop :=
  Run.Keeps (Step systemError bufferSize) make condition actions final

/-- The callback of the handle three, which was for one event, has removed and closed the handle
five. It is still running, and an event for the handle four comes behind it in the batch. -/
def batch : Poller :=
  ⟨⟨[⟨4, 1, false⟩], [⟨4, 1, true⟩], 3⟩, [⟨[4], true⟩], [0], [⟨3, 0, true⟩], [⟨5, 2, false⟩], []⟩

/-- A step that takes care of the batches. -/
abbrev CarefulStep (poller : Poller) (action : Action) (next : Poller) : Prop :=
  (poller.Orderly action ∧ poller.Careful action) ∧ Step (fun _ => none) 32 poller action next

theorem keepsTo_of_carefulStep {actions : List Action}
    (hrun : Run CarefulStep make actions poller) :
    Run (Step (fun _ => none) 32) make actions poller ∧
      KeepsTo (fun _ => none) 32
        (fun poller action => poller.Orderly action ∧ poller.Careful action) actions poller :=
  @Run.keeps_of_unique _ _ (Step (fun _ => none) 32) _ _ _ _ step_unique hrun

theorem run_batch : Run CarefulStep make
    [.add 3 (Event.readable ||| Event.oneShot) none, .add 4 Event.readable none,
      .add 5 Event.readable none, .wait [3, 4], .dispatch 0, .remove 5 0, .close 5] batch := by
  have hfive : (5 : Handle) ∉ [4] := by decide
  refine .cons ⟨⟨trivial, trivial⟩, .add rfl _ fun _ => rfl⟩ <|
    .cons ⟨⟨trivial, trivial⟩, .add rfl _ fun _ => rfl⟩ <|
    .cons ⟨⟨trivial, trivial⟩, .add rfl _ fun _ => rfl⟩ <|
    .cons ⟨⟨trivial, trivial⟩, .wait rfl (by decide) (by decide) (by decide) ?_⟩ <|
    .cons ⟨⟨trivial, trivial⟩, .dispatch rfl rfl⟩ <|
    .cons ⟨⟨hfive, hfive⟩, .remove rfl 5 0⟩ <|
    .cons ⟨⟨hfive, rfl⟩, .close rfl 5⟩ (.nil batch)
  decide

theorem dispatchSound_of_run_batch : batch.ledger.Balanced ∧ batch.Agrees :=
  dispatchSound_of_run (keepsTo_of_carefulStep run_batch).1

/-- **Every round finds its callback.** While no handle is removed or closed that an event in a
batch waits for, every round of `_wait` that is begun comes to the callback of its event, and no
callback is dropped. A callback that throws still gives up the rest of its batch. -/
theorem dispatches_of_run {actions : List Action}
    (hrun : Run (Step systemError bufferSize) make actions poller)
    (horderly : KeepsTo systemError bufferSize Orderly actions poller) :
    poller.Dispatches systemError ∧ poller.dropped = [] := by
  have hinvariant := hrun.preserves_of_takes
    (fun poller => poller.ledger.Balanced ∧ poller.Agrees ∧ poller.Ready ∧ poller.dropped = [])
    (fun horderly hstep ⟨hbalanced, hagrees, hready, hdropped⟩ => by
      obtain ⟨hready', hdropped'⟩ := ready_step hbalanced hagrees hready horderly hstep
      exact ⟨balanced_step hbalanced hstep, agrees_step hagrees hstep, hready',
        hdropped'.trans hdropped⟩)
    horderly ⟨Ledger.balanced_make, agrees_make, ready_make, rfl⟩
  obtain ⟨-, hagrees, hready, hdropped⟩ := hinvariant
  exact ⟨dispatches_of_ready hagrees hready, hdropped⟩

/-- The callback returns, and the round for the handle four comes next. -/
theorem dispatches_of_run_batch :
    Dispatches (fun _ => none) { batch with waits := [⟨[4], false⟩] } ∧ batch.dropped = [] := by
  have hreturns : Run CarefulStep batch [.returns] { batch with waits := [⟨[4], false⟩] } :=
    .cons ⟨⟨trivial, trivial⟩, .returns rfl⟩ (.nil _)
  obtain ⟨hrun, hkeeps⟩ := keepsTo_of_carefulStep (run_batch.append hreturns)
  exact dispatches_of_run hrun fun before action after htakes =>
    (hkeeps before action after htakes).1

/-! ### Stranded callbacks -/

/-- The kernel watches out for every callback, or has reported it and the event is not lost. -/
def Awake (poller : Poller) : Prop :=
  ∀ entry ∈ poller.poll.callbacks, ∃ watch ∈ poller.poll.watches,
    watch.fd = entry.fd ∧ (watch.armed = true ∨ entry.fd ∈ poller.pending)

theorem Awake.erase (hawake : poller.Awake) {fd : Handle}
    (hpoll : next.poll = poller.poll.erase fd)
    (hpending : ∀ other, other ≠ fd → other ∈ poller.pending → other ∈ next.pending) :
    next.Awake := by
  intro entry hentry
  rw [hpoll] at hentry ⊢
  obtain ⟨hentry, hne⟩ := Poll.mem_erase_callbacks.mp hentry
  obtain ⟨watch, hwatch, hfd, hrest⟩ := hawake entry hentry
  exact ⟨watch, Poll.mem_erase_watches.mpr ⟨hwatch, hfd ▸ hne⟩, hfd,
    hrest.imp_right (hpending entry.fd hne)⟩

theorem orderly_of_careful (hready : poller.Ready) (hcareful : poller.Careful action) :
    poller.Orderly action := by
  cases action with
  | remove fd errno => exact hcareful
  | close fd =>
      intro hfd
      have hwatched : poller.poll.watched fd = false := hcareful
      rw [hready.watched fd hfd] at hwatched
      cases hwatched
  | _ => trivial

theorem awake_step (hbalanced : poller.ledger.Balanced) (hagrees : poller.Agrees)
    (hready : poller.Ready) (hawake : poller.Awake) (hcareful : poller.Careful action)
    (hstep : Step systemError bufferSize poller action next) : next.Awake := by
  cases hstep with
  | @add fd answer hfree events hkernel =>
      rcases @Poll.exec_add_cases systemError poller.poll fd events answer with
        hsame | ⟨-, -, hadded⟩
      · intro entry hentry
        rw [hsame] at hentry ⊢
        exact hawake entry hentry
      · intro entry hentry
        rw [hadded] at hentry ⊢
        rcases List.mem_append.mp hentry with hentry | hentry
        · obtain ⟨watch, hwatch, hrest⟩ := hawake entry hentry
          exact ⟨watch, List.mem_append_left _ hwatch, hrest⟩
        · obtain rfl := List.mem_singleton.mp hentry
          exact ⟨_, List.mem_append_right _ List.mem_cons_self, rfl, Or.inl rfl⟩
  | remove hfree fd errno =>
      rcases @Poll.exec_remove_cases systemError poller.poll fd errno with
        ⟨-, hsame⟩ | ⟨-, hremoved⟩
      · intro entry hentry
        rw [hsame] at hentry ⊢
        exact hawake entry hentry
      · exact hawake.erase hremoved fun other _ hother => hother
  | close hfree fd =>
      intro entry hentry
      obtain ⟨watch, hwatch, hfd, hrest⟩ := hawake entry hentry
      have hclosed : poller.poll.watched fd = false := hcareful
      refine ⟨watch, Poll.mem_close_watches.mpr ⟨hwatch, fun heq => ?_⟩, hfd, hrest⟩
      rw [Poll.watched_iff.mpr ⟨watch, hwatch, heq⟩] at hclosed
      cases hclosed
  | @wait events hfree hbuffer hnodup hsize hwatched =>
      intro entry hentry
      obtain ⟨watch, hwatch, hfd, hrest⟩ := hawake entry hentry
      refine ⟨_, List.mem_map_of_mem hwatch, ?_, ?_⟩
      · split <;> exact hfd
      · by_cases hreported : entry.fd ∈ events
        · exact Or.inr (List.mem_append_left _ hreported)
        · rw [if_neg fun hboth => hreported (hfd ▸ hboth.1)]
          exact hrest.imp_right (List.mem_append_right _)
  | @dispatch fd events waits errno entry poll hwaits hdispatch =>
      obtain ⟨hmem, rfl, -, rfl⟩ := Poll.dispatch_eq_ok hdispatch
      have hpending := pending_of_waits hwaits
      have htail : ∀ other, other ≠ entry.fd → other ∈ poller.pending →
          other ∈ events ++ waits.flatMap Wait.events := by
        intro other hne hother
        rw [hpending, List.cons_append] at hother
        exact (List.mem_cons.mp hother).resolve_left hne
      cases honeShot : entry.oneShot with
      | true => exact hawake.erase rfl htail
      | false =>
          intro other hother
          obtain ⟨watch, hwatch, hfd, hrest⟩ := hawake other hother
          refine ⟨watch, hwatch, hfd, ?_⟩
          by_cases hsame : other.fd = entry.fd
          · left
            by_contra hdisarmed
            obtain ⟨found, hfound, hfd', honeShot'⟩ := hagrees.registered watch hwatch
            obtain rfl := List.inj_on_of_nodup_map hbalanced.distinct hfound hmem
              (hfd'.trans (hfd.trans hsame))
            rw [hagrees.disarmed watch hwatch (eq_false_of_ne_true hdisarmed), honeShot]
              at honeShot'
            cases honeShot'
          · exact hrest.imp_right (htail other.fd hsame)
  | @dispatchFails fd events waits errno fault poll hwaits hdispatch =>
      obtain ⟨entry, poll', hok⟩ : ∃ entry poll',
          (Poll.dispatch systemError fd errno).exec poller.poll = (.ok entry, poll') :=
        dispatches_of_ready hagrees hready fd events waits errno hwaits
      rw [hok] at hdispatch
      cases hdispatch
  | @returns events waits hwaits =>
      intro entry hentry
      obtain ⟨watch, hwatch, hfd, hrest⟩ := hawake entry hentry
      rw [pending_of_waits hwaits] at hrest
      exact ⟨watch, hwatch, hfd, hrest⟩
  | @throws events waits hwaits =>
      intro entry hentry
      obtain ⟨watch, hwatch, hfd, hrest⟩ := hawake entry hentry
      refine ⟨watch, hwatch, hfd, ?_⟩
      rw [pending_of_waits hwaits, List.mem_append] at hrest
      rcases hrest with harmed | hleft | hbelow
      · exact Or.inl harmed
      · exact Or.inl (hcareful ⟨events, true⟩ (by rw [hwaits]; rfl) watch hwatch (hfd ▸ hleft))
      · exact Or.inr hbelow
  | @finish waits hwaits =>
      intro entry hentry
      obtain ⟨watch, hwatch, hfd, hrest⟩ := hawake entry hentry
      rw [pending_of_waits hwaits] at hrest
      exact ⟨watch, hwatch, hfd, hrest⟩

/-- **Nothing is stranded.** While also no handle is closed that the kernel watches, and no callback
throws with such an event behind it, every callback can still be called. -/
theorem noneStranded_of_run {actions : List Action}
    (hrun : Run (Step systemError bufferSize) make actions poller)
    (hcareful : KeepsTo systemError bufferSize Careful actions poller) (entry : Registration) :
    ¬ poller.Stranded entry := by
  have hinvariant := hrun.preserves_of_takes
    (fun poller => poller.ledger.Balanced ∧ poller.Agrees ∧ poller.Ready ∧ poller.Awake)
    (fun hcareful hstep ⟨hbalanced, hagrees, hready, hawake⟩ =>
      ⟨balanced_step hbalanced hstep, agrees_step hagrees hstep,
        (ready_step hbalanced hagrees hready (orderly_of_careful hready hcareful) hstep).1,
        awake_step hbalanced hagrees hready hawake hcareful hstep⟩)
    hcareful ⟨Ledger.balanced_make, agrees_make, ready_make, nofun⟩
  obtain ⟨-, -, -, hawake⟩ := hinvariant
  rintro ⟨hregistered, hdisarmed, hgone⟩
  obtain ⟨watch, hwatch, hfd, harmed | hwaits⟩ := hawake entry hregistered
  · rw [hdisarmed watch hwatch hfd] at harmed
    cases harmed
  · exact hgone hwaits

/-- The callback throws, and the event for the handle four is given up, which the kernel goes on
watching. -/
theorem noneStranded_of_run_batch : ¬ Stranded { batch with waits := [] } ⟨4, 1, false⟩ := by
  have hcareful : batch.Careful .throws := by
    rintro _ ⟨⟩ watch hwatch -
    obtain rfl := List.mem_singleton.mp hwatch
    rfl
  have hthrows : Run CarefulStep batch [.throws] { batch with waits := [] } :=
    .cons ⟨⟨trivial, hcareful⟩, .throws rfl⟩ (.nil _)
  obtain ⟨hrun, hkeeps⟩ := keepsTo_of_carefulStep (run_batch.append hthrows)
  exact noneStranded_of_run hrun
    (fun before action after htakes => (hkeeps before action after htakes).2) _

section Stranded

variable {entry : Registration}

/-- A callback stays stranded where its handle does not come into the lists or the batches. -/
theorem Stranded.mono (hstranded : poller.Stranded entry)
    (hregistered : entry ∈ next.poll.callbacks)
    (hwatches : ∀ watch ∈ next.poll.watches, watch.fd = entry.fd → watch ∈ poller.poll.watches)
    (hpending : ∀ fd ∈ next.pending, fd ∈ poller.pending) : next.Stranded entry where
  registered := hregistered
  disarmed := fun watch hwatch hfd =>
    hstranded.disarmed watch (hwatches watch hwatch hfd) hfd
  gone := fun hfd => hstranded.gone (hpending _ hfd)

theorem Stranded.congr (hstranded : poller.Stranded entry) (hpoll : next.poll = poller.poll)
    (hpending : next.pending = poller.pending) : next.Stranded entry := by
  refine hstranded.mono ?_ ?_ fun fd hfd => hpending ▸ hfd
  · rw [hpoll]
    exact hstranded.registered
  · intro watch hwatch _
    rwa [hpoll] at hwatch

theorem Stranded.erase (hstranded : poller.Stranded entry) {fd : Handle} (hne : entry.fd ≠ fd)
    (hpoll : next.poll = poller.poll.erase fd)
    (hpending : ∀ fd ∈ next.pending, fd ∈ poller.pending) : next.Stranded entry := by
  refine hstranded.mono ?_ ?_ hpending
  · rw [hpoll]
    exact Poll.mem_erase_callbacks.mpr ⟨hstranded.registered, hne⟩
  · intro watch hwatch hfd
    rw [hpoll] at hwatch
    exact (Poll.mem_erase_watches.mp hwatch).1

/-- No step but its removal calls a stranded callback or takes it out. -/
theorem stranded_step (hbalanced : poller.ledger.Balanced)
    (hstranded : poller.Stranded entry) (hremove : ∀ errno, action ≠ .remove entry.fd errno)
    (hstep : Step systemError bufferSize poller action next) :
    next.Stranded entry ∧ next.called.count entry.number = poller.called.count entry.number := by
  have hcontains : poller.poll.contains entry.fd = true :=
    Poll.contains_iff.mpr ⟨entry, hstranded.registered, rfl⟩
  cases hstep with
  | @add fd answer hfree events hkernel =>
      refine ⟨?_, rfl⟩
      rcases @Poll.exec_add_cases systemError poller.poll fd events answer with
        hsame | ⟨-, hmissing, hadded⟩
      · exact hstranded.congr hsame rfl
      · rw [hadded]
        refine hstranded.mono (List.mem_append_left _ hstranded.registered) ?_ fun fd hfd => hfd
        intro watch hwatch hfd
        rcases List.mem_append.mp hwatch with hwatch | hwatch
        · exact hwatch
        · obtain rfl := List.mem_singleton.mp hwatch
          obtain rfl : fd = entry.fd := hfd
          rw [hcontains] at hmissing
          cases hmissing
  | remove hfree fd errno =>
      refine ⟨?_, rfl⟩
      rcases @Poll.exec_remove_cases systemError poller.poll fd errno with
        ⟨-, hsame⟩ | ⟨-, hremoved⟩
      · exact hstranded.congr hsame rfl
      · refine hstranded.erase ?_ hremoved fun fd hfd => hfd
        rintro rfl
        exact hremove errno rfl
  | close hfree fd =>
      exact ⟨hstranded.mono hstranded.registered
        (fun watch hwatch _ => (Poll.mem_close_watches.mp hwatch).1) fun fd hfd => hfd, rfl⟩
  | @wait events hfree hbuffer hnodup hsize hwatched =>
      refine ⟨⟨hstranded.registered, ?_, ?_⟩, rfl⟩
      · intro watch hwatch hfd
        obtain ⟨before, hbefore, hfd', -, harmed⟩ := Poll.mem_report_watches hwatch
        rw [harmed, hstranded.disarmed before hbefore (hfd'.symm.trans hfd), Bool.false_and]
      · intro hfd
        rcases List.mem_append.mp hfd with hfd | hfd
        · obtain ⟨watch, hwatch, heq, harmed⟩ := hwatched entry.fd hfd
          rw [hstranded.disarmed watch hwatch heq] at harmed
          cases harmed
        · exact hstranded.gone hfd
  | @dispatch fd events waits errno found poll hwaits hdispatch =>
      obtain ⟨hmem, rfl, -, rfl⟩ := Poll.dispatch_eq_ok hdispatch
      have hpending := pending_of_waits hwaits
      have hne : entry.fd ≠ found.fd := fun heq => hstranded.gone (by simp [hpending, heq])
      have hnumber : found.number ≠ entry.number := by
        intro heq
        have hfound : found ∈ poller.ledger.entries := by simp [Ledger.entries, ledger, hmem]
        have hentry : entry ∈ poller.ledger.entries := by
          simp [Ledger.entries, ledger, hstranded.registered]
        exact hne (congrArg Registration.fd (hbalanced.number_injective hfound hentry heq)).symm
      have htail : ∀ other ∈ events ++ waits.flatMap Wait.events, other ∈ poller.pending :=
        fun other hother => hpending ▸ List.mem_cons_of_mem _ hother
      constructor
      · cases honeShot : found.oneShot with
        | true => exact hstranded.erase hne rfl htail
        | false => exact hstranded.mono hstranded.registered (fun _ hwatch _ => hwatch) htail
      · rw [List.count_append, List.count_singleton, beq_false_of_ne hnumber]
        rfl
  | @dispatchFails fd events waits errno fault poll hwaits hdispatch =>
      refine ⟨?_, rfl⟩
      have hpending := pending_of_waits hwaits
      have hne : entry.fd ≠ fd := fun heq => hstranded.gone (by simp [hpending, heq])
      have htail : ∀ other ∈ waits.flatMap Wait.events, other ∈ poller.pending :=
        fun other hother => hpending ▸ List.mem_append_right _ hother
      rcases Poll.dispatch_eq_error hdispatch with ⟨-, rfl⟩ | ⟨-, rfl⟩
      · exact hstranded.mono hstranded.registered (fun _ hwatch _ => hwatch) htail
      · exact hstranded.erase hne rfl htail
  | @returns events waits hwaits =>
      refine ⟨hstranded.mono hstranded.registered (fun _ hwatch _ => hwatch) ?_, rfl⟩
      intro fd hfd
      rw [pending_of_waits hwaits]
      exact hfd
  | @throws events waits hwaits =>
      refine ⟨hstranded.mono hstranded.registered (fun _ hwatch _ => hwatch) ?_, rfl⟩
      intro fd hfd
      rw [pending_of_waits hwaits]
      exact List.mem_append_right _ hfd
  | @finish waits hwaits =>
      refine ⟨hstranded.mono hstranded.registered (fun _ hwatch _ => hwatch) ?_, rfl⟩
      intro fd hfd
      rw [pending_of_waits hwaits]
      exact hfd

/-- A callback for one event of the handle three. -/
def once : Poller :=
  ⟨⟨[⟨3, 0, true⟩], [⟨3, 0x40000001, true⟩], 1⟩, [], [], [], [], []⟩

theorem step_once : Step (fun _ => none) 32 make
    (.add 3 (Event.readable ||| Event.oneShot) none) once :=
  .add rfl (Event.readable ||| Event.oneShot) fun _ => rfl

end Stranded

end Poller

end Liblw.Co
