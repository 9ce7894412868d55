import Liblw.Co.Sleeping
import Liblw.Proof.PollBatches

/-!
# Sleeps wake, and not too early

What EPoll loses nothing of wakes every sleep whose timer expires. The steps of a sleep are steps of
EPoll that take care of their batches, so its invariants hold over these runs too, and with them the
ones about timers and descriptors.
-/

namespace Liblw.Co

open Liblw.Lib

/-! ### Timers -/

theorem itValue_of_nonneg {duration : Int} (hnonneg : 0 ≤ duration) :
    itValue duration = ⟨duration / 1000000000, duration % 1000000000⟩ := by
  rw [itValue, Int.tdiv_eq_ediv_of_nonneg hnonneg]
  refine congrArg _ ?_
  omega

/-- A negative duration has a part that is negative. -/
theorem itValue_of_neg {duration : Int} (hneg : duration < 0) :
    (itValue duration).tvSec < 0 ∨ (itValue duration).tvNsec < 0 := by
  have hseconds : (itValue duration).tvSec = -(-duration / 1000000000) := by
    rw [itValue, ← Int.tdiv_eq_ediv_of_nonneg (by omega), Int.neg_tdiv, Int.neg_neg]
  have hfraction : (itValue duration).tvNsec =
      duration - (itValue duration).tvSec * 1000000000 := rfl
  omega

theorem timerfdSettime_itValue (now : Nat) (duration : Int) :
    timerfdSettime now (itValue duration) =
      if duration < 0 then .error EINVAL
      else .ok (if duration = 0 then none else some (now + duration.toNat)) := by
  unfold timerfdSettime
  by_cases hneg : duration < 0
  · rw [if_pos ((itValue_of_neg hneg).imp_right Or.inl), if_pos hneg]
  · rw [itValue_of_nonneg (by omega), if_neg (by dsimp only; omega), if_neg hneg]
    dsimp only
    have hzero : duration / 1000000000 = 0 ∧ duration % 1000000000 = 0 ↔ duration = 0 := by omega
    have hwhole : duration / 1000000000 * 1000000000 + duration % 1000000000 = duration := by omega
    simp only [hzero, hwhole]
    split_ifs <;> rfl

/-! ### EPoll -/

theorem Poll.close_erase (poll : Poll) (fd : Handle) :
    (poll.erase fd).close fd = poll.erase fd := by
  simp [Poll.close, Poll.erase, List.filter_filter]

namespace Poller

variable {systemError : Nat → Option Error} {bufferSize : Nat} {poller next : Poller}
  {action : Action}

/-- All that the runs keep whose steps take care of the batches. -/
structure Settled (poller : Poller) : Prop where
  balanced : poller.ledger.Balanced
  agrees : poller.Agrees
  ready : poller.Ready
  awake : poller.Awake

theorem settled_make : make.Settled := ⟨Ledger.balanced_make, agrees_make, ready_make, nofun⟩

theorem Settled.step (hsettled : poller.Settled) (hcareful : poller.Careful action)
    (hstep : Step systemError bufferSize poller action next) : next.Settled := by
  obtain ⟨hbalanced, hagrees, hready, hawake⟩ := hsettled
  exact ⟨balanced_step hbalanced hstep, agrees_step hagrees hstep,
    (ready_step hbalanced hagrees hready (orderly_of_careful hready hcareful) hstep).1,
    awake_step hbalanced hagrees hready hawake hcareful hstep⟩

/-- The kernel watches every handle that has a callback. -/
theorem Settled.missing (hsettled : poller.Settled) {fd : Handle}
    (hunwatched : poller.poll.watched fd = false) : poller.poll.contains fd = false := by
  by_contra hcontains
  obtain ⟨entry, hentry, rfl⟩ := Poll.contains_iff.mp (eq_true_of_ne_false hcontains)
  obtain ⟨watch, hwatch, hfd, -⟩ := hsettled.awake entry hentry
  rw [Poll.watched_iff.mpr ⟨watch, hwatch, hfd⟩] at hunwatched
  cases hunwatched

theorem Settled.unwatched (hsettled : poller.Settled) {fd : Handle}
    (hmissing : poller.poll.contains fd = false) : poller.poll.watched fd = false := by
  by_contra hwatched
  rw [contains_of_watched hsettled.agrees (eq_true_of_ne_false hwatched)] at hmissing
  cases hmissing

/-- A handle without a callback has no event in a batch. -/
theorem Settled.notPending (hsettled : poller.Settled) {fd : Handle}
    (hmissing : poller.poll.contains fd = false) : fd ∉ poller.pending := by
  intro hpending
  have hwatched := hsettled.ready.watched fd hpending
  rw [hsettled.unwatched hmissing] at hwatched
  cases hwatched

end Poller

namespace Sleeping

variable {systemError : Nat → Option Error} {bufferSize : Nat} {state next : Sleeping}
  {action : Action}

/-! ### A call of `await_suspend` -/

section Suspend

variable {duration : Int} {errno : Nat} {answer : Option Nat}

/-- An object that is awaited for the first time makes its timer. -/
theorem exec_awaitSuspend (hfits : FitsNanoseconds duration) (created : Option Handle) :
    (awaitSuspend systemError 0 duration created errno answer).exec state =
      Call.exec (do
        let timer ← createTimerfd systemError duration created errno
        onPoll (Poll.add systemError timer (Event.readable ||| Event.oneShot) answer)
        modify fun state =>
          { state with
            begun := state.begun + 1
            asleep := state.asleep ++ [⟨state.begun, timer, state.now, duration⟩] }) state := by
  rw [awaitSuspend, if_pos rfl, toNanoseconds, if_pos hfits, pure_bind]

/-- The state behind a call that has made its timer and then throws. -/
def abandons (timer : Handle) (timers : Handle → Option Nat) (state : Sleeping) : Sleeping :=
  { state with
    opened := insert timer state.opened
    timers
    failed := state.failed + 1 }

/-- The state behind a call that returns. -/
def suspends (timer : Handle) (duration : Int) (state : Sleeping) : Sleeping :=
  let sleep : Sleep := ⟨state.begun, timer, state.now, duration⟩
  { state with
    poller :=
      { state.poller with
        poll := state.poller.poll.insert timer (Event.readable ||| Event.oneShot) }
    opened := insert timer state.opened
    timers := Function.update state.timers timer sleep.due
    begun := state.begun + 1
    asleep := state.asleep ++ [sleep] }

theorem sleep_none (hfits : FitsNanoseconds duration) :
    state.sleep systemError 0 duration none errno answer = state := by
  have hexec : (createTimerfd systemError duration none errno).exec state =
      (.error (Poll.systemFault systemError errno "Unknown system error while creating timer."),
        state) := rfl
  rw [sleep, exec_awaitSuspend hfits, Call.exec_bind_error hexec]
  simp only [Nat.sub_self, Nat.add_zero]

/-- A call that throws leaves its timer behind. -/
theorem sleep_of_error {timer : Handle} {fault : Fault} {timers : Handle → Option Nat}
    (hfresh : timer ∉ state.opened)
    (hexec : (awaitSuspend systemError 0 duration (some timer) errno answer).exec state =
      (.error fault, { state with opened := insert timer state.opened, timers })) :
    state.sleep systemError 0 duration (some timer) errno answer = state.abandons timer timers := by
  rw [sleep, hexec]
  simp only [abandons, Finset.card_insert_of_notMem hfresh, Nat.add_sub_cancel_left]

theorem exec_createTimerfd_fails {timer : Handle} (hfails : timer = 0 ∨ duration < 0) :
    ∃ fault, (createTimerfd systemError duration (some timer) errno).exec state =
      (.error fault, { state with opened := insert timer state.opened }) := by
  rw [createTimerfd, Call.exec_modify_bind]
  by_cases hzero : timer = 0
  · rw [if_pos hzero]
    exact ⟨_, rfl⟩
  · rw [if_neg hzero, Call.exec_get_bind]
    dsimp only
    rw [timerfdSettime_itValue, if_pos (hfails.resolve_left hzero)]
    exact ⟨_, rfl⟩

theorem exec_createTimerfd {timer : Handle} (hzero : timer ≠ 0) (hnonneg : 0 ≤ duration) :
    (createTimerfd systemError duration (some timer) errno).exec state =
      (.ok timer, { state with
        opened := insert timer state.opened
        timers :=
          Function.update state.timers timer (Sleep.mk 0 timer state.now duration).due }) := by
  rw [createTimerfd, Call.exec_modify_bind, if_neg hzero, Call.exec_get_bind]
  dsimp only
  rw [timerfdSettime_itValue, if_neg (by omega)]
  rfl

/-- A call either leaves its timer behind, whatever that is set to, or sleeps. -/
theorem sleep_some (hfits : FitsNanoseconds duration) {timer : Handle}
    (hfresh : timer ∉ state.opened) (hmissing : state.poller.poll.contains timer = false) :
    (∃ expiry, state.sleep systemError 0 duration (some timer) errno answer =
      state.abandons timer (Function.update state.timers timer expiry)) ∨
    (0 ≤ duration ∧ answer = none ∧
      state.sleep systemError 0 duration (some timer) errno answer =
        state.suspends timer duration) := by
  have hsuspend := @exec_awaitSuspend systemError state duration errno answer hfits (some timer)
  by_cases hfails : timer = 0 ∨ duration < 0
  · obtain ⟨fault, hexec⟩ :=
      @exec_createTimerfd_fails systemError state duration errno timer hfails
    rw [Call.exec_bind_error hexec] at hsuspend
    refine Or.inl ⟨state.timers timer, ?_⟩
    rw [Function.update_eq_self]
    exact sleep_of_error hfresh hsuspend
  · rw [not_or, Int.not_lt] at hfails
    obtain ⟨hzero, hnonneg⟩ := hfails
    have hexec := @exec_createTimerfd systemError state duration errno timer hzero hnonneg
    rw [Call.exec_bind_ok hexec, Call.exec_bind, onPoll, Call.exec_within] at hsuspend
    cases answer with
    | none =>
        rw [Poll.exec_add_free hmissing] at hsuspend
        refine Or.inr ⟨hnonneg, rfl, ?_⟩
        rw [sleep, hsuspend]
        rfl
    | some number =>
        rw [Poll.exec_add_refused hmissing] at hsuspend
        exact Or.inl ⟨_, sleep_of_error hfresh hsuspend⟩

end Suspend

/-! ### What the runs keep -/

/-- Each sleep that is on has its callback, its timer and its descriptor to itself, and an event for
it is in a batch only if its timer has expired. Every other callback is one of other code. -/
structure Tracked (state : Sleeping) : Prop where
  settled : state.poller.Settled
  closes : state.Closes
  registered : ∀ sleep ∈ state.asleep, ∃ entry ∈ state.poller.poll.callbacks,
    entry.fd = sleep.fd ∧ entry.oneShot = true
  owned : ∀ entry ∈ state.poller.poll.callbacks,
    entry.fd ∈ state.elsewhere ∨ ∃ sleep ∈ state.asleep, sleep.fd = entry.fd
  timed : ∀ sleep ∈ state.asleep, 0 ≤ sleep.duration ∧ state.timers sleep.fd = sleep.due
  expired : ∀ sleep ∈ state.asleep, sleep.fd ∈ state.poller.pending →
    ∃ due, sleep.due = some due ∧ due ≤ state.now

theorem tracked_start (opened : Finset Handle) : (start opened).Tracked where
  settled := Poller.settled_make
  closes := ⟨Finset.Subset.refl _, nofun, List.nodup_nil, rfl⟩
  registered := nofun
  owned := nofun
  timed := nofun
  expired := nofun

/-- EPoll knows no descriptor that is not open. -/
theorem Tracked.missing (htracked : state.Tracked) {fd : Handle} (hfresh : fd ∉ state.opened) :
    state.poller.poll.contains fd = false := by
  by_contra hcontains
  obtain ⟨entry, hentry, rfl⟩ := Poll.contains_iff.mp (eq_true_of_ne_false hcontains)
  rcases htracked.owned entry hentry with helsewhere | ⟨sleep, hsleep, hfd⟩
  · exact hfresh (htracked.closes.elsewhere helsewhere)
  · exact hfresh (hfd ▸ (htracked.closes.asleep sleep hsleep).1)

theorem Tracked.ne_of_fresh (htracked : state.Tracked) {sleep : Sleep} {fd : Handle}
    (hsleep : sleep ∈ state.asleep) (hfresh : fd ∉ state.opened) : sleep.fd ≠ fd := by
  rintro rfl
  exact hfresh (htracked.closes.asleep sleep hsleep).1

/-! ### EPoll and other code -/

/-- What other code does with EPoll does not touch the callbacks of sleeps, and no event comes for
one whose timer has not expired. -/
structure Spares (state : Sleeping) (poller : Poller) : Prop where
  settled : poller.Settled
  callbacks : ∀ entry : Registration, entry.fd ∉ state.elsewhere →
    (entry ∈ poller.poll.callbacks ↔ entry ∈ state.poller.poll.callbacks)
  pending : ∀ fd ∈ poller.pending, fd ∉ state.elsewhere →
    fd ∈ state.poller.pending ∨ ∃ due, state.timers fd = some due ∧ due ≤ state.now

theorem spares_of_permits (htracked : state.Tracked) {action : Poller.Action} {poller : Poller}
    (hpermits : state.Permits systemError action) (hcareful : state.poller.Careful action)
    (hstep : Poller.Step systemError bufferSize state.poller action poller) :
    state.Spares poller := by
  have hsettled := htracked.settled.step hcareful hstep
  cases hstep with
  | @add fd answer hfree events hkernel =>
      refine ⟨hsettled, fun entry helsewhere => ?_, fun fd hfd _ => Or.inl hfd⟩
      rcases @Poll.exec_add_cases systemError state.poller.poll fd events answer with
        hsame | ⟨-, -, hadded⟩
      · rw [hsame]
      · rw [hadded, Poll.insert, List.mem_append, List.mem_singleton]
        refine or_iff_left ?_
        rintro rfl
        exact helsewhere hpermits
  | remove hfree fd errno =>
      refine ⟨hsettled, fun entry helsewhere => ?_, fun fd hfd _ => Or.inl hfd⟩
      rcases @Poll.exec_remove_cases systemError state.poller.poll fd errno with
        ⟨-, hsame⟩ | ⟨-, hremoved⟩
      · rw [hsame]
      · rw [hremoved, Poll.mem_erase_callbacks]
        refine and_iff_left ?_
        rintro rfl
        exact helsewhere hpermits
  | close hfree fd => cases hpermits
  | @wait events hfree hbuffer hnodup hsize hwatched =>
      refine ⟨hsettled, fun entry _ => Iff.rfl, fun fd hfd helsewhere => ?_⟩
      rcases List.mem_append.mp hfd with hfd | hfd
      · exact Or.inr ((hpermits fd hfd).resolve_left helsewhere)
      · exact Or.inl hfd
  | @dispatch fd events waits errno entry poll hwaits hdispatch =>
      have hasleep := hpermits fd events waits entry poll hwaits hdispatch
      have hpending := Poller.pending_of_waits hwaits
      obtain ⟨hentry, hfd, -, rfl⟩ := Poll.dispatch_eq_ok hdispatch
      refine ⟨hsettled, fun other helsewhere => ?_, fun other hother _ => ?_⟩
      · have hfound : entry.fd ∈ state.elsewhere := by
          refine (htracked.owned entry hentry).resolve_right ?_
          rintro ⟨sleep, hsleep, hsame⟩
          exact hasleep sleep hsleep (hsame.trans hfd)
        dsimp only
        split
        · rw [Poll.mem_erase_callbacks]
          refine and_iff_left ?_
          rintro heq
          exact helsewhere (heq ▸ hfd ▸ hfound)
        · rfl
      · left
        rw [hpending]
        exact List.mem_cons_of_mem _ hother
  | @dispatchFails fd events waits errno fault poll hwaits hdispatch =>
      obtain ⟨entry, poll', hok⟩ := Poller.dispatches_of_ready htracked.settled.agrees
        htracked.settled.ready fd events waits errno hwaits
      rw [hok] at hdispatch
      cases hdispatch
  | returns hwaits =>
      refine ⟨hsettled, fun entry _ => Iff.rfl, fun fd hfd _ => Or.inl ?_⟩
      rw [Poller.pending_of_waits hwaits]
      exact hfd
  | throws hwaits =>
      refine ⟨hsettled, fun entry _ => Iff.rfl, fun fd hfd _ => Or.inl ?_⟩
      rw [Poller.pending_of_waits hwaits]
      exact List.mem_append_right _ hfd
  | finish hwaits =>
      refine ⟨hsettled, fun entry _ => Iff.rfl, fun fd hfd _ => Or.inl ?_⟩
      rw [Poller.pending_of_waits hwaits]
      exact hfd

/-! ### The steps -/

theorem tracked_tick (htracked : state.Tracked) (elapsed : Nat) :
    Tracked { state with now := state.now + elapsed } where
  settled := htracked.settled
  closes := ⟨htracked.closes.elsewhere, htracked.closes.asleep, htracked.closes.distinct,
    htracked.closes.count⟩
  registered := htracked.registered
  owned := htracked.owned
  timed := htracked.timed
  expired := by
    intro sleep hsleep hpending
    obtain ⟨due, hdue, hnow⟩ := htracked.expired sleep hsleep hpending
    exact ⟨due, hdue, hnow.trans (Nat.le_add_right _ _)⟩

theorem tracked_poll (htracked : state.Tracked) {poller : Poller} (hspares : state.Spares poller) :
    Tracked { state with poller } where
  settled := hspares.settled
  closes := ⟨htracked.closes.elsewhere, htracked.closes.asleep, htracked.closes.distinct,
    htracked.closes.count⟩
  registered := by
    intro sleep hsleep
    obtain ⟨entry, hentry, hfd, honeShot⟩ := htracked.registered sleep hsleep
    have helsewhere : entry.fd ∉ state.elsewhere := hfd ▸ (htracked.closes.asleep sleep hsleep).2
    exact ⟨entry, (hspares.callbacks entry helsewhere).mpr hentry, hfd, honeShot⟩
  owned := by
    intro entry hentry
    by_cases helsewhere : entry.fd ∈ state.elsewhere
    · exact Or.inl helsewhere
    · exact htracked.owned entry ((hspares.callbacks entry helsewhere).mp hentry)
  timed := htracked.timed
  expired := by
    intro sleep hsleep hpending
    rcases hspares.pending sleep.fd hpending (htracked.closes.asleep sleep hsleep).2 with
      hbefore | hexpired
    · exact htracked.expired sleep hsleep hbefore
    · rwa [(htracked.timed sleep hsleep).2] at hexpired

theorem tracked_openElsewhere (htracked : state.Tracked) {fd : Handle}
    (hfresh : fd ∉ state.opened) :
    Tracked { state with
      opened := insert fd state.opened
      elsewhere := insert fd state.elsewhere } where
  settled := htracked.settled
  closes := by
    refine ⟨Finset.insert_subset_insert fd htracked.closes.elsewhere, fun sleep hsleep => ?_,
      htracked.closes.distinct, ?_⟩
    · obtain ⟨hopened, helsewhere⟩ := htracked.closes.asleep sleep hsleep
      refine ⟨Finset.mem_insert_of_mem hopened, fun hmem => ?_⟩
      rcases Finset.mem_insert.mp hmem with heq | hmem
      · exact htracked.ne_of_fresh hsleep hfresh heq
      · exact helsewhere hmem
    · have hcount := htracked.closes.count
      have hother : fd ∉ state.elsewhere := fun hmem => hfresh (htracked.closes.elsewhere hmem)
      rw [Finset.card_insert_of_notMem hfresh, Finset.card_insert_of_notMem hother]
      dsimp only
      omega
  registered := htracked.registered
  owned := fun entry hentry =>
    (htracked.owned entry hentry).imp_left Finset.mem_insert_of_mem
  timed := htracked.timed
  expired := htracked.expired

theorem tracked_closeElsewhere (htracked : state.Tracked) {fd : Handle}
    (hfree : state.poller.free = true) (hfd : fd ∈ state.elsewhere)
    (hcareful : state.poller.Careful (.close fd)) :
    Tracked { state with
      poller := { state.poller with poll := state.poller.poll.close fd }
      opened := state.opened.erase fd
      elsewhere := state.elsewhere.erase fd } where
  settled := htracked.settled.step hcareful
    (@Poller.Step.close (fun _ => none) 0 state.poller hfree fd)
  closes := by
    refine ⟨Finset.erase_subset_erase fd htracked.closes.elsewhere, fun sleep hsleep => ?_,
      htracked.closes.distinct, ?_⟩
    · obtain ⟨hopened, helsewhere⟩ := htracked.closes.asleep sleep hsleep
      refine ⟨Finset.mem_erase.mpr ⟨?_, hopened⟩, fun hmem =>
        helsewhere (Finset.mem_of_mem_erase hmem)⟩
      rintro rfl
      exact helsewhere hfd
    · have hcount := htracked.closes.count
      have hpositive := Finset.card_pos.mpr ⟨fd, hfd⟩
      rw [Finset.card_erase_of_mem (htracked.closes.elsewhere hfd), Finset.card_erase_of_mem hfd]
      dsimp only
      omega
  registered := htracked.registered
  owned := by
    intro entry hentry
    rcases htracked.owned entry hentry with helsewhere | hsleep
    · refine Or.inl (Finset.mem_erase.mpr ⟨?_, helsewhere⟩)
      rintro rfl
      have hcontains : state.poller.poll.contains entry.fd = true :=
        Poll.contains_iff.mpr ⟨entry, hentry, rfl⟩
      rw [htracked.settled.missing hcareful] at hcontains
      cases hcontains
    · exact Or.inr hsleep
  timed := htracked.timed
  expired := htracked.expired

/-- The descriptors behind a call that has made its timer. -/
theorem Tracked.timed_update (htracked : state.Tracked) {timer : Handle}
    (hfresh : timer ∉ state.opened) (expiry : Option Nat) {sleep : Sleep}
    (hsleep : sleep ∈ state.asleep) :
    Function.update state.timers timer expiry sleep.fd = sleep.due := by
  rw [Function.update_of_ne (htracked.ne_of_fresh hsleep hfresh)]
  exact (htracked.timed sleep hsleep).2

theorem tracked_abandons (htracked : state.Tracked) {timer : Handle}
    (hfresh : timer ∉ state.opened) (expiry : Option Nat) :
    Tracked (state.abandons timer (Function.update state.timers timer expiry)) where
  settled := htracked.settled
  closes := by
    refine ⟨htracked.closes.elsewhere.trans (Finset.subset_insert _ _), fun sleep hsleep => ?_,
      htracked.closes.distinct, ?_⟩
    · exact (htracked.closes.asleep sleep hsleep).imp_left Finset.mem_insert_of_mem
    · have hcount := htracked.closes.count
      simp only [abandons]
      rw [Finset.card_insert_of_notMem hfresh]
      omega
  registered := htracked.registered
  owned := htracked.owned
  timed := fun sleep hsleep =>
    ⟨(htracked.timed sleep hsleep).1, htracked.timed_update hfresh expiry hsleep⟩
  expired := htracked.expired

theorem tracked_suspends (htracked : state.Tracked) {timer : Handle} {duration : Int}
    (hfree : state.poller.free = true) (hfresh : timer ∉ state.opened)
    (hnonneg : 0 ≤ duration) : Tracked (state.suspends timer duration) := by
  have hmissing := htracked.missing hfresh
  have hunwatched := htracked.settled.unwatched hmissing
  have hnew : ∀ {sleep : Sleep}, sleep ∈ (state.suspends timer duration).asleep →
      sleep ∈ state.asleep ∨ sleep = ⟨state.begun, timer, state.now, duration⟩ := by
    intro sleep hsleep
    exact (List.mem_append.mp hsleep).imp_right List.mem_singleton.mp
  constructor
  · have hstep := @Poller.Step.add (fun _ => none) 0 state.poller timer none hfree
      (Event.readable ||| Event.oneShot) fun _ => hunwatched
    have hcareful : state.poller.Careful (.add timer (Event.readable ||| Event.oneShot) none) :=
      trivial
    rw [Poll.exec_add_free hmissing] at hstep
    exact htracked.settled.step hcareful hstep
  · refine ⟨htracked.closes.elsewhere.trans (Finset.subset_insert _ _), fun sleep hsleep => ?_,
      ?_, ?_⟩
    · rcases hnew hsleep with hsleep | rfl
      · exact (htracked.closes.asleep sleep hsleep).imp_left Finset.mem_insert_of_mem
      · exact ⟨Finset.mem_insert_self _ _, fun hmem => hfresh (htracked.closes.elsewhere hmem)⟩
    · simp only [suspends, List.map_append, List.map_singleton]
      refine List.nodup_append.mpr ⟨htracked.closes.distinct, List.nodup_singleton _, ?_⟩
      intro fd hfd other hother
      obtain ⟨sleep, hsleep, rfl⟩ := List.mem_map.mp hfd
      rw [List.mem_singleton.mp hother]
      exact htracked.ne_of_fresh hsleep hfresh
    · have hcount := htracked.closes.count
      simp only [suspends]
      rw [Finset.card_insert_of_notMem hfresh, List.length_append, List.length_singleton]
      omega
  · intro sleep hsleep
    rcases hnew hsleep with hsleep | rfl
    · obtain ⟨entry, hentry, hagree⟩ := htracked.registered sleep hsleep
      exact ⟨entry, List.mem_append_left _ hentry, hagree⟩
    · exact ⟨_, List.mem_append_right _ List.mem_cons_self, rfl, rfl⟩
  · intro entry hentry
    rcases List.mem_append.mp hentry with hentry | hentry
    · refine (htracked.owned entry hentry).imp_right ?_
      rintro ⟨sleep, hsleep, hfd⟩
      exact ⟨sleep, List.mem_append_left _ hsleep, hfd⟩
    · obtain rfl := List.mem_singleton.mp hentry
      exact Or.inr ⟨_, List.mem_append_right _ List.mem_cons_self, rfl⟩
  · intro sleep hsleep
    rcases hnew hsleep with hsleep | rfl
    · exact ⟨(htracked.timed sleep hsleep).1, htracked.timed_update hfresh _ hsleep⟩
    · exact ⟨hnonneg, Function.update_self _ _ _⟩
  · intro sleep hsleep hpending
    rcases hnew hsleep with hsleep | rfl
    · exact htracked.expired sleep hsleep hpending
    · exact absurd hpending (htracked.settled.notPending hmissing)

/-! ### Waking -/

section Wake

variable {sleep : Sleep} {events : List Handle} {waits : List Wait} {errno : Nat}
  {entry : Registration} {poll : Poll}

/-- The callback of a sleep is found and taken out, and there is nothing left to close in EPoll. -/
theorem poller_wake (htracked : state.Tracked) (hsleep : sleep ∈ state.asleep)
    (hwaits : state.poller.waits = ⟨sleep.fd :: events, false⟩ :: waits)
    (hdispatch : (Poll.dispatch systemError sleep.fd errno).exec state.poller.poll =
      (.ok entry, poll)) :
    poll = state.poller.poll.erase sleep.fd ∧
      ((state.calls entry poll events waits).awaitResume sleep).poller =
        (state.calls entry poll events waits).poller ∧
      ((state.calls entry poll events waits).awaitResume sleep).poller.Settled := by
  have hstep := @Poller.Step.dispatch systemError 0 state.poller sleep.fd events waits errno entry
    poll hwaits hdispatch
  obtain ⟨hentry, hfd, -, hpoll⟩ := Poll.dispatch_eq_ok hdispatch
  obtain ⟨found, hfound, hsame, honeShot⟩ := htracked.registered sleep hsleep
  obtain rfl := List.inj_on_of_nodup_map htracked.settled.balanced.distinct hfound hentry
    (hsame.trans hfd.symm)
  rw [honeShot, if_pos rfl] at hpoll
  have hpoller : ((state.calls found poll events waits).awaitResume sleep).poller =
      (state.calls found poll events waits).poller := by
    simp only [awaitResume, calls, hpoll, Poll.close_erase]
  have hcareful : state.poller.Careful (.dispatch errno) := trivial
  exact ⟨hpoll, hpoller, hpoller ▸ htracked.settled.step hcareful hstep⟩

theorem tracked_wake (htracked : state.Tracked) (hsleep : sleep ∈ state.asleep)
    (hwaits : state.poller.waits = ⟨sleep.fd :: events, false⟩ :: waits)
    (hdispatch : (Poll.dispatch systemError sleep.fd errno).exec state.poller.poll =
      (.ok entry, poll)) :
    Tracked ((state.calls entry poll events waits).awaitResume sleep) := by
  obtain ⟨hpoll, hpoller, hsettled⟩ := poller_wake htracked hsleep hwaits hdispatch
  have hnodup : state.asleep.Nodup := htracked.closes.distinct.of_map
  have hrest : ∀ {other : Sleep}, other ∈ state.asleep.erase sleep →
      other ∈ state.asleep ∧ other.fd ≠ sleep.fd := by
    intro other hother
    obtain ⟨hne, hother⟩ := hnodup.mem_erase_iff.mp hother
    exact ⟨hother, fun heq =>
      hne (List.inj_on_of_nodup_map htracked.closes.distinct hother hsleep heq)⟩
  subst hpoll
  refine ⟨hsettled, ?_, ?_, ?_, ?_, ?_⟩
  · refine ⟨fun fd hfd => Finset.mem_erase.mpr ⟨?_, htracked.closes.elsewhere hfd⟩,
      fun other hother => ?_, ?_, ?_⟩
    · rintro rfl
      exact (htracked.closes.asleep sleep hsleep).2 hfd
    · obtain ⟨hother, hne⟩ := hrest hother
      obtain ⟨hopened, helsewhere⟩ := htracked.closes.asleep other hother
      exact ⟨Finset.mem_erase.mpr ⟨hne, hopened⟩, helsewhere⟩
    · exact htracked.closes.distinct.sublist (List.erase_sublist.map Sleep.fd)
    · have hcount := htracked.closes.count
      have hopened := (htracked.closes.asleep sleep hsleep).1
      have hlength := List.length_erase_of_mem hsleep
      have hpositive := List.length_pos_of_mem hsleep
      simp only [awaitResume, calls]
      rw [Finset.card_erase_of_mem hopened, hlength]
      omega
  · intro other hother
    obtain ⟨hother, hne⟩ := hrest hother
    obtain ⟨found, hfound, hfd, honeShot⟩ := htracked.registered other hother
    refine ⟨found, ?_, hfd, honeShot⟩
    rw [hpoller]
    exact Poll.mem_erase_callbacks.mpr ⟨hfound, hfd ▸ hne⟩
  · intro found hfound
    rw [hpoller] at hfound
    obtain ⟨hfound, hne⟩ := Poll.mem_erase_callbacks.mp hfound
    refine (htracked.owned found hfound).imp_right ?_
    rintro ⟨other, hother, hfd⟩
    refine ⟨other, hnodup.mem_erase_iff.mpr ⟨?_, hother⟩, hfd⟩
    rintro rfl
    exact hne hfd.symm
  · intro other hother
    obtain ⟨hother, hne⟩ := hrest hother
    refine ⟨(htracked.timed other hother).1, ?_⟩
    exact (Function.update_of_ne hne _ _).trans (htracked.timed other hother).2
  · intro other hother hpending
    refine htracked.expired other (hrest hother).1 ?_
    rw [Poller.pending_of_waits hwaits]
    exact List.mem_cons_of_mem _ hpending

end Wake

/-- What a call of `await_suspend` comes to. -/
theorem sleep_cases (htracked : state.Tracked) {created : Option Handle} {duration : Int}
    {errno : Nat} {answer : Option Nat} (hfits : FitsNanoseconds duration)
    (hfresh : ∀ timer, created = some timer → timer ∉ state.opened) :
    state.sleep systemError 0 duration created errno answer = state ∨
      ∃ timer ∉ state.opened,
        (∃ expiry, state.sleep systemError 0 duration created errno answer =
          state.abandons timer (Function.update state.timers timer expiry)) ∨
        (0 ≤ duration ∧
          state.sleep systemError 0 duration created errno answer =
            state.suspends timer duration) := by
  cases created with
  | none => exact Or.inl (sleep_none hfits)
  | some timer =>
      have hopened := hfresh timer rfl
      refine Or.inr ⟨timer, hopened, ?_⟩
      exact (sleep_some hfits hopened (htracked.missing hopened)).imp_right fun hsleeps =>
        ⟨hsleeps.1, hsleeps.2.2⟩

theorem tracked_step (htracked : state.Tracked) (hcareful : state.Careful action)
    (hstep : Step systemError bufferSize state action next) : next.Tracked := by
  cases hstep with
  | sleep hfree hfresh hkernel duration errno =>
      obtain ⟨rfl, hfits⟩ := hcareful
      rcases sleep_cases htracked hfits hfresh with
        hsame | ⟨timer, hopened, ⟨expiry, hsleep⟩ | ⟨hnonneg, hsleep⟩⟩
      · rw [hsame]
        exact htracked
      · rw [hsleep]
        exact tracked_abandons htracked hopened expiry
      · rw [hsleep]
        exact tracked_suspends htracked hfree hopened hnonneg
  | wake hwaits hsleep hdispatch => exact tracked_wake htracked hsleep hwaits hdispatch
  | tick elapsed => exact tracked_tick htracked elapsed
  | openElsewhere hfresh => exact tracked_openElsewhere htracked hfresh
  | closeElsewhere hfree hfd => exact tracked_closeElsewhere htracked hfree hfd hcareful
  | poll hpermits hstep =>
      exact tracked_poll htracked (spares_of_permits htracked hpermits hcareful hstep)

/-! ### What the runs record -/

structure Recorded (state : Sleeping) : Prop where
  each : (state.sleeps.map Sleep.number).Perm (List.range state.begun)
  timely : ∀ entry ∈ state.woken,
    0 < entry.1.duration ∧ entry.1.since + entry.1.duration ≤ entry.2
  past : ∀ entry ∈ state.woken, entry.2 ≤ state.now

theorem recorded_suspends (hrecorded : state.Recorded) (timer : Handle) (duration : Int) :
    (state.suspends timer duration).Recorded := by
  refine ⟨?_, hrecorded.timely, hrecorded.past⟩
  have hbehind : ((state.suspends timer duration).sleeps.map Sleep.number).Perm
      (state.sleeps.map Sleep.number ++ [state.begun]) := by
    simp only [sleeps, suspends, List.map_append, List.map_singleton, List.append_assoc]
    exact List.Perm.append_left _ List.perm_append_comm
  change List.Perm _ (List.range (state.begun + 1))
  rw [List.range_succ]
  exact hbehind.trans (hrecorded.each.append_right _)

theorem recorded_wake (htracked : state.Tracked) (hrecorded : state.Recorded) {sleep : Sleep}
    {events : List Handle} {waits : List Wait} (hsleep : sleep ∈ state.asleep)
    (hwaits : state.poller.waits = ⟨sleep.fd :: events, false⟩ :: waits) (entry : Registration)
    (poll : Poll) : Recorded ((state.calls entry poll events waits).awaitResume sleep) := by
  have hpending : sleep.fd ∈ state.poller.pending := by
    rw [Poller.pending_of_waits hwaits]
    exact List.mem_append_left _ List.mem_cons_self
  obtain ⟨due, hdue, hnow⟩ := htracked.expired sleep hsleep hpending
  have hnonneg := (htracked.timed sleep hsleep).1
  have hwoken : ∀ {past : Sleep × Nat}, past ∈ state.woken ++ [(sleep, state.now)] →
      past ∈ state.woken ∨ past = (sleep, state.now) := fun hpast =>
    (List.mem_append.mp hpast).imp_right List.mem_singleton.mp
  refine ⟨?_, ?_, ?_⟩
  · refine List.Perm.trans ?_ hrecorded.each
    refine List.Perm.map Sleep.number ?_
    have hmoved : (state.asleep.erase sleep ++ (state.woken.map Prod.fst ++ [sleep])).Perm
        (sleep :: state.asleep.erase sleep ++ state.woken.map Prod.fst) := by
      rw [← List.append_assoc]
      exact List.perm_append_comm
    simp only [sleeps, awaitResume, calls, List.map_append, List.map_singleton]
    exact hmoved.trans ((List.perm_cons_erase hsleep).symm.append_right _)
  · intro past hpast
    rcases hwoken hpast with hpast | rfl
    · exact hrecorded.timely past hpast
    · rw [Sleep.due] at hdue
      split_ifs at hdue with hzero
      obtain rfl := Option.some.inj hdue
      dsimp only
      omega
  · intro past hpast
    rcases hwoken hpast with hpast | rfl
    · exact hrecorded.past past hpast
    · exact Nat.le_refl _

theorem recorded_step (htracked : state.Tracked) (hrecorded : state.Recorded)
    (hcareful : state.Careful action) (hstep : Step systemError bufferSize state action next) :
    next.Recorded := by
  obtain ⟨heach, htimely, hpast⟩ := hrecorded
  cases hstep with
  | sleep hfree hfresh hkernel duration errno =>
      obtain ⟨rfl, hfits⟩ := hcareful
      rcases sleep_cases htracked hfits hfresh with
        hsame | ⟨timer, hopened, ⟨expiry, hsleep⟩ | ⟨hnonneg, hsleep⟩⟩
      · rw [hsame]
        exact ⟨heach, htimely, hpast⟩
      · rw [hsleep]
        exact ⟨heach, htimely, hpast⟩
      · rw [hsleep]
        exact recorded_suspends ⟨heach, htimely, hpast⟩ timer duration
  | wake hwaits hsleep hdispatch =>
      exact recorded_wake htracked ⟨heach, htimely, hpast⟩ hsleep hwaits _ _
  | tick elapsed =>
      exact ⟨heach, htimely, fun entry hentry => (hpast entry hentry).trans (Nat.le_add_right _ _)⟩
  | openElsewhere hfresh => exact ⟨heach, htimely, hpast⟩
  | closeElsewhere hfree hfd => exact ⟨heach, htimely, hpast⟩
  | poll hpermits hstep => exact ⟨heach, htimely, hpast⟩

theorem kept_of_run {opened : Finset Handle} {actions : List Action}
    (hrun : Run (CarefulStep systemError bufferSize) (start opened) actions state) :
    state.Tracked ∧ state.Recorded :=
  hrun.preserves (fun state => state.Tracked ∧ state.Recorded)
    (fun _ ⟨hcareful, hstep⟩ ⟨htracked, hrecorded⟩ =>
      ⟨tracked_step htracked hcareful hstep, recorded_step htracked hrecorded hcareful hstep⟩)
    (fun _ _ => trivial) ⟨tracked_start opened, List.Perm.nil, nofun, nofun⟩

theorem served_of_tracked (htracked : state.Tracked) {sleep : Sleep}
    (hsleep : sleep ∈ state.asleep) :
    ∃ watch ∈ state.poller.poll.watches, watch.fd = sleep.fd ∧
      (watch.armed = true ∨ sleep.fd ∈ state.poller.pending) := by
  obtain ⟨entry, hentry, hfd, -⟩ := htracked.registered sleep hsleep
  rw [← hfd]
  exact htracked.settled.awake entry hentry

/-- A coroutine has slept for five nanoseconds, and a callback of other code, for which there was an
event in the same batch, has removed and closed its descriptor and thrown. -/
def nap : Sleeping where
  poller := ⟨⟨[], [], 2⟩, [], [1, 0], [⟨3, 1, true⟩], [⟨4, 0, false⟩], []⟩
  now := 5
  opened := ((insert 3 (insert 4 {0}) : Finset Handle).erase 3).erase 4
  timers := Function.update (Function.update (fun _ => none) 3 (some 5)) 3 none
  elsewhere := (insert 4 {0} : Finset Handle).erase 4
  begun := 1
  asleep := []
  woken := [(⟨0, 3, 0, 5⟩, 5)]
  failed := 0

theorem run_nap : Run (CarefulStep (fun _ => none) 32) (start {0})
    [.openElsewhere 4, .poll (.add 4 Event.readable none), .sleep 0 5 (some 3) 0 none, .tick 5,
      .poll (.wait [3, 4]), .wake 0, .poll .returns, .poll (.dispatch 0), .poll (.remove 4 0),
      .closeElsewhere 4, .poll .throws] nap := by
  have hfour : 4 ∈ (insert 4 {0} : Finset Handle) := Finset.mem_insert_self 4 {0}
  refine .cons ⟨trivial, .openElsewhere (by decide)⟩ <|
    .cons ⟨trivial, .poll hfour (.add rfl Event.readable fun _ => rfl)⟩ <|
    .cons ⟨⟨rfl, by decide⟩, .sleep rfl (by rintro _ ⟨⟩; decide) nofun 5 0⟩ <|
    .cons ⟨trivial, .tick _ 5⟩ <|
    .cons ⟨trivial, .poll ?_ (.wait rfl (by decide) (by decide) (by decide) ?_)⟩ <|
    .cons ⟨trivial, .wake rfl List.mem_cons_self rfl⟩ <|
    .cons ⟨trivial, .poll trivial (.returns rfl)⟩ <|
    .cons ⟨trivial, .poll (fun _ _ _ _ _ _ _ _ => nofun) (.dispatch rfl rfl)⟩ <|
    .cons ⟨List.not_mem_nil, .poll hfour (.remove rfl 4 0)⟩ <|
    .cons ⟨rfl, .closeElsewhere rfl hfour⟩ <|
    .cons ⟨fun _ _ _ => nofun, .poll trivial (.throws rfl)⟩ (.nil _)
  · intro fd hfd
    simp only [List.mem_cons, List.not_mem_nil, or_false] at hfd
    rcases hfd with rfl | rfl
    · exact Or.inr ⟨5, rfl, le_rfl⟩
    · exact Or.inl hfour
  · intro fd hfd
    simp only [List.mem_cons, List.not_mem_nil, or_false] at hfd
    rcases hfd with rfl | rfl
    · exact ⟨_, List.mem_cons_of_mem _ List.mem_cons_self, rfl, rfl⟩
    · exact ⟨_, List.mem_cons_self, rfl, rfl⟩

/-- **Sleeping.** Whatever else goes on, each sleep that has begun is on or over, none wakes before
its time, and one that is on is not forgotten. -/
theorem sleepSound_of_run {opened : Finset Handle} {actions : List Action}
    (hrun : Run (CarefulStep systemError bufferSize) (start opened) actions state) :
    state.Sound := by
  obtain ⟨htracked, hrecorded⟩ := kept_of_run hrun
  exact ⟨hrecorded.each, hrecorded.timely, fun sleep hsleep =>
    ⟨(htracked.timed sleep hsleep).1, (htracked.timed sleep hsleep).2,
      served_of_tracked htracked hsleep⟩⟩

theorem sleepSound_of_run_nap : nap.Sound := sleepSound_of_run run_nap

/-- A sleep is over, and its timer's number is that of a descriptor of other code. -/
def reopened : Sleeping where
  poller := ⟨⟨[], [], 1⟩, [], [0], [⟨3, 0, true⟩], [], []⟩
  now := 5
  opened := insert 3 {0}
  timers := Function.update (Function.update (fun _ => none) 3 (some 5)) 3 none
  elsewhere := insert 3 {0}
  begun := 1
  asleep := []
  woken := [(⟨0, 3, 0, 5⟩, 5)]
  failed := 0

theorem run_reopened : Run (Step (fun _ => none) 32) (start {0})
    [.sleep 0 5 (some 3) 0 none, .tick 5, .poll (.wait [3]), .wake 0, .poll .returns,
      .poll .finish, .openElsewhere 3] reopened := by
  refine .cons (.sleep rfl (by rintro _ ⟨⟩; decide) nofun 5 0) <| .cons (.tick _ 5) <|
    .cons (.poll ?_ (.wait rfl (by decide) (by decide) (by decide) ?_)) <|
    .cons (.wake rfl List.mem_cons_self rfl) <| .cons (.poll trivial (.returns rfl)) <|
    .cons (.poll trivial (.finish rfl)) <| .cons (.openElsewhere (by decide)) (.nil _)
  · rintro fd hfd
    obtain rfl := List.mem_singleton.mp hfd
    exact Or.inr ⟨5, rfl, le_rfl⟩
  · rintro fd hfd
    obtain rfl := List.mem_singleton.mp hfd
    exact ⟨_, List.mem_cons_self, rfl, rfl⟩

/-- An object that is awaited again closes what has got the number of its timer since. -/
theorem not_closes_awaited_again : ∃ actions final,
    Run (Step (fun _ => none) 32) (start {0}) actions final ∧ ¬ final.Closes := by
  have hthree : 3 ∈ (insert 3 {0} : Finset Handle) := Finset.mem_insert_self 3 {0}
  suffices hagain : ∃ final, Run (Step (fun _ => none) 32) reopened
      [.sleep 3 5 none 0 none, .poll (.wait [3]), .wake 0] final ∧ ¬ final.Closes by
    obtain ⟨final, hrun, hcloses⟩ := hagain
    exact ⟨_, final, run_reopened.append hrun, hcloses⟩
  refine ⟨_, .cons (.sleep rfl (by nofun) (fun _ _ => ⟨hthree, rfl⟩) 5 0) <|
    .cons (.poll ?_ (.wait rfl (by decide) (by decide) (by decide) ?_)) <|
    .cons (.wake rfl List.mem_cons_self rfl) (.nil _), fun hcloses => ?_⟩
  · rintro fd hfd
    obtain rfl := List.mem_singleton.mp hfd
    exact Or.inl hthree
  · rintro fd hfd
    obtain rfl := List.mem_singleton.mp hfd
    exact ⟨_, List.mem_cons_self, rfl, rfl⟩
  · exact Finset.notMem_erase 3 _ (hcloses.elsewhere hthree)

end Sleeping

end Liblw.Co
