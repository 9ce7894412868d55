import Liblw.Co.Polling

/-!
# What becomes of a callback

The callbacks that are registered, fired, removed and dropped are all that ever were, each of them
once, over any run. What each call of `EPoll` does is said once, and with it every step is a step of
the ledger or leaves the ledger alone.
-/

namespace Liblw.Co

open Liblw.Lib

/-! ### The calls -/

theorem oneShot_coEventToEpollEvent (fd : Handle) (events : Event) (armed : Bool) :
    (Watch.mk fd (coEventToEpollEvent events) armed).oneShot = events.has .oneShot := by
  have hand : ∀ (put : Bool) (flag : BitVec 32), (if put then flag else 0) &&& EPOLLONESHOT =
      if put then flag &&& EPOLLONESHOT else 0 := by
    intro put flag
    split <;> simp
  unfold Watch.oneShot coEventToEpollEvent
  simp only [BitVec.and_or_distrib_right, hand]
  cases events.has Event.oneShot <;> simp [EPOLLIN, EPOLLPRI, EPOLLOUT, EPOLLERR, EPOLLHUP,
    EPOLLRDHUP, EPOLLEXCLUSIVE, EPOLLWAKEUP, EPOLLONESHOT, EPOLLET]

namespace Poll

variable {systemError : Nat → Option Error} {poll : Poll} {fd : Handle} {events : Event}
  {answer : Option Nat} {errno : Nat}

theorem contains_iff : poll.contains fd = true ↔ ∃ entry ∈ poll.callbacks, entry.fd = fd := by
  unfold contains
  rw [List.any_eq_true]
  simp only [decide_eq_true_eq]

theorem watched_iff : poll.watched fd = true ↔ ∃ watch ∈ poll.watches, watch.fd = fd := by
  unfold watched
  rw [List.any_eq_true]
  simp only [decide_eq_true_eq]

/-- Without the handle, in both lists. -/
def erase (fd : Handle) (poll : Poll) : Poll :=
  { poll with
    callbacks := poll.callbacks.filter fun entry => entry.fd ≠ fd
    watches := poll.watches.filter fun watch => watch.fd ≠ fd }

/-- With a callback for the handle, in both lists. -/
def insert (fd : Handle) (events : Event) (poll : Poll) : Poll :=
  { poll with
    callbacks := poll.callbacks ++ [⟨fd, poll.registered, events.has .oneShot⟩]
    watches := poll.watches ++ [⟨fd, coEventToEpollEvent events, true⟩]
    registered := poll.registered + 1 }

theorem exec_add_taken (htaken : poll.contains fd = true) :
    (add systemError fd events answer).exec poll =
      (.error (.thrown ⟨.alreadyExists, "Handle already registered with epoll."⟩), poll) := by
  unfold add
  rw [Call.exec_get_bind, htaken]
  rfl

theorem exec_add_free (hfree : poll.contains fd = false) :
    (add systemError fd events none).exec poll = (.ok (), poll.insert fd events) := by
  unfold add
  rw [Call.exec_get_bind, hfree]
  rfl

theorem exec_add_refused (hfree : poll.contains fd = false) :
    (add systemError fd events (some errno)).exec poll =
      (.error (systemFault systemError errno
        "Unknown error from epoll_ctl when adding handle."), poll) := by
  unfold add
  rw [Call.exec_get_bind, hfree]
  rfl

/-- `add` changes nothing, or it has put a new handle into both lists. -/
theorem exec_add_cases :
    ((add systemError fd events answer).exec poll).2 = poll ∨
      (answer = none ∧ poll.contains fd = false ∧
        ((add systemError fd events answer).exec poll).2 = poll.insert fd events) := by
  cases hcontains : poll.contains fd with
  | true => exact Or.inl (by rw [exec_add_taken hcontains])
  | false =>
      cases answer with
      | none => exact Or.inr ⟨rfl, rfl, by rw [exec_add_free hcontains]⟩
      | some errno => exact Or.inl (by rw [exec_add_refused hcontains])

theorem filter_watches (hwatched : poll.watched fd = false) :
    poll.watches.filter (fun watch => watch.fd ≠ fd) = poll.watches := by
  rw [List.filter_eq_self]
  intro watch hwatch
  rw [decide_eq_true_eq]
  intro hfd
  rw [watched_iff.mpr ⟨watch, hwatch, hfd⟩] at hwatched
  cases hwatched

theorem exec_ctlDel (hwatched : poll.watched fd = true) :
    (ctlDel systemError fd errno).exec poll =
      (.ok (), { poll with watches := poll.watches.filter fun watch => watch.fd ≠ fd }) := by
  unfold ctlDel
  rw [Call.exec_get_bind, if_pos hwatched]
  rfl

theorem exec_ctlDel_fails (hwatched : poll.watched fd = false) :
    (ctlDel systemError fd errno).exec poll =
      (.error (systemFault systemError errno "Unknown error from epoll_ctl when removing handle."),
        poll) := by
  unfold ctlDel
  rw [Call.exec_get_bind, hwatched]
  rfl

theorem exec_remove_missing (hmissing : poll.contains fd = false) :
    (remove systemError fd errno).exec poll =
      (.error (.thrown ⟨.failedPrecondition, "Handle not registered with epoll."⟩), poll) := by
  unfold remove
  rw [Call.exec_get_bind, hmissing]
  rfl

theorem exec_remove (hcontains : poll.contains fd = true) (hwatched : poll.watched fd = true) :
    (remove systemError fd errno).exec poll = (.ok (), poll.erase fd) := by
  unfold remove
  rw [Call.exec_get_bind, hcontains]
  exact exec_ctlDel hwatched

/-- The callback of a handle that the kernel does not know is gone before the kernel says so. -/
theorem exec_remove_fails (hcontains : poll.contains fd = true)
    (hwatched : poll.watched fd = false) :
    (remove systemError fd errno).exec poll =
      (.error (systemFault systemError errno "Unknown error from epoll_ctl when removing handle."),
        poll.erase fd) := by
  have hpoll : poll.erase fd =
      { poll with callbacks := poll.callbacks.filter fun entry => entry.fd ≠ fd } := by
    rw [erase, filter_watches hwatched]
  unfold remove
  rw [Call.exec_get_bind, hcontains, hpoll]
  exact exec_ctlDel_fails hwatched

/-- Whatever `remove` returns or throws, the handle is in neither list behind it. -/
theorem exec_remove_cases :
    (poll.contains fd = false ∧ ((remove systemError fd errno).exec poll).2 = poll) ∨
      (poll.contains fd = true ∧ ((remove systemError fd errno).exec poll).2 = poll.erase fd) := by
  cases hcontains : poll.contains fd with
  | false => exact Or.inl ⟨rfl, by rw [exec_remove_missing hcontains]⟩
  | true =>
      refine Or.inr ⟨rfl, ?_⟩
      cases hwatched : poll.watched fd with
      | false => rw [exec_remove_fails hcontains hwatched]
      | true => rw [exec_remove hcontains hwatched]

theorem contains_of_find? {entry : Registration}
    (hfind : poll.callbacks.find? (fun entry => entry.fd = fd) = some entry) :
    entry ∈ poll.callbacks ∧ entry.fd = fd ∧ poll.contains fd = true := by
  have hmem := List.mem_of_find?_eq_some hfind
  have hfd : entry.fd = fd := by simpa using List.find?_some hfind
  exact ⟨hmem, hfd, contains_iff.mpr ⟨entry, hmem, hfd⟩⟩

theorem exec_dispatch_missing
    (hfind : poll.callbacks.find? (fun entry => entry.fd = fd) = none) :
    (dispatch systemError fd errno).exec poll = (.error (.thrown
      ⟨.internal, "Received event trigger for handle not in callbacks map."⟩), poll) := by
  unfold dispatch
  rw [Call.exec_get_bind, hfind]
  rfl

section Found

variable {entry : Registration}

theorem exec_dispatch (hfind : poll.callbacks.find? (fun entry => entry.fd = fd) = some entry)
    (honeShot : entry.oneShot = false) :
    (dispatch systemError fd errno).exec poll = (.ok entry, poll) := by
  unfold dispatch
  rw [Call.exec_get_bind, hfind]
  simp only [honeShot]
  rfl

theorem exec_dispatch_once
    (hfind : poll.callbacks.find? (fun entry => entry.fd = fd) = some entry)
    (honeShot : entry.oneShot = true) (hwatched : poll.watched fd = true) :
    (dispatch systemError fd errno).exec poll = (.ok entry, poll.erase fd) := by
  obtain ⟨-, -, hcontains⟩ := contains_of_find? hfind
  have hremove : (tryCatch (remove systemError fd errno)
      fun fault => throw (thrownByCallback fault)).exec poll = (.ok (), poll.erase fd) := by
    rw [Call.exec_tryCatch, exec_remove hcontains hwatched]
  unfold dispatch
  rw [Call.exec_get_bind, hfind]
  simp only [honeShot, ↓reduceIte]
  rw [Call.exec_bind_ok hremove, Call.exec_pure]

/-- The callback for one event of a handle that was closed is taken out and not called. -/
theorem exec_dispatch_closed
    (hfind : poll.callbacks.find? (fun entry => entry.fd = fd) = some entry)
    (honeShot : entry.oneShot = true) (hwatched : poll.watched fd = false) :
    ∃ fault, (dispatch systemError fd errno).exec poll = (.error fault, poll.erase fd) := by
  obtain ⟨-, -, hcontains⟩ := contains_of_find? hfind
  have hremove : (tryCatch (remove systemError fd errno)
      fun fault => throw (thrownByCallback fault)).exec poll =
        (.error (thrownByCallback (systemFault systemError errno
          "Unknown error from epoll_ctl when removing handle.")), poll.erase fd) := by
    rw [Call.exec_tryCatch, exec_remove_fails hcontains hwatched]
    rfl
  refine ⟨thrownByCallback (systemFault systemError errno
    "Unknown error from epoll_ctl when removing handle."), ?_⟩
  unfold dispatch
  rw [Call.exec_get_bind, hfind]
  simp only [honeShot, ↓reduceIte]
  rw [Call.exec_bind_error hremove]

end Found

/-- A round that comes to its call has found the callback, and taken it out if it is for one event
only. -/
theorem dispatch_eq_ok {entry : Registration} {next : Poll}
    (hdispatch : (dispatch systemError fd errno).exec poll = (.ok entry, next)) :
    entry ∈ poll.callbacks ∧ entry.fd = fd ∧ poll.contains fd = true ∧
      next = if entry.oneShot then poll.erase fd else poll := by
  cases hfind : poll.callbacks.find? fun entry => entry.fd = fd with
  | none =>
      rw [exec_dispatch_missing hfind] at hdispatch
      cases hdispatch
  | some found =>
      obtain ⟨hmem, hfd, hcontains⟩ := contains_of_find? hfind
      cases honeShot : found.oneShot with
      | false =>
          rw [exec_dispatch hfind honeShot] at hdispatch
          cases hdispatch
          exact ⟨hmem, hfd, hcontains, by rw [honeShot]; rfl⟩
      | true =>
          cases hwatched : poll.watched fd with
          | false =>
              obtain ⟨fault, hfails⟩ := @exec_dispatch_closed systemError _ _ errno _ hfind
                honeShot hwatched
              rw [hfails] at hdispatch
              cases hdispatch
          | true =>
              rw [exec_dispatch_once hfind honeShot hwatched] at hdispatch
              cases hdispatch
              exact ⟨hmem, hfd, hcontains, by rw [honeShot]; rfl⟩

/-- A round that fails has not found the callback, or the kernel does not know the handle of one for
one event. -/
theorem dispatch_eq_error {fault : Fault} {next : Poll}
    (hdispatch : (dispatch systemError fd errno).exec poll = (.error fault, next)) :
    (poll.contains fd = false ∧ next = poll) ∨
      (poll.watched fd = false ∧ next = poll.erase fd) := by
  cases hfind : poll.callbacks.find? fun entry => entry.fd = fd with
  | none =>
      rw [exec_dispatch_missing hfind] at hdispatch
      cases hdispatch
      refine Or.inl ⟨Bool.eq_false_iff.mpr fun hcontains => ?_, rfl⟩
      obtain ⟨entry, hmem, hfd⟩ := contains_iff.mp hcontains
      exact absurd hfd (by simpa using List.find?_eq_none.mp hfind entry hmem)
  | some found =>
      cases honeShot : found.oneShot with
      | false =>
          rw [exec_dispatch hfind honeShot] at hdispatch
          cases hdispatch
      | true =>
          cases hwatched : poll.watched fd with
          | true =>
              rw [exec_dispatch_once hfind honeShot hwatched] at hdispatch
              cases hdispatch
          | false =>
              obtain ⟨fault, hfails⟩ := @exec_dispatch_closed systemError _ _ errno _ hfind
                honeShot hwatched
              rw [hfails] at hdispatch
              cases hdispatch
              exact Or.inr ⟨rfl, rfl⟩

/-- A round for a handle that the kernel watches and that has a callback comes to its call. -/
theorem dispatch_of_watched (hcontains : poll.contains fd = true)
    (hwatched : poll.watched fd = true) :
    ∃ entry next, (dispatch systemError fd errno).exec poll = (.ok entry, next) := by
  rcases hdispatch : (dispatch systemError fd errno).exec poll with ⟨result, next⟩
  cases result with
  | ok entry => exact ⟨entry, next, rfl⟩
  | error fault =>
      rcases dispatch_eq_error hdispatch with ⟨hmissing, -⟩ | ⟨hclosed, -⟩
      · rw [hcontains] at hmissing
        cases hmissing
      · rw [hwatched] at hclosed
        cases hclosed

end Poll

/-! ### The ledger -/

namespace Ledger

variable {ledger next : Ledger}

theorem without_append_entriesOf (ledger : Ledger) (fd : Handle) :
    (ledger.without fd ++ ledger.entriesOf fd).Perm ledger.registrations := by
  have hperm := List.filter_append_perm (fun entry : Registration => decide (entry.fd ≠ fd))
    ledger.registrations
  simpa [without, entriesOf] using hperm

theorem mem_without {fd : Handle} {entry : Registration} :
    entry ∈ ledger.without fd ↔ entry ∈ ledger.registrations ∧ entry.fd ≠ fd := by
  simp [without]

theorem mem_entriesOf {fd : Handle} {entry : Registration} :
    entry ∈ ledger.entriesOf fd ↔ entry ∈ ledger.registrations ∧ entry.fd = fd := by
  simp [entriesOf]

theorem entriesOf_eq_nil_iff {fd : Handle} :
    ledger.entriesOf fd = [] ↔ fd ∉ ledger.registrations.map Registration.fd := by
  rw [entriesOf, List.filter_eq_nil_iff, List.mem_map]
  simp

theorem entriesOf_of_mem (hdistinct : (ledger.registrations.map Registration.fd).Nodup)
    {entry : Registration} (hentry : entry ∈ ledger.registrations) :
    ledger.entriesOf entry.fd = [entry] := by
  unfold entriesOf
  generalize ledger.registrations = registrations at hdistinct hentry
  obtain ⟨before, after, rfl⟩ := List.append_of_mem hentry
  rw [List.map_append, List.map_cons] at hdistinct
  obtain ⟨-, hafter, hapart⟩ := List.nodup_append.mp hdistinct
  have hbefore : before.filter (fun other => other.fd = entry.fd) = [] := by
    rw [List.filter_eq_nil_iff]
    intro other hother
    simpa using hapart other.fd (List.mem_map_of_mem hother) entry.fd List.mem_cons_self
  have hbehind : after.filter (fun other => other.fd = entry.fd) = [] := by
    rw [List.filter_eq_nil_iff]
    intro other hother
    have hne : other.fd ≠ entry.fd := by
      rintro heq
      exact (List.nodup_cons.mp hafter).1 (heq ▸ List.mem_map_of_mem hother)
    simpa using hne
  rw [List.filter_append, List.filter_cons, hbefore, hbehind]
  simp

theorem balanced_make : Balanced make where
  distinct := List.nodup_nil
  each := List.Perm.refl _
  called := nofun
  fired := nofun
  waiting := nofun

section Balanced

variable (hbalanced : ledger.Balanced)
include hbalanced

theorem Balanced.nodup : (ledger.entries.map Registration.number).Nodup :=
  hbalanced.each.nodup_iff.mpr List.nodup_range

theorem Balanced.number_lt {entry : Registration} (hentry : entry ∈ ledger.entries) :
    entry.number < ledger.registered :=
  List.mem_range.mp (hbalanced.each.mem_iff.mp (List.mem_map_of_mem hentry))

theorem Balanced.distinct_without (fd : Handle) :
    ((ledger.without fd).map Registration.fd).Nodup :=
  hbalanced.distinct.sublist (List.filter_sublist.map Registration.fd)

/-- Two callbacks with one number are one. -/
theorem Balanced.number_injective {first second : Registration} (hfirst : first ∈ ledger.entries)
    (hsecond : second ∈ ledger.entries) (hnumber : first.number = second.number) :
    first = second :=
  List.inj_on_of_nodup_map hbalanced.nodup hfirst hsecond hnumber

/-- No callback that is registered stands anywhere else. -/
theorem Balanced.apart {entry other : Registration} (hentry : entry ∈ ledger.registrations)
    (hother : other ∈ ledger.fired ++ ledger.removed ++ ledger.dropped) :
    entry.number ≠ other.number := by
  have hnodup := hbalanced.nodup
  rw [entries, List.append_assoc, List.append_assoc, List.map_append, List.nodup_append] at hnodup
  rw [List.append_assoc] at hother
  exact hnodup.2.2 _ (List.mem_map_of_mem hentry) _ (List.mem_map_of_mem hother)

theorem balanced_register {fd : Handle} (hfree : ledger.entriesOf fd = []) (oneShot : Bool) :
    Balanced { ledger with
      registrations := ledger.registrations ++ [⟨fd, ledger.registered, oneShot⟩]
      registered := ledger.registered + 1 } where
  distinct := by
    rw [List.map_append, List.map_singleton, List.nodup_append]
    refine ⟨hbalanced.distinct, List.nodup_singleton _, ?_⟩
    rintro other hother found hfound rfl
    rw [List.mem_singleton.mp hfound] at hother
    exact entriesOf_eq_nil_iff.mp hfree hother
  each := by
    rw [List.range_succ]
    refine List.Perm.trans ?_ (hbalanced.each.append_right [ledger.registered])
    rw [List.perm_iff_count]
    intro number
    simp only [entries, List.map_append, List.count_append, List.map_singleton]
    omega
  called := fun number hnumber => Nat.lt_succ_of_lt (hbalanced.called number hnumber)
  fired := hbalanced.fired
  waiting := by
    intro entry hentry honeShot hcalled
    simp only [List.mem_append, List.mem_singleton] at hentry
    rcases hentry with ((hentry | rfl) | hentry) | hentry
    · exact hbalanced.waiting entry (by simp [hentry]) honeShot hcalled
    · exact Nat.lt_irrefl _ (hbalanced.called _ hcalled)
    · exact hbalanced.waiting entry (by simp [hentry]) honeShot hcalled
    · exact hbalanced.waiting entry (by simp [hentry]) honeShot hcalled

/-- The callbacks of a handle leave for those that were removed or dropped, and are not called. -/
theorem balanced_leave (fd : Handle) {removed dropped : List Registration}
    (hleave : (removed ++ dropped).Perm
      (ledger.removed ++ ledger.dropped ++ ledger.entriesOf fd)) :
    Balanced { ledger with registrations := ledger.without fd, removed, dropped } where
  distinct := hbalanced.distinct_without fd
  each := by
    refine List.Perm.trans ?_ hbalanced.each
    rw [List.perm_iff_count]
    intro number
    have hcount := ((ledger.without_append_entriesOf fd).map Registration.number).count_eq number
    have hplaces := (hleave.map Registration.number).count_eq number
    simp only [entries, List.map_append, List.count_append] at hcount hplaces ⊢
    omega
  called := hbalanced.called
  fired := hbalanced.fired
  waiting := by
    intro entry hentry
    refine hbalanced.waiting entry ?_
    have hplaces : entry ∈ removed ++ dropped ↔ _ := hleave.mem_iff
    simp only [List.mem_append, mem_without, mem_entriesOf] at hentry hplaces ⊢
    tauto

theorem balanced_call {entry : Registration} (hentry : entry ∈ ledger.registrations)
    (honeShot : entry.oneShot = false) :
    Balanced { ledger with called := ledger.called ++ [entry.number] } where
  distinct := hbalanced.distinct
  each := hbalanced.each
  called := by
    intro number hnumber
    rcases List.mem_append.mp hnumber with hnumber | hnumber
    · exact hbalanced.called number hnumber
    · rw [List.mem_singleton.mp hnumber]
      exact hbalanced.number_lt (by simp [entries, hentry])
  fired := by
    intro other hother
    obtain ⟨hother', hcount⟩ := hbalanced.fired other hother
    refine ⟨hother', ?_⟩
    have hne : entry.number ≠ other.number := by
      intro heq
      obtain rfl := hbalanced.number_injective (by simp [entries, hentry])
        (by simp [entries, hother]) heq
      rw [honeShot] at hother'
      cases hother'
    rw [List.count_append, hcount, List.count_singleton, beq_false_of_ne hne]
    rfl
  waiting := by
    intro other hother hother' hcalled
    rcases List.mem_append.mp hcalled with hcalled | hcalled
    · exact hbalanced.waiting other hother hother' hcalled
    · have hentries : other ∈ ledger.entries := by
        simp only [entries, List.mem_append] at hother ⊢
        tauto
      obtain rfl := hbalanced.number_injective hentries (by simp [entries, hentry])
        (List.mem_singleton.mp hcalled)
      rw [honeShot] at hother'
      cases hother'

theorem balanced_fire {entry : Registration} (hentry : entry ∈ ledger.registrations)
    (honeShot : entry.oneShot = true) :
    Balanced { ledger with
      registrations := ledger.without entry.fd
      called := ledger.called ++ [entry.number]
      fired := ledger.fired ++ [entry] } where
  distinct := hbalanced.distinct_without entry.fd
  each := by
    refine List.Perm.trans ?_ hbalanced.each
    rw [List.perm_iff_count]
    intro number
    have hperm := ledger.without_append_entriesOf entry.fd
    rw [entriesOf_of_mem hbalanced.distinct hentry] at hperm
    have hcount := (hperm.map Registration.number).count_eq number
    simp only [entries, List.map_append, List.count_append] at hcount ⊢
    omega
  called := by
    intro number hnumber
    rcases List.mem_append.mp hnumber with hnumber | hnumber
    · exact hbalanced.called number hnumber
    · rw [List.mem_singleton.mp hnumber]
      exact hbalanced.number_lt (by simp [entries, hentry])
  fired := by
    intro other hother
    rcases List.mem_append.mp hother with hother | hother
    · obtain ⟨hother', hcount⟩ := hbalanced.fired other hother
      refine ⟨hother', ?_⟩
      have hgone : other ∈ ledger.fired ++ ledger.removed ++ ledger.dropped := by simp [hother]
      have hne := hbalanced.apart hentry hgone
      rw [List.count_append, hcount, List.count_singleton, beq_false_of_ne hne]
      rfl
    · obtain rfl := List.mem_singleton.mp hother
      have hfresh := hbalanced.waiting other (by simp [hentry]) honeShot
      refine ⟨honeShot, ?_⟩
      rw [List.count_append, List.count_eq_zero_of_not_mem hfresh, List.count_singleton_self]
  waiting := by
    intro other hother hother' hcalled
    simp only [List.mem_append, mem_without] at hother
    rcases List.mem_append.mp hcalled with hcalled | hcalled
    · refine hbalanced.waiting other ?_ hother' hcalled
      simp only [List.mem_append]
      tauto
    · have hnumber := List.mem_singleton.mp hcalled
      rcases hother with (⟨hmem, hfd⟩ | hother) | hother
      · exact hfd (congrArg Registration.fd (hbalanced.number_injective
          (by simp [entries, hmem]) (by simp [entries, hentry]) hnumber))
      · have hgone : other ∈ ledger.fired ++ ledger.removed ++ ledger.dropped := by simp [hother]
        exact hbalanced.apart hentry hgone hnumber.symm
      · have hgone : other ∈ ledger.fired ++ ledger.removed ++ ledger.dropped := by simp [hother]
        exact hbalanced.apart hentry hgone hnumber.symm

end Balanced

theorem balanced_step (hbalanced : ledger.Balanced) (hstep : Step ledger next) :
    next.Balanced := by
  cases hstep with
  | register hfree oneShot => exact balanced_register hbalanced hfree oneShot
  | remove fd =>
      refine balanced_leave hbalanced fd ?_
      rw [List.append_assoc, List.append_assoc]
      exact List.Perm.append_left _ List.perm_append_comm
  | drop fd =>
      refine balanced_leave hbalanced fd ?_
      rw [List.append_assoc]
  | call hentry honeShot => exact balanced_call hbalanced hentry honeShot
  | fire hentry honeShot => exact balanced_fire hbalanced hentry honeShot

end Ledger

namespace Poller

variable {systemError : Nat → Option Error} {bufferSize : Nat} {poller next : Poller}
  {action : Action}

theorem entriesOf_ledger {fd : Handle} (hmissing : poller.poll.contains fd = false) :
    poller.ledger.entriesOf fd = [] := by
  rw [Ledger.entriesOf_eq_nil_iff]
  intro hmem
  obtain ⟨entry, hentry, hfd⟩ := List.mem_map.mp hmem
  rw [Poll.contains_iff.mpr ⟨entry, hentry, hfd⟩] at hmissing
  cases hmissing

theorem ledger_step (hstep : Step systemError bufferSize poller action next) :
    next.ledger = poller.ledger ∨ Ledger.Step poller.ledger next.ledger := by
  cases hstep with
  | @add fd answer hfree events hkernel =>
      rcases @Poll.exec_add_cases systemError poller.poll fd events answer with
        hsame | ⟨-, hmissing, hadded⟩
      · exact Or.inl (by rw [hsame])
      · right
        rw [hadded]
        exact Ledger.Step.register (entriesOf_ledger hmissing) _
  | remove hfree fd errno =>
      rcases @Poll.exec_remove_cases systemError poller.poll fd errno with
        ⟨hmissing, hsame⟩ | ⟨-, hremoved⟩
      · left
        rw [hsame, entriesOf_ledger hmissing, List.append_nil]
      · right
        rw [hremoved]
        exact Ledger.Step.remove poller.ledger fd
  | close hfree fd => exact Or.inl rfl
  | wait hfree hbuffer hnodup hsize hwatched => exact Or.inl rfl
  | @dispatch fd events waits errno entry poll hwaits hdispatch =>
      obtain ⟨hmem, rfl, -, rfl⟩ := Poll.dispatch_eq_ok hdispatch
      right
      cases honeShot : entry.oneShot with
      | false => exact Ledger.Step.call hmem honeShot
      | true => exact Ledger.Step.fire hmem honeShot
  | @dispatchFails fd events waits errno fault poll hwaits hdispatch =>
      rcases Poll.dispatch_eq_error hdispatch with ⟨hmissing, rfl⟩ | ⟨-, rfl⟩
      · left
        rw [entriesOf_ledger hmissing, List.append_nil]
        rfl
      · exact Or.inr (Ledger.Step.drop poller.ledger fd)
  | returns hwaits => exact Or.inl rfl
  | throws hwaits => exact Or.inl rfl
  | finish hwaits => exact Or.inl rfl

theorem balanced_step (hbalanced : poller.ledger.Balanced)
    (hstep : Step systemError bufferSize poller action next) : next.ledger.Balanced := by
  rcases ledger_step hstep with hsame | hledger
  · rwa [hsame]
  · exact Ledger.balanced_step hbalanced hledger

theorem balanced_of_run {actions : List Action}
    (hrun : Run (Step systemError bufferSize) make actions poller) : poller.ledger.Balanced :=
  hrun.preserves (fun poller => poller.ledger.Balanced)
    (fun _ hstep hbalanced => balanced_step hbalanced hstep) (fun _ _ => trivial)
    Ledger.balanced_make

end Poller

end Liblw.Co
