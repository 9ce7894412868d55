import Liblw.Net.Descriptors

/-!
# Descriptors have one owner

Each call acquires, releases and hands on descriptors, and where it does not have to clean up behind
itself, it leaves none without an owner. So whatever happens to the sockets, no descriptor has two
owners, and none is closed that belongs to another one.
-/

namespace Liblw.Net

open Liblw.Lib
open Co (Handle)
open Lib.Holdings (Evolves)

namespace Descriptors

variable {state next : Descriptors} {action : Action} {tidy : Prop} {socket call : Nat}
  {fd : Handle}

/-! ### The holdings behind an update -/

@[simp]
theorem holds_socket (state : Descriptors) (name : Nat) :
    (holdings state).holds (.socket name) =
      if state.socketFd name = 0 then none else some (state.socketFd name) := rfl

@[simp]
theorem holds_connect (state : Descriptors) (call : Nat) :
    (holdings state).holds (.connect call) = (state.connecting call).map Connecting.fd := rfl

@[simp]
theorem holds_elsewhere (state : Descriptors) (fd : Handle) :
    (holdings state).holds (.elsewhere fd) = if fd ∈ state.elsewhere then some fd else none := rfl

@[simp]
theorem live_holdings (state : Descriptors) : (holdings state).live = ↑state.opened := rfl

theorem holds_withFd (state : Descriptors) (socket : Nat) (fd : Handle) :
    (holdings (state.withFd socket fd)).holds =
      Function.update (holdings state).holds (.socket socket)
        (if fd = 0 then none else some fd) := by
  funext owner
  cases owner with
  | socket name =>
      by_cases hname : name = socket
      · subst hname
        simp [withFd]
      · simp [withFd, hname]
  | connect call => rw [Function.update_of_ne (by simp)]; rfl
  | elsewhere fd => rw [Function.update_of_ne (by simp)]; rfl

theorem holds_updateConnecting (state : Descriptors) (opened : Finset Handle) (call : Nat)
    (waits : Option Connecting) :
    (holdings { state with
      connecting := Function.update state.connecting call waits, opened := opened }).holds =
      Function.update (holdings state).holds (.connect call) (waits.map Connecting.fd) := by
  funext owner
  cases owner with
  | connect other =>
      by_cases hother : other = call
      · subst hother
        simp
      · simp [hother]
  | socket name => rw [Function.update_of_ne (by simp)]; rfl
  | elsewhere fd => rw [Function.update_of_ne (by simp)]; rfl

theorem holds_openElsewhere (state : Descriptors) (opened : Finset Handle) (fd : Handle) :
    (holdings { state with opened := opened, elsewhere := insert fd state.elsewhere }).holds =
      Function.update (holdings state).holds (.elsewhere fd) (some fd) := by
  funext owner
  cases owner with
  | elsewhere other =>
      by_cases hother : other = fd
      · subst hother
        simp
      · simp [hother]
  | socket name => rw [Function.update_of_ne (by simp)]; rfl
  | connect call => rw [Function.update_of_ne (by simp)]; rfl

theorem holds_closeElsewhere (state : Descriptors) (opened : Finset Handle) (fd : Handle) :
    (holdings { state with opened := opened, elsewhere := state.elsewhere.erase fd }).holds =
      Function.update (holdings state).holds (.elsewhere fd) none := by
  funext owner
  cases owner with
  | elsewhere other =>
      by_cases hother : other = fd
      · subst hother
        simp
      · simp [hother]
  | socket name => rw [Function.update_of_ne (by simp)]; rfl
  | connect call => rw [Function.update_of_ne (by simp)]; rfl

/-! ### The moves behind an update -/

theorem evolves_acquire (owner : Owner) (fd : Handle)
    (hfree : (holdings state).holds owner = none) (hfresh : fd ∉ state.opened)
    (hholds : (holdings next).holds = Function.update (holdings state).holds owner (some fd))
    (hopened : next.opened = insert fd state.opened) :
    Evolves tidy (holdings state) (holdings next) := by
  have hnext : holdings next = ⟨Function.update (holdings state).holds owner (some fd),
      insert fd (holdings state).live⟩ := by
    rw [← hholds, live_holdings, ← Finset.coe_insert, ← hopened]
    rfl
  rw [hnext]
  exact .step (.acquire hfree (by simpa using hfresh)) fun _ => trivial

theorem evolves_release (owner : Owner) (fd : Handle)
    (howns : (holdings state).holds owner = some fd)
    (hholds : (holdings next).holds = Function.update (holdings state).holds owner none)
    (hopened : next.opened = state.opened.erase fd) :
    Evolves tidy (holdings state) (holdings next) := by
  have hnext : holdings next = ⟨Function.update (holdings state).holds owner none,
      (holdings state).live \ {fd}⟩ := by
    rw [← hholds, live_holdings, ← Finset.coe_erase, ← hopened]
    rfl
  rw [hnext]
  exact .step (.release howns) fun _ => trivial

theorem evolves_drop (owner : Owner) (htidy : tidy → (holdings state).holds owner = none)
    (hholds : (holdings next).holds = Function.update (holdings state).holds owner none)
    (hopened : next.opened = state.opened) : Evolves tidy (holdings state) (holdings next) := by
  have hnext : holdings next = ⟨Function.update (holdings state).holds owner none,
      (holdings state).live⟩ := by
    rw [← hholds, live_holdings, ← hopened]
    rfl
  by_cases hnone : (holdings state).holds owner = none
  · refine .of_eq tidy ?_
    rw [hnext, ← hnone, Function.update_eq_self]
  · rw [hnext]
    exact .step (.drop _ owner) fun h => absurd (htidy h) hnone

theorem evolves_transfer (source target : Owner)
    (hfree : (holdings state).holds target = none)
    (hholds : (holdings next).holds = Function.update (Function.update (holdings state).holds target
      ((holdings state).holds source)) source none)
    (hopened : next.opened = state.opened) : Evolves tidy (holdings state) (holdings next) := by
  have hnext : holdings next = ⟨Function.update (Function.update (holdings state).holds target
      ((holdings state).holds source)) source none, (holdings state).live⟩ := by
    rw [← hholds, live_holdings, ← hopened]
    rfl
  rw [hnext]
  exact .step (.transfer hfree) fun _ => trivial

/-- The descriptor that was asked for is forgotten, and stays open. -/
theorem evolves_appear (hforgets : ¬ tidy) :
    Evolves tidy (holdings state)
      (holdings { state with opened := insert (lowestFree state.opened) state.opened }) := by
  have hnext :
      holdings { state with opened := insert (lowestFree state.opened) state.opened } =
        ⟨(holdings state).holds, insert (lowestFree state.opened) (holdings state).live⟩ := by
    rw [live_holdings, ← Finset.coe_insert]
    rfl
  rw [hnext]
  exact .step (.appear (by simpa using lowestFree_notMem state.opened)) fun h => absurd h hforgets

/-- That is what happens to zero, which is taken for an error. -/
theorem evolves_zero (hzero : lowestFree state.opened = 0) (htidy : tidy → 0 ∈ state.opened) :
    Evolves tidy (holdings state) (holdings { state with opened := insert 0 state.opened }) := by
  have hfresh := lowestFree_notMem state.opened
  rw [hzero] at hfresh
  have hforgets : ¬ tidy := fun h => hfresh (htidy h)
  have happear := @evolves_appear state tidy hforgets
  rwa [hzero] at happear

/-! ### Calls of sockets -/

theorem evolves_close (tidy : Prop) (state : Descriptors) (socket : Nat) :
    Evolves tidy (holdings state) (holdings (state.after (close socket))) := by
  by_cases hclosed : state.socketFd socket = 0
  · refine .of_eq tidy ?_
    simp [after, close, hclosed]
  · have hafter : state.after (close socket) =
        { state with opened := state.opened.erase (state.socketFd socket) }.withFd socket 0 := by
      simp [after, close, closeDescriptor, setFd, hclosed]
    rw [hafter]
    refine evolves_release (.socket socket) (state.socketFd socket) ?_ ?_ rfl
    · simp [hclosed]
    · rw [holds_withFd]
      rfl

theorem socketFd_after_close (state : Descriptors) (socket : Nat) :
    (state.after (close socket)).socketFd socket = 0 := by
  by_cases hclosed : state.socketFd socket = 0
  · simp [after, close, hclosed]
  · simp [after, close, closeDescriptor, setFd, withFd, hclosed]

theorem evolves_destroy (tidy : Prop) (state : Descriptors) (socket : Nat) :
    Evolves tidy (holdings state) (holdings (state.after (destroy socket))) := by
  by_cases hclosed : state.socketFd socket = 0
  · refine .of_eq tidy ?_
    simp [after, destroy, hclosed]
  · have hafter : state.after (destroy socket) = state.after (close socket) := by
      simp [after, destroy, hclosed]
    rw [hafter]
    exact evolves_close tidy state socket

/-- A socket without a descriptor is handed that of another one. -/
theorem evolves_handOver (tidy : Prop) {target : Nat} (hfree : state.socketFd target = 0)
    (source : Nat) :
    Evolves tidy (holdings state)
      (holdings ((state.withFd target (state.socketFd source)).withFd source 0)) := by
  refine evolves_transfer (.socket source) (.socket target) ?_ ?_ rfl
  · simp [hfree]
  · rw [holds_withFd, holds_withFd, holds_socket, if_pos rfl]

theorem evolves_moveConstruct (tidy : Prop) {target : Nat} (hnew : state.socketFd target = 0)
    (source : Nat) :
    Evolves tidy (holdings state) (holdings (state.after (moveConstruct target source))) :=
  evolves_handOver tidy hnew source

theorem evolves_moveAssign (tidy : Prop) (state : Descriptors) (target source : Nat) :
    Evolves tidy (holdings state) (holdings (state.after (moveAssign target source))) := by
  by_cases hclosed : state.socketFd target = 0
  · have hafter : state.after (moveAssign target source) =
        (state.withFd target (state.socketFd source)).withFd source 0 := by
      simp [after, moveAssign, setFd, isOpen, hclosed]
    rw [hafter]
    exact evolves_handOver tidy hclosed source
  · have hafter : state.after (moveAssign target source) =
        ((state.after (close target)).withFd target
          ((state.after (close target)).socketFd source)).withFd source 0 := by
      simp [after, moveAssign, close, closeDescriptor, setFd, isOpen, Nat.pos_of_ne_zero hclosed,
        hclosed, Call.exec_bind]
    rw [hafter]
    exact (evolves_close tidy state target).trans
      (evolves_handOver tidy (socketFd_after_close state target) source)

/-! ### Calls that ask for a descriptor -/

/-- The descriptor that was asked for is not used. -/
theorem erase_lowestFree (opened : Finset Handle) : opened.erase (lowestFree opened) = opened :=
  Finset.erase_eq_of_notMem (lowestFree_notMem opened)

/-- The descriptor that was asked for comes into a socket. -/
theorem evolves_intoSocket (socket : Nat) (hzero : lowestFree state.opened ≠ 0)
    (htidy : tidy → state.socketFd socket = 0) :
    Evolves tidy (holdings state)
      (holdings (withFd { state with opened := insert (lowestFree state.opened) state.opened }
        socket (lowestFree state.opened))) := by
  have hdrop : Evolves tidy (holdings state) (holdings (state.withFd socket 0)) := by
    refine evolves_drop (.socket socket) (fun h => ?_) ?_ rfl
    · simp [htidy h]
    · rw [holds_withFd, if_pos rfl]
  refine hdrop.trans (evolves_acquire (.socket socket) (lowestFree state.opened)
    ?_ (lowestFree_notMem state.opened) ?_ rfl)
  · simp [withFd]
  · rw [holds_withFd, holds_withFd, Function.update_idem, if_neg hzero]
    rfl

theorem evolves_connectLoop (address : String) (attempts : List Attempt)
    (hcall : state.connecting call = none) :
    Evolves (0 ∈ state.opened ∧ state.socketFd socket = 0 ∧ Watched attempts) (holdings state)
      (holdings (state.after (connectLoop socket call address attempts))) := by
  induction attempts generalizing state with
  | nil =>
      refine .of_eq _ ?_
      by_cases hclosed : state.socketFd socket = 0 <;> simp [after, connectLoop, hclosed]
  | cons attempt rest ih =>
      have hrest : Watched (attempt :: rest) → Watched rest :=
        fun hwatched error hmem => hwatched error (List.mem_cons_of_mem attempt hmem)
      by_cases hsocket : attempt = .noSocket
      · subst hsocket
        exact (ih hcall).mono fun htidy => ⟨htidy.1, htidy.2.1, hrest htidy.2.2⟩
      by_cases hzero : lowestFree state.opened = 0
      · have hafter : state.after (connectLoop socket call address (attempt :: rest)) =
            after { state with opened := insert 0 state.opened }
              (connectLoop socket call address rest) := by
          cases attempt <;> simp_all [after, connectLoop, newDescriptor, Call.exec_bind]
        rw [hafter]
        have hbehind := @ih { state with opened := insert 0 state.opened } hcall
        exact (evolves_zero hzero And.left).trans (hbehind.mono fun htidy =>
          ⟨Finset.mem_insert_self 0 _, htidy.2.1, hrest htidy.2.2⟩)
      · cases attempt with
        | noSocket => cases hsocket rfl
        | connected =>
            have hafter : state.after (connectLoop socket call address (.connected :: rest)) =
                withFd { state with opened := insert (lowestFree state.opened) state.opened }
                  socket (lowestFree state.opened) := by
              simp [after, connectLoop, newDescriptor, setFd, Call.exec_bind, hzero]
            rw [hafter]
            exact evolves_intoSocket socket hzero fun htidy => htidy.2.1
        | refused =>
            have hafter : state.after (connectLoop socket call address (.refused :: rest)) =
                state.after (connectLoop socket call address rest) := by
              simp [after, connectLoop, newDescriptor, closeDescriptor, Call.exec_bind, hzero,
                erase_lowestFree]
            rw [hafter]
            exact (ih hcall).mono fun htidy => ⟨htidy.1, htidy.2.1, hrest htidy.2.2⟩
        | unwatched error =>
            have hafter : state.after (connectLoop socket call address (.unwatched error :: rest)) =
                { state with opened := insert (lowestFree state.opened) state.opened } := by
              simp [after, connectLoop, newDescriptor, Call.exec_bind, hzero]
            rw [hafter]
            exact evolves_appear fun htidy => htidy.2.2 error List.mem_cons_self
        | inProgress =>
            refine evolves_acquire (.connect call) (lowestFree state.opened)
              (by simp [hcall]) (lowestFree_notMem state.opened) ?_ ?_
            · simp only [after, connectLoop, newDescriptor, setConnecting, Call.exec_bind, hzero,
                Call.exec_ofFunction, dif_neg, not_false_eq_true, Call.exec_modify]
              rw [holds_updateConnecting]
              rfl
            · simp [after, connectLoop, newDescriptor, setConnecting, Call.exec_bind, hzero]

theorem evolves_connect (address : String) (addresses : Except Int (List Attempt))
    (hcall : state.connecting call = none) :
    Evolves (0 ∈ state.opened ∧ ∀ attempts, addresses = .ok attempts → Watched attempts)
      (holdings state) (holdings (state.after (connect socket call address addresses))) := by
  by_cases hclosed : state.socketFd socket = 0
  · cases addresses with
    | error code =>
        refine .of_eq _ ?_
        simp [after, connect, isOpen, hclosed]
    | ok attempts =>
        have hafter : state.after (connect socket call address (.ok attempts)) =
            state.after (connectLoop socket call address attempts) := by
          simp [after, connect, isOpen, hclosed]
        rw [hafter]
        exact (evolves_connectLoop address attempts hcall).mono fun htidy =>
          ⟨htidy.1, hclosed, htidy.2 attempts rfl⟩
  · refine .of_eq _ ?_
    simp [after, connect, isOpen, Nat.pos_of_ne_zero hclosed]

theorem evolves_resume (address : String) {waits : Connecting} {outcome : Outcome}
    (hcall : state.connecting call = some waits) :
    Evolves (0 ∈ state.opened ∧ (∀ errno, outcome ≠ .optionFails errno) ∧
        state.socketFd waits.socket = 0 ∧ Watched waits.rest) (holdings state)
      (holdings (state.after (resumeConnect call address waits outcome))) := by
  have hholds : (holdings state).holds (.connect call) = some waits.fd := by simp [hcall]
  cases outcome with
  | optionFails errno =>
      refine evolves_drop (.connect call) (fun htidy => absurd rfl (htidy.2.1 errno)) ?_ rfl
      exact holds_updateConnecting state state.opened call none
  | refused =>
      have hafter : state.after (resumeConnect call address waits .refused) =
          after { state with
            connecting := Function.update state.connecting call none
            opened := state.opened.erase waits.fd }
            (connectLoop waits.socket call address waits.rest) := rfl
      rw [hafter]
      refine (evolves_release (.connect call) waits.fd hholds
        (holds_updateConnecting state (state.opened.erase waits.fd) call none) rfl).trans
        ((evolves_connectLoop address waits.rest (Function.update_self _ _ _)).mono fun htidy => ?_)
      exact ⟨Finset.mem_erase.mpr ⟨waits.positive.ne, htidy.1⟩, htidy.2.2⟩
  | connected =>
      have hafter : state.after (resumeConnect call address waits .connected) =
          withFd { state with connecting := Function.update state.connecting call none }
            waits.socket waits.fd := rfl
      have hdrop : Evolves (state.socketFd waits.socket = 0) (holdings state)
          (holdings (state.withFd waits.socket 0)) := by
        refine evolves_drop (.socket waits.socket) (fun hclosed => by simp [hclosed]) ?_ rfl
        rw [holds_withFd, if_pos rfl]
      rw [hafter]
      refine (hdrop.mono fun htidy => htidy.2.2.1).trans
        (evolves_transfer (.connect call) (.socket waits.socket) (by simp [withFd]) ?_ rfl)
      have hkept : (holdings (state.withFd waits.socket 0)).holds (.connect call) =
          some waits.fd := hholds
      rw [hkept, holds_withFd, holds_withFd, Function.update_idem, if_neg waits.positive.ne',
        Function.update_comm (by simp)]
      exact congrArg (Function.update · _ _)
        (holds_updateConnecting state state.opened call none)

theorem evolves_bindLoop (bindings : List Binding) (hclosed : state.socketFd socket = 0) :
    Evolves (0 ∈ state.opened ∧ ∀ errno, .optionFails errno ∉ bindings) (holdings state)
      (holdings (state.after (bindLoop socket bindings))) := by
  induction bindings generalizing state with
  | nil => exact .refl _ _
  | cons binding rest ih =>
      by_cases hsocket : binding = .noSocket
      · subst hsocket
        exact (ih hclosed).mono fun htidy => ⟨htidy.1, fun errno hmem =>
          htidy.2 errno (List.mem_cons_of_mem _ hmem)⟩
      by_cases hzero : lowestFree state.opened = 0
      · have hafter : state.after (bindLoop socket (binding :: rest)) =
            after { state with opened := insert 0 state.opened } (bindLoop socket rest) := by
          cases binding <;> simp_all [after, bindLoop, newDescriptor, Call.exec_bind]
        rw [hafter]
        have hrest := @ih { state with opened := insert 0 state.opened } hclosed
        exact (evolves_zero hzero And.left).trans (hrest.mono fun htidy =>
          ⟨Finset.mem_insert_self 0 _, fun errno hmem =>
            htidy.2 errno (List.mem_cons_of_mem _ hmem)⟩)
      · cases binding with
        | noSocket => cases hsocket rfl
        | optionFails errno =>
            have hafter : state.after (bindLoop socket (.optionFails errno :: rest)) =
                { state with opened := insert (lowestFree state.opened) state.opened } := by
              simp [after, bindLoop, newDescriptor, Call.exec_bind, hzero]
            rw [hafter]
            exact evolves_appear fun htidy => htidy.2 errno List.mem_cons_self
        | bindFails =>
            have hafter : state.after (bindLoop socket (.bindFails :: rest)) =
                state.after (bindLoop socket rest) := by
              simp [after, bindLoop, newDescriptor, closeDescriptor, Call.exec_bind, hzero,
                erase_lowestFree]
            rw [hafter]
            exact (ih hclosed).mono fun htidy => ⟨htidy.1, fun errno hmem =>
              htidy.2 errno (List.mem_cons_of_mem _ hmem)⟩
        | bound =>
            have hafter : state.after (bindLoop socket (.bound :: rest)) =
                withFd { state with opened := insert (lowestFree state.opened) state.opened }
                  socket (lowestFree state.opened) := by
              simp [after, bindLoop, newDescriptor, setFd, Call.exec_bind, hzero]
            rw [hafter]
            exact evolves_intoSocket socket hzero fun _ => hclosed

theorem after_listen (address service : String) {bindings : List Binding} (answer : Option Errno)
    (hclosed : state.socketFd socket = 0) :
    state.after (listen socket address service (.ok bindings) answer) =
      state.after (bindLoop socket bindings) := by
  simp only [after, listen, isOpen, hclosed, Call.exec_get_bind, lt_self_iff_false, decide_false]
  rw [if_neg Bool.false_ne_true, Call.exec_bind]
  rcases (bindLoop socket bindings).exec state with ⟨_ | _, final⟩
  · rfl
  · by_cases hunbound : final.socketFd socket = 0
    · simp [hunbound]
    · cases answer <;> simp [hunbound]

theorem evolves_listen (address service : String) (addresses : Except Int (List Binding))
    (answer : Option Errno) :
    Evolves (0 ∈ state.opened ∧ ∀ bindings errno, addresses = .ok bindings →
        .optionFails errno ∉ bindings) (holdings state)
      (holdings (state.after (listen socket address service addresses answer))) := by
  by_cases hclosed : state.socketFd socket = 0
  · cases addresses with
    | error code =>
        refine .of_eq _ ?_
        simp [after, listen, isOpen, hclosed]
    | ok bindings =>
        rw [after_listen address service answer hclosed]
        exact (evolves_bindLoop bindings hclosed).mono fun htidy =>
          ⟨htidy.1, fun errno => htidy.2 bindings errno rfl⟩
  · refine .of_eq _ ?_
    simp [after, listen, isOpen, Nat.pos_of_ne_zero hclosed]

theorem after_notAccepted (errno : Errno) : state.after (notAccepted errno) = state := by
  simp only [after, notAccepted, Call.exec_ite]
  split <;> rfl

theorem evolves_doAccept {into : Nat} (hnew : state.socketFd into = 0) (arrival : Arrival) :
    Evolves (0 ∈ state.opened ∧ ∀ errno, arrival ≠ .optionFails errno) (holdings state)
      (holdings (state.after (doAccept into arrival))) := by
  by_cases hfails : ∃ errno, arrival = .fails errno
  · obtain ⟨errno, rfl⟩ := hfails
    exact .of_eq _ (congrArg holdings (after_notAccepted errno).symm)
  by_cases hzero : lowestFree state.opened = 0
  · have hafter : state.after (doAccept into arrival) =
        after { state with opened := insert 0 state.opened } (notAccepted arrival.errno) := by
      cases arrival <;> simp_all [after, doAccept, newDescriptor, Call.exec_bind]
    rw [hafter, after_notAccepted]
    exact evolves_zero hzero And.left
  · cases arrival with
    | fails errno => exact absurd ⟨errno, rfl⟩ hfails
    | optionFails errno =>
        have hafter : state.after (doAccept into (.optionFails errno)) =
            { state with opened := insert (lowestFree state.opened) state.opened } := by
          simp [after, doAccept, newDescriptor, Call.exec_bind, hzero]
        rw [hafter]
        exact evolves_appear fun htidy => htidy.2 errno rfl
    | accepted errno =>
        have hafter : state.after (doAccept into (.accepted errno)) =
            withFd { state with opened := insert (lowestFree state.opened) state.opened } into
              (lowestFree state.opened) := by
          simp [after, doAccept, newDescriptor, setFd, Call.exec_bind, hzero]
        rw [hafter]
        exact evolves_intoSocket into hzero fun _ => hnew

theorem evolves_accept (listener : Nat) {into : Nat} (hnew : state.socketFd into = 0)
    (arrival : Arrival) :
    Evolves (0 ∈ state.opened ∧ ∀ errno, arrival ≠ .optionFails errno) (holdings state)
      (holdings (state.after (accept listener into arrival))) := by
  by_cases hopen : state.isOpen listener = true
  · have hafter : state.after (accept listener into arrival) =
        state.after (doAccept into arrival) := by
      simp [after, accept, hopen]
    rw [hafter]
    exact evolves_doAccept hnew arrival
  · refine .of_eq _ ?_
    simp [after, accept, hopen]

/-! ### Runs -/

/-- Whatever happens to the sockets moves descriptors between their owners. -/
theorem evolves_step (hexclusive : (holdings state).Exclusive) (hstep : Step state action next) :
    Evolves (state.Tidy action) (holdings state) (holdings next) := by
  cases hstep with
  | close socket => exact evolves_close _ state socket
  | destroy hidle => exact evolves_destroy _ state _
  | moveConstruct hnew source => exact evolves_moveConstruct _ hnew source
  | moveAssign target source => exact evolves_moveAssign _ state target source
  | connect hcall socket address addresses => exact evolves_connect address addresses hcall
  | @resume call waits hcall address outcome =>
      exact (evolves_resume address hcall).mono fun htidy =>
        ⟨htidy.1, htidy.2.1, htidy.2.2 waits hcall⟩
  | listen socket address service addresses answer =>
      exact evolves_listen address service addresses answer
  | accept hnew listener arrival => exact evolves_accept listener hnew arrival
  | acceptAgain hnew arrival => exact evolves_doAccept hnew arrival
  | openElsewhere =>
      have hfresh := lowestFree_notMem state.opened
      refine evolves_acquire (.elsewhere (lowestFree state.opened)) _ ?_ hfresh
        (holds_openElsewhere _ _ _) rfl
      -- what other code holds is open, so the new descriptor is not among it
      by_contra hholds
      obtain ⟨fd, hfd⟩ := Option.ne_none_iff_exists'.mp hholds
      rw [holds_elsewhere] at hfd
      split at hfd
      · rename_i hmem
        have hlive := hexclusive.live (.elsewhere (lowestFree state.opened)) _ (if_pos hmem)
        exact hfresh hlive
      · cases hfd
  | @closeElsewhere fd hfd =>
      exact evolves_release (.elsewhere fd) fd (by simp [hfd]) (holds_closeElsewhere _ _ _) rfl

theorem exclusive_start (opened : Finset Handle) : (holdings (start opened)).Exclusive := by
  have hholds : ∀ owner fd, (holdings (start opened)).holds owner = some fd →
      owner = .elsewhere fd ∧ fd ∈ opened := by
    intro owner fd howns
    cases owner with
    | socket name => cases howns
    | connect call => cases howns
    | elsewhere other =>
        simp only [holds_elsewhere, start] at howns
        split at howns
        · rename_i hmem
          obtain rfl := Option.some.inj howns
          exact ⟨rfl, hmem⟩
        · cases howns
  constructor
  · intro owner fd howns
    exact (hholds owner fd howns).2
  · intro first second fd hfirst hsecond
    rw [(hholds first fd hfirst).1, (hholds second fd hsecond).1]

theorem complete_start (opened : Finset Handle) : (holdings (start opened)).Complete := by
  intro fd hfd
  exact ⟨.elsewhere fd, if_pos hfd⟩

theorem exclusive_step (hexclusive : (holdings state).Exclusive) (hstep : Step state action next) :
    (holdings next).Exclusive :=
  (evolves_step hexclusive hstep).exclusive hexclusive

theorem lowestFree_eq {opened : Finset Handle} {fd : Handle} (hfree : fd ∉ opened)
    (hlower : ∀ lower < fd, lower ∈ opened) : lowestFree opened = fd :=
  (Nat.find_eq_iff _).mpr ⟨hfree, fun lower hlt hfree => hfree (hlower lower hlt)⟩

/-- A `connect` of the socket one waits for the descriptor one. -/
def waiting : Descriptors :=
  { start {0} with
    connecting := Function.update (fun _ => none) 0 (some ⟨1, 1, Nat.one_pos, []⟩)
    opened := {1, 0} }

theorem step_waiting : Step (start {0}) (.connect 1 0 "" (.ok [.inProgress])) waiting := by
  have hstep : Step (start {0}) (.connect 1 0 "" (.ok [.inProgress]))
      ((start {0}).after (connect 1 0 "" (.ok [.inProgress]))) := .connect rfl 1 "" _
  have hfree : lowestFree {0} = 1 := lowestFree_eq (by decide) (by decide)
  have hafter : (start {0}).after (connect 1 0 "" (.ok [.inProgress])) = waiting := by
    simp [after, connect, isOpen, start, connectLoop, newDescriptor, setConnecting, Call.exec_bind,
      hfree, waiting]
  rwa [hafter] at hstep

/-- A second `connect` of the same socket has been faster. -/
def overtaken : Descriptors := { waiting.withFd 1 2 with opened := {2, 1, 0} }

theorem step_overtaken : Step waiting (.connect 1 1 "" (.ok [.connected])) overtaken := by
  have hstep : Step waiting (.connect 1 1 "" (.ok [.connected]))
      (waiting.after (connect 1 1 "" (.ok [.connected]))) := .connect rfl 1 "" _
  have hfree : lowestFree {1, 0} = 2 := lowestFree_eq (by decide) (by decide)
  have hafter : waiting.after (connect 1 1 "" (.ok [.connected])) = overtaken := by
    simp [after, connect, isOpen, start, connectLoop, newDescriptor, setFd, withFd,
      Call.exec_bind, hfree, waiting, overtaken]
  rwa [hafter] at hstep

theorem run_overtaken : Run Step (start {0})
    [.connect 1 0 "" (.ok [.inProgress]), .connect 1 1 "" (.ok [.connected])] overtaken :=
  .cons step_waiting (.cons step_overtaken (.nil overtaken))

/-- **One owner.** Whatever happens to the sockets and the kernel answers, every descriptor of a
socket, of a `connect` that waits and of other code is open, and no other owner has it. -/
theorem exclusive_of_run {opened : Finset Handle} {actions : List Action}
    (hrun : Run Step (start opened) actions state) : (holdings state).Exclusive :=
  hrun.preserves (fun state => (holdings state).Exclusive)
    (fun _ hstep hexclusive => exclusive_step hexclusive hstep) (fun _ _ => trivial)
    (exclusive_start opened)

theorem exclusive_of_run_overtaken : (holdings overtaken).Exclusive :=
  exclusive_of_run run_overtaken

/-- **None forgotten.** While zero stays open, no option of a new descriptor fails, EPoll watches
what `connect` waits for and no `connect` overtakes another one on its socket, every descriptor that
is open has its owner. -/
theorem noneLeaked_of_run {opened : Finset Handle} {actions : List Action}
    (hrun : Run Step (start opened) actions state)
    (htidy : ∀ before action after,
      Run.Takes Step (start opened) actions state before action after → before.Tidy action) :
    (holdings state).Complete := by
  have hinvariant : (holdings state).Exclusive ∧ (holdings state).Complete := by
    refine hrun.preserves_of_takes
      (fun state => (holdings state).Exclusive ∧ (holdings state).Complete) ?_ htidy
      ⟨exclusive_start opened, complete_start opened⟩
    rintro before action after htidy hstep ⟨hexclusive, hcomplete⟩
    have hevolves := evolves_step hexclusive hstep
    exact ⟨hevolves.exclusive hexclusive, hevolves.complete htidy hcomplete⟩
  exact hinvariant.2

theorem noneLeaked_of_run_waiting : (holdings waiting).Complete := by
  refine noneLeaked_of_run (.cons step_waiting (.nil waiting)) ?_
  rintro before action after ⟨earlier, later, hactions, hearlier, -⟩
  cases earlier with
  | nil =>
      cases hactions
      cases hearlier
      refine ⟨Finset.mem_singleton_self 0, fun attempts hattempts error hmem => ?_⟩
      obtain rfl := Except.ok.inj hattempts
      cases List.mem_singleton.mp hmem
  | cons other rest => simp at hactions

theorem unowned_of_run {actions : List Action} {final : Descriptors}
    (hrun : Run Step state actions final) (hexclusive : (holdings state).Exclusive)
    (hunowned : (holdings state).Unowned fd) : (holdings final).Unowned fd := by
  have hinvariant := hrun.preserves
    (fun state => (holdings state).Exclusive ∧ (holdings state).Unowned fd)
    (fun _ hstep ⟨hexclusive, hunowned⟩ =>
      have hevolves := evolves_step hexclusive hstep
      ⟨hevolves.exclusive hexclusive, hevolves.unowned hunowned⟩)
    (fun _ _ => trivial) ⟨hexclusive, hunowned⟩
  exact hinvariant.2

/-! ### A descriptor that is overwritten -/

/-- A socket gets another descriptor, and nobody has the one that it had. -/
theorem unowned_withFd (hexclusive : (holdings state).Exclusive)
    (hopen : state.socketFd socket ≠ 0) (hfd : fd ≠ state.socketFd socket) (hpositive : fd ≠ 0) :
    (holdings (state.withFd socket fd)).Unowned (state.socketFd socket) := by
  have howns : (holdings state).holds (.socket socket) = some (state.socketFd socket) :=
    if_neg hopen
  refine ⟨hexclusive.live _ _ howns, fun owner hholds => ?_⟩
  rw [holds_withFd, if_neg hpositive] at hholds
  by_cases howner : owner = .socket socket
  · subst howner
    rw [Function.update_self] at hholds
    exact hfd (Option.some.inj hholds)
  · rw [Function.update_of_ne howner] at hholds
    exact howner (hexclusive.single owner _ _ hholds howns)

/-- The loop over the addresses leaves the socket's descriptor there, or nobody has that one. -/
theorem unowned_connectLoop (address : String) (attempts : List Attempt)
    (hexclusive : (holdings state).Exclusive) (hopen : state.socketFd socket ≠ 0)
    (hcall : state.connecting call = none)
    (hmoved : (state.after (connectLoop socket call address attempts)).socketFd socket ≠
      state.socketFd socket) :
    (holdings (state.after (connectLoop socket call address attempts))).Unowned
      (state.socketFd socket) := by
  induction attempts generalizing state with
  | nil =>
      refine absurd ?_ hmoved
      simp [after, connectLoop, hopen]
  | cons attempt rest ih =>
      by_cases hsocket : attempt = .noSocket
      · subst hsocket
        exact ih hexclusive hopen hcall hmoved
      by_cases hzero : lowestFree state.opened = 0
      · have hafter : state.after (connectLoop socket call address (attempt :: rest)) =
            after { state with opened := insert 0 state.opened }
              (connectLoop socket call address rest) := by
          cases attempt <;> simp_all [after, connectLoop, newDescriptor, Call.exec_bind]
        rw [hafter] at hmoved ⊢
        have happears : Evolves (0 ∈ state.opened) (holdings state)
            (holdings { state with opened := insert 0 state.opened }) := evolves_zero hzero id
        exact ih (happears.exclusive hexclusive) hopen hcall hmoved
      · cases attempt with
        | noSocket => cases hsocket rfl
        | connected =>
            have hafter : state.after (connectLoop socket call address (.connected :: rest)) =
                withFd { state with opened := insert (lowestFree state.opened) state.opened }
                  socket (lowestFree state.opened) := by
              simp [after, connectLoop, newDescriptor, setFd, Call.exec_bind, hzero]
            have hlive : state.socketFd socket ∈ state.opened :=
              hexclusive.live (.socket socket) _ (if_neg hopen)
            have hfresh : lowestFree state.opened ≠ state.socketFd socket :=
              fun heq => lowestFree_notMem state.opened (heq ▸ hlive)
            have happears : Evolves False (holdings state) (holdings
                { state with opened := insert (lowestFree state.opened) state.opened }) :=
              evolves_appear id
            rw [hafter]
            exact unowned_withFd (happears.exclusive hexclusive) hopen hfresh hzero
        | refused =>
            have hafter : state.after (connectLoop socket call address (.refused :: rest)) =
                state.after (connectLoop socket call address rest) := by
              simp [after, connectLoop, newDescriptor, closeDescriptor, Call.exec_bind, hzero,
                erase_lowestFree]
            rw [hafter] at hmoved ⊢
            exact ih hexclusive hopen hcall hmoved
        | unwatched error =>
            refine absurd ?_ hmoved
            simp [after, connectLoop, newDescriptor, Call.exec_bind, hzero]
        | inProgress =>
            refine absurd ?_ hmoved
            simp [after, connectLoop, newDescriptor, setConnecting, Call.exec_bind, hzero]

/-- The `connect` that goes on gives its socket a descriptor: the one that it waited for, or that of
an address behind it. -/
def Overwrites (state : Descriptors) (call : Nat) (address : String) (waits : Connecting)
    (outcome : Outcome) : Prop :=
  outcome = .connected ∨ (state.after (resumeConnect call address waits outcome)).socketFd
    waits.socket ≠ state.socketFd waits.socket

theorem unowned_overwritten {waits : Connecting} {outcome : Outcome} {address : String}
    (hexclusive : (holdings state).Exclusive) (hcall : state.connecting call = some waits)
    (hopen : state.socketFd waits.socket ≠ 0)
    (hdone : state.Overwrites call address waits outcome) :
    (holdings (state.after (resumeConnect call address waits outcome))).Unowned
      (state.socketFd waits.socket) := by
  have hwaits : (holdings state).holds (.connect call) = some waits.fd := by simp [hcall]
  cases outcome with
  | optionFails errno =>
      obtain hconnected | hmoved := hdone
      · cases hconnected
      · exact absurd rfl hmoved
  | refused =>
      obtain hconnected | hmoved := hdone
      · cases hconnected
      · have hreleased : Evolves True (holdings state) (holdings { state with
            connecting := Function.update state.connecting call none
            opened := state.opened.erase waits.fd }) :=
          evolves_release (.connect call) waits.fd hwaits
            (holds_updateConnecting state (state.opened.erase waits.fd) call none) rfl
        exact @unowned_connectLoop { state with
            connecting := Function.update state.connecting call none
            opened := state.opened.erase waits.fd } waits.socket call address waits.rest
          (hreleased.exclusive hexclusive) hopen (Function.update_self _ _ _) hmoved
  | connected =>
      have hdropped : Evolves False (holdings state) (holdings { state with
          connecting := Function.update state.connecting call none }) :=
        evolves_drop (.connect call) False.elim
          (holds_updateConnecting state state.opened call none) rfl
      have hother : waits.fd ≠ state.socketFd waits.socket := by
        intro heq
        have howns : (holdings state).holds (.socket waits.socket) = some waits.fd :=
          heq ▸ if_neg hopen
        cases hexclusive.single _ _ _ hwaits howns
      exact @unowned_withFd { state with
          connecting := Function.update state.connecting call none } waits.socket waits.fd
        (hdropped.exclusive hexclusive) hopen hother waits.positive.ne'

/-- **Forgotten for good.** Where a `connect` gives its socket a descriptor and finds it with one,
that one stays open in whatever happens next, and belongs to nobody. -/
theorem overwritten_of_run {opened : Finset Handle} {earlier later : List Action}
    {final : Descriptors} {waits : Connecting} {outcome : Outcome} {address : String}
    (hearlier : Run Step (start opened) earlier state)
    (hcall : state.connecting call = some waits) (hopen : state.socketFd waits.socket ≠ 0)
    (hdone : state.Overwrites call address waits outcome)
    (hlater : Run Step (state.after (resumeConnect call address waits outcome)) later final) :
    (holdings final).Unowned (state.socketFd waits.socket) := by
  have hexclusive := exclusive_of_run hearlier
  exact unowned_of_run hlater (exclusive_step hexclusive (.resume hcall address outcome))
    (unowned_overwritten hexclusive hcall hopen hdone)

theorem overwritten_of_run_overtaken :
    (holdings (overtaken.after (resumeConnect 0 "" ⟨1, 1, Nat.one_pos, []⟩ .connected))).Unowned
      2 :=
  overwritten_of_run run_overtaken rfl (by decide) (.inl rfl) (.nil _)

end Descriptors

end Liblw.Net
