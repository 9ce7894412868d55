import Liblw.Lib.Run
import Liblw.Net.Server

/-!
# Closing a server

`force_close` leaves a server alone that is not running, so it closes one that runs and leaves one
open that only listens: before its `run` as well as behind it. `try_close` returns true over the
same.
-/

namespace Liblw.Net

open Liblw.Lib

variable {R : Type}

/-! ### The calls of a server -/

/-- A server and the number of calls of `run` on it that have not returned. -/
structure System (R : Type) where
  server : Server R
  runs : Nat

def System.make : System R := ⟨⟨false, false, false, []⟩, 0⟩

/-- `serve` is what goes on in a router meanwhile. -/
inductive ServerAction (R : Type) where
  | attachRouter (port : UInt16) (router : R)
  | listen (bind : UInt16 → Option Fault)
  | beginRun
  | endRun
  | serve (port : UInt16) (router : R)
  | tryClose
  | forceClose

namespace Server

def serve (server : Server R) (port : UInt16) (router : R) : Server R :=
  { server with
    portMap := server.portMap.map fun (other, routerSocket) =>
      (other, if other = port then { routerSocket with router } else routerSocket) }

end Server

section Steps

variable (attachRoutes : R → Result R) (connectionCount : R → Nat)

inductive ServerStep : System R → ServerAction R → System R → Prop where
  | attachRouter (system : System R) (port : UInt16) (router : R) :
      ServerStep system (.attachRouter port router)
        { system with
          server := ((Server.attachRouter attachRoutes port router).exec system.server).2 }
  | listen (system : System R) (bind : UInt16 → Option Fault) :
      ServerStep system (.listen bind)
        { system with server := ((Server.listen bind).exec system.server).2 }
  | beginRun {system : System R} {server : Server R}
      (hrun : Server.beginRun.exec system.server = (.ok (), server)) :
      ServerStep system .beginRun ⟨server, system.runs + 1⟩
  | refuseRun {system : System R} {server : Server R} {fault : Fault}
      (hrun : Server.beginRun.exec system.server = (.error fault, server)) :
      ServerStep system .beginRun { system with server }
  | endRun {system : System R} (hruns : 0 < system.runs) :
      ServerStep system .endRun ⟨system.server.endRun, system.runs - 1⟩
  | serve (system : System R) (port : UInt16) (router : R) :
      ServerStep system (.serve port router)
        { system with server := system.server.serve port router }
  | tryClose (system : System R) :
      ServerStep system .tryClose
        { system with server := (system.server.tryClose connectionCount).2 }
  | forceClose (system : System R) :
      ServerStep system .forceClose { system with server := system.server.forceClose }

/-- The call is `force_close`, or a `try_close` that returns true. -/
def ServerAction.Closes (server : Server R) : ServerAction R → Prop
  | .forceClose => True
  | .tryClose => (server.tryClose connectionCount).1 = true
  | _ => False

end Steps

def RouterSocket.isOpen (routerSocket : RouterSocket R) : Bool :=
  routerSocket.socket.any Socket.isOpen

namespace Server

/-- The server is closed, and takes another router and listens again wherever nothing else is in the
way. -/
structure IsClosed (attachRoutes : R → Result R) (server : Server R) : Prop where
  sockets : ∀ entry ∈ server.portMap, entry.2.isOpen = false
  listening : server.listening = false
  running : server.running = false
  attachRouter : ∀ port router attached, (∀ entry ∈ server.portMap, entry.1 ≠ port) →
    attachRoutes router = .ok attached →
      ((Server.attachRouter attachRoutes port router).exec server).1 = .ok ()
  listen : ∀ bind, (∀ entry ∈ server.portMap, bind entry.1 = none) →
    ((Server.listen bind).exec server).1 = .ok ()

/-- In every state of a run, a server that runs listens, and one that does not listen has no open
socket. -/
structure Invariant (server : Server R) : Prop where
  running : server.running = true → server.listening = true
  sockets : server.listening = false → ∀ entry ∈ server.portMap, entry.2.isOpen = false

/-! ### What a call leaves -/

section Calls

variable {server : Server R} {attachRoutes : R → Result R} {connectionCount : R → Nat}

theorem isOpen_close (routerSocket : RouterSocket R) : routerSocket.close.isOpen = false := by
  unfold RouterSocket.close RouterSocket.isOpen
  split_ifs with hopen
  · rfl
  · exact Bool.eq_false_iff.mpr hopen

theorem mapM_listen_ok {bind : UInt16 → Option Fault}
    {portMap : List (UInt16 × RouterSocket R)} (hbind : ∀ entry ∈ portMap, bind entry.1 = none) :
    ∃ opened, (portMap.mapM fun (port, routerSocket) =>
      (routerSocket.listen bind port).map fun routerSocket => (port, routerSocket)) =
        (.ok opened : Result _) := by
  induction portMap with
  | nil => exact ⟨[], rfl⟩
  | cons entry portMap ih =>
      obtain ⟨port, routerSocket⟩ := entry
      rw [List.forall_mem_cons] at hbind
      obtain ⟨opened, hopened⟩ := ih hbind.2
      have hfirst : ∃ listening, routerSocket.listen bind port = .ok listening := by
        unfold RouterSocket.listen
        split_ifs
        · exact ⟨_, rfl⟩
        · rw [hbind.1]
          exact ⟨_, rfl⟩
      obtain ⟨listening, hlisten⟩ := hfirst
      refine ⟨(port, listening) :: opened, ?_⟩
      rw [List.mapM_cons, hopened]
      dsimp only
      rw [hlisten]
      rfl

/-- A server that neither listens nor runs and has no open socket is ready to begin again. -/
theorem isClosed_of_not_listening (hinv : Invariant server)
    (hlistening : server.listening = false) :
    IsClosed attachRoutes server where
  sockets := hinv.sockets hlistening
  listening := hlistening
  running := by
    by_contra hrunning
    have htrue := hinv.running (Bool.eq_true_of_not_eq_false hrunning)
    rw [hlistening] at htrue
    cases htrue
  attachRouter port router attached hport hroutes := by
    have hfree : (server.portMap.any fun (other, _) => other = port) = false := by
      rw [List.any_eq_false]
      intro entry hmem
      rw [decide_eq_true_eq]
      exact hport entry hmem
    unfold Server.attachRouter
    rw [Call.exec_get_bind, hlistening, if_neg Bool.false_ne_true, hfree,
      if_neg Bool.false_ne_true, Call.exec_set_bind, hroutes]
    rfl
  listen bind hbind := by
    obtain ⟨opened, hopened⟩ := mapM_listen_ok hbind
    unfold Server.listen
    rw [Call.exec_get_bind, hlistening, if_neg Bool.false_ne_true]
    dsimp only
    rw [hopened]
    rfl

theorem forceClose_of_running (hrunning : server.running = true) :
    Invariant server.forceClose ∧ server.forceClose.listening = false := by
  unfold forceClose
  rw [hrunning]
  refine ⟨⟨nofun, ?_⟩, rfl⟩
  intro _ entry hmem
  obtain ⟨before, -, rfl⟩ := List.mem_map.mp hmem
  exact isOpen_close before.2

theorem forceClose_of_not_running (hrunning : server.running = false) :
    server.forceClose = server := by
  unfold forceClose
  rw [hrunning]
  rfl

theorem Invariant.forceClose (hinv : Invariant server) : Invariant server.forceClose := by
  cases hrunning : server.running with
  | true => exact (forceClose_of_running hrunning).1
  | false =>
      rw [forceClose_of_not_running hrunning]
      exact hinv

/-- `force_close` closes the server if and only if it runs or does not listen in the first
place. -/
theorem isClosed_forceClose_iff (hinv : Invariant server) :
    IsClosed attachRoutes server.forceClose ↔
      server.running = true ∨ server.listening = false := by
  constructor
  · intro hclosed
    cases hrunning : server.running with
    | true => exact .inl rfl
    | false =>
        rw [forceClose_of_not_running hrunning] at hclosed
        exact .inr hclosed.listening
  · intro hcondition
    have hlistening : server.forceClose.listening = false := by
      cases hrunning : server.running with
      | true => exact (forceClose_of_running hrunning).2
      | false =>
          rw [hrunning] at hcondition
          rw [forceClose_of_not_running hrunning]
          exact hcondition.resolve_left Bool.false_ne_true
    exact isClosed_of_not_listening hinv.forceClose hlistening

theorem tryClose_of_true (hreturned : (server.tryClose connectionCount).1 = true) :
    (server.tryClose connectionCount).2 = server.forceClose := by
  unfold tryClose at hreturned ⊢
  split_ifs at hreturned ⊢
  rfl

theorem Invariant.tryClose (hinv : Invariant server) :
    Invariant (server.tryClose connectionCount).2 := by
  unfold Server.tryClose
  split_ifs
  · exact hinv
  · exact hinv.forceClose

theorem Invariant.withRouter (hinv : Invariant server) (port : UInt16) (router : R) :
    Invariant (server.withRouter port router) := by
  refine ⟨hinv.running, ?_⟩
  intro hlistening entry hmem
  rcases List.mem_append.mp hmem with hold | hnew
  · exact hinv.sockets hlistening entry hold
  · rw [List.mem_singleton.mp hnew]
    rfl

theorem Invariant.attachRouter (hinv : Invariant server) (port : UInt16) (router : R) :
    Invariant ((Server.attachRouter attachRoutes port router).exec server).2 := by
  unfold Server.attachRouter
  rw [Call.exec_get_bind, Call.exec_ite, Call.exec_ite]
  split_ifs
  · exact hinv
  · exact hinv
  · rw [Call.exec_set_bind]
    cases attachRoutes router with
    | ok attached => exact hinv.withRouter port attached
    | error fault => exact hinv.withRouter port router

theorem Invariant.listen (hinv : Invariant server) (bind : UInt16 → Option Fault) :
    Invariant ((Server.listen bind).exec server).2 := by
  unfold Server.listen
  rw [Call.exec_get_bind, Call.exec_ite]
  split_ifs with hlistening
  · exact hinv
  · dsimp only
    split
    · exact ⟨fun _ => rfl, nofun⟩
    · refine ⟨fun hrunning => absurd (hinv.running hrunning) hlistening, ?_⟩
      intro _ entry hmem
      obtain ⟨before, -, rfl⟩ := List.mem_map.mp hmem
      rfl

theorem Invariant.beginRun (hinv : Invariant server) :
    Invariant (Server.beginRun.exec server).2 := by
  unfold Server.beginRun
  rw [Call.exec_get_bind, Call.exec_ite, Call.exec_ite]
  split_ifs with hlistening hrunning
  · exact hinv
  · exact hinv
  · refine ⟨fun _ => ?_, hinv.sockets⟩
    simpa using hlistening

theorem Invariant.serve (hinv : Invariant server) (port : UInt16) (router : R) :
    Invariant (server.serve port router) := by
  refine ⟨hinv.running, ?_⟩
  intro hlistening entry hmem
  obtain ⟨⟨other, routerSocket⟩, hbefore, rfl⟩ := List.mem_map.mp hmem
  have hclosed := hinv.sockets hlistening _ hbefore
  dsimp only at hclosed ⊢
  split_ifs
  · exact hclosed
  · exact hclosed

end Calls

end Server

/-! ### Runs -/

section Runs

variable {attachRoutes : R → Result R} {connectionCount : R → Nat} {before after final : System R}
  {action : ServerAction R} {actions : List (ServerAction R)}

theorem ServerStep.invariant (hstep : ServerStep attachRoutes connectionCount before action after)
    (hinv : before.server.Invariant) : after.server.Invariant := by
  cases hstep with
  | attachRouter port router => exact hinv.attachRouter port router
  | listen bind => exact hinv.listen bind
  | beginRun hrun =>
      have hafter := hinv.beginRun
      rw [hrun] at hafter
      exact hafter
  | refuseRun hrun =>
      have hafter := hinv.beginRun
      rw [hrun] at hafter
      exact hafter
  | endRun hruns => exact ⟨nofun, hinv.sockets⟩
  | serve port router => exact hinv.serve port router
  | tryClose => exact hinv.tryClose
  | forceClose => exact hinv.forceClose

theorem invariant_of_run
    (hrun : Run (ServerStep attachRoutes connectionCount) System.make actions final) :
    final.server.Invariant := by
  apply hrun.preserves (fun system => system.server.Invariant) (fun _ => ServerStep.invariant)
    (fun _ _ => trivial)
  exact ⟨nofun, nofun⟩

/-- One call that closes the server leaves it closed or not, after what it was before the call. -/
theorem ServerStep.isClosed_iff
    (hstep : ServerStep attachRoutes connectionCount before action after)
    (hinv : before.server.Invariant) (hcloses : action.Closes connectionCount before.server) :
    after.server.IsClosed attachRoutes ↔
      before.server.running = true ∨ before.server.listening = false := by
  cases hstep with
  | tryClose =>
      rw [Server.tryClose_of_true hcloses]
      exact Server.isClosed_forceClose_iff hinv
  | forceClose => exact Server.isClosed_forceClose_iff hinv
  | attachRouter port router => exact hcloses.elim
  | listen bind => exact hcloses.elim
  | beginRun hrun => exact hcloses.elim
  | refuseRun hrun => exact hcloses.elim
  | endRun hruns => exact hcloses.elim
  | serve port router => exact hcloses.elim

/-- In every run, the calls that close the server leave it closed if and only if each of them finds
it running or not listening. -/
theorem closes_iff :
    (∀ before action after, Run.Takes (ServerStep attachRoutes connectionCount) System.make actions
        final before action after → action.Closes connectionCount before.server →
          after.server.IsClosed attachRoutes) ↔
      ∀ before action after, Run.Takes (ServerStep attachRoutes connectionCount) System.make actions
        final before action after → action.Closes connectionCount before.server →
          before.server.running = true ∨ before.server.listening = false := by
  constructor
  · intro hclosed before action after htakes hcloses
    obtain ⟨earlier, later, -, hearlier, hstep, -⟩ := id htakes
    exact (hstep.isClosed_iff (invariant_of_run hearlier) hcloses).mp
      (hclosed before action after htakes hcloses)
  · intro hcondition before action after htakes hcloses
    obtain ⟨earlier, later, -, hearlier, hstep, -⟩ := id htakes
    exact (hstep.isClosed_iff (invariant_of_run hearlier) hcloses).mpr
      (hcondition before action after htakes hcloses)

end Runs

/-- A server with a router that counts nothing on port 8080, before and behind `listen`. -/
def attached (socket : Option Socket) : System Nat :=
  ⟨⟨socket.isSome, false, false, [(8080, ⟨0, socket⟩)]⟩, 0⟩

/-- `listen` and `force_close` on a server that was never run: it still listens. -/
theorem not_closes :
    ¬ ∀ before action after, Run.Takes (ServerStep Except.ok id) System.make
        [.attachRouter 8080 0, .listen fun _ => none, .forceClose] (attached (some ⟨true⟩)) before
          action after → action.Closes id before.server → after.server.IsClosed Except.ok := by
  intro hcloses
  have hattach : ServerStep Except.ok id System.make (.attachRouter 8080 0) (attached none) :=
    .attachRouter System.make 8080 0
  have hlisten : ServerStep Except.ok id (attached none) (.listen fun _ => none)
      (attached (some ⟨true⟩)) :=
    .listen (attached none) fun _ => none
  have hforce : ServerStep Except.ok id (attached (some ⟨true⟩)) .forceClose
      (attached (some ⟨true⟩)) :=
    .forceClose (attached (some ⟨true⟩))
  have hclosed := hcloses _ _ _
    ⟨_, [], rfl, .cons hattach (.cons hlisten (.nil _)), hforce, .nil _⟩ trivial
  exact absurd hclosed.listening (by decide)

end Liblw.Net
