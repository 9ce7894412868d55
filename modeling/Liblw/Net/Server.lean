import Liblw.Error

/-!
# Servers

A server has a router on each of its ports, and closes when none of them has a connection. Its
routers are of any type with a number of connections. What the system says to a socket that is to
listen on a port is a function that is passed along.
-/

namespace Liblw.Net

open Liblw.Lib

structure Socket where
  isOpen : Bool
deriving DecidableEq, Repr

structure RouterSocket (R : Type) where
  router : R
  socket : Option Socket

/-- `polling` is `_continue_polling` of the scheduler of the runner thread. -/
structure Server (R : Type) where
  listening : Bool
  running : Bool
  polling : Bool
  portMap : List (UInt16 × RouterSocket R)

variable {R : Type}

/-- An open socket is closed and let go. -/
def RouterSocket.close (routerSocket : RouterSocket R) : RouterSocket R :=
  if routerSocket.socket.any Socket.isOpen then { routerSocket with socket := none }
  else routerSocket

/-- `listen` on the socket of a port, for which one is made where there is none. -/
def RouterSocket.listen (bind : UInt16 → Option Fault) (port : UInt16)
    (routerSocket : RouterSocket R) : Result (RouterSocket R) :=
  if routerSocket.socket.any Socket.isOpen then .ok routerSocket
  else
    match bind port with
    | some fault => .error fault
    | none => .ok { routerSocket with socket := some ⟨true⟩ }

def RouterSocket.dropSocket (routerSocket : RouterSocket R) : RouterSocket R :=
  { routerSocket with socket := none }

namespace Server

def withRouter (server : Server R) (port : UInt16) (router : R) : Server R :=
  { server with portMap := server.portMap ++ [(port, ⟨router, none⟩)] }

/-- The routes are attached behind the router, and the router stays where that fails. -/
def attachRouter (attachRoutes : R → Result R) (port : UInt16) (router : R) :
    Call Fault (Server R) Unit := do
  let server ← get
  if server.listening then
    raise .failedPrecondition
      "Cannot add routers to server while it is listening for connections."
  else if server.portMap.any fun (other, _) => other = port then
    raise .alreadyExists s!"Port {port} is already connected to a router."
  else
    set (server.withRouter port router)
    match attachRoutes router with
    | .ok router => set (server.withRouter port router)
    | .error fault => throw fault

def listen (bind : UInt16 → Option Fault) : Call Fault (Server R) Unit := do
  let server ← get
  if server.listening then
    raise .failedPrecondition "Server is already listening! Stop the server first."
  else
    let opened := server.portMap.mapM fun (port, routerSocket) =>
      (routerSocket.listen bind port).map fun routerSocket => (port, routerSocket)
    match opened with
    | .ok portMap => set { server with listening := true, portMap }
    | .error fault =>
        let portMap := server.portMap.map fun (port, routerSocket) =>
          (port, routerSocket.dropSocket)
        set { server with listening := false, portMap }
        throw fault

/-- `run` up to where it waits for the scheduler. -/
def beginRun : Call Fault (Server R) Unit := do
  let server ← get
  if !server.listening then
    raise .failedPrecondition "Attach routers and start listening before attempting to run."
  else if server.running then
    raise .failedPrecondition "Server is already running! Stop the server first."
  else set { server with running := true, polling := true }

/-- The end of `run`, behind the scheduler's return as behind an exception. -/
def endRun (server : Server R) : Server R := { server with running := false }

def forceClose (server : Server R) : Server R :=
  if !server.running then server
  else
    { listening := false
      running := false
      polling := false
      portMap := server.portMap.map fun (port, routerSocket) => (port, routerSocket.close) }

def tryClose (connectionCount : R → Nat) (server : Server R) : Bool × Server R :=
  if server.portMap.any fun (_, routerSocket) => 0 < connectionCount routerSocket.router then
    (false, server)
  else (true, server.forceClose)

theorem tryClose_iff (connectionCount : R → Nat) (server : Server R) :
    (server.tryClose connectionCount).1 = true ↔
      ∀ entry ∈ server.portMap, connectionCount entry.2.router = 0 := by
  unfold tryClose
  split_ifs with hcount
  · simp only [false_iff]
    intro hidle
    obtain ⟨entry, hmem, hpos⟩ := List.any_eq_true.mp hcount
    have hzero := hidle entry hmem
    rw [decide_eq_true_eq] at hpos
    omega
  · simp only [true_iff]
    intro entry hmem
    by_contra hne
    exact hcount (List.any_eq_true.mpr ⟨entry, hmem, decide_eq_true (Nat.pos_of_ne_zero hne)⟩)

end Server

end Liblw.Net
