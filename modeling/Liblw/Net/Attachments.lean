import Liblw.Net.Server

/-!
# Routers on several ports

A server keeps references to its routers, so a router can be on several ports. The routers are told
by their addresses here, and `attachRoutes` has what `attach_routes` of the router at each address
does. It may throw part-way.
-/

namespace Liblw.Net

open Liblw.Lib

variable {R : Type}

structure Attachments (R : Type) where
  server : Server Nat
  routers : Nat → R

namespace Attachments

def onRouter (address : Nat) (call : Call Fault R Unit) : Call Fault (Attachments R) Unit :=
  call.within (fun state => state.routers address) fun router state =>
    { state with routers := Function.update state.routers address router }

variable (attachRoutes : Nat → Call Fault R Unit)

/-- `attach_router`, with the address of the router unless it is null. -/
def attachRouter (port : UInt16) (router : Option Nat) : Call Fault (Attachments R) Unit := do
  match router with
  | none => raise .invalidArgument "router must not be null. "
  | some address => do
      let state ← get
      if state.server.listening then
        raise .failedPrecondition
          "Cannot add routers to server while it is listening for connections."
      else if state.server.portMap.any fun (other, _) => other = port then
        raise .alreadyExists s!"Port {port} is already connected to a router."
      else do
        set { state with server := state.server.withRouter port address }
        onRouter address (attachRoutes address)

/-- A call, whether it returns or throws. -/
def afterCall (state : Attachments R) (port : UInt16) (router : Option Nat) : Attachments R :=
  ((attachRouter attachRoutes port router).exec state).2

/-- A sequence of calls, with whatever they throw caught by the one who calls. -/
def afterCalls (state : Attachments R) : List (UInt16 × Option Nat) → Attachments R
  | [] => state
  | (port, router) :: calls => afterCalls (state.afterCall attachRoutes port router) calls

/-- What a call attaches that returns. -/
def acceptedBy (port : UInt16) : Option Nat → Result Unit → List (UInt16 × Nat)
  | some address, .ok () => [(port, address)]
  | _, _ => []

def accepted (state : Attachments R) : List (UInt16 × Option Nat) → List (UInt16 × Nat)
  | [] => []
  | (port, router) :: calls =>
      acceptedBy port router ((attachRouter attachRoutes port router).exec state).1 ++
        accepted (state.afterCall attachRoutes port router) calls

/-- The ports with their routers. -/
def attached (state : Attachments R) : Set (UInt16 × Nat) :=
  {pair | ∃ routerSocket, (pair.1, routerSocket) ∈ state.server.portMap ∧
    routerSocket.router = pair.2}

end Attachments

end Liblw.Net
