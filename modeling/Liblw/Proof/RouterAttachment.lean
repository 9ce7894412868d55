import Liblw.Net.Attachments
import Liblw.Proof.TrieInsert

/-!
# What a failed attachment leaves

The port is entered before the routes are attached, and nothing takes it out again where that
throws. Everything else that a call can throw, it throws before it enters the port.
-/

namespace Liblw.Net.Attachments

open Liblw.Lib

variable {R : Type} {attachRoutes : Nat → Call Fault R Unit} {state : Attachments R}
  {port : UInt16} {router : Option Nat} {address : Nat}

/-- A call that throws leaves the ports and their routers as they were. -/
def Unharmed (attachRoutes : Nat → Call Fault R Unit) (port : UInt16) (router : Option Nat)
    (state : Attachments R) : Prop :=
  ∀ fault after, (attachRouter attachRoutes port router).exec state = (.error fault, after) →
    after.attached = state.attached

/-- The port is free, and the server takes routers. -/
def Accepts (port : UInt16) (state : Attachments R) : Prop :=
  state.server.listening = false ∧ ∀ entry ∈ state.server.portMap, entry.1 ≠ port

/-- The call does not come as far as to the routes, or they can be attached. -/
def Attaches (attachRoutes : Nat → Call Fault R Unit) (port : UInt16) (router : Option Nat)
    (state : Attachments R) : Prop :=
  ∀ address, router = some address → Accepts port state →
    ¬ (attachRoutes address).Fails (state.routers address)

/-! ### The call -/

/-- The state with the port entered. -/
def withPort (state : Attachments R) (port : UInt16) (address : Nat) : Attachments R :=
  { state with server := state.server.withRouter port address }

/-- A call that is refused changes nothing. -/
theorem exec_attachRouter_refused (hrefused : router = none ∨ ¬ Accepts port state) :
    ∃ fault, (attachRouter attachRoutes port router).exec state = (.error fault, state) := by
  cases router with
  | none => exact ⟨_, rfl⟩
  | some address =>
      have hrefused := hrefused.resolve_left nofun
      unfold attachRouter
      rw [Call.exec_get_bind]
      split_ifs with hlistening htaken
      · exact ⟨_, rfl⟩
      · exact ⟨_, rfl⟩
      · refine absurd ⟨Bool.eq_false_iff.mpr hlistening, ?_⟩ hrefused
        rintro entry hmem rfl
        exact htaken (List.any_eq_true.mpr ⟨entry, hmem, decide_eq_true rfl⟩)

/-- The port is entered, whatever the routes do. -/
theorem exec_attachRouter (haccepts : Accepts port state) :
    (attachRouter attachRoutes port (some address)).exec state =
      (onRouter address (attachRoutes address)).exec (state.withPort port address) := by
  unfold attachRouter
  rw [Call.exec_get_bind, if_neg (Bool.eq_false_iff.mp haccepts.1), if_neg]
  · rfl
  · rw [List.any_eq_true]
    rintro ⟨entry, hmem, hport⟩
    exact haccepts.2 entry hmem (of_decide_eq_true hport)

theorem attached_withPort (state : Attachments R) (port : UInt16) (address : Nat) :
    (state.withPort port address).attached = insert (port, address) state.attached := by
  ext ⟨other, found⟩
  simp only [attached, withPort, Server.withRouter, Set.mem_ofPred_eq, Set.mem_insert_iff,
    List.mem_append, List.mem_singleton, Prod.mk.injEq]
  constructor
  · rintro ⟨routerSocket, hmem | ⟨rfl, rfl⟩, rfl⟩
    · exact .inr ⟨routerSocket, hmem, rfl⟩
    · exact .inl ⟨rfl, rfl⟩
  · rintro (⟨rfl, rfl⟩ | ⟨routerSocket, hmem, rfl⟩)
    · exact ⟨_, .inr ⟨rfl, rfl⟩, rfl⟩
    · exact ⟨routerSocket, .inl hmem, rfl⟩

/-- What attaches routes does not touch the ports. -/
theorem attached_onRouter (call : Call Fault R Unit) (state : Attachments R) (address : Nat) :
    ((onRouter address call).exec state).2.attached = state.attached := rfl

theorem not_mem_attached (haccepts : Accepts port state) : (port, address) ∉ state.attached := by
  rintro ⟨routerSocket, hmem, -⟩
  exact haccepts.2 _ hmem rfl

/-- A call leaves the ports and routers as they were when it throws, exactly if it does not come to
attach routes that throw. -/
theorem unharmed_iff_attaches (attachRoutes : Nat → Call Fault R Unit) (port : UInt16)
    (router : Option Nat) (state : Attachments R) :
    Unharmed attachRoutes port router state ↔ Attaches attachRoutes port router state := by
  constructor
  · rintro hunharmed address rfl haccepts ⟨error, final, hfails⟩
    have hexec := @exec_attachRouter R attachRoutes state port address haccepts
    have hinner : (onRouter address (attachRoutes address)).exec (state.withPort port address) =
        (.error error, ((onRouter address (attachRoutes address)).exec
          (state.withPort port address)).2) := by
      apply Prod.ext
      · change ((attachRoutes address).exec (state.routers address)).1 = .error error
        rw [hfails]
      · rfl
    rw [hinner] at hexec
    have hsame := hunharmed _ _ hexec
    rw [attached_onRouter, attached_withPort] at hsame
    exact not_mem_attached haccepts (hsame ▸ Set.mem_insert _ _)
  · intro hattaches fault after hexec
    by_cases hrefused : router = none ∨ ¬ Accepts port state
    · obtain ⟨fault', hrefuse⟩ :=
        @exec_attachRouter_refused R attachRoutes state port router hrefused
      rw [hrefuse] at hexec
      cases hexec
      rfl
    · rw [not_or, not_not] at hrefused
      obtain ⟨address, rfl⟩ := Option.ne_none_iff_exists'.mp hrefused.1
      rw [exec_attachRouter hrefused.2] at hexec
      have hresult : ((attachRoutes address).exec (state.routers address)).1 = .error fault :=
        congrArg Prod.fst hexec
      exact absurd ⟨fault, _, Prod.ext hresult rfl⟩ (hattaches address rfl hrefused.2)

/-! ### Sequences of calls -/

/-- A call that returns has attached its router. -/
theorem attached_of_returned {after : Attachments R}
    (hexec : (attachRouter attachRoutes port router).exec state = (.ok (), after)) :
    ∃ address, router = some address ∧
      after.attached = insert (port, address) state.attached := by
  by_cases hrefused : router = none ∨ ¬ Accepts port state
  · obtain ⟨fault', hrefuse⟩ := @exec_attachRouter_refused R attachRoutes state port router hrefused
    rw [hrefuse] at hexec
    cases hexec
  · rw [not_or, not_not] at hrefused
    obtain ⟨address, rfl⟩ := Option.ne_none_iff_exists'.mp hrefused.1
    rw [exec_attachRouter hrefused.2] at hexec
    have hsame := attached_onRouter (attachRoutes address) (state.withPort port address) address
    rw [hexec] at hsame
    exact ⟨address, rfl, hsame.trans (attached_withPort state port address)⟩

theorem accepted_of_error {fault : Fault} {after : Attachments R}
    {calls : List (UInt16 × Option Nat)}
    (hexec : (attachRouter attachRoutes port router).exec state = (.error fault, after)) :
    state.accepted attachRoutes ((port, router) :: calls) =
      (state.afterCall attachRoutes port router).accepted attachRoutes calls := by
  rw [accepted, hexec]
  cases router <;> rfl

theorem accepted_of_ok {after : Attachments R} {calls : List (UInt16 × Option Nat)}
    (hexec : (attachRouter attachRoutes port (some address)).exec state = (.ok (), after)) :
    state.accepted attachRoutes ((port, some address) :: calls) =
      (port, address) ::
        (state.afterCall attachRoutes port (some address)).accepted attachRoutes calls := by
  rw [accepted, hexec]
  rfl

/-- **Attaching routers.** In every sequence of calls, one that throws leaves the ports and routers
as they were exactly if it does not come to attach routes that throw. If none does, what is attached
at the end is what was attached by the calls that returned. -/
theorem attached_afterCalls (attachRoutes : Nat → Call Fault R Unit) (start : Attachments R)
    (calls : List (UInt16 × Option Nat)) :
    (∀ earlier port router later, calls = earlier ++ (port, router) :: later →
      (Unharmed attachRoutes port router (start.afterCalls attachRoutes earlier) ↔
        Attaches attachRoutes port router (start.afterCalls attachRoutes earlier))) ∧
    ((∀ earlier port router later, calls = earlier ++ (port, router) :: later →
        Attaches attachRoutes port router (start.afterCalls attachRoutes earlier)) →
      (start.afterCalls attachRoutes calls).attached =
        start.attached ∪ {pair | pair ∈ start.accepted attachRoutes calls}) := by
  refine ⟨fun earlier port router later _ => unharmed_iff_attaches attachRoutes port router _, ?_⟩
  intro hattaches
  induction calls generalizing start with
  | nil =>
      ext pair
      simp [afterCalls, accepted]
  | cons first calls ih =>
      obtain ⟨port, router⟩ := first
      have hrest := ih (start.afterCall attachRoutes port router) (by
        rintro earlier port' router' later rfl
        exact hattaches ((port, router) :: earlier) port' router' later rfl)
      have hunharmed := (unharmed_iff_attaches attachRoutes port router start).mpr
        (hattaches [] port router calls rfl)
      change ((start.afterCall attachRoutes port router).afterCalls attachRoutes calls).attached = _
      rw [hrest]
      rcases hexec : (attachRouter attachRoutes port router).exec start with ⟨result, after⟩
      have hafter : start.afterCall attachRoutes port router = after := by
        unfold afterCall
        rw [hexec]
      cases result with
      | error fault => rw [accepted_of_error hexec, hafter, hunharmed fault after hexec]
      | ok value =>
          obtain ⟨address, rfl, hattached⟩ := attached_of_returned hexec
          rw [accepted_of_ok hexec, hafter, hattached]
          ext pair
          simp only [Set.mem_union, Set.mem_insert_iff, Set.mem_ofPred_eq, List.mem_cons]
          tauto

/-! ### HTTP routers -/

section Http

open Liblw.Http Liblw.Http.EndpointTrie

variable {E : Type} {engine : RegexEngine} {route : E → Text} {endpoints : List E}

/-- The routes of an HTTP router that is on a port cannot be attached once more. -/
theorem fails_again (hsome : endpoints ≠ [])
    (hroutable : ∀ endpoint ∈ endpoints, Routable engine route endpoint)
    {trie : EndpointTrie E}
    (hattached : (EndpointTrie.attachRoutes route engine endpoints).exec empty = (.ok (), trie)) :
    (EndpointTrie.attachRoutes route engine endpoints).Fails trie := by
  have hrepresents : Represents (routeMatchers engine route) trie endpoints ∧
      Compatible (routeMatchers engine route) endpoints := by
    rcases exec_attachRoutes represents_empty List.Pairwise.nil (by simpa using hroutable) with
      ⟨-, error, final, hfails⟩ | ⟨final, hexec, hcompatible, hfinal⟩
    · rw [hattached] at hfails
      cases hfails
    · rw [hattached] at hexec
      cases hexec
      exact ⟨hfinal, hcompatible⟩
  have hboth : ∀ endpoint ∈ endpoints ++ endpoints, Routable engine route endpoint := by
    simpa using hroutable
  rcases exec_attachRoutes hrepresents.1 hrepresents.2 hboth with
    ⟨-, hcollides⟩ | ⟨final, -, hcompatible, -⟩
  · obtain ⟨error, final, hfails⟩ := hcollides
    exact ⟨_, final, hfails⟩
  · obtain ⟨endpoint, hmem⟩ := List.exists_mem_of_ne_nil _ hsome
    refine absurd ?_ ((List.pairwise_append.mp hcompatible).2.2 endpoint hmem endpoint hmem)
    exact conflict_iff.mpr (.inr rfl)

/-- HTTP routers, which all have the route `/a`. -/
def attachSingle (_ : Nat) : Call Fault (EndpointTrie Text) Unit :=
  EndpointTrie.attachRoutes id noPatterns ["/a".toList]

/-- One of them is on the port 80. -/
def onePort : Attachments (EndpointTrie Text) :=
  afterCalls attachSingle ⟨⟨false, false, false, []⟩, fun _ => empty⟩ [(80, some 1)]

/-- Attaching it to the port 81 as well throws, and it is on that port afterwards. -/
theorem harmed_by_second_port :
    ¬ Unharmed attachSingle 81 (some 1) onePort := by
  rw [unharmed_iff_attaches]
  intro hattaches
  refine hattaches 1 rfl ⟨rfl, by decide⟩ ⟨.thrown ⟨.alreadyExists,
    "A handler already exists for the route /a"⟩, _, Prod.ext ?_ rfl⟩
  decide

end Http

end Liblw.Net.Attachments
