import Liblw.Proof.RouteNodes

/-!
# The trie holds its routes

Inserting routes makes the trie whose nodes are the beginnings of the routes, with the matchers and
endpoints that the routes have there. An insertion fails if and only if its route conflicts with one
that is there.
-/

namespace Liblw.Http

open Liblw.Lib

variable {E : Type}

namespace EndpointTrie

/-! ### Building the way of a route -/

def buildStep (route : Text) (node : Node) : RouteStep → Call Fault (EndpointTrie E) Node
  | .char c => buildLiteralPath node [c]
  | .wild matcher => buildWildcard node matcher route

def buildSteps (route : Text) : Node → List RouteStep → Call Fault (EndpointTrie E) Node
  | node, [] => pure node
  | node, step :: rest => buildStep route node step >>= fun node => buildSteps route node rest

theorem buildSteps_append (route : Text) (node : Node) (first second : List RouteStep) :
    (buildSteps route node (first ++ second) : Call Fault (EndpointTrie E) Node) =
      buildSteps route node first >>= fun node => buildSteps route node second := by
  induction first generalizing node with
  | nil => simp [buildSteps]
  | cons step first ih => simp [buildSteps, ih]

theorem buildSteps_chars (route : Text) (node : Node) (chunk : Text) :
    (buildSteps route node (chunk.map RouteStep.char) : Call Fault (EndpointTrie E) Node) =
      buildLiteralPath node chunk := by
  induction chunk generalizing node with
  | nil => rfl
  | cons c chunk ih => simp [buildSteps, buildStep, buildLiteralPath, ih]

/-- The segments of a route are built step by step. -/
theorem buildPathFrom_eq_buildSteps (route : Text) (node : Node) (matchers : List PathMatcher) :
    (buildPathFrom route node matchers : Call Fault (EndpointTrie E) Node) =
      buildSteps route node (stepsOf matchers) := by
  induction matchers generalizing node with
  | nil => rfl
  | cons matcher rest ih =>
      rw [stepsOf_cons, buildSteps_append, buildPathFrom]
      cases hliteral : matcher.isLiteral with
      | true =>
          rw [segmentSteps_literal hliteral, buildSteps]
          simp only [buildStep, buildSteps_chars, ih, bind_assoc, if_true]
      | false =>
          rw [segmentSteps_wild hliteral]
          simp [buildSteps, buildStep, ih]

/-- A wildcard of the route meets another text in the trie. -/
def Blocked (trie : EndpointTrie E) (steps : List RouteStep) : Prop :=
  ∃ before matcher after present, steps = before ++ .wild matcher :: after ∧
    trie.wildcard (nodeOf before) = some present ∧ present.chunk ≠ matcher.chunk

/-- The trie with the way of the steps added to it. -/
structure Extended (trie : EndpointTrie E) (steps : List RouteStep) (final : EndpointTrie E) :
    Prop where
  nodes : ∀ node, node ∈ final.nodes ↔
    node ∈ trie.nodes ∨ ∃ before, before ≠ [] ∧ before <+: steps ∧ nodeOf before = node
  wildcard : ∀ node matcher, final.wildcard node = some matcher ↔
    trie.wildcard node = some matcher ∨ trie.wildcard node = none ∧
      ∃ before after, steps = before ++ .wild matcher :: after ∧ nodeOf before = node
  endpoint : final.endpoint = trie.endpoint

theorem Extended.nil (trie : EndpointTrie E) : Extended trie [] trie where
  nodes := by
    intro node
    simp
  wildcard := by
    intro node matcher
    simp
  endpoint := rfl

theorem exists_prefix_snoc_iff {steps : List RouteStep} {step : RouteStep} {node : Node} :
    (∃ before, before ≠ [] ∧ before <+: steps ++ [step] ∧ nodeOf before = node) ↔
      node = nodeOf steps ++ [step.key] ∨
        ∃ before, before ≠ [] ∧ before <+: steps ∧ nodeOf before = node := by
  constructor
  · rintro ⟨before, hne, hbegin, rfl⟩
    rcases List.prefix_concat_iff.mp hbegin with rfl | hshort
    · exact Or.inl (by simp)
    · exact Or.inr ⟨before, hne, hshort, rfl⟩
  · rintro (rfl | ⟨before, hne, hshort, rfl⟩)
    · exact ⟨steps ++ [step], by simp, List.prefix_rfl, by simp⟩
    · exact ⟨before, hne, hshort.trans (List.prefix_append _ _), rfl⟩

theorem exists_wild_snoc_iff {steps : List RouteStep} {step : RouteStep} {matcher : PathMatcher}
    {node : Node} :
    (∃ before after, steps ++ [step] = before ++ .wild matcher :: after ∧ nodeOf before = node) ↔
      (step = .wild matcher ∧ nodeOf steps = node) ∨
        ∃ before after, steps = before ++ .wild matcher :: after ∧ nodeOf before = node := by
  constructor
  · rintro ⟨before, after, hsteps, rfl⟩
    rcases List.eq_nil_or_concat after with rfl | ⟨after, last, rfl⟩
    · obtain ⟨rfl, hstep⟩ := List.append_inj' hsteps rfl
      exact Or.inl ⟨(List.cons.inj hstep).1, rfl⟩
    · rw [List.concat_eq_append, ← List.cons_append, ← List.append_assoc] at hsteps
      obtain ⟨rfl, -⟩ := List.append_inj' hsteps rfl
      exact Or.inr ⟨before, after, rfl, rfl⟩
  · rintro (⟨rfl, rfl⟩ | ⟨before, after, rfl, rfl⟩)
    · exact ⟨steps, [], rfl, rfl⟩
    · exact ⟨before, after ++ [step], by simp, rfl⟩

/-- The steps do not reach the node that they lead to before their end. -/
theorem Extended.wildcard_end {trie middle : EndpointTrie E} {steps : List RouteStep}
    (hextended : Extended trie steps middle) :
    middle.wildcard (nodeOf steps) = trie.wildcard (nodeOf steps) := by
  apply Option.ext
  intro matcher
  rw [hextended.wildcard]
  constructor
  · rintro (hpresent | ⟨-, before, after, hsteps, hnode⟩)
    · exact hpresent
    · have hlength := congrArg List.length hnode
      simp [hsteps, nodeOf] at hlength
  · exact Or.inl

theorem Extended.char {trie middle : EndpointTrie E} {steps : List RouteStep} (c : Char)
    (hextended : Extended trie steps middle) :
    Extended trie (steps ++ [.char c]) (middle.addNode (nodeOf steps ++ [.char c])) where
  nodes := by
    intro node
    simp only [addNode, Finset.mem_insert]
    rw [hextended.nodes, exists_prefix_snoc_iff, RouteStep.key]
    tauto
  wildcard := by
    intro node matcher
    rw [exists_wild_snoc_iff]
    simpa [addNode] using hextended.wildcard node matcher
  endpoint := hextended.endpoint

theorem Extended.wild {trie middle : EndpointTrie E} {steps : List RouteStep}
    {matcher : PathMatcher}
    (hextended : Extended trie steps middle) (hfree : trie.wildcard (nodeOf steps) = none) :
    Extended trie (steps ++ [.wild matcher])
      ((middle.setWildcard (nodeOf steps) matcher).addNode (nodeOf steps ++ [.wild])) where
  nodes := by
    intro node
    simp only [addNode, setWildcard, Finset.mem_insert]
    rw [hextended.nodes, exists_prefix_snoc_iff, RouteStep.key]
    tauto
  wildcard := by
    intro node matcher'
    rw [exists_wild_snoc_iff]
    by_cases hnode : node = nodeOf steps
    · subst hnode
      have hend := hextended.wildcard (nodeOf steps) matcher'
      rw [hextended.wildcard_end, hfree] at hend
      simp only [addNode, setWildcard, Function.update_self, Option.some.injEq, hfree]
      simp only [reduceCtorEq, true_and, false_or, false_iff] at hend
      simp only [reduceCtorEq, true_and, and_true, false_or, hend, or_false, RouteStep.wild.injEq]
    · simp only [addNode, setWildcard, Function.update_of_ne hnode]
      rw [hextended.wildcard]
      simp [Ne.symm hnode]
  endpoint := hextended.endpoint

theorem Extended.present {trie middle : EndpointTrie E} {steps : List RouteStep}
    {matcher present : PathMatcher} (hextended : Extended trie steps middle)
    (hpresent : trie.wildcard (nodeOf steps) = some present)
    (hnodes : nodeOf steps ++ [.wild] ∈ trie.nodes) :
    Extended trie (steps ++ [.wild matcher]) middle where
  nodes := by
    intro node
    rw [hextended.nodes, exists_prefix_snoc_iff, RouteStep.key]
    constructor
    · tauto
    · rintro (hmem | rfl | hbefore)
      · exact Or.inl hmem
      · exact Or.inl hnodes
      · exact Or.inr hbefore
  wildcard := by
    intro node matcher'
    rw [hextended.wildcard, exists_wild_snoc_iff]
    constructor
    · tauto
    · rintro (hmem | ⟨hnone, ⟨-, rfl⟩ | hbefore⟩)
      · exact Or.inl hmem
      · rw [hpresent] at hnone
        cases hnone
      · exact Or.inr ⟨hnone, hbefore⟩
  endpoint := hextended.endpoint

theorem blocked_snoc_iff {trie : EndpointTrie E} {steps : List RouteStep} {step : RouteStep} :
    Blocked trie (steps ++ [step]) ↔ Blocked trie steps ∨
      ∃ matcher present, step = .wild matcher ∧ trie.wildcard (nodeOf steps) = some present ∧
        present.chunk ≠ matcher.chunk := by
  constructor
  · rintro ⟨before, matcher, after, present, hsteps, hpresent, hchunk⟩
    rcases exists_wild_snoc_iff.mp ⟨before, after, hsteps, rfl⟩ with
      ⟨rfl, hnode⟩ | ⟨before', after', rfl, hnode⟩
    · exact Or.inr ⟨matcher, present, rfl, by rw [hnode, hpresent], hchunk⟩
    · exact Or.inl ⟨before', matcher, after', present, rfl, by rw [hnode, hpresent], hchunk⟩
  · rintro (⟨before, matcher, after, present, rfl, hpresent, hchunk⟩ |
      ⟨matcher, present, rfl, hpresent, hchunk⟩)
    · exact ⟨before, matcher, after ++ [step], present, by simp, hpresent, hchunk⟩
    · exact ⟨steps, matcher, [], present, rfl, hpresent, hchunk⟩

/-- The call throws `AlreadyExists`. -/
def Collides {α : Type} (call : Call Fault (EndpointTrie E) α) (trie : EndpointTrie E) : Prop :=
  ∃ message final, call.exec trie = (.error (.thrown ⟨.alreadyExists, message⟩), final)

theorem collides_bind {α β : Type} {call : Call Fault (EndpointTrie E) α}
    {next : α → Call Fault (EndpointTrie E) β} {trie : EndpointTrie E}
    (hcollides : Collides call trie) : Collides (call >>= next) trie := by
  obtain ⟨message, final, hexec⟩ := hcollides
  exact ⟨message, final, Call.exec_bind_error hexec⟩

theorem collides_bind_ok {α β : Type} {call : Call Fault (EndpointTrie E) α}
    {next : α → Call Fault (EndpointTrie E) β} {trie middle : EndpointTrie E} {value : α}
    (hcall : call.exec trie = (.ok value, middle)) (hcollides : Collides (next value) middle) :
    Collides (call >>= next) trie := by
  obtain ⟨message, final, hexec⟩ := hcollides
  exact ⟨message, final, by rw [Call.exec_bind_ok hcall, hexec]⟩

theorem exec_buildStep {trie middle : EndpointTrie E} {steps : List RouteStep} (route : Text)
    (step : RouteStep) (hextended : Extended trie steps middle)
    (hclosed : ∀ node matcher, trie.wildcard node = some matcher → node ++ [.wild] ∈ trie.nodes)
    (hopen : ¬ Blocked trie steps) :
    (Blocked trie (steps ++ [step]) ∧ Collides (buildStep route (nodeOf steps) step) middle) ∨
      ∃ final, (buildStep route (nodeOf steps) step).exec middle =
          (.ok (nodeOf (steps ++ [step])), final) ∧
        ¬ Blocked trie (steps ++ [step]) ∧ Extended trie (steps ++ [step]) final := by
  rw [blocked_snoc_iff]
  cases step with
  | char c =>
      refine Or.inr ⟨_, ?_, by simpa using hopen, hextended.char c⟩
      rw [nodeOf_append]
      rfl
  | wild matcher =>
      have hend := hextended.wildcard_end
      cases hpresent : trie.wildcard (nodeOf steps) with
      | none =>
          refine Or.inr ⟨_, ?_, by simpa [hpresent] using hopen, hextended.wild hpresent⟩
          simp only [buildStep, buildWildcard, Call.exec_get_bind, hend, hpresent, nodeOf_append]
          rfl
      | some present =>
          by_cases hchunk : present.chunk = matcher.chunk
          · refine Or.inr ⟨middle, ?_, ?_, hextended.present hpresent (hclosed _ _ hpresent)⟩
            · simp [buildStep, buildWildcard, hend, hpresent, hchunk, RouteStep.key]
            · simpa [hpresent, hchunk] using hopen
          · refine Or.inl ⟨Or.inr ⟨matcher, present, rfl, rfl, hchunk⟩, ?_⟩
            simp only [Collides, buildStep, buildWildcard, Call.exec_get_bind, hend, hpresent,
              ne_eq, hchunk, not_false_eq_true, if_true]
            exact ⟨_, _, rfl⟩

theorem exec_buildSteps {trie : EndpointTrie E} (route : Text)
    (hclosed : ∀ node matcher, trie.wildcard node = some matcher → node ++ [.wild] ∈ trie.nodes)
    (steps : List RouteStep) :
    (Blocked trie steps ∧ Collides (buildSteps route [] steps) trie) ∨
      ∃ final, (buildSteps route [] steps).exec trie = (.ok (nodeOf steps), final) ∧
        ¬ Blocked trie steps ∧ Extended trie steps final := by
  induction steps using List.reverseRecOn with
  | nil =>
      refine Or.inr ⟨trie, rfl, ?_, Extended.nil trie⟩
      rintro ⟨before, matcher, after, present, hsteps, -⟩
      simp at hsteps
  | append_singleton steps step ih =>
      rw [buildSteps_append]
      rcases ih with ⟨hblocked, hcollides⟩ | ⟨middle, hexec, hopen, hextended⟩
      · exact Or.inl ⟨blocked_snoc_iff.mpr (Or.inl hblocked), collides_bind hcollides⟩
      · simp only [buildSteps, bind_pure]
        rw [Call.exec_bind_ok hexec]
        rcases exec_buildStep route step hextended hclosed hopen with ⟨hblocked, hcollides⟩ | hok
        · exact Or.inl ⟨hblocked, collides_bind_ok hexec hcollides⟩
        · exact Or.inr hok

/-! ### The trie of a list of routes -/

/-- The trie has the beginnings of the routes for its nodes, with the wildcards of the routes and
an endpoint where a route ends. -/
structure Represents (matchersOf : E → List PathMatcher) (trie : EndpointTrie E)
    (endpoints : List E) : Prop where
  nodes : ∀ node, node ∈ trie.nodes ↔ ∃ endpoint ∈ endpoints, ∃ before, before ≠ [] ∧
    before <+: stepsOf (matchersOf endpoint) ∧ nodeOf before = node
  wildcard : ∀ node matcher, trie.wildcard node = some matcher ↔
    ∃ endpoint ∈ endpoints, WildAt (matchersOf endpoint) node matcher
  endpoint : ∀ node endpoint, trie.endpoint node = some endpoint ↔
    endpoint ∈ endpoints ∧ nodeOf (stepsOf (matchersOf endpoint)) = node

variable {matchersOf : E → List PathMatcher} {trie : EndpointTrie E} {endpoints : List E}

theorem represents_empty : Represents matchersOf (empty : EndpointTrie E) [] where
  nodes := by simp [empty]
  wildcard := by simp [empty]
  endpoint := by simp [empty]

/-- The routes alone decide what their trie is. -/
theorem Represents.unique {trie' : EndpointTrie E}
    (hrepresents : Represents matchersOf trie endpoints)
    (hrepresents' : Represents matchersOf trie' endpoints) : trie = trie' := by
  obtain ⟨nodes, wildcard, endpoint⟩ := trie
  obtain ⟨nodes', wildcard', endpoint'⟩ := trie'
  have hnodes : nodes = nodes' := by
    ext node
    rw [hrepresents.nodes, hrepresents'.nodes]
  have hwildcard : wildcard = wildcard' := by
    funext node
    apply Option.ext
    intro matcher
    rw [hrepresents.wildcard, hrepresents'.wildcard]
  have hendpoint : endpoint = endpoint' := by
    funext node
    apply Option.ext
    intro found
    rw [hrepresents.endpoint, hrepresents'.endpoint]
  rw [hnodes, hwildcard, hendpoint]

theorem Represents.perm {endpoints' : List E} (hrepresents : Represents matchersOf trie endpoints)
    (hperm : endpoints.Perm endpoints') : Represents matchersOf trie endpoints' where
  nodes := by
    intro node
    rw [hrepresents.nodes]
    simp only [hperm.mem_iff]
  wildcard := by
    intro node matcher
    rw [hrepresents.wildcard]
    simp only [hperm.mem_iff]
  endpoint := by
    intro node endpoint
    rw [hrepresents.endpoint, hperm.mem_iff]

theorem Represents.closed (hrepresents : Represents matchersOf trie endpoints) (node : Node)
    (matcher : PathMatcher) (hwild : trie.wildcard node = some matcher) :
    node ++ [.wild] ∈ trie.nodes := by
  obtain ⟨endpoint, hmem, before, after, hsteps, rfl⟩ := (hrepresents.wildcard _ _).mp hwild
  refine (hrepresents.nodes _).mpr ⟨endpoint, hmem, before ++ [.wild matcher], by simp, ?_, ?_⟩
  · rw [hsteps]
    exact ⟨after, by simp⟩
  · simp [RouteStep.key]

theorem Represents.blocked_iff (hrepresents : Represents matchersOf trie endpoints)
    (matchers : List PathMatcher) :
    Blocked trie (stepsOf matchers) ↔
      ∃ endpoint ∈ endpoints, ¬ Agree (matchersOf endpoint) matchers := by
  constructor
  · rintro ⟨before, matcher, after, present, hsteps, hpresent, hchunk⟩
    obtain ⟨endpoint, hmem, hwild⟩ := (hrepresents.wildcard _ _).mp hpresent
    refine ⟨endpoint, hmem, ?_⟩
    intro hagree
    exact hchunk (hagree _ _ _ hwild ⟨before, after, hsteps, rfl⟩)
  · rintro ⟨endpoint, hmem, hdiffer⟩
    simp only [Agree, not_forall] at hdiffer
    obtain ⟨node, present, matcher, hwild, ⟨before, after, hsteps, rfl⟩, hchunk⟩ := hdiffer
    exact ⟨before, matcher, after, present, hsteps,
      (hrepresents.wildcard _ _).mpr ⟨endpoint, hmem, hwild⟩, hchunk⟩

theorem conflict_iff {first second : List PathMatcher} :
    Conflict first second ↔
      ¬ Agree first second ∨ nodeOf (stepsOf first) = nodeOf (stepsOf second) := by
  simp only [Conflict, Agree, not_forall, exists_prop]

/-- The routes with a further one behind them. -/
theorem Represents.extended {final : EndpointTrie E} {endpoint : E}
    (hrepresents : Represents matchersOf trie endpoints)
    (hextended : Extended trie (stepsOf (matchersOf endpoint)) final)
    (hequal : ∀ other ∈ endpoints, ∀ node matcher matcher', WildAt (matchersOf other) node matcher →
      WildAt (matchersOf endpoint) node matcher' → matcher = matcher')
    (hfree : trie.endpoint (nodeOf (stepsOf (matchersOf endpoint))) = none) :
    Represents matchersOf (final.setEndpoint (nodeOf (stepsOf (matchersOf endpoint))) endpoint)
      (endpoint :: endpoints) where
  nodes := by
    intro node
    simp only [setEndpoint, hextended.nodes, hrepresents.nodes, List.exists_mem_cons_iff]
    exact or_comm
  wildcard := by
    intro node matcher
    simp only [setEndpoint, hextended.wildcard, hrepresents.wildcard, List.exists_mem_cons_iff]
    constructor
    · rintro (hpresent | ⟨-, hnew⟩)
      · exact Or.inr hpresent
      · exact Or.inl hnew
    · rintro (hnew | hpresent)
      · cases hwild : trie.wildcard node with
        | none => exact Or.inr ⟨rfl, hnew⟩
        | some present =>
            obtain ⟨other, hmem, hother⟩ := (hrepresents.wildcard _ _).mp hwild
            obtain rfl := hequal other hmem node present matcher hother hnew
            exact Or.inl ⟨other, hmem, hother⟩
      · exact Or.inl hpresent
  endpoint := by
    intro node found
    simp only [setEndpoint, hextended.endpoint, List.mem_cons]
    by_cases hnode : node = nodeOf (stepsOf (matchersOf endpoint))
    · subst hnode
      have hnone := hrepresents.endpoint (nodeOf (stepsOf (matchersOf endpoint))) found
      rw [hfree] at hnone
      simp only [reduceCtorEq, false_iff, not_and] at hnone
      rw [Function.update_self, Option.some.injEq]
      constructor
      · rintro rfl
        exact ⟨Or.inl rfl, rfl⟩
      · rintro ⟨rfl | hmem, hend⟩
        · rfl
        · exact absurd hend (hnone hmem)
    · rw [Function.update_of_ne hnode, hrepresents.endpoint]
      constructor
      · rintro ⟨hmem, hend⟩
        exact ⟨Or.inr hmem, hend⟩
      · rintro ⟨rfl | hmem, hend⟩
        · exact absurd hend.symm hnode
        · exact ⟨hmem, hend⟩

theorem Represents.conflict_end_iff (hrepresents : Represents matchersOf trie endpoints)
    (matchers : List PathMatcher) :
    (∃ present, trie.endpoint (nodeOf (stepsOf matchers)) = some present) ↔
      ∃ endpoint ∈ endpoints, nodeOf (stepsOf (matchersOf endpoint)) =
        nodeOf (stepsOf matchers) := by
  simp only [hrepresents.endpoint]

theorem stepsOf_ne_nil {matchers : List PathMatcher} (hne : matchers ≠ []) :
    nodeOf (stepsOf matchers) ≠ [] := by
  obtain ⟨matcher, rest, rfl⟩ := List.exists_cons_of_ne_nil hne
  rw [stepsOf_cons, segmentSteps, nodeOf_append]
  simp

open MountPath in
/-- **One insertion.** It collides with a route that is there, or adds its own route. -/
theorem exec_insert {engine : RegexEngine} {endpoint : E} (route : E → Text)
    (hrepresents : Represents matchersOf trie endpoints)
    (hchains : ∀ other ∈ endpoint :: endpoints,
      ∃ last, Chain engine ⟨[], 0⟩ (matchersOf other) last)
    (hne : matchersOf endpoint ≠ []) :
    ((∃ other ∈ endpoints, Conflict (matchersOf other) (matchersOf endpoint)) ∧
        Collides (insert route (matchersOf endpoint) endpoint) trie) ∨
      ∃ final, (insert route (matchersOf endpoint) endpoint).exec trie = (.ok (), final) ∧
        (∀ other ∈ endpoints, ¬ Conflict (matchersOf other) (matchersOf endpoint)) ∧
        Represents matchersOf final (endpoint :: endpoints) := by
  have hbuild := exec_buildSteps (route endpoint) hrepresents.closed (stepsOf (matchersOf endpoint))
  rw [← buildPathFrom_eq_buildSteps, hrepresents.blocked_iff] at hbuild
  have hpath : nodeOf (stepsOf (matchersOf endpoint)) ≠ [] := stepsOf_ne_nil hne
  have hends := hrepresents.conflict_end_iff (matchersOf endpoint)
  rcases hbuild with ⟨⟨other, hmem, hdiffer⟩, hcollides⟩ | ⟨middle, hexec, hagree, hextended⟩
  · exact Or.inl ⟨⟨other, hmem, conflict_iff.mpr (Or.inl hdiffer)⟩, collides_bind hcollides⟩
  · have hagree : ∀ other ∈ endpoints, Agree (matchersOf other) (matchersOf endpoint) := by
      intro other hmem
      by_contra hdiffer
      exact hagree ⟨other, hmem, hdiffer⟩
    have hinsert : (insert route (matchersOf endpoint) endpoint).exec trie = _ :=
      Call.exec_bind_ok hexec
    rw [if_neg hpath, Call.exec_get_bind, hextended.endpoint] at hinsert
    cases hpresent : trie.endpoint (nodeOf (stepsOf (matchersOf endpoint))) with
    | none =>
        refine Or.inr ⟨_, by rw [hinsert, hpresent]; rfl, ?_, ?_⟩
        · intro other hmem hconflict
          rcases conflict_iff.mp hconflict with hdiffer | hend
          · exact hdiffer (hagree other hmem)
          · obtain ⟨present, hsome⟩ := hends.mpr ⟨other, hmem, hend⟩
            rw [hpresent] at hsome
            cases hsome
        · refine hrepresents.extended hextended ?_ hpresent
          intro other hmem node matcher matcher' hwild hwild'
          obtain ⟨last, hchain⟩ := hchains other (List.mem_cons_of_mem _ hmem)
          obtain ⟨last', hchain'⟩ := hchains endpoint List.mem_cons_self
          exact wildAt_unique hchain hchain' (hagree other hmem) hwild hwild'
    | some present =>
        obtain ⟨other, hmem, hend⟩ := hends.mp ⟨present, hpresent⟩
        refine Or.inl ⟨⟨other, hmem, conflict_iff.mpr (Or.inr hend)⟩, ?_⟩
        unfold Collides
        rw [hinsert, hpresent]
        dsimp only
        split_ifs <;> exact ⟨_, _, rfl⟩

theorem parse_of_routable {engine : RegexEngine} {route : E → Text} {endpoint : E}
    (hroutable : Routable engine route endpoint) :
    MountPath.parseEndpoint engine (route endpoint) = .ok (routeMatchers engine route endpoint) ∧
      routeMatchers engine route endpoint ≠ [] := by
  obtain ⟨matchers, hparse, hne⟩ := hroutable
  have hmatchers : routeMatchers engine route endpoint = matchers := by
    rw [routeMatchers, hparse]
    rfl
  rw [hmatchers]
  exact ⟨hparse, hne⟩

/-- **All insertions.** They go through if and only if the routes are compatible. -/
theorem exec_attachRoutes {engine : RegexEngine} {route : E → Text} {attached : List E}
    (hrepresents : Represents (routeMatchers engine route) trie attached)
    (hcompatible : Compatible (routeMatchers engine route) attached)
    (hroutable : ∀ endpoint ∈ attached ++ endpoints, Routable engine route endpoint) :
    (¬ Compatible (routeMatchers engine route) (attached ++ endpoints) ∧
        Collides (attachRoutes route engine endpoints) trie) ∨
      ∃ final, (attachRoutes route engine endpoints).exec trie = (.ok (), final) ∧
        Compatible (routeMatchers engine route) (attached ++ endpoints) ∧
        Represents (routeMatchers engine route) final (attached ++ endpoints) := by
  induction endpoints generalizing attached trie with
  | nil =>
      rw [List.append_nil]
      exact Or.inr ⟨trie, rfl, hcompatible, hrepresents⟩
  | cons endpoint rest ih =>
      obtain ⟨hparse, hne⟩ := parse_of_routable (hroutable endpoint (by simp))
      have hchains : ∀ other ∈ endpoint :: attached,
          ∃ last, MountPath.Chain engine ⟨[], 0⟩ (routeMatchers engine route other) last := by
        intro other hmem
        have hother : other ∈ attached ++ endpoint :: rest := by
          rcases List.mem_cons.mp hmem with rfl | hmem
          · simp
          · exact List.mem_append_left _ hmem
        exact MountPath.chain_of_parseEndpoint (parse_of_routable (hroutable other hother)).1
      unfold attachRoutes
      rw [hparse]
      dsimp only
      rcases exec_insert route hrepresents hchains hne with
        ⟨⟨other, hmem, hconflict⟩, hcollides⟩ | ⟨middle, hinsert, hfree, hnext⟩
      · refine Or.inl ⟨?_, collides_bind hcollides⟩
        intro hall
        exact (List.pairwise_append.mp hall).2.2 other hmem endpoint List.mem_cons_self hconflict
      · have hcompatible' : Compatible (routeMatchers engine route) (attached ++ [endpoint]) := by
          refine List.pairwise_append.mpr ⟨hcompatible, List.pairwise_singleton _ _, ?_⟩
          intro other hmem last hlast
          rw [List.mem_singleton.mp hlast]
          exact hfree other hmem
        have hnext' := hnext.perm (List.perm_append_singleton endpoint attached).symm
        rw [Call.exec_bind_ok hinsert, List.append_cons]
        rcases ih hnext' hcompatible' (by simpa using hroutable) with ⟨hnot, hcollides⟩ | hok
        · exact Or.inl ⟨hnot, collides_bind_ok hinsert hcollides⟩
        · exact Or.inr hok

end EndpointTrie

end Liblw.Http
