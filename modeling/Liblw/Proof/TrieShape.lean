import Liblw.Http.TrieRuns
import Liblw.Proof.TrieInsert

/-!
# The shape of every trie

Whatever is inserted, the nodes of a trie are closed under going back, a wildcard stands behind a
separator and has its edge, and an endpoint is at a node. So an insertion that is refused has come
along nodes that were there already, and has changed nothing.
-/

namespace Liblw.Http.EndpointTrie

open Liblw.Lib

variable {E : Type} {trie final : EndpointTrie E} {steps : List RouteStep}

structure Shaped (trie : EndpointTrie E) : Prop where
  parent : ∀ node key, node ++ [key] ∈ trie.nodes → node ≠ [] → node ∈ trie.nodes
  edge : ∀ node, node ++ [.wild] ∈ trie.nodes ↔ (trie.wildcard node).isSome
  behind : ∀ node, (trie.wildcard node).isSome → ∃ before, node = before ++ [.char '/']
  present : ∀ node, (trie.endpoint node).isSome → node ∈ trie.nodes

theorem shaped_empty : Shaped (empty : EndpointTrie E) where
  parent := by simp [empty]
  edge := by simp [empty]
  behind := by simp [empty]
  present := by simp [empty]

namespace Shaped

theorem closed (hshaped : Shaped trie) (node : Node) (matcher : PathMatcher)
    (hwild : trie.wildcard node = some matcher) : node ++ [.wild] ∈ trie.nodes := by
  rw [hshaped.edge, hwild]
  rfl

theorem mem_of_wildcard (hshaped : Shaped trie) {node : Node}
    (hwild : (trie.wildcard node).isSome) : node ∈ trie.nodes := by
  apply hshaped.parent node .wild ((hshaped.edge node).mpr hwild)
  obtain ⟨before, rfl⟩ := hshaped.behind node hwild
  simp

/-- The nodes on the way to a node are there. -/
theorem mem_of_begins (hshaped : Shaped trie) {before node : Node} (hbegin : before <+: node)
    (hne : before ≠ []) (hmem : node ∈ trie.nodes) : before ∈ trie.nodes := by
  induction node using List.reverseRecOn with
  | nil => exact absurd (List.prefix_nil.mp hbegin) hne
  | append_singleton node key ih =>
      rcases List.prefix_concat_iff.mp hbegin with rfl | hshort
      · exact hmem
      · apply ih hshort
        apply hshaped.parent node key hmem
        rintro rfl
        exact hne (List.prefix_nil.mp hshort)

end Shaped

/-- A wildcard of a route stands behind a separator. -/
theorem wildAt_behind {matchers : List PathMatcher} {node : Node} {matcher : PathMatcher}
    (hwild : WildAt matchers node matcher) : ∃ before, node = before ++ [.char '/'] := by
  induction matchers generalizing node with
  | nil =>
      obtain ⟨before, after, hsteps, -⟩ := hwild
      simp [stepsOf] at hsteps
  | cons first rest ih =>
      rcases wildAt_cons hwild with ⟨-, -, rfl⟩ | ⟨tail, htail, rfl⟩
      · exact ⟨[], rfl⟩
      · obtain ⟨before, hbefore⟩ := ih htail
        exact ⟨nodeOf (segmentSteps first) ++ before, by rw [hbefore, List.append_assoc]⟩

/-! ### An insertion that goes through -/

theorem nodeOf_begins {before : List RouteStep} (hbegin : before <+: steps) :
    nodeOf before <+: nodeOf steps := by
  obtain ⟨rest, rfl⟩ := hbegin
  exact ⟨nodeOf rest, (nodeOf_append _ _).symm⟩

theorem Shaped.extended {matchers : List PathMatcher} (hshaped : Shaped trie)
    (hextended : Extended trie (stepsOf matchers) final) : Shaped final where
  parent := by
    intro node key hmem hne
    rw [hextended.nodes] at hmem ⊢
    rcases hmem with hmem | ⟨before, -, hbegin, hnode⟩
    · exact Or.inl (hshaped.parent node key hmem hne)
    · rcases List.eq_nil_or_concat before with rfl | ⟨init, step, rfl⟩
      · simp at hnode
      · rw [List.concat_eq_append, nodeOf_append] at hnode
        obtain ⟨rfl, -⟩ := List.append_inj' hnode rfl
        refine Or.inr ⟨init, ?_, ?_, rfl⟩
        · rintro rfl
          exact hne rfl
        · rw [List.concat_eq_append] at hbegin
          exact (List.prefix_append _ _).trans hbegin
  edge := by
    intro node
    rw [hextended.nodes, hshaped.edge, Option.isSome_iff_exists, Option.isSome_iff_exists]
    simp only [hextended.wildcard]
    constructor
    · rintro (⟨present, hpresent⟩ | ⟨before, -, ⟨rest, hsteps⟩, hnode⟩)
      · exact ⟨present, Or.inl hpresent⟩
      · rcases List.eq_nil_or_concat before with rfl | ⟨init, step, rfl⟩
        · simp at hnode
        · rw [List.concat_eq_append, nodeOf_append] at hnode
          obtain ⟨rfl, hlast⟩ := List.append_inj' hnode rfl
          cases step with
          | char c => simp [RouteStep.key] at hlast
          | wild matcher =>
              cases hfree : trie.wildcard (nodeOf init) with
              | some present => exact ⟨present, Or.inl rfl⟩
              | none =>
                  refine ⟨matcher, Or.inr ⟨rfl, init, rest, ?_, rfl⟩⟩
                  rw [← hsteps, List.concat_eq_append, List.append_assoc, List.singleton_append]
    · rintro ⟨matcher, hpresent | ⟨-, before, after, hsteps, rfl⟩⟩
      · exact Or.inl ⟨matcher, hpresent⟩
      · refine Or.inr ⟨before ++ [.wild matcher], by simp, ⟨after, ?_⟩, by simp [RouteStep.key]⟩
        rw [hsteps, List.append_assoc, List.singleton_append]
  behind := by
    intro node hsome
    obtain ⟨matcher, hmatcher⟩ := Option.isSome_iff_exists.mp hsome
    rcases (hextended.wildcard node matcher).mp hmatcher with hpresent | ⟨-, hwild⟩
    · exact hshaped.behind node (by rw [hpresent]; rfl)
    · exact wildAt_behind hwild
  present := by
    intro node hsome
    rw [hextended.endpoint] at hsome
    rw [hextended.nodes]
    exact Or.inl (hshaped.present node hsome)

/-- The way to a node that is there adds nothing. -/
theorem Extended.eq_of_mem (hshaped : Shaped trie) (hextended : Extended trie steps final)
    (hmem : nodeOf steps = [] ∨ nodeOf steps ∈ trie.nodes) : final = trie := by
  have hway : ∀ before, before ≠ [] → before <+: steps → nodeOf before ∈ trie.nodes := by
    intro before hne hbegin
    have hnode : nodeOf before ≠ [] := by simpa [nodeOf] using hne
    rcases hmem with hnil | hmem
    · have hshort := nodeOf_begins hbegin
      rw [hnil] at hshort
      exact absurd (List.prefix_nil.mp hshort) hnode
    · exact hshaped.mem_of_begins (nodeOf_begins hbegin) hnode hmem
  obtain ⟨nodes, wildcard, endpoint⟩ := trie
  obtain ⟨nodes', wildcard', endpoint'⟩ := final
  have hnodes : nodes' = nodes := by
    ext node
    rw [hextended.nodes]
    constructor
    · rintro (hnode | ⟨before, hne, hbegin, rfl⟩)
      · exact hnode
      · exact hway before hne hbegin
    · exact Or.inl
  have hwildcard : wildcard' = wildcard := by
    funext node
    apply Option.ext
    intro matcher
    rw [hextended.wildcard]
    constructor
    · rintro (hpresent | ⟨hfree, before, after, rfl, rfl⟩)
      · exact hpresent
      · have hedge := hway (before ++ [.wild matcher]) (by simp) ⟨after, by simp⟩
        rw [nodeOf_append] at hedge
        have hsome := (hshaped.edge (nodeOf before)).mp hedge
        rw [hfree] at hsome
        cases hsome
    · exact Or.inl
  have hendpoint : endpoint' = endpoint := hextended.endpoint
  rw [hnodes, hwildcard, hendpoint]

/-! ### An insertion that is refused -/

theorem exec_buildStep_error {route : Text} {node : Node} {step : RouteStep} {fault : Fault}
    (hexec : (buildStep route node step).exec trie = (.error fault, final)) :
    final = trie ∧ (trie.wildcard node).isSome := by
  cases step with
  | char c => cases hexec
  | wild matcher =>
      simp only [buildStep, buildWildcard, Call.exec_get_bind] at hexec
      cases hpresent : trie.wildcard node with
      | none =>
          rw [hpresent] at hexec
          cases hexec
      | some present =>
          simp only [hpresent, Call.exec_ite, exec_raise, Call.exec_pure] at hexec
          split_ifs at hexec
          · exact ⟨(Prod.mk.inj hexec).2.symm, rfl⟩
          · cases hexec

/-- **A way that is refused has added nothing.** The wildcard that it collides with is at a node
that was there, and so were all nodes before. -/
theorem Shaped.exec_buildSteps_error {route : Text} {fault : Fault} (hshaped : Shaped trie)
    (hexec : (buildSteps route [] steps).exec trie = (.error fault, final)) : final = trie := by
  induction steps using List.reverseRecOn generalizing fault final with
  | nil => cases hexec
  | append_singleton steps step ih =>
      rw [buildSteps_append, Call.exec_bind] at hexec
      rcases exec_buildSteps route hshaped.closed steps with
        ⟨-, message, stopped, hcollides⟩ | ⟨middle, hbuilt, -, hextended⟩
      · rw [hcollides] at hexec
        rw [← ih hcollides]
        exact (Prod.mk.inj hexec).2.symm
      · rw [hbuilt] at hexec
        simp only [buildSteps, bind_pure] at hexec
        obtain ⟨rfl, hwild⟩ := exec_buildStep_error hexec
        rw [hextended.wildcard_end] at hwild
        exact hextended.eq_of_mem hshaped (Or.inr (hshaped.mem_of_wildcard hwild))

/-- **Insertion.** It changes nothing, or keeps the shape. -/
theorem Shaped.exec_insert (hshaped : Shaped trie) (route : E → Text)
    (matchers : List PathMatcher) (endpoint : E) :
    (∃ fault, (insert route matchers endpoint).exec trie = (.error fault, trie)) ∨
      ∃ final, (insert route matchers endpoint).exec trie = (.ok (), final) ∧ Shaped final := by
  unfold insert buildPath
  rw [buildPathFrom_eq_buildSteps]
  rcases exec_buildSteps (route endpoint) hshaped.closed (stepsOf matchers) with
    ⟨-, message, stopped, hcollides⟩ | ⟨middle, hbuilt, -, hextended⟩
  · left
    obtain rfl := hshaped.exec_buildSteps_error hcollides
    exact ⟨_, Call.exec_bind_error hcollides⟩
  · rw [Call.exec_bind_ok hbuilt]
    by_cases hroot : nodeOf (stepsOf matchers) = []
    · left
      rw [if_pos hroot, hextended.eq_of_mem hshaped (Or.inl hroot)]
      exact ⟨_, rfl⟩
    · rw [if_neg hroot, Call.exec_get_bind]
      cases hpresent : middle.endpoint (nodeOf (stepsOf matchers)) with
      | none =>
          right
          have hmiddle := hshaped.extended hextended
          refine ⟨_, rfl, hmiddle.parent, hmiddle.edge, hmiddle.behind, ?_⟩
          intro node hsome
          by_cases hnode : node = nodeOf (stepsOf matchers)
          · show node ∈ middle.nodes
            rw [hextended.nodes, hnode]
            refine Or.inr ⟨stepsOf matchers, ?_, List.prefix_rfl, rfl⟩
            intro hnil
            exact hroot (by rw [hnil]; rfl)
          · simp only [setEndpoint, Function.update_of_ne hnode] at hsome
            exact hmiddle.present node hsome
      | some present =>
          left
          rw [hextended.endpoint] at hpresent
          have hmem := hshaped.present _ (by rw [hpresent]; rfl)
          rw [hextended.eq_of_mem hshaped (Or.inr hmem)]
          simp only [Call.exec_ite, exec_raise]
          split_ifs <;> exact ⟨_, rfl⟩

theorem shaped_attempted (route : E → Text) (attempts : List (List PathMatcher × E)) :
    Shaped (attempted route attempts) := by
  induction attempts using List.reverseRecOn with
  | nil => exact shaped_empty
  | append_singleton attempts attempt ih =>
      rw [attempted, List.foldl_append]
      change Shaped ((insert route attempt.1 attempt.2).exec (attempted route attempts)).2
      rcases ih.exec_insert route attempt.1 attempt.2 with ⟨fault, hexec⟩ | ⟨final, hexec, hfinal⟩
      · rw [hexec]
        exact ih
      · rw [hexec]
        exact hfinal

/-- **An insertion that throws has changed nothing**, after any attempts, whichever of them have
failed, and for any matchers. -/
theorem insert_atomic (route : E → Text) (attempts : List (List PathMatcher × E))
    (matchers : List PathMatcher) (endpoint : E) {error : Error}
    (hthrows : (insert route matchers endpoint).exec (attempted route attempts) =
      (.error (.thrown error), final)) :
    final = attempted route attempts := by
  rcases (shaped_attempted route attempts).exec_insert route matchers endpoint with
    ⟨fault, hexec⟩ | ⟨middle, hexec, -⟩
  · rw [hthrows] at hexec
    exact (Prod.mk.inj hexec).2
  · rw [hthrows] at hexec
    cases hexec

/-- The parameter `:b` meets `:a` behind a literal that is shared, after an attempt that has failed
already. -/
theorem insert_atomic_pair :
    let route : Nat → Text := fun _ => "/x/:b".toList
    let shared : List PathMatcher := [.literal ['x'], .parameter [':', 'a'] ['a'] []]
    let attempts : List (List PathMatcher × Nat) := [(shared, 0), (shared, 1)]
    let other : List PathMatcher := [.literal ['x'], .parameter [':', 'b'] ['b'] [], .literal ['y']]
    let result := (insert route other 2).exec (attempted route attempts)
    (∃ message, result.1 = .error (.thrown ⟨.alreadyExists, message⟩)) ∧
      result.2 = attempted route attempts := by
  intro route shared attempts other result
  have hresult : ∃ message, result.1 = .error (.thrown ⟨.alreadyExists, message⟩) := ⟨_, rfl⟩
  obtain ⟨message, hthrows⟩ := hresult
  exact ⟨⟨message, hthrows⟩, insert_atomic route attempts other 2 (Prod.ext hthrows rfl)⟩

end Liblw.Http.EndpointTrie
