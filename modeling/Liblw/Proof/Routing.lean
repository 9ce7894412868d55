import Liblw.Http.TrieRuns
import Liblw.Proof.TrieWalk

/-!
# Routing follows from the routes

`match` returns the endpoint of the first reading of the path, if it has one. So the order in which
routes were attached does not show in what it returns, and a route keeps a path when others are
attached unless one of those leads the search into a dead end.
-/

namespace Liblw.Http.EndpointTrie

open Liblw.Lib

variable {E : Type} {engine : RegexEngine} {route : E → Text} {path : Text}
  {matchersOf : E → List PathMatcher} {endpoints : List E} {trie : EndpointTrie E}

/-- What `match` returns on a trie that holds routes. -/
theorem Represents.match_cases (hrepresents : Represents matchersOf trie endpoints)
    (engine : RegexEngine) (hpath : path ≠ []) :
    (trie.match engine path = .ok none ∧
        ∀ other, Begins matchersOf endpoints other → ¬ Reads engine path other) ∨
      ∃ steps log, FirstReading engine matchersOf endpoints path steps ∧
        Logged engine matchersOf endpoints path steps log ∧
        trie.match engine path =
          .ok ((trie.endpoint (nodeOf steps)).map fun endpoint => (endpoint, recordAll log)) := by
  rcases hrepresents.walkPath engine path with ⟨hwalk, hnone⟩ |
    ⟨walk, steps, log, hwalk, hnode, hfirst, hparameters, hlogged⟩
  · exact Or.inl ⟨by rw [«match», hwalk], hnone⟩
  · have hne : nodeOf steps ≠ [] := by
      intro hnil
      obtain rfl : steps = [] := List.map_eq_nil_iff.mp hnil
      have hlength : 0 = path.length := Option.some.inj hfirst.reads
      exact hpath (List.length_eq_zero_iff.mp hlength.symm)
    refine Or.inr ⟨steps, log, hfirst, hlogged, ?_⟩
    rw [«match», hwalk]
    dsimp only
    rw [hnode, if_neg hne, hparameters]

/-- `match` without a path takes the root for a node with an endpoint. -/
theorem match_nil (engine : RegexEngine) (trie : EndpointTrie E) :
    trie.match engine [] = .error (.undefined .rootIsNoTrieNode) := rfl

theorem ne_nil_of_match {result : Option (E × HeadersView)}
    (hmatch : trie.match engine path = .ok result) : path ≠ [] := by
  rintro rfl
  rw [match_nil] at hmatch
  cases hmatch

theorem Represents.exists_match (hrepresents : Represents matchersOf trie endpoints)
    (engine : RegexEngine) (hpath : path ≠ []) : ∃ result, trie.match engine path = .ok result := by
  rcases hrepresents.match_cases engine hpath with ⟨hmatch, -⟩ | ⟨steps, log, -, -, hmatch⟩
  · exact ⟨none, hmatch⟩
  · exact ⟨_, hmatch⟩

/-! ### The order of the routes -/

theorem exec_attachRoutes_empty
    (hroutable : ∀ endpoint ∈ endpoints, Routable engine route endpoint) :
    (¬ Compatible (routeMatchers engine route) endpoints ∧
        Collides (attachRoutes route engine endpoints) empty) ∨
      ∃ trie, (attachRoutes route engine endpoints).exec empty = (.ok (), trie) ∧
        Compatible (routeMatchers engine route) endpoints ∧
        Represents (routeMatchers engine route) trie endpoints :=
  exec_attachRoutes represents_empty List.Pairwise.nil hroutable

/-- A route without a segment would end at the root. -/
theorem not_insert_nil {endpoint : E} {final : EndpointTrie E} :
    (insert route [] endpoint).exec trie ≠ (.ok (), final) := by
  intro hinsert
  cases hinsert

/-- What has been attached was accepted, and has a segment. -/
theorem routable_of_attachRoutes {final : EndpointTrie E}
    (hattach : (attachRoutes route engine endpoints).exec trie = (.ok (), final)) :
    ∀ endpoint ∈ endpoints, Routable engine route endpoint := by
  induction endpoints generalizing trie with
  | nil => simp
  | cons endpoint rest ih =>
      unfold attachRoutes at hattach
      cases hparse : MountPath.parseEndpoint engine (route endpoint) with
      | error fault =>
          rw [hparse] at hattach
          cases hattach
      | ok matchers =>
          rw [hparse] at hattach
          obtain ⟨_, middle, hinsert, hrest⟩ := Call.exec_bind_eq_ok hattach
          intro other hmem
          rcases List.mem_cons.mp hmem with rfl | hmem
          · refine ⟨matchers, hparse, ?_⟩
            rintro rfl
            exact not_insert_nil hinsert
          · exact ih hrest other hmem

theorem represents_of_attachRoutes
    (hattach : (attachRoutes route engine endpoints).exec empty = (.ok (), trie)) :
    Represents (routeMatchers engine route) trie endpoints := by
  rcases exec_attachRoutes_empty (routable_of_attachRoutes hattach) with
    ⟨-, message, final, hcollides⟩ | ⟨trie', hattach', -, hrepresents⟩
  · rw [hattach] at hcollides
    cases hcollides
  · rw [hattach, Prod.mk.injEq] at hattach'
    rw [hattach'.2]
    exact hrepresents

theorem Conflict.symm {first second : List PathMatcher} (hconflict : Conflict first second) :
    Conflict second first := by
  rcases hconflict with ⟨node, matcher, matcher', hfirst, hsecond, hchunk⟩ | hend
  · exact Or.inl ⟨node, matcher', matcher, hsecond, hfirst, Ne.symm hchunk⟩
  · exact Or.inr hend.symm

theorem compatible_perm (matchersOf : E → List PathMatcher) {first second : List E}
    (hperm : first.Perm second) :
    Compatible matchersOf first ↔ Compatible matchersOf second :=
  hperm.pairwise_iff fun hfree hconflict => hfree (Conflict.symm hconflict)

theorem attachRoutes_perm {first second : List E} (hperm : first.Perm second)
    (hroutable : ∀ endpoint ∈ first, Routable engine route endpoint) :
    (Collides (attachRoutes route engine first) empty ∧
        Collides (attachRoutes route engine second) empty) ∨
      ∃ trie trie', (attachRoutes route engine first).exec empty = (.ok (), trie) ∧
        (attachRoutes route engine second).exec empty = (.ok (), trie') ∧
        ∀ path, path ≠ [] → ∃ result, trie.match engine path = .ok result ∧
          trie'.match engine path = .ok result := by
  have hroutable' : ∀ endpoint ∈ second, Routable engine route endpoint := by
    intro endpoint hmem
    exact hroutable endpoint (hperm.mem_iff.mpr hmem)
  have hcompatible := compatible_perm (routeMatchers engine route) hperm
  rcases exec_attachRoutes_empty hroutable with ⟨hnot, hcollides⟩ |
    ⟨trie, hattach, hfree, hrepresents⟩
  · rcases exec_attachRoutes_empty hroutable' with ⟨-, hcollides'⟩ | ⟨trie', -, hfree', -⟩
    · exact Or.inl ⟨hcollides, hcollides'⟩
    · exact absurd (hcompatible.mpr hfree') hnot
  · rcases exec_attachRoutes_empty hroutable' with ⟨hnot', -⟩ | ⟨trie', hattach', -, hrepresents'⟩
    · exact absurd (hcompatible.mp hfree) hnot'
    · refine Or.inr ⟨trie, trie', hattach, hattach', ?_⟩
      intro path hpath
      obtain rfl := (hrepresents.perm hperm).unique hrepresents'
      obtain ⟨result, hmatch⟩ := hrepresents.exists_match engine hpath
      exact ⟨result, hmatch, hmatch⟩

/-- The order of attaching does not matter: in any two orders both collide, or both go through and
`match` returns the same. -/
def OrderFree (route : E → Text) (engine : RegexEngine) (endpoints : List E) : Prop :=
  ∀ first second : List E, first.Perm endpoints → second.Perm endpoints →
    (Collides (attachRoutes route engine first) empty ∧
        Collides (attachRoutes route engine second) empty) ∨
      ∃ trie trie', (attachRoutes route engine first).exec empty = (.ok (), trie) ∧
        (attachRoutes route engine second).exec empty = (.ok (), trie') ∧
        ∀ path, path ≠ [] → ∃ result, trie.match engine path = .ok result ∧
          trie'.match engine path = .ok result

/-- A route without a matcher, attached first, takes the root for a node of the trie. -/
theorem exec_attachRoutes_of_nil {endpoint : E} (rest : List E)
    (hparse : MountPath.parseEndpoint engine (route endpoint) = .ok []) :
    (attachRoutes route engine (endpoint :: rest)).exec empty =
      (.error (.undefined .rootIsNoTrieNode), empty) := by
  rw [attachRoutes, hparse]
  rfl

theorem not_orderFree_of_nil {endpoint : E} (hmem : endpoint ∈ endpoints)
    (hparse : MountPath.parseEndpoint engine (route endpoint) = .ok []) :
    ¬ OrderFree route engine endpoints := by
  intro hfree
  obtain ⟨before, after, rfl⟩ := List.append_of_mem hmem
  have hfirst := exec_attachRoutes_of_nil (before ++ after) hparse
  rcases hfree (endpoint :: (before ++ after)) _ List.perm_middle.symm (List.Perm.refl _) with
    ⟨⟨message, final, hcollides⟩, -⟩ | ⟨trie, -, hattach, -⟩
  · rw [hfirst] at hcollides
    cases hcollides
  · rw [hfirst] at hattach
    cases hattach

/-- **The order of the routes does not matter** exactly if every route makes at least one
matcher. -/
theorem attachRoutes_order {endpoints : List E}
    (haccepted : ∀ endpoint ∈ endpoints, ∃ matchers,
      MountPath.parseEndpoint engine (route endpoint) = .ok matchers) :
    OrderFree route engine endpoints ↔
      ∀ endpoint ∈ endpoints, MountPath.parseEndpoint engine (route endpoint) ≠ .ok [] := by
  constructor
  · intro hfree endpoint hmem hparse
    exact not_orderFree_of_nil hmem hparse hfree
  · intro hmatchers first second hfirst hsecond
    refine attachRoutes_perm (hfirst.trans hsecond.symm) fun endpoint hmem => ?_
    obtain ⟨matchers, hparse⟩ := haccepted endpoint (hfirst.mem_iff.mp hmem)
    refine ⟨matchers, hparse, ?_⟩
    rintro rfl
    exact hmatchers endpoint (hfirst.mem_iff.mp hmem) hparse

/-- Two routes that share a regular expression. -/
theorem attachRoutes_order_pair :
    OrderFree id plainEngine ["/:[re]a/b".toList, "/:[re]a".toList] ↔
      ∀ endpoint ∈ ["/:[re]a/b".toList, "/:[re]a".toList],
        MountPath.parseEndpoint plainEngine (id endpoint) ≠ .ok [] := by
  have hlong : MountPath.parseEndpoint plainEngine "/:[re]a/b".toList =
      .ok [.regex 1 ":[re]a".toList, .literal "b".toList] := by decide
  have hshort : MountPath.parseEndpoint plainEngine "/:[re]a".toList =
      .ok [.regex 1 ":[re]a".toList] := by decide
  refine attachRoutes_order fun endpoint hmem => ?_
  simp only [List.mem_cons, List.not_mem_nil, or_false] at hmem
  rcases hmem with rfl | rfl
  · exact ⟨_, hlong⟩
  · exact ⟨_, hshort⟩

/-- A regular expression that ends in an open escape is accepted and makes no matcher. -/
theorem not_orderFree_dangling :
    MountPath.parseEndpoint plainEngine "/:[re]x\\".toList = .ok [] ∧
      ¬ OrderFree id plainEngine ["/:[re]x\\".toList] := by
  have hparse : MountPath.parseEndpoint plainEngine "/:[re]x\\".toList = .ok [] := by decide
  exact ⟨hparse, not_orderFree_of_nil List.mem_cons_self hparse⟩

/-- Two routes do not conflict if their nodes part somewhere and no wildcard stands before that. -/
theorem not_conflict_of_parting {first second : List PathMatcher} (n : Nat)
    (hparting : (nodeOf (stepsOf first))[n]? ≠ (nodeOf (stepsOf second))[n]?)
    (hwild : Key.wild ∉ (nodeOf (stepsOf first)).take n) : ¬ Conflict first second := by
  rintro (⟨node, matcher, matcher', ⟨before, after, hfirst, hnode⟩,
    ⟨before', after', hsecond, hnode'⟩, -⟩ | hend)
  · have hkeys : nodeOf (stepsOf first) = node ++ Key.wild :: nodeOf after := by
      rw [hfirst, ← hnode, nodeOf, List.map_append]
      rfl
    have hkeys' : nodeOf (stepsOf second) = node ++ Key.wild :: nodeOf after' := by
      rw [hsecond, ← hnode', nodeOf, List.map_append]
      rfl
    rcases Nat.lt_or_ge node.length n with hafter | hbefore
    · apply hwild
      rw [hkeys, List.take_append, List.take_of_length_le hafter.le]
      obtain ⟨k, hk⟩ := Nat.exists_eq_add_of_lt hafter
      simp [hk, Nat.add_assoc, List.take_succ_cons]
    · apply hparting
      rw [hkeys, hkeys']
      rcases hbefore.lt_or_eq with hlt | rfl
      · rw [List.getElem?_append_left hlt, List.getElem?_append_left hlt]
      · simp
  · exact hparting (by rw [hend])

theorem routable_id {endpoint : Text} {matchers : List PathMatcher}
    (hparse : MountPath.parseEndpoint plainEngine endpoint = .ok matchers) (hne : matchers ≠ []) :
    Routable plainEngine id endpoint := ⟨matchers, hparse, hne⟩

/-! ### More routes -/

theorem Represents.endpoint_eq_some (hrepresents : Represents matchersOf trie endpoints)
    {steps : List RouteStep} {endpoint : E} (hbegins : Begins matchersOf endpoints steps)
    (hendpoint : trie.endpoint (nodeOf steps) = some endpoint) :
    endpoint ∈ endpoints ∧ stepsOf (matchersOf endpoint) = steps := by
  obtain ⟨hmem, hnode⟩ := (hrepresents.endpoint _ _).mp hendpoint
  exact ⟨hmem, hrepresents.begins_unique (Or.inr ⟨endpoint, hmem, List.prefix_rfl⟩) hbegins hnode⟩

/-- A match is a route that reads the path. -/
theorem Represents.reads_of_match (hrepresents : Represents matchersOf trie endpoints)
    {endpoint : E} {parameters : HeadersView}
    (hmatch : trie.match engine path = .ok (some (endpoint, parameters))) :
    endpoint ∈ endpoints ∧
      FirstReading engine matchersOf endpoints path (stepsOf (matchersOf endpoint)) ∧
      ∃ log, parameters = recordAll log ∧
        Logged engine matchersOf endpoints path (stepsOf (matchersOf endpoint)) log := by
  rcases hrepresents.match_cases engine (ne_nil_of_match hmatch) with ⟨hnone, -⟩ |
    ⟨steps, log, hfirst, hlogged, hsome⟩
  · rw [hmatch] at hnone
    cases hnone
  · rw [hmatch, Except.ok.injEq, eq_comm, Option.map_eq_some_iff] at hsome
    obtain ⟨found, hfound, hpair⟩ := hsome
    obtain ⟨rfl, rfl⟩ := Prod.mk.inj hpair
    obtain ⟨hmem, rfl⟩ := hrepresents.endpoint_eq_some hfirst.begins hfound
    exact ⟨hmem, hfirst, log, rfl, hlogged⟩

/-- **More routes keep a path** exactly if they lead into no dead end. -/
theorem match_of_subset_iff {fewer more : List E} {trie' : EndpointTrie E}
    {result : E × HeadersView} (hsubset : fewer ⊆ more)
    (hattach : (attachRoutes route engine fewer).exec empty = (.ok (), trie))
    (hattach' : (attachRoutes route engine more).exec empty = (.ok (), trie'))
    (hmatch : trie.match engine path = .ok (some result)) :
    (∃ result', trie'.match engine path = .ok (some result')) ↔
      ¬ DeadEnd engine (routeMatchers engine route) more path := by
  have hrepresents := represents_of_attachRoutes hattach
  have hrepresents' := represents_of_attachRoutes hattach'
  obtain ⟨endpoint, parameters⟩ := result
  obtain ⟨hmem, hreading, -⟩ := hrepresents.reads_of_match hmatch
  have hbegins : Begins (routeMatchers engine route) more
      (stepsOf (routeMatchers engine route endpoint)) :=
    Or.inr ⟨endpoint, hsubset hmem, List.prefix_rfl⟩
  constructor
  · rintro ⟨⟨found, parameters'⟩, hmatch'⟩ ⟨steps, hsteps, hreads, hwhole, hbefore⟩
    obtain ⟨hfound, hfirst, -⟩ := hrepresents'.reads_of_match hmatch'
    have hprecedes := hbefore found hfound hfirst.reads
    rcases hfirst.first steps hsteps hreads with heq | hafter
    · exact hwhole found hfound heq.symm
    · exact not_precedes_self _ (hprecedes.trans hafter)
  · intro hopen
    rcases hrepresents'.match_cases engine (ne_nil_of_match hmatch) with ⟨-, hnone⟩ |
      ⟨steps, log, hfirst, -, hmatch'⟩
    · exact absurd hreading.reads (hnone _ hbegins)
    · cases hfound : trie'.endpoint (nodeOf steps) with
      | some found => exact ⟨(found, recordAll log), by rw [hmatch', hfound]; rfl⟩
      | none =>
          refine absurd ⟨steps, hfirst.begins, hfirst.reads, ?_, ?_⟩ hopen
          · intro other hother heq
            rw [(hrepresents'.endpoint _ other).mpr ⟨hother, by rw [heq]⟩] at hfound
            cases hfound
          · intro other hother hreads
            have hbegins' : Begins (routeMatchers engine route) more
                (stepsOf (routeMatchers engine route other)) :=
              Or.inr ⟨other, hother, List.prefix_rfl⟩
            rcases hfirst.first _ hbegins' hreads with heq | hafter
            · rw [(hrepresents'.endpoint _ other).mpr ⟨hother, by rw [heq]⟩] at hfound
              cases hfound
            · exact hafter

theorem routable_parameter_and_two :
    ∀ endpoint ∈ ["/:a", "/foo/bar"].map String.toList, Routable plainEngine id endpoint := by
  have hparameter : MountPath.parseEndpoint plainEngine "/:a".toList =
      .ok [.parameter ":a".toList "a".toList []] := by decide
  have htwo : MountPath.parseEndpoint plainEngine "/foo/bar".toList =
      .ok [.literal "foo".toList, .literal "bar".toList] := by decide
  intro endpoint hmem
  simp only [List.map_cons, List.map_nil, List.mem_cons, List.not_mem_nil, or_false] at hmem
  rcases hmem with rfl | rfl
  · exact routable_id hparameter (by simp)
  · exact routable_id htwo (by simp)

theorem exec_trieOf_pair {first second : String}
    (hroutable : ∀ endpoint ∈ [first, second].map String.toList, Routable plainEngine id endpoint)
    (hfree : ¬ Conflict (routeMatchers plainEngine id first.toList)
      (routeMatchers plainEngine id second.toList)) :
    (attachRoutes id plainEngine ([first, second].map String.toList)).exec empty =
      (.ok (), trieOf [first, second]) := by
  rcases exec_attachRoutes_empty hroutable with ⟨hclash, -⟩ | ⟨trie, hattach, -⟩
  · exact absurd (List.pairwise_pair.mpr hfree) hclash
  · exact exec_trieOf (congrArg Prod.fst hattach)

theorem exec_parameter_and_two :
    (attachRoutes id plainEngine (["/:a", "/foo/bar"].map String.toList)).exec empty =
      (.ok (), trieOf ["/:a", "/foo/bar"]) :=
  exec_trieOf_pair routable_parameter_and_two
    (not_conflict_of_parting 1 (by decide) (by decide))

theorem match_parameter_and_two :
    (trieOf ["/:a", "/foo/bar"]).match plainEngine "/x".toList =
        .ok (some ("/:a".toList, [("a".toList, "x".toList)])) ∧
      (trieOf ["/:a", "/foo/bar"]).match plainEngine "/foo".toList = .ok none := by
  constructor <;> decide +kernel

theorem match_of_subset_iff_other :
    (trieOf ["/:a"]).match plainEngine "/x".toList =
        .ok (some ("/:a".toList, [("a".toList, "x".toList)])) ∧
      ((∃ result', (trieOf ["/:a", "/foo/bar"]).match plainEngine "/x".toList =
          .ok (some result')) ↔
        ¬ DeadEnd plainEngine (routeMatchers plainEngine id) (["/:a", "/foo/bar"].map String.toList)
          "/x".toList) := by
  have hmatch : (trieOf ["/:a"]).match plainEngine "/x".toList =
      .ok (some ("/:a".toList, [("a".toList, "x".toList)])) := by decide
  refine ⟨hmatch, match_of_subset_iff ?_ (exec_trieOf (by decide))
    exec_parameter_and_two hmatch⟩
  simp

/-- `/foo` matches `/:a`, and no longer does when there is a route that goes on from `/foo`. -/
theorem not_match_of_subset :
    ¬ ∀ (fewer more : List Text) (trie trie' : EndpointTrie Text) (path : Text)
        (result : Text × HeadersView), fewer ⊆ more →
      (∀ endpoint ∈ more, Routable plainEngine id endpoint) →
      (attachRoutes id plainEngine fewer).exec empty = (.ok (), trie) →
      (attachRoutes id plainEngine more).exec empty = (.ok (), trie') →
      trie.match plainEngine path = .ok (some result) →
      ∃ result', trie'.match plainEngine path = .ok (some result') := by
  intro hkeeps
  have hmatch : (trieOf ["/:a"]).match plainEngine "/foo".toList =
      .ok (some ("/:a".toList, [("a".toList, "foo".toList)])) := by decide
  have hlost := match_parameter_and_two.2
  obtain ⟨result', hmatch'⟩ := hkeeps (["/:a"].map String.toList)
    (["/:a", "/foo/bar"].map String.toList) _ _ "/foo".toList _ (by simp)
    routable_parameter_and_two (exec_trieOf (by decide)) exec_parameter_and_two hmatch
  rw [hlost] at hmatch'
  cases hmatch'

end Liblw.Http.EndpointTrie
