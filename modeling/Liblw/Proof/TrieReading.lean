import Liblw.Proof.TrieInsert

/-!
# Beginnings of routes that fit a path

A trie that holds routes has their beginnings for its nodes, and a node tells its beginning. Of the
beginnings that fit a path no two part at characters, so the order of the search compares them all.
-/

namespace Liblw.Http

open Liblw.Lib

variable {E : Type} {engine : RegexEngine} {path : Text} {matchersOf : E → List PathMatcher}
  {endpoints : List E} {steps other : List RouteStep} {i : Nat}

/-! ### Reading -/

theorem readFrom_append (engine : RegexEngine) (path : Text) (i : Nat)
    (first second : List RouteStep) :
    readFrom engine path i (first ++ second) =
      (readFrom engine path i first).bind fun j => readFrom engine path j second := by
  induction first generalizing i with
  | nil => rfl
  | cons step first ih =>
      cases step with
      | char c =>
          simp only [List.cons_append, readFrom]
          split_ifs
          · exact ih (i + 1)
          · rfl
      | wild matcher =>
          simp only [List.cons_append, readFrom]
          split_ifs
          · rw [Option.bind_assoc]
            congr 1
            funext captured
            exact ih _
          · rfl

/-- Characters are read exactly if they stand there. -/
theorem readFrom_chars_iff (engine : RegexEngine) (path text : Text) (i j : Nat) :
    readFrom engine path i (text.map .char) = some j ↔
      text <+: path.drop i ∧ j = i + text.length := by
  induction text generalizing i with
  | nil => simp [readFrom, eq_comm]
  | cons c rest ih =>
      rw [List.map_cons, readFrom]
      by_cases hc : path[i]? = some c
      · obtain ⟨hlength, hget⟩ := List.getElem?_eq_some_iff.mp hc
        rw [if_pos hc, ih, List.drop_eq_getElem_cons hlength, hget, List.cons_prefix_cons,
          List.length_cons]
        simp
        omega
      · rw [if_neg hc]
        apply iff_of_false (by simp)
        rintro ⟨⟨tail, htail⟩, -⟩
        apply hc
        have hget : (path.drop i)[0]? = some c := by
          rw [← htail]
          rfl
        rwa [List.getElem?_drop, Nat.add_zero] at hget

theorem readFrom_snoc_char_eq_some {c : Char} {j : Nat} :
    readFrom engine path 0 (steps ++ [.char c]) = some j ↔
      ∃ i, readFrom engine path 0 steps = some i ∧ path[i]? = some c ∧ j = i + 1 := by
  rw [readFrom_append, Option.bind_eq_some_iff]
  simp only [readFrom]
  constructor
  · rintro ⟨i, hread, hstep⟩
    split_ifs at hstep with hc
    exact ⟨i, hread, hc, (Option.some.inj hstep).symm⟩
  · rintro ⟨i, hread, hc, rfl⟩
    exact ⟨i, hread, if_pos hc⟩

theorem readFrom_snoc_wild_eq_some {matcher : PathMatcher} {j : Nat} :
    readFrom engine path 0 (steps ++ [.wild matcher]) = some j ↔
      ∃ i captured, readFrom engine path 0 steps = some i ∧ i < path.length ∧
        matcher.match engine (EndpointTrie.partAt path i) = some captured ∧
        j = i + captured.length := by
  rw [readFrom_append, Option.bind_eq_some_iff]
  simp only [readFrom]
  constructor
  · rintro ⟨i, hread, hstep⟩
    split_ifs at hstep with hi
    obtain ⟨captured, hmatch, hj⟩ := Option.bind_eq_some_iff.mp hstep
    exact ⟨i, captured, hread, hi, hmatch, (Option.some.inj hj).symm⟩
  · rintro ⟨i, captured, hread, hi, hmatch, rfl⟩
    exact ⟨i, hread, by rw [if_pos hi, hmatch]; rfl⟩

theorem partAt_begins (path : Text) (i : Nat) : EndpointTrie.partAt path i <+: path.drop i := by
  unfold EndpointTrie.partAt
  cases path.drop i with
  | nil => exact List.prefix_rfl
  | cons c rest => exact List.cons_prefix_cons.mpr ⟨rfl, List.takeWhile_prefix _⟩

/-- The steps are the beginning of a route and fit the path up to a position. -/
structure Reached (engine : RegexEngine) (matchersOf : E → List PathMatcher) (endpoints : List E)
    (path : Text) (steps : List RouteStep) (i : Nat) : Prop where
  begins : Begins matchersOf endpoints steps
  reads : readFrom engine path 0 steps = some i

theorem reached_nil : Reached engine matchersOf endpoints path [] 0 := ⟨Or.inl rfl, rfl⟩

theorem Begins.of_prefix (hbegins : Begins matchersOf endpoints steps) (hbegin : other <+: steps) :
    Begins matchersOf endpoints other := by
  rcases hbegins with rfl | ⟨endpoint, hmem, hroute⟩
  · exact Or.inl (List.prefix_nil.mp hbegin)
  · exact Or.inr ⟨endpoint, hmem, hbegin.trans hroute⟩

theorem Reached.of_prefix (hreached : Reached engine matchersOf endpoints path steps i)
    (hbegin : other <+: steps) : ∃ j, Reached engine matchersOf endpoints path other j := by
  obtain ⟨rest, rfl⟩ := hbegin
  have hread := hreached.reads
  rw [readFrom_append] at hread
  obtain ⟨j, hother, -⟩ := Option.bind_eq_some_iff.mp hread
  exact ⟨j, hreached.begins.of_prefix ⟨rest, rfl⟩, hother⟩

theorem Reached.le_length (hreached : Reached engine matchersOf endpoints path steps i) :
    i ≤ path.length := by
  induction steps using List.reverseRecOn generalizing i with
  | nil =>
      obtain rfl := Option.some.inj hreached.reads
      exact Nat.zero_le _
  | append_singleton steps step ih =>
      cases step with
      | char c =>
          obtain ⟨j, hread, hc, rfl⟩ := readFrom_snoc_char_eq_some.mp hreached.reads
          exact (List.getElem?_eq_some_iff.mp hc).1
      | wild matcher =>
          obtain ⟨j, captured, hread, hj, hmatch, rfl⟩ :=
            readFrom_snoc_wild_eq_some.mp hreached.reads
          have hcaptured := (PathMatcher.infix_of_match hmatch).length_le
          have hpart := (partAt_begins path j).length_le
          rw [List.length_drop] at hpart
          omega

/-- Nothing fits behind the end of the path. -/
theorem Reached.eq_of_complete {j : Nat}
    (hreached : Reached engine matchersOf endpoints path steps path.length)
    (hother : Reached engine matchersOf endpoints path other j) (hbegin : steps <+: other) :
    other = steps := by
  obtain ⟨rest, rfl⟩ := hbegin
  cases rest with
  | nil => exact List.append_nil _
  | cons step rest =>
      have hread := hother.reads
      rw [readFrom_append, hreached.reads, Option.bind_some] at hread
      cases step <;> simp [readFrom] at hread

theorem Recording.Made.reached {recording : Recording}
    (hmade : recording.Made engine matchersOf endpoints path) :
    ∃ j, Reached engine matchersOf endpoints path recording.steps j := by
  obtain ⟨j, hread, hj, hmatch⟩ := hmade.fits
  exact ⟨_, hmade.begins, readFrom_snoc_wild_eq_some.mpr ⟨j, _, hread, hj, hmatch, rfl⟩⟩

/-- The steps and the path tell what is recorded. -/
theorem Recording.Made.unique {first second : Recording}
    (hfirst : first.Made engine matchersOf endpoints path)
    (hsecond : second.Made engine matchersOf endpoints path) (hsteps : first.steps = second.steps) :
    first = second := by
  obtain ⟨before, matcher, captured⟩ := first
  obtain ⟨before', matcher', captured'⟩ := second
  obtain ⟨hbefore, hmatcher⟩ := List.append_inj' hsteps rfl
  obtain ⟨i, hread, -, hmatch⟩ := hfirst.fits
  obtain ⟨j, hread', -, hmatch'⟩ := hsecond.fits
  dsimp only at hbefore hmatcher hread hread' hmatch hmatch'
  obtain rfl := hbefore
  obtain rfl : matcher = matcher' := by simpa using hmatcher
  rw [hread, Option.some.injEq] at hread'
  subst hread'
  rw [hmatch, Option.some.injEq] at hmatch'
  rw [hmatch']

/-! ### The order of the search -/

theorem precedes_of_part {common : List RouteStep} {c : Char} {matcher : PathMatcher}
    (hsteps : common ++ [.char c] <+: steps) (hother : common ++ [.wild matcher] <+: other) :
    Precedes steps other :=
  lex_of_part (show RouteStep.Before (.char c) (.wild matcher) from trivial) hsteps hother

theorem Precedes.cases (hprecedes : Precedes steps other) :
    (steps <+: other ∧ steps ≠ other) ∨ ∃ common c matcher,
      common ++ [.char c] <+: steps ∧ common ++ [.wild matcher] <+: other := by
  rcases prefix_or_part_of_lex hprecedes with hbegin | ⟨common, a, b, hpart, hsteps, hother⟩
  · exact Or.inl hbegin
  · cases a with
    | char c =>
        cases b with
        | char d => cases hpart
        | wild matcher => exact Or.inr ⟨common, c, matcher, hsteps, hother⟩
    | wild matcher => cases hpart

theorem Precedes.trans {third : List RouteStep} (hfirst : Precedes steps other)
    (hsecond : Precedes other third) : Precedes steps third := by
  refine List.lex_trans ?_ hfirst hsecond
  rintro (c | matcher) (d | matcher') (e | matcher'') hbefore hbefore' <;> trivial

theorem not_precedes_self (steps : List RouteStep) : ¬ Precedes steps steps := by
  refine List.lex_irrefl ?_ steps
  rintro (c | matcher) hbefore <;> exact hbefore

/-! ### Nodes and beginnings -/

namespace EndpointTrie

variable {trie : EndpointTrie E}

theorem Represents.wildcard_of_begins (hrepresents : Represents matchersOf trie endpoints)
    {matcher : PathMatcher} (hbegins : Begins matchersOf endpoints (steps ++ [.wild matcher])) :
    trie.wildcard (nodeOf steps) = some matcher := by
  rcases hbegins with hnil | ⟨endpoint, hmem, rest, hroute⟩
  · simp at hnil
  · refine (hrepresents.wildcard _ _).mpr ⟨endpoint, hmem, steps, rest, ?_, rfl⟩
    rw [← hroute]
    simp

/-- A node tells the beginning that leads to it. -/
theorem Represents.begins_unique (hrepresents : Represents matchersOf trie endpoints)
    (hbegins : Begins matchersOf endpoints steps) (hbegins' : Begins matchersOf endpoints other)
    (hnode : nodeOf steps = nodeOf other) : steps = other := by
  induction steps using List.reverseRecOn generalizing other with
  | nil =>
      cases other with
      | nil => rfl
      | cons step other => simp at hnode
  | append_singleton steps step ih =>
      rcases List.eq_nil_or_concat other with rfl | ⟨other, step', rfl⟩
      · simp at hnode
      · rw [List.concat_eq_append] at hbegins' hnode ⊢
        rw [nodeOf_append, nodeOf_append] at hnode
        obtain ⟨hinit, hlast⟩ := List.append_inj' hnode rfl
        obtain rfl := ih (hbegins.of_prefix ⟨_, rfl⟩) (hbegins'.of_prefix ⟨_, rfl⟩) hinit
        have hkey : step.key = step'.key := by simpa using hlast
        cases step with
        | char c =>
            cases step' with
            | char c' =>
                obtain rfl := Key.char.inj hkey
                rfl
            | wild matcher' => cases hkey
        | wild matcher =>
            cases step' with
            | char c' => cases hkey
            | wild matcher' =>
                have hwild := hrepresents.wildcard_of_begins hbegins
                rw [hrepresents.wildcard_of_begins hbegins'] at hwild
                obtain rfl := Option.some.inj hwild
                rfl

theorem Represents.mem_nodes_iff (hrepresents : Represents matchersOf trie endpoints)
    (hbegins : Begins matchersOf endpoints steps) (c : Char) :
    nodeOf steps ++ [.char c] ∈ trie.nodes ↔ Begins matchersOf endpoints (steps ++ [.char c]) := by
  rw [hrepresents.nodes]
  constructor
  · rintro ⟨endpoint, hmem, before, hne, hroute, hnode⟩
    rcases List.eq_nil_or_concat before with rfl | ⟨before, step, rfl⟩
    · exact absurd rfl hne
    · rw [List.concat_eq_append] at hroute hnode
      rw [nodeOf_append] at hnode
      obtain ⟨hinit, hlast⟩ := List.append_inj' hnode rfl
      have hshort : Begins matchersOf endpoints before :=
        Or.inr ⟨endpoint, hmem, (List.prefix_append _ _).trans hroute⟩
      obtain rfl := hrepresents.begins_unique hshort hbegins hinit
      obtain rfl : step = .char c := by
        cases step with
        | char d => simpa [RouteStep.key] using hlast
        | wild matcher => simp [RouteStep.key] at hlast
      exact Or.inr ⟨endpoint, hmem, hroute⟩
  · rintro (hnil | ⟨endpoint, hmem, hroute⟩)
    · simp at hnil
    · exact ⟨endpoint, hmem, steps ++ [.char c], by simp, hroute, by simp [RouteStep.key]⟩

theorem Represents.wildcard_iff (hrepresents : Represents matchersOf trie endpoints)
    (hbegins : Begins matchersOf endpoints steps) (matcher : PathMatcher) :
    trie.wildcard (nodeOf steps) = some matcher ↔
      Begins matchersOf endpoints (steps ++ [.wild matcher]) := by
  constructor
  · intro hwild
    obtain ⟨endpoint, hmem, before, after, hroute, hnode⟩ := (hrepresents.wildcard _ _).mp hwild
    have hshort : Begins matchersOf endpoints before := Or.inr ⟨endpoint, hmem, _, hroute.symm⟩
    obtain rfl := hrepresents.begins_unique hshort hbegins hnode
    refine Or.inr ⟨endpoint, hmem, after, ?_⟩
    rw [hroute]
    simp
  · exact hrepresents.wildcard_of_begins

/-- **The search compares all that fits.** -/
theorem Represents.comparable (hrepresents : Represents matchersOf trie endpoints) {j : Nat}
    (hreached : Reached engine matchersOf endpoints path steps i)
    (hother : Reached engine matchersOf endpoints path other j) :
    steps = other ∨ Precedes steps other ∨ Precedes other steps := by
  by_cases heq : steps = other
  · exact Or.inl heq
  · right
    rcases prefix_or_part steps other with hbegin | hbegin | ⟨common, a, b, hne, hfirst, hsecond⟩
    · exact Or.inl (lex_of_begins hbegin heq)
    · exact Or.inr (lex_of_begins hbegin (Ne.symm heq))
    · obtain ⟨i', hfirst'⟩ := hreached.of_prefix hfirst
      obtain ⟨j', hsecond'⟩ := hother.of_prefix hsecond
      cases a with
      | char c =>
          cases b with
          | char d =>
              obtain ⟨k, hread, hc, -⟩ := readFrom_snoc_char_eq_some.mp hfirst'.reads
              obtain ⟨k', hread', hd, -⟩ := readFrom_snoc_char_eq_some.mp hsecond'.reads
              rw [hread, Option.some.injEq] at hread'
              subst hread'
              rw [hc, Option.some.injEq] at hd
              exact absurd (congrArg RouteStep.char hd) hne
          | wild matcher => exact Or.inl (precedes_of_part hfirst hsecond)
      | wild matcher =>
          cases b with
          | char d => exact Or.inr (precedes_of_part hsecond hfirst)
          | wild matcher' =>
              have hwild := hrepresents.wildcard_of_begins hfirst'.begins
              rw [hrepresents.wildcard_of_begins hsecond'.begins, Option.some.injEq] at hwild
              exact absurd (congrArg RouteStep.wild hwild.symm) hne

end EndpointTrie

end Liblw.Http
