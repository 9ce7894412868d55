import Liblw.Proof.TrieReading

/-!
# The search comes to the first reading

The loop of `walk_path` goes from one beginning that fits to the next in the order of the search.
The stack holds the wildcards beside the way, so where no child fits the next one is found there.
Hence the loop ends, and it ends at the first beginning that takes up the whole path.
-/

namespace Liblw.Http.EndpointTrie

open Liblw.Lib

variable {E : Type} {engine : RegexEngine} {path : Text} {matchersOf : E → List PathMatcher}
  {endpoints : List E} {trie : EndpointTrie E} {steps : List RouteStep} {i : Nat}

/-! ### The stack -/

/-- The stack holds the wildcards beside the characters of the steps, the last one on top. -/
structure Stacked (engine : RegexEngine) (matchersOf : E → List PathMatcher) (endpoints : List E)
    (path : Text) (trie : EndpointTrie E) (steps : List RouteStep) (stack : List (Node × Nat)) :
    Prop where
  entries : ∀ entry ∈ stack, ∃ before c, entry.1 = nodeOf before ∧
    Reached engine matchersOf endpoints path before entry.2 ∧ entry.2 < path.length ∧
    before ++ [.char c] <+: steps
  sorted : stack.Pairwise fun upper lower => lower.1.length < upper.1.length
  covers : ∀ before c, before ++ [.char c] <+: steps → (trie.wildcard (nodeOf before)).isSome →
    ∃ i, (nodeOf before, i) ∈ stack

theorem stacked_nil : Stacked engine matchersOf endpoints path trie [] [] where
  entries := by simp
  sorted := List.Pairwise.nil
  covers := by simp

theorem length_nodeOf (steps : List RouteStep) : (nodeOf steps).length = steps.length :=
  List.length_map _

/-- The top of a round: the wildcard of the node is pushed before the character is tried. -/
theorem Stacked.push {stack : List (Node × Nat)} (c : Char)
    (hstacked : Stacked engine matchersOf endpoints path trie steps stack)
    (hreached : Reached engine matchersOf endpoints path steps i) (hi : i < path.length) :
    Stacked engine matchersOf endpoints path trie (steps ++ [.char c])
      (if (trie.wildcard (nodeOf steps)).isSome then (nodeOf steps, i) :: stack else stack) := by
  have hshort : ∀ {before d}, before ++ [.char d] <+: steps → before.length < steps.length := by
    intro before d hbegin
    simpa [Nat.succ_le_iff] using hbegin.length_le
  have hstack : ∀ entry ∈ stack, ∃ before d, entry.1 = nodeOf before ∧
      Reached engine matchersOf endpoints path before entry.2 ∧ entry.2 < path.length ∧
      before ++ [.char d] <+: steps ++ [.char c] := by
    intro entry hmem
    obtain ⟨before, d, hnode, hbefore, hlt, hbegin⟩ := hstacked.entries entry hmem
    exact ⟨before, d, hnode, hbefore, hlt, hbegin.trans (List.prefix_append _ _)⟩
  split_ifs with hwild
  · refine ⟨?_, ?_, ?_⟩
    · intro entry hmem
      rcases List.mem_cons.mp hmem with rfl | hmem
      · exact ⟨steps, c, rfl, hreached, hi, List.prefix_rfl⟩
      · exact hstack entry hmem
    · refine List.pairwise_cons.mpr ⟨?_, hstacked.sorted⟩
      intro entry hmem
      obtain ⟨before, d, hnode, -, -, hbegin⟩ := hstacked.entries entry hmem
      rw [hnode, length_nodeOf, length_nodeOf]
      exact hshort hbegin
    · intro before d hbegin hsome
      rcases List.prefix_concat_iff.mp hbegin with heq | hbegin
      · obtain ⟨rfl, -⟩ := List.append_inj' heq rfl
        exact ⟨i, List.mem_cons_self⟩
      · obtain ⟨j, hmem⟩ := hstacked.covers before d hbegin hsome
        exact ⟨j, List.mem_cons_of_mem _ hmem⟩
  · refine ⟨hstack, hstacked.sorted, ?_⟩
    intro before d hbegin hsome
    rcases List.prefix_concat_iff.mp hbegin with heq | hbegin
    · obtain ⟨rfl, -⟩ := List.append_inj' heq rfl
      exact absurd hsome hwild
    · exact hstacked.covers before d hbegin hsome

/-- The wildcard of an entry does not match. -/
def Fruitless (engine : RegexEngine) (trie : EndpointTrie E) (path : Text) (entry : Node × Nat) :
    Prop :=
  ∀ matcher, trie.wildcard entry.1 = some matcher →
    matcher.match engine (partAt path entry.2) = none

theorem backtrack_cases (engine : RegexEngine) (trie : EndpointTrie E) (path : Text)
    (parameters : HeadersView) (stack : List (Node × Nat)) :
    (backtrack engine trie path parameters stack = none ∧
        ∀ entry ∈ stack, Fruitless engine trie path entry) ∨
      ∃ skipped node j rest matcher captured, stack = skipped ++ (node, j) :: rest ∧
        (∀ entry ∈ skipped, Fruitless engine trie path entry) ∧
        trie.wildcard node = some matcher ∧
        matcher.match engine (partAt path j) = some captured ∧
        backtrack engine trie path parameters stack = some ⟨node ++ [.wild], j + captured.length,
          rest, parameters.assign matcher.name captured⟩ := by
  induction stack with
  | nil => exact Or.inl ⟨rfl, by simp⟩
  | cons entry stack ih =>
      obtain ⟨node, j⟩ := entry
      -- a wildcard that does not match leaves the result to the stack below
      have hskip : Fruitless engine trie path (node, j) →
          backtrack engine trie path parameters ((node, j) :: stack) =
            backtrack engine trie path parameters stack := by
        intro hfruitless
        rw [backtrack]
        cases hwild : trie.wildcard node with
        | none => rfl
        | some matcher => simp only [hfruitless matcher hwild]
      by_cases hfruitless : Fruitless engine trie path (node, j)
      · rw [hskip hfruitless]
        rcases ih with ⟨hnone, hall⟩ |
          ⟨skipped, node', j', rest, matcher, captured, rfl, hall, hrest⟩
        · refine Or.inl ⟨hnone, ?_⟩
          intro entry hmem
          rcases List.mem_cons.mp hmem with rfl | hmem
          · exact hfruitless
          · exact hall entry hmem
        · refine Or.inr ⟨(node, j) :: skipped, node', j', rest, matcher, captured, rfl, ?_, hrest⟩
          intro entry hmem
          rcases List.mem_cons.mp hmem with rfl | hmem
          · exact hfruitless
          · exact hall entry hmem
      · right
        simp only [Fruitless, not_forall] at hfruitless
        obtain ⟨matcher, hwild, hmatch⟩ := hfruitless
        obtain ⟨captured, hmatch⟩ := Option.ne_none_iff_exists'.mp hmatch
        refine ⟨[], node, j, stack, matcher, captured, rfl, by simp, hwild, hmatch, ?_⟩
        simp only [backtrack, hwild, hmatch]

/-! ### One round -/

/-- The next steps that fit the path, in the order of the search. -/
structure Successor (engine : RegexEngine) (matchersOf : E → List PathMatcher) (endpoints : List E)
    (path : Text) (steps next : List RouteStep) : Prop where
  reached : ∃ j, Reached engine matchersOf endpoints path next j
  precedes : Precedes steps next
  least : ∀ other j, Reached engine matchersOf endpoints path other j → Precedes steps other →
    other = next ∨ Precedes next other

theorem eq_or_precedes_of_prefix {first second : List RouteStep} (hbegin : first <+: second) :
    second = first ∨ Precedes first second := by
  by_cases heq : second = first
  · exact Or.inl heq
  · exact Or.inr (lex_of_begins hbegin (Ne.symm heq))

/-- What comes later goes on along the character of the path, or leaves the way with it at a
wildcard. -/
theorem Reached.later {other : List RouteStep} {j : Nat} {c : Char}
    (hreached : Reached engine matchersOf endpoints path steps i) (hc : path[i]? = some c)
    (hother : Reached engine matchersOf endpoints path other j) (hprecedes : Precedes steps other) :
    steps ++ [.char c] <+: other ∨ ∃ before d matcher,
      before ++ [.char d] <+: steps ++ [.char c] ∧ before ++ [.wild matcher] <+: other := by
  rcases hprecedes.cases with ⟨⟨rest, rfl⟩, hne⟩ | ⟨before, d, matcher, hsteps, hleaves⟩
  · cases rest with
    | nil => exact absurd (List.append_nil _).symm hne
    | cons step rest =>
        have hsnoc : steps ++ [step] <+: steps ++ step :: rest := ⟨rest, by simp⟩
        cases step with
        | char d =>
            obtain ⟨k, hshort⟩ := hother.of_prefix hsnoc
            obtain ⟨k', hread, hd, -⟩ := readFrom_snoc_char_eq_some.mp hshort.reads
            rw [hreached.reads, Option.some.injEq] at hread
            subst hread
            rw [hc, Option.some.injEq] at hd
            subst hd
            exact Or.inl hsnoc
        | wild matcher => exact Or.inr ⟨steps, c, matcher, List.prefix_rfl, hsnoc⟩
  · exact Or.inr ⟨before, d, matcher, hsteps.trans (List.prefix_append _ _), hleaves⟩

theorem successor_char {c : Char} (hreached : Reached engine matchersOf endpoints path steps i)
    (hc : path[i]? = some c) (hbegins : Begins matchersOf endpoints (steps ++ [.char c])) :
    Successor engine matchersOf endpoints path steps (steps ++ [.char c]) where
  reached := ⟨i + 1, hbegins, readFrom_snoc_char_eq_some.mpr ⟨i, hreached.reads, hc, rfl⟩⟩
  precedes := lex_of_begins (List.prefix_append _ _) (by simp)
  least := by
    intro other j hother hprecedes
    rcases Reached.later hreached hc hother hprecedes with hbegin |
      ⟨before, d, matcher, hway, hleaves⟩
    · exact eq_or_precedes_of_prefix hbegin
    · exact Or.inr (precedes_of_part hway hleaves)

/-- A wildcard where something that fits leaves the way is on the stack, and matches. -/
theorem Stacked.entry_of_leaves {stack : List (Node × Nat)} {way before other : List RouteStep}
    {c : Char} {matcher : PathMatcher} {j : Nat}
    (hrepresents : Represents matchersOf trie endpoints)
    (hstacked : Stacked engine matchersOf endpoints path trie way stack)
    (hway : before ++ [.char c] <+: way)
    (hother : Reached engine matchersOf endpoints path other j)
    (hleaves : before ++ [.wild matcher] <+: other) :
    ∃ k, (nodeOf before, k) ∈ stack ∧ ¬ Fruitless engine trie path (nodeOf before, k) := by
  obtain ⟨k', hwild⟩ := hother.of_prefix hleaves
  have hpresent := hrepresents.wildcard_of_begins hwild.begins
  obtain ⟨k, hmem⟩ := hstacked.covers before c hway (by rw [hpresent]; rfl)
  obtain ⟨before', d, hnode, hbefore', -, -⟩ := hstacked.entries _ hmem
  obtain rfl := hrepresents.begins_unique (hwild.begins.of_prefix (List.prefix_append _ _))
    hbefore'.begins hnode
  obtain ⟨k'', captured, hread, -, hmatch, -⟩ := readFrom_snoc_wild_eq_some.mp hwild.reads
  rw [hbefore'.reads, Option.some.injEq] at hread
  subst hread
  refine ⟨k, hmem, ?_⟩
  intro hfruitless
  rw [hfruitless matcher hpresent] at hmatch
  cases hmatch

theorem not_precedes_of_fruitless {stack : List (Node × Nat)} {other : List RouteStep} {c : Char}
    {j : Nat} (hrepresents : Represents matchersOf trie endpoints)
    (hreached : Reached engine matchersOf endpoints path steps i) (hc : path[i]? = some c)
    (hchild : ¬ Begins matchersOf endpoints (steps ++ [.char c]))
    (hstacked : Stacked engine matchersOf endpoints path trie (steps ++ [.char c]) stack)
    (hfruitless : ∀ entry ∈ stack, Fruitless engine trie path entry)
    (hother : Reached engine matchersOf endpoints path other j) : ¬ Precedes steps other := by
  intro hprecedes
  rcases Reached.later hreached hc hother hprecedes with hbegin |
    ⟨before, d, matcher, hway, hleaves⟩
  · exact hchild (hother.begins.of_prefix hbegin)
  · obtain ⟨k, hmem, hfruitful⟩ := hstacked.entry_of_leaves hrepresents hway hother hleaves
    exact hfruitful (hfruitless _ hmem)

/-- The wildcards below an entry stand beside the way to it. -/
theorem Stacked.below {skipped rest : List (Node × Nat)} {way before : List RouteStep} {c : Char}
    {k : Nat} {matcher : PathMatcher}
    (hstacked : Stacked engine matchersOf endpoints path trie way
      (skipped ++ (nodeOf before, k) :: rest))
    (hway : before ++ [.char c] <+: way) :
    Stacked engine matchersOf endpoints path trie (before ++ [.wild matcher]) rest := by
  obtain ⟨-, hsorted, habove⟩ := List.pairwise_append.mp hstacked.sorted
  obtain ⟨hbelow, hsorted⟩ := List.pairwise_cons.mp hsorted
  refine ⟨?_, hsorted, ?_⟩
  · intro entry hmem
    obtain ⟨before', d, hnode, hbefore', hlt, hway'⟩ := hstacked.entries entry
      (List.mem_append_right _ (List.mem_cons_of_mem _ hmem))
    refine ⟨before', d, hnode, hbefore', hlt, ?_⟩
    have hshort := hbelow entry hmem
    rw [hnode, length_nodeOf, length_nodeOf] at hshort
    have hlength : (before' ++ [RouteStep.char d]).length ≤ before.length := by simpa using hshort
    have hbegin :=
      List.prefix_of_prefix_length_le hway' ((List.prefix_append _ _).trans hway) hlength
    exact hbegin.trans (List.prefix_append _ _)
  · intro before' d hbegin hsome
    have hshort : before' ++ [.char d] <+: before := prefix_of_snoc_prefix hbegin (by simp)
    have hlength : before'.length < before.length := by
      simpa [Nat.succ_le_iff] using hshort.length_le
    obtain ⟨k', hmem⟩ := hstacked.covers before' d
      (hshort.trans ((List.prefix_append _ _).trans hway)) hsome
    refine ⟨k', ?_⟩
    -- above the entry everything is longer
    rcases List.mem_append.mp hmem with hskipped | hmem
    · have habove := habove _ hskipped (nodeOf before, k) List.mem_cons_self
      simp only [length_nodeOf] at habove
      omega
    · rcases List.mem_cons.mp hmem with heq | hmem
      · have heq := congrArg (fun entry => entry.1.length) heq
        simp only [length_nodeOf] at heq
        omega
      · exact hmem

theorem successor_wild {skipped rest : List (Node × Nat)} {node : Node} {c : Char} {k : Nat}
    {matcher : PathMatcher} {captured : Text} (hrepresents : Represents matchersOf trie endpoints)
    (hreached : Reached engine matchersOf endpoints path steps i) (hc : path[i]? = some c)
    (hchild : ¬ Begins matchersOf endpoints (steps ++ [.char c]))
    (hstacked : Stacked engine matchersOf endpoints path trie (steps ++ [.char c])
      (skipped ++ (node, k) :: rest))
    (hskipped : ∀ entry ∈ skipped, Fruitless engine trie path entry)
    (hwild : trie.wildcard node = some matcher)
    (hmatch : matcher.match engine (partAt path k) = some captured) :
    ∃ recording : Recording, node = nodeOf recording.before ∧ recording.matcher = matcher ∧
      recording.captured = captured ∧ recording.Made engine matchersOf endpoints path ∧
      Reached engine matchersOf endpoints path recording.steps (k + captured.length) ∧
      Stacked engine matchersOf endpoints path trie recording.steps rest ∧
      Successor engine matchersOf endpoints path steps recording.steps := by
  obtain ⟨before, d, hnode, hbefore, hk, hway⟩ := hstacked.entries (node, k)
    (List.mem_append_right _ List.mem_cons_self)
  obtain rfl : node = nodeOf before := hnode
  have hbegins := (hrepresents.wildcard_iff hbefore.begins matcher).mp hwild
  have hnext : Reached engine matchersOf endpoints path (before ++ [.wild matcher])
      (k + captured.length) :=
    ⟨hbegins, readFrom_snoc_wild_eq_some.mpr ⟨k, captured, hbefore.reads, hk, hmatch, rfl⟩⟩
  refine ⟨⟨before, matcher, captured⟩, rfl, rfl, rfl, ⟨hbegins, k, hbefore.reads, hk, hmatch⟩,
    hnext, hstacked.below hway, ⟨_, hnext⟩, ?_, ?_⟩
  · rcases List.prefix_concat_iff.mp hway with heq | hshort
    · obtain ⟨rfl, -⟩ := List.append_inj' heq rfl
      exact lex_of_begins (List.prefix_append _ _) (by simp [Recording.steps])
    · exact precedes_of_part hshort List.prefix_rfl
  · intro other j hother hprecedes
    rcases Reached.later hreached hc hother hprecedes with hbegin |
      ⟨before', d', matcher', hway', hleaves⟩
    · exact absurd (hother.begins.of_prefix hbegin) hchild
    · obtain ⟨k', hmem, hfruitful⟩ := hstacked.entry_of_leaves hrepresents hway' hother hleaves
      rcases List.mem_append.mp hmem with hmem | hmem
      · exact absurd (hskipped _ hmem) hfruitful
      · obtain ⟨j', hwild'⟩ := hother.of_prefix hleaves
        rcases List.mem_cons.mp hmem with heq | hmem
        · obtain rfl := hrepresents.begins_unique (hwild'.begins.of_prefix (List.prefix_append _ _))
            hbefore.begins (congrArg Prod.fst heq)
          rw [hrepresents.wildcard_of_begins hwild'.begins, Option.some.injEq] at hwild
          subst hwild
          exact eq_or_precedes_of_prefix hleaves
        · have hsorted := (List.pairwise_append.mp hstacked.sorted).2.1
          have hshort := (List.pairwise_cons.mp hsorted).1 _ hmem
          simp only [length_nodeOf] at hshort
          have hlength : (before' ++ [RouteStep.char d']).length ≤ before.length := by
            simpa using hshort
          have hbegin := List.prefix_of_prefix_length_le hway'
            ((List.prefix_append _ _).trans hway) hlength
          exact Or.inr (precedes_of_part (hbegin.trans (List.prefix_append _ _)) hleaves)

/-! ### All rounds -/

/-- The recordings up to the steps, in the order of the search. -/
structure Logged (engine : RegexEngine) (matchersOf : E → List PathMatcher) (endpoints : List E)
    (path : Text) (steps : List RouteStep) (log : List Recording) : Prop where
  sorted : log.Pairwise fun first second => Precedes first.steps second.steps
  mem_iff : ∀ recording, recording ∈ log ↔ recording.Made engine matchersOf endpoints path ∧
    (recording.steps = steps ∨ Precedes recording.steps steps)

/-- The walk is at steps that fit, with nothing before them that takes up the whole path. -/
structure Visiting (engine : RegexEngine) (matchersOf : E → List PathMatcher) (endpoints : List E)
    (path : Text) (trie : EndpointTrie E) (steps : List RouteStep) (walk : Walk) : Prop where
  node : walk.node = nodeOf steps
  reached : Reached engine matchersOf endpoints path steps walk.i
  stacked : Stacked engine matchersOf endpoints path trie steps walk.wildcardStack
  first : ∀ other, Begins matchersOf endpoints other → Reads engine path other →
    other = steps ∨ Precedes steps other
  logged : ∃ log, walk.parameters = recordAll log ∧
    Logged engine matchersOf endpoints path steps log

theorem visiting_start :
    Visiting engine matchersOf endpoints path trie [] ⟨[], 0, [], []⟩ where
  node := rfl
  reached := reached_nil
  stacked := stacked_nil
  first := by
    intro other hbegins hreads
    exact eq_or_precedes_of_prefix List.nil_prefix
  logged := by
    refine ⟨[], rfl, List.Pairwise.nil, ?_⟩
    intro recording
    simp only [List.not_mem_nil, false_iff, not_and, not_or]
    intro hmade
    exact ⟨by simp [Recording.steps], List.not_lex_nil⟩

/-- Up to the successor comes what comes up to the steps themselves, and the successor. -/
theorem Successor.precedes_iff {next other : List RouteStep} {j : Nat}
    (hrepresents : Represents matchersOf trie endpoints)
    (hsuccessor : Successor engine matchersOf endpoints path steps next)
    (hreached : Reached engine matchersOf endpoints path steps i)
    (hother : Reached engine matchersOf endpoints path other j) :
    Precedes other next ↔ other = steps ∨ Precedes other steps := by
  constructor
  · intro hprecedes
    rcases hrepresents.comparable hreached hother with heq | hafter | hbefore
    · exact Or.inl heq.symm
    · rcases hsuccessor.least other j hother hafter with rfl | hnext
      · exact absurd hprecedes (not_precedes_self _)
      · exact absurd (hprecedes.trans hnext) (not_precedes_self _)
    · exact Or.inr hbefore
  · rintro (rfl | hbefore)
    · exact hsuccessor.precedes
    · exact hbefore.trans hsuccessor.precedes

theorem Successor.first {next : List RouteStep}
    (hsuccessor : Successor engine matchersOf endpoints path steps next)
    (hreached : Reached engine matchersOf endpoints path steps i) (hi : i < path.length)
    (hfirst : ∀ other, Begins matchersOf endpoints other → Reads engine path other →
      other = steps ∨ Precedes steps other) (other : List RouteStep)
    (hbegins : Begins matchersOf endpoints other) (hreads : Reads engine path other) :
    other = next ∨ Precedes next other := by
  rcases hfirst other hbegins hreads with rfl | hprecedes
  · have hend := hreached.reads
    rw [show readFrom engine path 0 other = some path.length from hreads, Option.some.injEq] at hend
    omega
  · exact hsuccessor.least other _ ⟨hbegins, hreads⟩ hprecedes

theorem Logged.char {log : List Recording} {c : Char}
    (hrepresents : Represents matchersOf trie endpoints)
    (hlogged : Logged engine matchersOf endpoints path steps log)
    (hreached : Reached engine matchersOf endpoints path steps i)
    (hsuccessor : Successor engine matchersOf endpoints path steps (steps ++ [.char c])) :
    Logged engine matchersOf endpoints path (steps ++ [.char c]) log where
  sorted := hlogged.sorted
  mem_iff := by
    intro recording
    rw [hlogged.mem_iff]
    refine and_congr_right ?_
    intro hmade
    obtain ⟨j, hother⟩ := hmade.reached
    rw [hsuccessor.precedes_iff hrepresents hreached hother]
    have hne : recording.steps ≠ steps ++ [.char c] := by
      intro heq
      have hlast := (List.append_inj' heq rfl).2
      simp at hlast
    simp [hne]

theorem Logged.wild {log : List Recording} {recording : Recording}
    (hrepresents : Represents matchersOf trie endpoints)
    (hlogged : Logged engine matchersOf endpoints path steps log)
    (hreached : Reached engine matchersOf endpoints path steps i)
    (hmade : recording.Made engine matchersOf endpoints path)
    (hsuccessor : Successor engine matchersOf endpoints path steps recording.steps) :
    Logged engine matchersOf endpoints path recording.steps (log ++ [recording]) where
  sorted := by
    refine List.pairwise_append.mpr ⟨hlogged.sorted, List.pairwise_singleton _ _, ?_⟩
    intro earlier hmem last hlast
    rw [List.mem_singleton.mp hlast]
    obtain ⟨hearlier, hbefore⟩ := (hlogged.mem_iff earlier).mp hmem
    obtain ⟨j, hother⟩ := hearlier.reached
    exact (hsuccessor.precedes_iff hrepresents hreached hother).mpr hbefore
  mem_iff := by
    intro other
    rw [List.mem_append, List.mem_singleton, hlogged.mem_iff]
    constructor
    · rintro (⟨hother, hbefore⟩ | rfl)
      · obtain ⟨j, hreached'⟩ := hother.reached
        exact ⟨hother, Or.inr
          ((hsuccessor.precedes_iff hrepresents hreached hreached').mpr hbefore)⟩
      · exact ⟨hmade, Or.inl rfl⟩
    · rintro ⟨hother, heq | hbefore⟩
      · exact Or.inr (hother.unique hmade heq)
      · obtain ⟨j, hreached'⟩ := hother.reached
        exact Or.inl ⟨hother, (hsuccessor.precedes_iff hrepresents hreached hreached').mp hbefore⟩

/-- **One round** goes on to the successor, or finds that there is none. -/
theorem Visiting.step {walk : Walk} {c : Char} (hrepresents : Represents matchersOf trie endpoints)
    (hvisiting : Visiting engine matchersOf endpoints path trie steps walk)
    (hc : path[walk.i]? = some c) :
    (stepWalk engine trie path walk c = none ∧
        ∀ other j, Reached engine matchersOf endpoints path other j → ¬ Precedes steps other) ∨
      ∃ next after, stepWalk engine trie path walk c = some next ∧ Precedes steps after ∧
        Visiting engine matchersOf endpoints path trie after next := by
  have hi : walk.i < path.length := (List.getElem?_eq_some_iff.mp hc).1
  obtain ⟨log, hparameters, hlogged⟩ := hvisiting.logged
  have hreached := hvisiting.reached
  have hstacked := hvisiting.stacked.push c hreached hi
  have hchild := hrepresents.mem_nodes_iff hreached.begins c
  unfold stepWalk
  rw [hvisiting.node]
  dsimp only
  by_cases hbegins : Begins matchersOf endpoints (steps ++ [.char c])
  · have hsuccessor := successor_char hreached hc hbegins
    rw [if_pos (hchild.mpr hbegins)]
    refine Or.inr ⟨_, steps ++ [.char c], rfl, hsuccessor.precedes, ?_⟩
    refine ⟨by simp [RouteStep.key], ⟨hbegins, ?_⟩, hstacked,
      hsuccessor.first hreached hi hvisiting.first,
      ⟨log, hparameters, hlogged.char hrepresents hreached hsuccessor⟩⟩
    exact readFrom_snoc_char_eq_some.mpr ⟨walk.i, hreached.reads, hc, rfl⟩
  · rw [if_neg (mt hchild.mp hbegins)]
    generalize (if (trie.wildcard (nodeOf steps)).isSome = true then
      (nodeOf steps, walk.i) :: walk.wildcardStack else walk.wildcardStack) = stack at hstacked ⊢
    rcases backtrack_cases engine trie path walk.parameters stack with
      ⟨hnone, hfruitless⟩ |
        ⟨skipped, node, k, rest, matcher, captured, rfl, hskipped, hwild, hmatch, hsome⟩
    · refine Or.inl ⟨hnone, ?_⟩
      intro other j hother
      exact not_precedes_of_fruitless hrepresents hreached hc hbegins hstacked hfruitless hother
    · obtain ⟨recording, rfl, rfl, rfl, hmade, hnext, hbelow, hsuccessor⟩ :=
        successor_wild hrepresents hreached hc hbegins hstacked hskipped hwild hmatch
      refine Or.inr ⟨_, recording.steps, hsome, hsuccessor.precedes, ?_⟩
      refine ⟨by simp [Recording.steps, RouteStep.key], hnext, hbelow,
        hsuccessor.first hreached hi hvisiting.first, log ++ [recording], ?_,
        hlogged.wild hrepresents hreached hmade hsuccessor⟩
      rw [hparameters, recordAll, recordAll, List.foldl_append]
      rfl

open Classical in
/-- The nodes that the search has not come to. -/
noncomputable def ahead (matchersOf : E → List PathMatcher) (endpoints : List E)
    (trie : EndpointTrie E) (steps : List RouteStep) : Finset Node :=
  trie.nodes.filter fun node =>
    ∃ after, Begins matchersOf endpoints after ∧ nodeOf after = node ∧ Precedes steps after

theorem mem_ahead {node : Node} : node ∈ ahead matchersOf endpoints trie steps ↔
    node ∈ trie.nodes ∧ ∃ after, Begins matchersOf endpoints after ∧ nodeOf after = node ∧
      Precedes steps after := by
  classical
  simp only [ahead, Finset.mem_filter]

theorem card_ahead_lt {after : List RouteStep} (hrepresents : Represents matchersOf trie endpoints)
    (hbegins : Begins matchersOf endpoints after) (hprecedes : Precedes steps after) :
    (ahead matchersOf endpoints trie after).card <
      (ahead matchersOf endpoints trie steps).card := by
  have hne : after ≠ [] := by
    rintro rfl
    exact List.not_lex_nil hprecedes
  refine Finset.card_lt_card (Finset.ssubset_iff_of_subset ?_ |>.mpr ⟨nodeOf after, ?_, ?_⟩)
  · intro node hmem
    obtain ⟨hnode, later, hlater, rfl, hafter⟩ := mem_ahead.mp hmem
    exact mem_ahead.mpr ⟨hnode, later, hlater, rfl, hprecedes.trans hafter⟩
  · refine mem_ahead.mpr ⟨(hrepresents.nodes _).mpr ?_, after, hbegins, rfl, hprecedes⟩
    rcases hbegins with rfl | ⟨endpoint, hmem, hroute⟩
    · exact absurd rfl hne
    · exact ⟨endpoint, hmem, after, hne, hroute, rfl⟩
  · intro hmem
    obtain ⟨-, later, hlater, hnode, hafter⟩ := mem_ahead.mp hmem
    obtain rfl := hrepresents.begins_unique hlater hbegins hnode
    exact not_precedes_self _ hafter

/-- **The loop** returns, at the first beginning that takes up the whole path if there is one. -/
theorem Visiting.walkLoop {walk : Walk} {rounds : Nat}
    (hrepresents : Represents matchersOf trie endpoints)
    (hvisiting : Visiting engine matchersOf endpoints path trie steps walk)
    (hrounds : (ahead matchersOf endpoints trie steps).card < rounds) :
    (walkLoop engine trie path rounds walk = .ok none ∧
        ∀ other, Begins matchersOf endpoints other → ¬ Reads engine path other) ∨
      ∃ final after, walkLoop engine trie path rounds walk = .ok (some final) ∧
        Visiting engine matchersOf endpoints path trie after final ∧ final.i = path.length := by
  induction rounds generalizing walk steps with
  | zero => omega
  | succ rounds ih =>
      have hle := hvisiting.reached.le_length
      rw [EndpointTrie.walkLoop]
      cases hc : path[walk.i]? with
      | none =>
          have hend := List.getElem?_eq_none_iff.mp hc
          exact Or.inr ⟨walk, steps, rfl, hvisiting, by omega⟩
      | some c =>
          have hi : walk.i < path.length := (List.getElem?_eq_some_iff.mp hc).1
          rcases hvisiting.step hrepresents hc with ⟨hnone, hlast⟩ |
            ⟨next, after, hsome, hprecedes, hnext⟩
          · refine Or.inl ⟨by simp only [hnone], ?_⟩
            intro other hbegins hreads
            rcases hvisiting.first other hbegins hreads with rfl | hprecedes
            · have hend := hvisiting.reached.reads
              rw [show readFrom engine path 0 other = some path.length from hreads,
                Option.some.injEq] at hend
              omega
            · exact hlast other _ ⟨hbegins, hreads⟩ hprecedes
          · simp only [hsome]
            have hcard := card_ahead_lt hrepresents hnext.reached.begins hprecedes
            exact ih hnext (by omega)

/-- What `walk_path` returns on a trie that holds routes. -/
theorem Represents.walkPath (hrepresents : Represents matchersOf trie endpoints)
    (engine : RegexEngine) (path : Text) :
    (walkPath engine trie path = .ok none ∧
        ∀ other, Begins matchersOf endpoints other → ¬ Reads engine path other) ∨
      ∃ walk steps log, walkPath engine trie path = .ok (some walk) ∧ walk.node = nodeOf steps ∧
        FirstReading engine matchersOf endpoints path steps ∧ walk.parameters = recordAll log ∧
        Logged engine matchersOf endpoints path steps log := by
  have hrounds : (ahead matchersOf endpoints trie []).card < trie.nodes.card + 1 :=
    Nat.lt_succ_of_le (Finset.card_le_card fun node hmem => (mem_ahead.mp hmem).1)
  rcases visiting_start.walkLoop hrepresents hrounds with hnone |
    ⟨walk, steps, hsome, hvisiting, hend⟩
  · exact Or.inl hnone
  · obtain ⟨log, hparameters, hlogged⟩ := hvisiting.logged
    have hreads : Reads engine path steps := by
      rw [Reads, hvisiting.reached.reads, hend]
    exact Or.inr ⟨walk, steps, log, hsome, hvisiting.node,
      ⟨hvisiting.reached.begins, hreads, hvisiting.first⟩, hparameters, hlogged⟩

end Liblw.Http.EndpointTrie
