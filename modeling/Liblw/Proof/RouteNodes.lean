import Liblw.Http.Readings
import Liblw.Lib.Separator
import Liblw.Proof.RouteSegments

/-!
# Where routes stand in the trie

A route has a wildcard at the node that the steps before it lead to. Two routes that have one of the
same text at every node that they share have the same matchers there, with their names, types and
numbers: the steps up to the wildcard tell all the segments before it.
-/

namespace Liblw.Http

open Liblw.Lib

@[simp]
theorem nodeOf_nil : nodeOf [] = [] := rfl

@[simp]
theorem nodeOf_cons (step : RouteStep) (steps : List RouteStep) :
    nodeOf (step :: steps) = step.key :: nodeOf steps := rfl

@[simp]
theorem nodeOf_append (first second : List RouteStep) :
    nodeOf (first ++ second) = nodeOf first ++ nodeOf second := List.map_append

theorem stepsOf_cons (matcher : PathMatcher) (rest : List PathMatcher) :
    stepsOf (matcher :: rest) = segmentSteps matcher ++ stepsOf rest := rfl

theorem segmentSteps_literal {matcher : PathMatcher} (hliteral : matcher.isLiteral = true) :
    segmentSteps matcher = .char '/' :: matcher.chunk.map RouteStep.char := by
  simp [segmentSteps, hliteral]

theorem segmentSteps_wild {matcher : PathMatcher} (hliteral : matcher.isLiteral = false) :
    segmentSteps matcher = [.char '/', .wild matcher] := by
  simp [segmentSteps, hliteral]

/-! ### Equal nodes, equal matchers -/

theorem notMem_nodeOf_chars {chunk : Text} {c : Char} (hc : c ∉ chunk) :
    Key.char c ∉ nodeOf (chunk.map RouteStep.char) := by
  intro hmem
  simp only [nodeOf, List.map_map, List.mem_map, Function.comp, RouteStep.key,
    Key.char.injEq] at hmem
  obtain ⟨d, hd, rfl⟩ := hmem
  exact hc hd

theorem nodeOf_chars_injective {first second : Text}
    (hnode : nodeOf (first.map RouteStep.char) = nodeOf (second.map RouteStep.char)) :
    first = second := by
  simp only [nodeOf, List.map_map] at hnode
  exact List.map_injective_iff.mpr (fun _ _ heq => Key.char.inj heq) hnode

theorem eq_char_of_stepsOf {matchers : List PathMatcher} {step : RouteStep}
    {steps : List RouteStep} (hsteps : stepsOf matchers = step :: steps) : step = .char '/' := by
  cases matchers with
  | nil => cases hsteps
  | cons matcher rest =>
      rw [stepsOf_cons, segmentSteps] at hsteps
      exact (List.cons.inj hsteps).1.symm

/-- A wildcard of a route is that of its first segment or one of the other segments. -/
theorem wildAt_cons {matcher found : PathMatcher} {rest : List PathMatcher} {node : Node}
    (hwild : WildAt (matcher :: rest) node found) :
    (matcher.isLiteral = false ∧ found = matcher ∧ node = [.char '/']) ∨
      ∃ tail, WildAt rest (.char '/' :: tail) found ∧
        node = nodeOf (segmentSteps matcher) ++ .char '/' :: tail := by
  obtain ⟨before, after, hsteps, rfl⟩ := hwild
  rw [stepsOf_cons] at hsteps
  rcases List.append_eq_append_iff.mp hsteps with ⟨inner, rfl, hrest⟩ | ⟨inner, hsegment, hrest⟩
  · -- the wildcard stands behind the first segment, and so behind a separator
    right
    cases inner with
    | nil => cases eq_char_of_stepsOf hrest
    | cons step tail =>
        obtain rfl := eq_char_of_stepsOf hrest
        exact ⟨nodeOf tail, ⟨_, after, hrest, rfl⟩, by simp [RouteStep.key]⟩
  · cases inner with
    | nil => cases eq_char_of_stepsOf hrest.symm
    | cons step inner =>
        left
        obtain rfl : RouteStep.wild found = step := (List.cons.inj hrest).1
        have hmem : RouteStep.wild found ∈ segmentSteps matcher := by
          rw [hsegment]
          simp
        cases hliteral : matcher.isLiteral with
        | true =>
            rw [segmentSteps_literal hliteral] at hmem
            simp at hmem
        | false =>
            rw [segmentSteps_wild hliteral] at hmem hsegment
            obtain rfl : found = matcher := by simpa using hmem
            cases before with
            | nil => cases hsegment
            | cons first before =>
                cases before with
                | nil =>
                    obtain rfl := (List.cons.inj hsegment).1
                    exact ⟨rfl, rfl, rfl⟩
                | cons second before => simp at hsegment

theorem WildAt.head {matcher : PathMatcher} (hliteral : matcher.isLiteral = false)
    (rest : List PathMatcher) : WildAt (matcher :: rest) [.char '/'] matcher :=
  ⟨[.char '/'], stepsOf rest, by rw [stepsOf_cons, segmentSteps_wild hliteral]; rfl, rfl⟩

theorem WildAt.tail {matcher found : PathMatcher} {rest : List PathMatcher} {node : Node}
    (hwild : WildAt rest node found) :
    WildAt (matcher :: rest) (nodeOf (segmentSteps matcher) ++ node) found := by
  obtain ⟨before, after, hsteps, rfl⟩ := hwild
  exact ⟨segmentSteps matcher ++ before, after, by rw [stepsOf_cons, hsteps, List.append_assoc],
    nodeOf_append _ _⟩

/-- The routes have the same text at every node where both have a wildcard. -/
def Agree (first second : List PathMatcher) : Prop :=
  ∀ node matcher matcher', WildAt first node matcher → WildAt second node matcher' →
    matcher.chunk = matcher'.chunk

open MountPath in
/-- The first segments of two routes are equal if both routes go on to the same node. -/
theorem segment_unique_of_node {engine : RegexEngine} {carry next next' : Carry}
    {matcher matcher' : PathMatcher} {rest rest' : List PathMatcher} {tail tail' : Node}
    (hsegment : Segment engine carry matcher next) (hsegment' : Segment engine carry matcher' next')
    (hagree : Agree (matcher :: rest) (matcher' :: rest'))
    (hnode : nodeOf (segmentSteps matcher) ++ .char '/' :: tail =
      nodeOf (segmentSteps matcher') ++ .char '/' :: tail') :
    matcher = matcher' ∧ next = next' ∧ tail = tail' := by
  have hchunk : matcher.chunk = matcher'.chunk := by
    cases hliteral : matcher.isLiteral with
    | true =>
        obtain ⟨hne, hslash⟩ := hsegment.literal hliteral
        obtain ⟨c, chunk, hchunk⟩ := List.exists_cons_of_ne_nil hne
        cases hliteral' : matcher'.isLiteral with
        | true =>
            obtain ⟨-, hslash'⟩ := hsegment'.literal hliteral'
            rw [segmentSteps_literal hliteral, segmentSteps_literal hliteral', nodeOf_cons,
              nodeOf_cons, List.cons_append, List.cons_append, List.cons.injEq] at hnode
            exact nodeOf_chars_injective (append_inj_of_notMem (notMem_nodeOf_chars hslash)
              (notMem_nodeOf_chars hslash') (by simp) (by simp) hnode.2).1
        | false =>
            rw [segmentSteps_literal hliteral, segmentSteps_wild hliteral', hchunk] at hnode
            simp [RouteStep.key] at hnode
    | false =>
        cases hliteral' : matcher'.isLiteral with
        | true =>
            obtain ⟨hne, -⟩ := hsegment'.literal hliteral'
            obtain ⟨c, chunk, hchunk⟩ := List.exists_cons_of_ne_nil hne
            rw [segmentSteps_literal hliteral', segmentSteps_wild hliteral, hchunk] at hnode
            simp [RouteStep.key] at hnode
        | false => exact hagree _ _ _ (WildAt.head hliteral rest) (WildAt.head hliteral' rest')
  obtain ⟨rfl, rfl⟩ := hsegment.unique hsegment' hchunk
  exact ⟨rfl, rfl, (List.cons.inj (List.append_cancel_left hnode)).2⟩

theorem two_le_length_segmentSteps {engine : RegexEngine} {carry next : MountPath.Carry}
    {matcher : PathMatcher} (hsegment : MountPath.Segment engine carry matcher next) :
    2 ≤ (nodeOf (segmentSteps matcher)).length := by
  cases hliteral : matcher.isLiteral with
  | true =>
      have hpos := List.length_pos_iff.mpr (hsegment.literal hliteral).1
      simp [segmentSteps_literal hliteral, nodeOf]
      omega
  | false => simp [segmentSteps_wild hliteral]

open MountPath in
/-- **Equal nodes, equal matchers.** Routes whose wildcards do not differ in text anywhere have the
same matcher wherever both have a wildcard. -/
theorem wildAt_unique {engine : RegexEngine} {carry last last' : Carry}
    {first second : List PathMatcher} {node : Node} {matcher matcher' : PathMatcher}
    (hfirst : Chain engine carry first last) (hsecond : Chain engine carry second last')
    (hagree : Agree first second) (hwild : WildAt first node matcher)
    (hwild' : WildAt second node matcher') : matcher = matcher' := by
  induction hfirst generalizing second node with
  | nil carry =>
      obtain ⟨before, after, hsteps, -⟩ := hwild
      simp [stepsOf] at hsteps
  | @cons carry middle next head rest hsegment hrest ih =>
      cases hsecond with
      | nil =>
          obtain ⟨before, after, hsteps, -⟩ := hwild'
          simp [stepsOf] at hsteps
      | @cons _ middle' _ head' rest' hsegment' hrest' =>
          rcases wildAt_cons hwild with ⟨hliteral, rfl, rfl⟩ | ⟨tail, htail, rfl⟩
          · rcases wildAt_cons hwild' with ⟨hliteral', rfl, -⟩ | ⟨tail', -, hnode⟩
            · have hchunk := hagree _ _ _ hwild hwild'
              exact (hsegment.unique hsegment' hchunk).1
            · have hlength := congrArg List.length hnode
              have htwo := two_le_length_segmentSteps hsegment'
              simp at hlength
              omega
          · rcases wildAt_cons hwild' with ⟨-, -, hnode⟩ | ⟨tail', htail', hnode⟩
            · have hlength := congrArg List.length hnode
              have htwo := two_le_length_segmentSteps hsegment
              simp at hlength
              omega
            · obtain ⟨rfl, rfl, rfl⟩ := segment_unique_of_node hsegment hsegment' hagree hnode
              refine ih hrest' ?_ htail htail'
              intro inner found found' hfound hfound'
              exact hagree _ _ _ hfound.tail hfound'.tail

end Liblw.Http
