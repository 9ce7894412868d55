import Liblw.Http.MountMatch
import Liblw.Proof.RouteFits

/-!
# Where the two route matchers agree

On a path of segments `MountPath::match` hands each segment to its matcher. The trie that holds only
the one route reads the same path exactly if the literals are spelled alike and every capture is a
whole segment; then both record the same.
-/

namespace Liblw.Http

open Liblw.Lib EndpointTrie

variable {engine : RegexEngine}

/-! ### The mount path, segment by segment -/

/-- The segments are handed to the matchers in turn. -/
def matchSegments (engine : RegexEngine) :
    List PathMatcher → List Text → HeadersView → Option HeadersView
  | [], [], parameters => some parameters
  | matcher :: matchers, segment :: segments, parameters =>
      (matcher.match engine segment).bind fun value =>
        matchSegments engine matchers segments
          (if matcher.isLiteral then parameters else parameters.assign matcher.name value)
  | _, _, _ => none

namespace MountPath

variable {urlPath : Text}

theorem matchFrom_within {segment : Text} (hsegment : '/' ∉ segment) (i start : Nat) (rest : Text)
    (matcher : PathMatcher) (matchers : List PathMatcher) (parameters : HeadersView) :
    matchFrom engine urlPath i (some start) (segment ++ rest) (matcher :: matchers) parameters =
      matchFrom engine urlPath (i + segment.length) (some start) rest (matcher :: matchers)
        parameters := by
  induction segment generalizing i with
  | nil => rfl
  | cons c segment ih =>
      rw [List.mem_cons, not_or] at hsegment
      rw [List.cons_append, matchFrom, if_pos (Ne.symm hsegment.1), Option.getD_some,
        ih hsegment.2, List.length_cons]
      congr 1
      omega

/-- A segment begins where its first character stands. -/
theorem matchFrom_segment {segment : Text} (hsegment : '/' ∉ segment) (hne : segment ≠ [])
    (i : Nat) (rest : Text) (matcher : PathMatcher) (matchers : List PathMatcher)
    (parameters : HeadersView) :
    matchFrom engine urlPath i none (segment ++ rest) (matcher :: matchers) parameters =
      matchFrom engine urlPath (i + segment.length) (some i) rest (matcher :: matchers)
        parameters := by
  obtain ⟨c, tail, rfl⟩ := List.exists_cons_of_ne_nil hne
  rw [List.mem_cons, not_or] at hsegment
  rw [List.cons_append, matchFrom, if_pos (Ne.symm hsegment.1), Option.getD_none,
    matchFrom_within hsegment.2, List.length_cons]
  congr 1
  omega

theorem endPart_segment {before segment rest : Text} (hne : segment ≠ [])
    (hpath : urlPath = before ++ segment ++ rest) (matcher : PathMatcher)
    (parameters : HeadersView) :
    endPart engine urlPath (before.length + segment.length) (some before.length) matcher
        parameters =
      match matcher.match engine segment with
      | none => .ok .refused
      | some value => .ok (.taken (if matcher.isLiteral then parameters
          else parameters.assign matcher.name value)) := by
  have hpart : (urlPath.drop before.length).take (before.length + segment.length - before.length) =
      segment := by
    rw [hpath, List.append_assoc, List.drop_left, Nat.add_sub_cancel_left, List.take_left]
  cases hmatch : matcher.match engine segment with
  | none => simp only [endPart, hpart, if_neg hne, hmatch]
  | some value => simp only [endPart, hpart, if_neg hne, hmatch]

/-- No matcher takes the segments that are left. -/
theorem matchFrom_nil {before segment rest : Text} (hne : segment ≠ [])
    (hpath : urlPath = before ++ segment ++ rest) (parameters : HeadersView) :
    matchFrom engine urlPath before.length none (segment ++ rest) [] parameters = .ok none := by
  have hlength : before.length < urlPath.length := by
    have hpos := List.length_pos_iff.mpr hne
    rw [hpath, List.length_append, List.length_append]
    omega
  simp only [matchFrom, hlength, if_pos]

/-- Behind a separator the loop does what `matchSegments` does with the segments that are left. -/
theorem matchFrom_segments {before segment : Text} {segments : List Text}
    (hsegments : ∀ piece ∈ segment :: segments, piece ≠ [] ∧ '/' ∉ piece)
    (hpath : urlPath = before ++ segment ++ pathOf segments) (matchers : List PathMatcher)
    (parameters : HeadersView) :
    matchFrom engine urlPath before.length none (segment ++ pathOf segments) matchers parameters =
      .ok (matchSegments engine matchers (segment :: segments) parameters) := by
  induction segments generalizing before segment matchers parameters with
  | nil =>
      obtain ⟨hne, hfree⟩ := hsegments segment List.mem_cons_self
      cases matchers with
      | nil => exact matchFrom_nil hne hpath parameters
      | cons matcher matchers =>
          rw [matchFrom_segment hfree hne, pathOf, List.flatMap_nil, matchFrom,
            endPart_segment hne hpath]
          cases hmatch : matcher.match engine segment with
          | none => simp [matchSegments, hmatch]
          | some value =>
              simp only [matchSegments, hmatch, Option.bind_some]
              cases matchers with
              | nil => rfl
              | cons next matchers => rfl
  | cons next segments ih =>
      obtain ⟨hne, hfree⟩ := hsegments segment List.mem_cons_self
      cases matchers with
      | nil => exact matchFrom_nil hne hpath parameters
      | cons matcher matchers =>
          have hcons : pathOf (next :: segments) = '/' :: (next ++ pathOf segments) := rfl
          rw [matchFrom_segment hfree hne, hcons, matchFrom, if_neg (by simp),
            endPart_segment hne hpath]
          cases hmatch : matcher.match engine segment with
          | none => simp [matchSegments, hmatch]
          | some value =>
              simp only [matchSegments, hmatch, Option.bind_some]
              have hnext : urlPath = before ++ segment ++ ['/'] ++ next ++ pathOf segments := by
                rw [hpath, hcons]
                simp
              have hlength : before.length + segment.length + 1 =
                  (before ++ segment ++ ['/']).length := by simp [Nat.add_assoc]
              rw [hlength]
              exact ih (fun piece hpiece => hsegments piece (List.mem_cons_of_mem _ hpiece)) hnext
                matchers _

/-- **The mount path.** On a path of segments `match` hands each segment to its matcher. -/
theorem match_pathOf {segments : List Text} (hne : segments ≠ [])
    (hsegments : ∀ piece ∈ segments, piece ≠ [] ∧ '/' ∉ piece) {matchers : List PathMatcher}
    (hmatchers : matchers ≠ []) :
    MountPath.match engine (pathOf segments) matchers =
      .ok (matchSegments engine matchers segments []) := by
  obtain ⟨segment, segments, rfl⟩ := List.exists_cons_of_ne_nil hne
  obtain ⟨matcher, matchers, rfl⟩ := List.exists_cons_of_ne_nil hmatchers
  have hcons : pathOf (segment :: segments) = '/' :: (segment ++ pathOf segments) := rfl
  have hstart : ∀ path, endPart engine path 0 (some 0) matcher [] = .ok .empty := by
    intro path
    simp [endPart]
  unfold MountPath.match
  have hloop := @matchFrom_segments engine (pathOf (segment :: segments)) ['/'] segment segments
    hsegments rfl (matcher :: matchers) []
  rw [← hloop]
  conv_lhs => rw [hcons, matchFrom, if_neg (by simp), hstart]
  rfl

end MountPath

theorem matchSegments_of_accepts {matchers : List PathMatcher} {segments : List Text}
    (haccepts : Accepts engine matchers segments) (parameters : HeadersView) :
    matchSegments engine matchers segments parameters =
      some ((matchers.zip segments).foldl (fun parameters pair =>
        if pair.1.isLiteral then parameters
        else match pair.1.match engine pair.2 with
          | none => parameters
          | some captured => parameters.assign pair.1.name captured) parameters) := by
  induction haccepts generalizing parameters with
  | nil => rfl
  | cons hmatch hrest ih =>
      obtain ⟨value, hvalue⟩ := Option.isSome_iff_exists.mp hmatch
      rw [matchSegments, hvalue, Option.bind_some, ih, List.zip_cons_cons, List.foldl_cons]
      simp only [hvalue]

theorem accepts_of_matchSegments {matchers : List PathMatcher} {segments : List Text}
    {parameters result : HeadersView}
    (hsegments : matchSegments engine matchers segments parameters = some result) :
    Accepts engine matchers segments := by
  induction matchers generalizing segments parameters with
  | nil =>
      cases segments with
      | nil => exact .nil
      | cons segment segments => cases hsegments
  | cons matcher matchers ih =>
      cases segments with
      | nil => cases hsegments
      | cons segment segments =>
          rw [matchSegments] at hsegments
          obtain ⟨value, hvalue, hrest⟩ := Option.bind_eq_some_iff.mp hsegments
          exact .cons (by rw [hvalue]; rfl) (ih hrest)

/-! ### The trie, segment by segment -/

theorem readFrom_chars {path before chunk rest : Text} (hpath : path = before ++ chunk ++ rest) :
    readFrom engine path before.length (chunk.map RouteStep.char) =
      some (before.length + chunk.length) := by
  rw [readFrom_chars_iff, hpath, List.append_assoc, List.drop_left]
  exact ⟨List.prefix_append _ _, rfl⟩

theorem partAt_segment {path before segment : Text} {segments : List Text} (hfree : '/' ∉ segment)
    (hne : segment ≠ []) (hpath : path = before ++ segment ++ pathOf segments) :
    partAt path before.length = segment := by
  obtain ⟨c, tail, rfl⟩ := List.exists_cons_of_ne_nil hne
  rw [List.mem_cons, not_or] at hfree
  have hdrop : path.drop before.length = c :: (tail ++ pathOf segments) := by
    rw [hpath, List.append_assoc, List.drop_left]
    rfl
  have htail : ∀ d ∈ tail, (d ≠ '/' : Bool) = true := by
    intro d hd
    simp only [ne_eq, decide_not, Bool.not_eq_eq_eq_not, Bool.not_true, decide_eq_false_iff_not]
    rintro rfl
    exact hfree.2 hd
  have hstop : (pathOf segments).takeWhile (· ≠ '/') = [] := by
    cases segments with
    | nil => rfl
    | cons segment segments => exact List.takeWhile_cons_of_neg (by simp)
  unfold partAt
  rw [hdrop]
  dsimp only
  rw [List.takeWhile_append_of_pos htail, hstop, List.append_nil]

/-- A segment that is exact is read up to its end. -/
theorem readFrom_segmentSteps {matcher : PathMatcher} {path before segment : Text}
    {segments : List Text} (hfree : '/' ∉ segment) (hne : segment ≠ [])
    (hpath : path = before ++ '/' :: segment ++ pathOf segments)
    (hexact : if matcher.isLiteral then matcher.chunk = segment
      else matcher.match engine segment = some segment) :
    readFrom engine path before.length (segmentSteps matcher) =
      some (before ++ '/' :: segment).length := by
  cases hliteral : matcher.isLiteral with
  | true =>
      rw [if_pos hliteral] at hexact
      have hchars : segmentSteps matcher = ('/' :: segment).map RouteStep.char := by
        rw [segmentSteps_literal hliteral, hexact]
        rfl
      rw [hchars, readFrom_chars hpath, List.length_append]
  | false =>
      rw [if_neg (by simp [hliteral])] at hexact
      have hslash : path[before.length]? = some '/' := by
        rw [hpath, List.append_assoc, List.getElem?_append_right le_rfl, Nat.sub_self]
        rfl
      have hnext : path = before ++ ['/'] ++ segment ++ pathOf segments := by
        rw [hpath]
        simp
      have hpart := partAt_segment hfree hne hnext
      have hpos := List.length_pos_iff.mpr hne
      rw [List.length_append, List.length_singleton] at hpart
      rw [segmentSteps_wild hliteral, readFrom, if_pos hslash, readFrom, if_pos, hpart, hexact,
        Option.bind_some, readFrom, List.length_append, List.length_cons]
      · congr 1
        omega
      · rw [hpath, List.length_append, List.length_append, List.length_cons]
        omega

theorem reads_of_exact {matchers : List PathMatcher} {segments : List Text}
    (hexact : Exact engine matchers segments)
    (hsegments : ∀ piece ∈ segments, piece ≠ [] ∧ '/' ∉ piece) {path before : Text}
    (hpath : path = before ++ pathOf segments) :
    readFrom engine path before.length (stepsOf matchers) = some path.length := by
  induction hexact generalizing before with
  | nil =>
      rw [hpath, pathOf, List.flatMap_nil, List.append_nil]
      rfl
  | @cons matcher segment matchers segments hfirst hrest ih =>
      obtain ⟨hne, hfree⟩ := hsegments segment List.mem_cons_self
      have hwhole : path = before ++ '/' :: segment ++ pathOf segments := by
        rw [hpath, pathOf, List.flatMap_cons, List.append_assoc]
        rfl
      have hsteps : stepsOf (matcher :: matchers) = segmentSteps matcher ++ stepsOf matchers := rfl
      rw [hsteps, readFrom_append, readFrom_segmentSteps hfree hne hwhole hfirst, Option.bind_some]
      exact ih (fun piece hpiece => hsegments piece (List.mem_cons_of_mem _ hpiece)) hwhole

/-- Where the steps of a route go on, a segment is over. -/
theorem head?_drop_of_reads {matchers : List PathMatcher} {path : Text} {j : Nat}
    (hread : readFrom engine path j (stepsOf matchers) = some path.length) :
    ∀ c ∈ (path.drop j).head?, c = '/' := by
  intro c hc
  rw [List.head?_drop] at hc
  cases matchers with
  | nil =>
      obtain rfl := Option.some.inj hread
      simp at hc
  | cons matcher matchers =>
      have hsteps : stepsOf (matcher :: matchers) =
          .char '/' :: ((segmentSteps matcher).tail ++ stepsOf matchers) := rfl
      rw [hsteps, readFrom] at hread
      split_ifs at hread with hslash
      rw [Option.mem_def.mp hc] at hslash
      exact Option.some.inj hslash

/-- A matcher whose steps end with a segment has read all of this segment. -/
theorem exact_of_segmentSteps {matcher : PathMatcher} {path before segment : Text}
    {segments : List Text} {j : Nat} (hchunk : matcher.isLiteral = true → '/' ∉ matcher.chunk)
    (hfree : '/' ∉ segment) (hne : segment ≠ [])
    (hpath : path = before ++ '/' :: segment ++ pathOf segments)
    (hread : readFrom engine path before.length (segmentSteps matcher) = some j)
    (hover : ∀ c ∈ (path.drop j).head?, c = '/') :
    if matcher.isLiteral then matcher.chunk = segment
    else matcher.match engine segment = some segment := by
  cases hliteral : matcher.isLiteral with
  | true =>
      rw [if_pos rfl]
      have hchars : segmentSteps matcher = ('/' :: matcher.chunk).map RouteStep.char :=
        segmentSteps_literal hliteral
      rw [hchars] at hread
      have htake := readFrom_chars_eq_some hread
      have hbefore : path.take before.length = before := by
        rw [hpath, List.append_assoc, List.take_left]
      have hsplit : matcher.chunk ++ path.drop j = segment ++ pathOf segments := by
        have hboth := List.take_append_drop j path
        rw [htake, hbefore] at hboth
        nth_rewrite 2 [hpath] at hboth
        rw [List.append_assoc, List.append_assoc] at hboth
        exact List.tail_eq_of_cons_eq (List.append_cancel_left hboth)
      exact (append_inj_of_notMem (hchunk hliteral) hfree hover
        (head?_flatMap_separator segments) hsplit).1
  | false =>
      rw [if_neg (by simp)]
      have hnext : path = before ++ ['/'] ++ segment ++ pathOf segments := by
        rw [hpath]
        simp
      have hpart := partAt_segment hfree hne hnext
      rw [List.length_append, List.length_singleton] at hpart
      rw [segmentSteps_wild hliteral, readFrom] at hread
      split_ifs at hread
      rw [readFrom] at hread
      split_ifs at hread
      obtain ⟨captured, hmatch, hj⟩ := Option.bind_eq_some_iff.mp hread
      obtain rfl := Option.some.inj hj
      rw [hpart] at hmatch
      have hpiece := PathMatcher.infix_of_match hmatch
      rcases Nat.lt_or_ge captured.length segment.length with hless | hall
      · have hget : path[before.length + 1 + captured.length]? = segment[captured.length]? := by
          have hinner : captured.length < (partAt path (before.length + 1)).length := by
            rw [hpart]
            exact hless
          rw [getElem?_partAt hinner, hpart]
        rw [List.head?_drop, hget, List.getElem?_eq_getElem hless] at hover
        have hslash := hover _ rfl
        exact absurd (hslash ▸ List.getElem_mem hless) hfree
      · rw [hpiece.eq_of_length (hpiece.length_le.antisymm hall)] at hmatch
        exact hmatch

theorem exact_of_reads {matchers : List PathMatcher} {segments : List Text}
    (hchunks : ∀ matcher ∈ matchers, matcher.isLiteral = true → '/' ∉ matcher.chunk)
    (hsegments : ∀ piece ∈ segments, piece ≠ [] ∧ '/' ∉ piece) {path before : Text}
    (hpath : path = before ++ pathOf segments)
    (hread : readFrom engine path before.length (stepsOf matchers) = some path.length) :
    Exact engine matchers segments := by
  induction matchers generalizing segments before with
  | nil =>
      have hlength := Option.some.inj hread
      cases segments with
      | nil => exact .nil
      | cons segment segments =>
          rw [hpath, pathOf, List.flatMap_cons, List.length_append, List.cons_append,
            List.length_cons] at hlength
          omega
  | cons matcher matchers ih =>
      cases segments with
      | nil =>
          have hend : path.length = before.length := by
            rw [hpath, pathOf, List.flatMap_nil, List.append_nil]
          have hsteps : stepsOf (matcher :: matchers) =
              .char '/' :: ((segmentSteps matcher).tail ++ stepsOf matchers) := rfl
          rw [hsteps, readFrom, if_neg] at hread
          · cases hread
          · rw [List.getElem?_eq_none hend.le]
            simp
      | cons segment segments =>
          obtain ⟨hne, hfree⟩ := hsegments segment List.mem_cons_self
          have hwhole : path = before ++ '/' :: segment ++ pathOf segments := by
            rw [hpath, pathOf, List.flatMap_cons, List.append_assoc]
            rfl
          have hsteps : stepsOf (matcher :: matchers) = segmentSteps matcher ++ stepsOf matchers :=
            rfl
          rw [hsteps, readFrom_append] at hread
          obtain ⟨j, hsegment, hrest⟩ := Option.bind_eq_some_iff.mp hread
          have hover := head?_drop_of_reads hrest
          have hfirst := exact_of_segmentSteps (hchunks matcher List.mem_cons_self) hfree hne hwhole
            hsegment hover
          have hj := readFrom_segmentSteps hfree hne hwhole hfirst
          rw [hsegment, Option.some.injEq] at hj
          rw [hj] at hrest
          exact .cons hfirst (ih (fun matcher hmem => hchunks matcher (List.mem_cons_of_mem _ hmem))
            (fun piece hpiece => hsegments piece (List.mem_cons_of_mem _ hpiece)) hwhole hrest)

/-! ### A trie with one route -/

section Single

variable {E : Type} {matchersOf : E → List PathMatcher} {endpoint : E} {path : Text}

theorem prefix_of_begins {steps : List RouteStep} (hbegins : Begins matchersOf [endpoint] steps) :
    steps <+: stepsOf (matchersOf endpoint) := by
  rcases hbegins with rfl | ⟨other, hmem, hbegin⟩
  · exact List.nil_prefix
  · rw [List.mem_singleton.mp hmem] at hbegin
    exact hbegin

/-- With one route the search records nothing aside. -/
theorem ownLog_of_logged {log : List Recording}
    (hlogged : Logged engine matchersOf [endpoint] path (stepsOf (matchersOf endpoint)) log) :
    OwnLog engine matchersOf [endpoint] path (stepsOf (matchersOf endpoint)) log where
  sorted := hlogged.sorted
  mem_iff := by
    intro recording
    rw [hlogged.mem_iff]
    refine and_congr_right ?_
    intro hmade
    have hbegin := prefix_of_begins hmade.begins
    refine ⟨fun _ => hbegin, fun _ => ?_⟩
    rcases eq_or_precedes_of_prefix hbegin with heq | hprecedes
    · exact Or.inl heq.symm
    · exact Or.inr hprecedes

theorem OwnLog.unique {endpoints : List E} {steps : List RouteStep} {first second : List Recording}
    (hfirst : OwnLog engine matchersOf endpoints path steps first)
    (hsecond : OwnLog engine matchersOf endpoints path steps second) : first = second := by
  have hself : ∀ recording : Recording, ¬ Precedes recording.steps recording.steps :=
    fun recording => not_precedes_self _
  have hirrefl : Std.Irrefl fun first second : Recording => Precedes first.steps second.steps :=
    ⟨hself⟩
  have hantisymm : Std.Antisymm fun first second : Recording =>
      Precedes first.steps second.steps :=
    ⟨fun first second hbefore hafter => absurd (hbefore.trans hafter) (hself first)⟩
  apply hfirst.sorted.eq_of_mem_iff hsecond.sorted
  intro recording
  rw [hfirst.mem_iff, hsecond.mem_iff]

/-- What a route has recorded after exact segments is what the matchers capture from them. -/
theorem recordAll_of_exact {matchers : List PathMatcher} {segments : List Text}
    {log : List Recording} (hmatchers : matchersOf endpoint = matchers)
    (hexact : Exact engine matchers segments)
    (hsegments : ∀ piece ∈ segments, piece ≠ [] ∧ '/' ∉ piece)
    (hreads : Reads engine (pathOf segments) (stepsOf matchers))
    (hown : OwnLog engine matchersOf [endpoint] (pathOf segments) (stepsOf matchers) log) :
    recordAll log = capturedFrom engine matchers segments := by
  subst hmatchers
  have hbegins : Begins matchersOf [endpoint] (stepsOf (matchersOf endpoint)) :=
    Or.inr ⟨endpoint, List.mem_cons_self, List.prefix_rfl⟩
  obtain ⟨values, own, hstretches⟩ := exists_stretches ⟨hbegins, hreads⟩ (Or.inl rfl)
  have hlength : values.length = segments.length := by
    rw [← hstretches.length, hexact.length_eq]
  obtain rfl : values = segments :=
    eq_of_flatMap_separator (fun piece hpiece => (hsegments piece hpiece).2) hlength
      hstretches.path_eq.symm
  rw [hown.unique hstretches.logged, hstretches.recorded]
  intro pair hmem hpair
  have hboth := (List.forall₂_iff_zip.mp hexact).2 hmem
  rw [if_neg (by simp [hpair])] at hboth
  exact hboth

/-- **The trie.** With one route it matches a path of segments exactly if these are exact. -/
theorem match_single {trie : EndpointTrie E} {segments : List Text}
    (hrepresents : Represents matchersOf trie [endpoint])
    (hchunks : ∀ matcher ∈ matchersOf endpoint, matcher.isLiteral = true → '/' ∉ matcher.chunk)
    (hne : segments ≠ []) (hsegments : ∀ piece ∈ segments, piece ≠ [] ∧ '/' ∉ piece) :
    (Exact engine (matchersOf endpoint) segments ∧ trie.match engine (pathOf segments) =
        .ok (some (endpoint, capturedFrom engine (matchersOf endpoint) segments))) ∨
      (¬ Exact engine (matchersOf endpoint) segments ∧
        trie.match engine (pathOf segments) = .ok none) := by
  have hpath : pathOf segments ≠ [] := by
    obtain ⟨segment, segments, rfl⟩ := List.exists_cons_of_ne_nil hne
    rintro ⟨⟩
  have hwhole : Begins matchersOf [endpoint] (stepsOf (matchersOf endpoint)) :=
    Or.inr ⟨endpoint, List.mem_cons_self, List.prefix_rfl⟩
  have hreads_iff : Reads engine (pathOf segments) (stepsOf (matchersOf endpoint)) ↔
      Exact engine (matchersOf endpoint) segments :=
    ⟨@exact_of_reads engine _ _ hchunks hsegments _ [] rfl,
      fun hexact => @reads_of_exact engine _ _ hexact hsegments _ [] rfl⟩
  rcases hrepresents.match_cases engine hpath with ⟨hmatch, hnone⟩ |
    ⟨steps, log, hfirst, hlogged, hmatch⟩
  · exact Or.inr ⟨fun hexact => hnone _ hwhole (hreads_iff.mpr hexact), hmatch⟩
  · by_cases hexact : Exact engine (matchersOf endpoint) segments
    · have hreads := hreads_iff.mpr hexact
      have hsteps : stepsOf (matchersOf endpoint) = steps :=
        Reached.eq_of_complete ⟨hfirst.begins, hfirst.reads⟩ ⟨hwhole, hreads⟩
          (prefix_of_begins hfirst.begins)
      subst hsteps
      have hendpoint : trie.endpoint (nodeOf (stepsOf (matchersOf endpoint))) = some endpoint :=
        (hrepresents.endpoint _ endpoint).mpr ⟨List.mem_cons_self, rfl⟩
      refine Or.inl ⟨hexact, ?_⟩
      rw [hmatch, hendpoint, Option.map_some,
        recordAll_of_exact rfl hexact hsegments hreads (ownLog_of_logged hlogged)]
    · refine Or.inr ⟨hexact, ?_⟩
      cases hfound : trie.endpoint (nodeOf steps) with
      | none => rw [hmatch, hfound, Option.map_none]
      | some found =>
          obtain ⟨hmem, rfl⟩ := hrepresents.endpoint_eq_some hfirst.begins hfound
          rw [List.mem_singleton.mp hmem] at hfirst
          exact absurd (hreads_iff.mp hfirst.reads) hexact

end Single

/-! ### Agreement -/

/-- The mount path accepts what the trie accepts. -/
theorem Exact.accepts {matchers : List PathMatcher} {segments : List Text}
    (hexact : Exact engine matchers segments) : Accepts engine matchers segments := by
  refine List.Forall₂.imp ?_ hexact
  intro matcher segment hfit
  cases hliteral : matcher.isLiteral with
  | true =>
      rw [if_pos hliteral] at hfit
      rw [← hfit, match_literal hliteral]
      rfl
  | false =>
      rw [if_neg (by simp [hliteral])] at hfit
      rw [hfit]
      rfl

theorem match_of_accepts {matchers : List PathMatcher} {segments : List Text}
    (haccepts : Accepts engine matchers segments) (hne : segments ≠ [])
    (hsegments : ∀ piece ∈ segments, piece ≠ [] ∧ '/' ∉ piece) :
    MountPath.match engine (pathOf segments) matchers =
      .ok (some (capturedFrom engine matchers segments)) := by
  have hmatchers : matchers ≠ [] := by
    rintro rfl
    cases haccepts
    exact hne rfl
  rw [MountPath.match_pathOf hne hsegments hmatchers, matchSegments_of_accepts haccepts]
  rfl

theorem match_of_not_accepts {matchers : List PathMatcher} {segments : List Text}
    (hrefused : ¬ Accepts engine matchers segments) (hmatchers : matchers ≠ [])
    (hne : segments ≠ []) (hsegments : ∀ piece ∈ segments, piece ≠ [] ∧ '/' ∉ piece) :
    MountPath.match engine (pathOf segments) matchers = .ok none := by
  rw [MountPath.match_pathOf hne hsegments hmatchers]
  cases hmatch : matchSegments engine matchers segments [] with
  | none => rfl
  | some parameters => exact absurd (accepts_of_matchSegments hmatch) hrefused

theorem exists_trie_matchersAgree_iff {E : Type} {route : E → Text} {endpoint : E}
    {matchers : List PathMatcher} {segments : List Text}
    (hparse : MountPath.parseEndpoint engine (route endpoint) = .ok matchers)
    (hmatchers : matchers ≠ []) (hne : segments ≠ [])
    (hsegments : ∀ piece ∈ segments, piece ≠ [] ∧ '/' ∉ piece) :
    ∃ trie, (attachRoutes route engine [endpoint]).exec empty = (.ok (), trie) ∧
      (MatchersAgree engine trie matchers (pathOf segments) ↔
        (Accepts engine matchers segments → Exact engine matchers segments)) := by
  have hroutable : ∀ other ∈ [endpoint], Routable engine route other := by
    intro other hmem
    rw [List.mem_singleton.mp hmem]
    exact ⟨matchers, hparse, hmatchers⟩
  have hroute : routeMatchers engine route endpoint = matchers := by
    rw [routeMatchers, hparse]
    rfl
  obtain ⟨last, hchain⟩ := MountPath.chain_of_parseEndpoint hparse
  have hchunks := slash_notMem_chunk hchain
  rw [← hroute] at hchunks
  rcases exec_attachRoutes_empty hroutable with ⟨hclash, -⟩ | ⟨trie, hattach, -, hrepresents⟩
  · exact absurd (List.pairwise_singleton _ _) hclash
  refine ⟨trie, hattach, ?_⟩
  have hsingle := @match_single engine E _ endpoint trie segments hrepresents hchunks hne hsegments
  rw [hroute] at hsingle
  by_cases haccepts : Accepts engine matchers segments
  · have hmount := match_of_accepts haccepts hne hsegments
    rcases hsingle with ⟨hexact, hmatch⟩ | ⟨hexact, hmatch⟩
    · exact iff_of_true ⟨_, _, hmatch, hmount, rfl⟩ fun _ => hexact
    · refine iff_of_false ?_ fun hall => hexact (hall haccepts)
      rintro ⟨found, mounted, hfound, hmounted, heq⟩
      obtain rfl := Except.ok.inj (hmatch.symm.trans hfound)
      obtain rfl := Except.ok.inj (hmount.symm.trans hmounted)
      cases heq
  · have hmount := match_of_not_accepts haccepts hmatchers hne hsegments
    refine iff_of_true ?_ fun h => absurd h haccepts
    rcases hsingle with ⟨hexact, -⟩ | ⟨-, hmatch⟩
    · exact absurd hexact.accepts haccepts
    · exact ⟨_, _, hmatch, hmount, rfl⟩

/-- The trie can be built from the one route, and finds what its mount path finds. -/
def RouteAgrees {E : Type} (route : E → Text) (engine : RegexEngine) (endpoint : E)
    (matchers : List PathMatcher) (path : Text) : Prop :=
  ∃ trie, (attachRoutes route engine [endpoint]).exec empty = (.ok (), trie) ∧
    MatchersAgree engine trie matchers path

/-- **The two matchers agree** exactly if there is a matcher and no segments are accepted that are
not exact. -/
theorem matchersAgree_iff {E : Type} {route : E → Text} {endpoint : E}
    {matchers : List PathMatcher} {segments : List Text}
    (hparse : MountPath.parseEndpoint engine (route endpoint) = .ok matchers)
    (hne : segments ≠ []) (hsegments : ∀ piece ∈ segments, piece ≠ [] ∧ '/' ∉ piece) :
    RouteAgrees route engine endpoint matchers (pathOf segments) ↔
      matchers ≠ [] ∧ (Accepts engine matchers segments → Exact engine matchers segments) := by
  by_cases hmatchers : matchers = []
  · subst hmatchers
    refine iff_of_false ?_ fun h => h.1 rfl
    rintro ⟨trie, hattach, -⟩
    rw [exec_attachRoutes_of_nil [] hparse] at hattach
    cases hattach
  · obtain ⟨trie, hattach, hiff⟩ :=
      exists_trie_matchersAgree_iff hparse hmatchers hne hsegments
    constructor
    · rintro ⟨other, hother, hagree⟩
      rw [hattach, Prod.mk.injEq] at hother
      obtain ⟨-, rfl⟩ := hother
      exact ⟨hmatchers, hiff.mp hagree⟩
    · rintro ⟨-, hexact⟩
      exact ⟨trie, hattach, hiff.mpr hexact⟩

theorem matchersAgree_iff_extension :
    RouteAgrees id plainEngine "/:bar.json".toList
        [.parameter ":bar.json".toList "bar".toList ".json".toList]
        (pathOf ["any.json".toList]) ↔
      [PathMatcher.parameter ":bar.json".toList "bar".toList ".json".toList] ≠ [] ∧
        (Accepts plainEngine [.parameter ":bar.json".toList "bar".toList ".json".toList]
            ["any.json".toList] →
          Exact plainEngine [.parameter ":bar.json".toList "bar".toList ".json".toList]
            ["any.json".toList]) := by
  have hparse : MountPath.parseEndpoint plainEngine (id "/:bar.json".toList) =
      .ok [.parameter ":bar.json".toList "bar".toList ".json".toList] := by decide
  refine matchersAgree_iff hparse (by simp) ?_
  decide

/-- The trie moves on by the characters that were captured, and so stops before the extension. -/
theorem not_matchersAgree :
    ¬ ∀ (endpoint : Text) (matchers : List PathMatcher) (segments : List Text)
        (trie : EndpointTrie Text),
      MountPath.parseEndpoint plainEngine endpoint = .ok matchers → matchers ≠ [] →
      segments ≠ [] → (∀ piece ∈ segments, piece ≠ [] ∧ '/' ∉ piece) →
      (attachRoutes id plainEngine [endpoint]).exec empty = (.ok (), trie) →
      MatchersAgree plainEngine trie matchers (pathOf segments) := by
  intro hagree
  have hparse : MountPath.parseEndpoint plainEngine (id "/:bar.json".toList) =
      .ok [.parameter ":bar.json".toList "bar".toList ".json".toList] := by decide
  have hsegments : ∀ piece ∈ ["any.json".toList], piece ≠ [] ∧ '/' ∉ piece := by decide
  obtain ⟨trie, hattach, hiff⟩ :=
    exists_trie_matchersAgree_iff hparse (by simp) (by simp) hsegments
  have hexact := hiff.mp (hagree _ _ _ trie hparse (by simp) (by simp) hsegments hattach)
  cases hexact (.cons (by decide) .nil) with
  | cons hfit _ =>
      revert hfit
      decide

end Liblw.Http
