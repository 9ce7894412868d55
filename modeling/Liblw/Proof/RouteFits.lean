import Mathlib.Data.List.TakeWhile
import Liblw.Lib.Separator
import Liblw.Proof.RouteCaptures

/-!
# A match and the segments of its path

The walk gives each matcher of the matched route a stretch of the path. Where every wildcard starts
behind a separator and at no other, the stretches are the segments of the path.
-/

namespace Liblw.Http

open Liblw.Lib EndpointTrie

variable {E : Type} {engine : RegexEngine} {path : Text} {matchersOf : E → List PathMatcher}
  {endpoints : List E} {matchers : List PathMatcher}

/-! ### What a wildcard takes -/

theorem getElem?_partAt {i k : Nat} (hk : k < (partAt path i).length) :
    path[i + k]? = (partAt path i)[k]? := by
  obtain ⟨rest, hrest⟩ := partAt_begins path i
  rw [← List.getElem?_drop, ← hrest, List.getElem?_append_left hk]

theorem getElem?_partAt_ne {i k : Nat} (hk : 0 < k) : (partAt path i)[k]? ≠ some '/' := by
  unfold partAt
  cases path.drop i with
  | nil => simp
  | cons c rest =>
      obtain ⟨k, rfl⟩ := Nat.exists_eq_succ_of_ne_zero (Nat.ne_of_gt hk)
      intro hslash
      rw [List.getElem?_cons_succ] at hslash
      have hmem := List.mem_of_getElem? hslash
      simpa using List.mem_takeWhile_imp hmem

/-- A wildcard before a separator or the end takes its whole part, or nothing of a part that is at a
separator itself. -/
theorem captured_shape {matcher : PathMatcher} {captured : Text} {i : Nat} (hi : i < path.length)
    (hmatch : matcher.match engine (partAt path i) = some captured)
    (hend : i + captured.length = path.length ∨ path[i + captured.length]? = some '/') :
    captured = partAt path i ∨ (captured = [] ∧ path[i]? = some '/') := by
  have hpiece := PathMatcher.infix_of_match hmatch
  have hpart := (partAt_begins path i).length_le
  rw [List.length_drop] at hpart
  by_cases hlength : captured.length = (partAt path i).length
  · exact Or.inl (hpiece.eq_of_length hlength)
  · right
    have hlt : captured.length < (partAt path i).length :=
      lt_of_le_of_ne hpiece.length_le hlength
    have hslash : path[i + captured.length]? = some '/' := by
      rcases hend with hend | hslash
      · omega
      · exact hslash
    cases captured with
    | nil => exact ⟨rfl, hslash⟩
    | cons c captured =>
        rw [getElem?_partAt hlt] at hslash
        exact absurd hslash (getElem?_partAt_ne (by simp))

theorem slash_notMem_partAt {i : Nat} (hslash : path[i]? ≠ some '/') : '/' ∉ partAt path i := by
  intro hmem
  obtain ⟨k, hk, hget⟩ := List.getElem_of_mem hmem
  have hget : (partAt path i)[k]? = some '/' := by rw [List.getElem?_eq_getElem hk, hget]
  rcases Nat.eq_zero_or_pos k with rfl | hpos
  · rw [← getElem?_partAt hk] at hget
    exact hslash hget
  · exact getElem?_partAt_ne hpos hget

theorem slash_mem_partAt {i : Nat} (hslash : path[i]? = some '/') : '/' ∈ partAt path i := by
  unfold partAt
  cases hdrop : path.drop i with
  | nil =>
      rw [List.drop_eq_nil_iff] at hdrop
      rw [List.getElem?_eq_none hdrop] at hslash
      cases hslash
  | cons c rest =>
      have hhead : path[i]? = some c := by
        have hfirst : (path.drop i)[0]? = path[i]? := by rw [List.getElem?_drop, Nat.add_zero]
        rw [hdrop] at hfirst
        simpa using hfirst.symm
      rw [hhead, Option.some.injEq] at hslash
      subst hslash
      exact List.mem_cons_self

theorem take_add_partAt {i : Nat} :
    path.take (i + (partAt path i).length) = path.take i ++ partAt path i := by
  obtain ⟨rest, hrest⟩ := partAt_begins path i
  rw [List.take_add, ← hrest, List.take_left]

theorem readFrom_chars_eq_some {chunk : Text} {i j : Nat}
    (hread : readFrom engine path i (chunk.map RouteStep.char) = some j) :
    path.take j = path.take i ++ chunk := by
  obtain ⟨⟨rest, hrest⟩, rfl⟩ := (readFrom_chars_iff _ _ _ _ _).1 hread
  rw [List.take_add, ← hrest, List.take_left]

/-! ### The stretches of a route -/

/-- The route has read the path up to a position, and each matcher has a value there: its own text,
or what it recorded. -/
structure Stretches (engine : RegexEngine) (matchersOf : E → List PathMatcher) (endpoints : List E)
    (path : Text) (matchers : List PathMatcher) (i : Nat) (values : List Text)
    (own : List Recording) : Prop where
  taken : path.take i = values.flatMap fun value => '/' :: value
  length : matchers.length = values.length
  logged : OwnLog engine matchersOf endpoints path (stepsOf matchers) own
  literal : ∀ pair ∈ matchers.zip values, pair.1.isLiteral = true → pair.2 = pair.1.chunk
  mem_own : ∀ pair ∈ matchers.zip values, pair.1.isLiteral = false →
    ∃ recording ∈ own, recording.matcher = pair.1 ∧ recording.captured = pair.2
  mem_zip : ∀ recording ∈ own, (recording.matcher, recording.captured) ∈ matchers.zip values
  shape : ∀ recording ∈ own, ∃ j, readFrom engine path 0 recording.before = some j ∧
    (recording.captured = partAt path j ∨ (recording.captured = [] ∧ path[j]? = some '/'))
  recorded : (∀ pair ∈ matchers.zip values, pair.1.isLiteral = false →
      pair.1.match engine pair.2 = some pair.2) →
    capturedFrom engine matchers values = recordAll own

theorem stepsOf_concat (matchers : List PathMatcher) (matcher : PathMatcher) :
    stepsOf (matchers ++ [matcher]) = stepsOf matchers ++ segmentSteps matcher := by
  simp [stepsOf]

theorem stretches_nil : Stretches engine matchersOf endpoints path [] 0 [] [] where
  taken := rfl
  length := rfl
  logged := ownLog_nil
  literal := by simp
  mem_own := by simp
  mem_zip := by simp
  shape := by simp
  recorded := fun _ => rfl

theorem capturedFrom_concat {values : List Text} (hlength : matchers.length = values.length)
    (matcher : PathMatcher) (value : Text) :
    capturedFrom engine (matchers ++ [matcher]) (values ++ [value]) =
      if matcher.isLiteral then capturedFrom engine matchers values
      else match matcher.match engine value with
        | none => capturedFrom engine matchers values
        | some captured => (capturedFrom engine matchers values).assign matcher.name captured := by
  unfold capturedFrom
  rw [List.zip_append hlength, List.foldl_append]
  rfl

section Concat

variable {i j : Nat} {values : List Text} {own : List Recording} {matcher : PathMatcher}

theorem Stretches.literalStep
    (hstretches : Stretches engine matchersOf endpoints path matchers i values own)
    (hliteral : matcher.isLiteral = true)
    (hread : readFrom engine path i (segmentSteps matcher) = some j) :
    Stretches engine matchersOf endpoints path (matchers ++ [matcher]) j (values ++ [matcher.chunk])
      own where
  taken := by
    have hchars : segmentSteps matcher = ('/' :: matcher.chunk).map RouteStep.char :=
      segmentSteps_literal hliteral
    rw [hchars] at hread
    rw [readFrom_chars_eq_some hread, hstretches.taken, List.flatMap_append]
    simp
  length := by simp [hstretches.length]
  logged := by
    have hchars : segmentSteps matcher = ('/' :: matcher.chunk).map RouteStep.char :=
      segmentSteps_literal hliteral
    rw [stepsOf_concat, hchars]
    exact hstretches.logged.chars _
  literal := by
    intro pair hmem hpair
    rw [List.zip_append hstretches.length] at hmem
    rcases List.mem_append.mp hmem with hmem | hmem
    · exact hstretches.literal pair hmem hpair
    · rw [List.mem_singleton.mp hmem]
  mem_own := by
    intro pair hmem hpair
    rw [List.zip_append hstretches.length] at hmem
    rcases List.mem_append.mp hmem with hmem | hmem
    · exact hstretches.mem_own pair hmem hpair
    · rw [List.mem_singleton.mp hmem, hliteral] at hpair
      cases hpair
  mem_zip := by
    intro recording hmem
    rw [List.zip_append hstretches.length]
    exact List.mem_append_left _ (hstretches.mem_zip recording hmem)
  shape := hstretches.shape
  recorded := by
    intro haccepts
    rw [capturedFrom_concat hstretches.length, if_pos hliteral]
    refine hstretches.recorded ?_
    intro pair hmem
    refine haccepts pair ?_
    rw [List.zip_append hstretches.length]
    exact List.mem_append_left _ hmem

theorem Stretches.wildStep (recording : Recording)
    (hstretches : Stretches engine matchersOf endpoints path matchers i values own)
    (hslash : path[i]? = some '/')
    (hbefore : recording.before = stepsOf matchers ++ [.char '/'])
    (hliteral : recording.matcher.isLiteral = false)
    (hmade : recording.Made engine matchersOf endpoints path)
    (hread : readFrom engine path 0 recording.before = some (i + 1))
    (hshape : recording.captured = partAt path (i + 1) ∨
      (recording.captured = [] ∧ path[i + 1]? = some '/')) :
    Stretches engine matchersOf endpoints path (matchers ++ [recording.matcher])
      (i + 1 + recording.captured.length) (values ++ [recording.captured])
      (own ++ [recording]) where
  taken := by
    have htake : path.take (i + 1) = path.take i ++ ['/'] := by rw [List.take_add_one, hslash]; rfl
    have hvalue : path.take (i + 1 + recording.captured.length) =
        path.take (i + 1) ++ recording.captured := by
      rcases hshape with hpart | ⟨hnil, -⟩
      · rw [hpart, take_add_partAt]
      · simp [hnil]
    rw [hvalue, htake, hstretches.taken, List.flatMap_append]
    simp
  length := by simp [hstretches.length]
  logged := by
    have hsteps : stepsOf (matchers ++ [recording.matcher]) = recording.steps := by
      rw [stepsOf_concat, segmentSteps_wild hliteral, Recording.steps, hbefore]
      simp
    rw [hsteps]
    refine OwnLog.wild ?_ hmade
    rw [hbefore]
    exact hstretches.logged.char '/'
  literal := by
    intro pair hmem hpair
    rw [List.zip_append hstretches.length] at hmem
    rcases List.mem_append.mp hmem with hmem | hmem
    · exact hstretches.literal pair hmem hpair
    · rw [List.mem_singleton.mp hmem, hliteral] at hpair
      cases hpair
  mem_own := by
    intro pair hmem hpair
    rw [List.zip_append hstretches.length] at hmem
    rcases List.mem_append.mp hmem with hmem | hmem
    · obtain ⟨found, hfound, hpair⟩ := hstretches.mem_own pair hmem hpair
      exact ⟨found, List.mem_append_left _ hfound, hpair⟩
    · rw [List.mem_singleton.mp hmem]
      exact ⟨recording, by simp, rfl, rfl⟩
  mem_zip := by
    intro other hmem
    rw [List.zip_append hstretches.length]
    rcases List.mem_append.mp hmem with hmem | hmem
    · exact List.mem_append_left _ (hstretches.mem_zip other hmem)
    · rw [List.mem_singleton.mp hmem]
      exact List.mem_append_right _ List.mem_cons_self
  shape := by
    intro other hmem
    rcases List.mem_append.mp hmem with hmem | hmem
    · exact hstretches.shape other hmem
    · rw [List.mem_singleton.mp hmem]
      exact ⟨i + 1, hread, hshape⟩
  recorded := by
    intro haccepts
    rw [List.zip_append hstretches.length] at haccepts
    have hlast := haccepts (recording.matcher, recording.captured)
      (List.mem_append_right _ List.mem_cons_self) hliteral
    have hrest := hstretches.recorded fun pair hmem =>
      haccepts pair (List.mem_append_left _ hmem)
    rw [capturedFrom_concat hstretches.length, hrest, recordAll_concat]
    simp [hliteral, hlast]

end Concat

/-- A reading of a whole route that stops at a separator or at the end is made of stretches. -/
theorem exists_stretches {i : Nat}
    (hreached : Reached engine matchersOf endpoints path (stepsOf matchers) i)
    (hend : i = path.length ∨ path[i]? = some '/') :
    ∃ values own, Stretches engine matchersOf endpoints path matchers i values own := by
  induction matchers using List.reverseRecOn generalizing i with
  | nil =>
      obtain rfl := Option.some.inj hreached.reads
      exact ⟨[], [], stretches_nil⟩
  | append_singleton matchers matcher ih =>
      rw [stepsOf_concat] at hreached
      have hread := hreached.reads
      rw [readFrom_append] at hread
      obtain ⟨k, hbefore, hsegment⟩ := Option.bind_eq_some_iff.mp hread
      have hslash : path[k]? = some '/' := by
        by_contra hne
        rw [segmentSteps, readFrom, if_neg hne] at hsegment
        cases hsegment
      obtain ⟨values, own, hstretches⟩ := ih
        ⟨hreached.begins.of_prefix (List.prefix_append _ _), hbefore⟩ (Or.inr hslash)
      cases hliteral : matcher.isLiteral with
      | true => exact ⟨_, _, hstretches.literalStep hliteral hsegment⟩
      | false =>
          rw [segmentSteps_wild hliteral, List.append_cons] at hreached
          obtain ⟨k', captured, hread', hk', hmatch, rfl⟩ :=
            readFrom_snoc_wild_eq_some.mp hreached.reads
          obtain ⟨k'', hbefore', -, rfl⟩ := readFrom_snoc_char_eq_some.mp hread'
          rw [hbefore, Option.some.injEq] at hbefore'
          subst hbefore'
          let recording : Recording := ⟨stepsOf matchers ++ [.char '/'], matcher, captured⟩
          have hmade : recording.Made engine matchersOf endpoints path :=
            ⟨hreached.begins, k + 1, hread', hk', hmatch⟩
          exact ⟨_, _, hstretches.wildStep recording hslash rfl hliteral hmade hread'
            (captured_shape hk' hmatch hend)⟩

/-! ### Segments -/

theorem Stretches.path_eq {values : List Text} {own : List Recording}
    (hstretches : Stretches engine matchersOf endpoints path matchers path.length values own) :
    path = values.flatMap fun value => '/' :: value := by
  rw [← hstretches.taken, List.take_length]

/-- A wildcard on the steps that stands at a separator, if it is placed well, takes nothing. -/
theorem Stretches.placed_shape {values : List Text} {own : List Recording} {i : Nat}
    {recording : Recording}
    (hstretches : Stretches engine matchersOf endpoints path matchers i values own)
    (hplaced : Placed engine path (stepsOf matchers)) (hmem : recording ∈ own) :
    '/' ∉ recording.captured ∧
      recording.matcher.match engine recording.captured = some recording.captured := by
  obtain ⟨hmade, after, hsteps⟩ := (hstretches.logged.mem_iff recording).mp hmem
  obtain ⟨j, hread, hj, hmatch⟩ := hmade.fits
  have hsteps : stepsOf matchers = recording.before ++ .wild recording.matcher :: after := by
    rw [← hsteps, Recording.steps]
    simp
  by_cases hslash : path[j]? = some '/'
  · obtain ⟨hnil, hempty⟩ := hplaced _ _ _ j hsteps hread hslash
    rw [hnil, Option.some.injEq] at hmatch
    obtain ⟨captured, hcaptured⟩ := Option.isSome_iff_exists.mp hempty
    obtain rfl := List.infix_nil.mp (PathMatcher.infix_of_match hcaptured)
    rw [← hmatch]
    exact ⟨by simp, hcaptured⟩
  · obtain ⟨j', hread', hshape⟩ := hstretches.shape recording hmem
    rw [hread, Option.some.injEq] at hread'
    subst hread'
    rcases hshape with hpart | ⟨-, hslash'⟩
    · rw [← hpart] at hmatch
      refine ⟨?_, hmatch⟩
      rw [hpart]
      exact slash_notMem_partAt hslash
    · exact absurd hslash' hslash

theorem Stretches.accepts {values : List Text} {own : List Recording} {i : Nat}
    (hstretches : Stretches engine matchersOf endpoints path matchers i values own)
    (hplaced : Placed engine path (stepsOf matchers)) :
    ∀ pair ∈ matchers.zip values, pair.1.isLiteral = false →
      pair.1.match engine pair.2 = some pair.2 := by
  intro pair hmem hpair
  obtain ⟨recording, hrecording, hmatcher, hcaptured⟩ := hstretches.mem_own pair hmem hpair
  rw [← hmatcher, ← hcaptured]
  exact (hstretches.placed_shape hplaced hrecording).2

theorem match_literal {matcher : PathMatcher} (hliteral : matcher.isLiteral = true) :
    matcher.match engine matcher.chunk = some matcher.chunk := by
  cases matcher with
  | literal chunk => simp [PathMatcher.match, PathMatcher.chunk, sameName_self]
  | _ => cases hliteral

/-- **Segments.** The stretches of a route that is placed well are the segments of the path. -/
theorem Stretches.segmentsFit {values : List Text} {own : List Recording}
    (hstretches : Stretches engine matchersOf endpoints path matchers path.length values own)
    (hfree : ∀ matcher ∈ matchers, matcher.isLiteral = true → '/' ∉ matcher.chunk)
    (hplaced : Placed engine path (stepsOf matchers)) :
    SegmentsFit engine matchers path values where
  path := hstretches.path_eq
  free := by
    intro value hvalue
    rw [← List.map_snd_zip (Nat.le_of_eq hstretches.length.symm)] at hvalue
    obtain ⟨⟨matcher, value⟩, hpair, rfl⟩ := List.mem_map.mp hvalue
    cases hliteral : matcher.isLiteral with
    | true =>
        have hchunk : value = matcher.chunk := hstretches.literal _ hpair hliteral
        rw [hchunk]
        exact hfree matcher (List.of_mem_zip hpair).1 hliteral
    | false =>
        obtain ⟨recording, hrecording, -, hcaptured⟩ := hstretches.mem_own _ hpair hliteral
        have hcaptured : recording.captured = value := hcaptured
        rw [← hcaptured]
        exact (hstretches.placed_shape hplaced hrecording).1
  accepts := by
    rw [List.forall₂_iff_zip]
    refine ⟨hstretches.length, ?_⟩
    intro matcher value hmem
    cases hliteral : matcher.isLiteral with
    | true =>
        have hvalue : value = matcher.chunk := hstretches.literal _ hmem hliteral
        rw [hvalue, match_literal hliteral]
        rfl
    | false =>
        rw [hstretches.accepts hplaced _ hmem hliteral]
        rfl

theorem placed_of_segmentsFit {values segments : List Text} {own : List Recording}
    (hstretches : Stretches engine matchersOf endpoints path matchers path.length values own)
    (hbegins : Begins matchersOf endpoints (stepsOf matchers))
    (hreads : Reads engine path (stepsOf matchers))
    (hfit : SegmentsFit engine matchers path segments) :
    values = segments ∧ Placed engine path (stepsOf matchers) := by
  have hlength : values.length = segments.length := by
    rw [← hstretches.length, hfit.accepts.length_eq]
  have hpath := hstretches.path_eq.symm.trans hfit.path
  obtain rfl : values = segments := eq_of_flatMap_separator hfit.free hlength hpath
  refine ⟨rfl, ?_⟩
  intro before matcher after i hsteps hread hslash
  have hbegin : before ++ [.wild matcher] <+: stepsOf matchers := ⟨after, by rw [hsteps]; simp⟩
  have hreached : Reached engine matchersOf endpoints path (stepsOf matchers) path.length :=
    ⟨hbegins, hreads⟩
  obtain ⟨j, hwild⟩ := hreached.of_prefix hbegin
  obtain ⟨i', captured, hread', hi, hmatch, -⟩ := readFrom_snoc_wild_eq_some.mp hwild.reads
  rw [hread, Option.some.injEq] at hread'
  subst hread'
  let recording : Recording := ⟨before, matcher, captured⟩
  have hmade : recording.Made engine matchersOf endpoints path :=
    ⟨hwild.begins, i, hread, hi, hmatch⟩
  have hown : recording ∈ own := (hstretches.logged.mem_iff recording).mpr ⟨hmade, hbegin⟩
  have hpair : (matcher, captured) ∈ matchers.zip values := hstretches.mem_zip recording hown
  obtain ⟨i', hread', hshape⟩ := hstretches.shape recording hown
  have hread' : readFrom engine path 0 before = some i' := hread'
  rw [hread, Option.some.injEq] at hread'
  subst hread'
  rcases hshape with hpart | ⟨hnil, -⟩
  · have hpart : captured = partAt path i := hpart
    have hslash' := slash_mem_partAt hslash
    rw [← hpart] at hslash'
    exact absurd hslash' (hfit.free _ (List.of_mem_zip hpair).2)
  · obtain rfl : captured = [] := hnil
    exact ⟨hmatch, (List.forall₂_iff_zip.mp hfit.accepts).2 hpair⟩

theorem slash_notMem_chunk {carry last : MountPath.Carry}
    (hchain : MountPath.Chain engine carry matchers last) :
    ∀ matcher ∈ matchers, matcher.isLiteral = true → '/' ∉ matcher.chunk := by
  induction hchain with
  | nil => simp
  | cons hsegment hrest ih =>
      intro matcher hmem hliteral
      rcases List.mem_cons.mp hmem with rfl | hmem
      · exact (hsegment.literal hliteral).2
      · exact ih matcher hmem hliteral

theorem FirstReading.unique {steps other : List RouteStep}
    (hfirst : FirstReading engine matchersOf endpoints path steps)
    (hother : FirstReading engine matchersOf endpoints path other) : steps = other := by
  rcases hfirst.first other hother.begins hother.reads with heq | hbefore
  · exact heq.symm
  · rcases hother.first steps hfirst.begins hfirst.reads with heq | hafter
    · exact heq
    · exact absurd (hbefore.trans hafter) (not_precedes_self _)

namespace EndpointTrie

/-- **A match is faithful to its route** exactly if the wildcards of the first reading are placed
well and what the search tried before does not disturb what they record. -/
theorem faithful_match_iff {route : E → Text} {trie : EndpointTrie E} {endpoint : E}
    {parameters : HeadersView}
    (hattach : (attachRoutes route engine endpoints).exec empty = (.ok (), trie))
    (hmatch : trie.match engine path = .ok (some (endpoint, parameters))) :
    Faithful engine (routeMatchers engine route endpoint) path parameters ↔
      ∃ steps, FirstReading engine (routeMatchers engine route) endpoints path steps ∧
        Placed engine path steps ∧
        Undisturbed engine (routeMatchers engine route) endpoints path steps := by
  have hroutable := routable_of_attachRoutes hattach
  have hrepresents := represents_of_attachRoutes hattach
  obtain ⟨hmem, hfirst, log, rfl, hlogged⟩ := hrepresents.reads_of_match hmatch
  obtain ⟨last, hchain⟩ := MountPath.chain_of_parseEndpoint
    (parse_of_routable (hroutable endpoint hmem)).1
  obtain ⟨values, own, hstretches⟩ := exists_stretches ⟨hfirst.begins, hfirst.reads⟩ (Or.inl rfl)
  have hcaptures : Placed engine path (stepsOf (routeMatchers engine route endpoint)) →
      capturedFrom engine (routeMatchers engine route endpoint) values = recordAll own := by
    intro hplaced
    exact hstretches.recorded (hstretches.accepts hplaced)
  constructor
  · rintro ⟨segments, hfit, hfind⟩
    obtain ⟨rfl, hplaced⟩ := placed_of_segmentsFit hstretches hfirst.begins hfirst.reads hfit
    rw [hcaptures hplaced] at hfind
    exact ⟨_, hfirst, hplaced, (find_eq_iff_undisturbed hlogged hstretches.logged).mp hfind⟩
  · rintro ⟨steps, hsteps, hplaced, hundisturbed⟩
    obtain rfl := hfirst.unique hsteps
    refine ⟨values, hstretches.segmentsFit (slash_notMem_chunk hchain) hplaced, ?_⟩
    rw [hcaptures hplaced]
    exact (find_eq_iff_undisturbed hlogged hstretches.logged).mpr hundisturbed

theorem faithful_match_iff_parameter :
    Faithful plainEngine (routeMatchers plainEngine id "/:a".toList) "/x".toList
        [("a".toList, "x".toList)] ↔
      ∃ steps, FirstReading plainEngine (routeMatchers plainEngine id)
          (["/:a", "/foo/bar"].map String.toList) "/x".toList steps ∧
        Placed plainEngine "/x".toList steps ∧
        Undisturbed plainEngine (routeMatchers plainEngine id)
          (["/:a", "/foo/bar"].map String.toList) "/x".toList steps := by
  exact faithful_match_iff exec_parameter_and_two match_parameter_and_two.1

theorem routable_beside :
    ∀ endpoint ∈ ["/foo/:param2/baz", "/:param1/:param3/other"].map String.toList,
      Routable plainEngine id endpoint := by
  have hfoo : MountPath.parseEndpoint plainEngine "/foo/:param2/baz".toList =
      .ok [.literal "foo".toList, .parameter ":param2".toList "param2".toList [],
        .literal "baz".toList] := by decide
  have hother : MountPath.parseEndpoint plainEngine "/:param1/:param3/other".toList =
      .ok [.parameter ":param1".toList "param1".toList [],
        .parameter ":param3".toList "param3".toList [], .literal "other".toList] := by decide
  intro endpoint hmem
  simp only [List.map_cons, List.map_nil, List.mem_cons, List.not_mem_nil, or_false] at hmem
  rcases hmem with rfl | rfl
  · exact routable_id hfoo (by simp)
  · exact routable_id hother (by simp)

/-- The routes of the comment in `walk_path`: `param2` is left over from the first of them. -/
theorem not_faithful_match :
    ¬ ∀ (endpoints : List Text) (trie : EndpointTrie Text) (path endpoint : Text)
        (parameters : HeadersView),
      (attachRoutes id plainEngine endpoints).exec empty = (.ok (), trie) →
      trie.match plainEngine path = .ok (some (endpoint, parameters)) →
      Faithful plainEngine (routeMatchers plainEngine id endpoint) path parameters := by
  intro hfaithful
  have hmatch : (trieOf ["/foo/:param2/baz", "/:param1/:param3/other"]).match plainEngine
      "/foo/something/other".toList = .ok (some ("/:param1/:param3/other".toList,
        [("param2".toList, "something".toList), ("param1".toList, "foo".toList),
          ("param3".toList, "something".toList)])) := by decide +kernel
  obtain ⟨segments, hfit, hfind⟩ := hfaithful _ _ _ _ _
    (exec_trieOf_pair routable_beside (not_conflict_of_parting 1 (by decide) (by decide))) hmatch
  obtain rfl : ["foo".toList, "something".toList, "other".toList] = segments := by
    refine flatMap_separator_inj ?_ hfit.free (Eq.trans ?_ hfit.path)
    · decide
    · decide
  have hleft := hfind "param2".toList
  revert hleft
  decide

end EndpointTrie

end Liblw.Http
