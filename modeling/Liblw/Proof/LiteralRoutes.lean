import Liblw.Proof.RouteForms
import Liblw.Proof.Routing

/-!
# Literal routes

A trie of literal routes is a map from paths to endpoints. A literal route has one matcher for each
segment, so its steps are the characters of its path, and there is no wildcard that could fit a path
or record a parameter.
-/

namespace Liblw.Http

open Liblw.Lib

/-! ### The matchers of a literal route -/

/-- Where no piece begins like a parameter, the cut is made at every separator. -/
theorem cutFrom_eq_splitOn {piece rest first : Text} {others : List Text}
    (hsplit : rest.splitOn '/' = first :: others) (hfirst : (piece ++ first).head? ≠ some ':')
    (hothers : ∀ part ∈ others, part.head? ≠ some ':') :
    cutFrom piece false rest = (piece ++ first) :: others := by
  induction rest generalizing piece first others with
  | nil =>
      obtain ⟨rfl, rfl⟩ := List.cons.inj hsplit
      exact congrArg (· :: []) (List.append_nil piece).symm
  | cons c rest ih =>
      obtain ⟨part, parts, hrest⟩ := List.exists_cons_of_ne_nil (List.splitOn_ne_nil '/' rest)
      rw [List.splitOn_cons_eq_if_modifyHead, hrest] at hsplit
      rw [cutFrom]
      by_cases hslash : c = '/'
      · subst hslash
        obtain ⟨rfl, rfl⟩ := List.cons.inj hsplit
        have hlater : cutFrom [] false rest = ([] ++ part) :: parts := by
          have hpart : ([] ++ part).head? ≠ some ':' := hothers part List.mem_cons_self
          apply ih hrest hpart
          exact fun part hmem => hothers part (List.mem_cons_of_mem _ hmem)
        rw [if_pos ⟨rfl, rfl⟩, hlater, List.append_nil, List.nil_append]
      · rw [if_neg (by simpa using hslash)] at hsplit
        obtain ⟨rfl, rfl⟩ := List.cons.inj hsplit
        rw [List.append_cons piece c part] at hfirst ⊢
        have hregex : regexStart.isPrefixOf piece = false := by
          rw [Bool.eq_false_iff, ne_eq, List.isPrefixOf_iff_prefix]
          rintro ⟨tail, rfl⟩
          exact hfirst rfl
        have hescapes : escapes piece false c = false := by
          rw [escapes, hregex, Bool.false_and, Bool.false_and]
        rw [if_neg (by simp [hslash]), hescapes]
        exact ih hrest hfirst hothers

/-- The pieces of a literal route are its segments. -/
theorem LiteralRoute.routePieces_eq {route : Text} (hliteral : LiteralRoute route) :
    routePieces route = segmentsOf route := by
  obtain ⟨first, others, hsplit⟩ := List.exists_cons_of_ne_nil (List.splitOn_ne_nil '/' route)
  have hparts : ∀ part ∈ route.splitOn '/', part.head? ≠ some ':' := by
    intro part hmem
    by_cases hnil : part = []
    · simp [hnil]
    · exact hliteral.2 part (List.mem_filter.mpr ⟨hmem, by simpa using hnil⟩)
  rw [hsplit] at hparts
  have hcut : cutFrom [] false route = ([] ++ first) :: others := by
    have hfirst : ([] ++ first).head? ≠ some ':' := hparts first List.mem_cons_self
    apply cutFrom_eq_splitOn hsplit hfirst
    exact fun part hmem => hparts part (List.mem_cons_of_mem _ hmem)
  rw [routePieces, segmentsOf, hcut, hsplit, List.nil_append]

theorem runPieces_of_literal {engine : RegexEngine} {carry : MountPath.Carry} {pieces : List Text}
    (hwhole : ∀ piece ∈ pieces, MountPath.Whole piece)
    (hliteral : ∀ piece ∈ pieces, piece.head? ≠ some ':') :
    MountPath.runPieces engine carry pieces = some (pieces.map .literal) := by
  induction pieces with
  | nil => rfl
  | cons piece rest ih =>
      rw [MountPath.runPieces, MountPath.solo_of_form (hwhole piece List.mem_cons_self)
        (.literal (hliteral piece List.mem_cons_self)), MountPath.makes, Option.bind_some,
        ih (fun piece hmem => hwhole piece (List.mem_cons_of_mem _ hmem))
          fun piece hmem => hliteral piece (List.mem_cons_of_mem _ hmem)]
      rfl

/-- **A literal route** has one literal matcher for each segment. -/
theorem LiteralRoute.parse {route : Text} (hliteral : LiteralRoute route) (engine : RegexEngine) :
    (MountPath.parseEndpoint engine route).toOption = some ((segmentsOf route).map .literal) := by
  rw [MountPath.toOption_parse_eq_runPieces]
  have hwhole : ∀ piece ∈ routePieces route, MountPath.Whole piece := fun piece =>
    MountPath.whole_of_mem
  rw [hliteral.routePieces_eq] at hwhole ⊢
  exact runPieces_of_literal hwhole hliteral.2

/-! ### The trie of literal routes -/

/-- The steps of literal matchers are the characters of the path. -/
theorem stepsOf_literals (segments : List Text) :
    stepsOf (segments.map .literal) =
      (segments.flatMap fun segment => '/' :: segment).map RouteStep.char := by
  induction segments with
  | nil => rfl
  | cons segment rest ih =>
      rw [List.map_cons, stepsOf_cons, ih, segmentSteps_literal rfl, List.flatMap_cons,
        List.map_append]
      rfl

theorem cons_intercalate {segments : List Text} (hne : segments ≠ []) :
    '/' :: ['/'].intercalate segments = segments.flatMap fun segment => '/' :: segment := by
  obtain ⟨first, rest, rfl⟩ := List.exists_cons_of_ne_nil hne
  induction rest generalizing first with
  | nil => simp
  | cons second rest ih =>
      rw [List.intercalate_cons_cons, List.flatMap_cons, ← ih second (List.cons_ne_nil _ _)]
      simp

theorem LiteralRoute.stepsOf_eq {route : Text} (hliteral : LiteralRoute route) :
    stepsOf ((segmentsOf route).map .literal) = (literalPath route).map RouteStep.char := by
  rw [stepsOf_literals, literalPath, cons_intercalate hliteral.1]

theorem reads_chars (engine : RegexEngine) (path text : Text) :
    Reads engine path (text.map .char) ↔ text = path := by
  rw [Reads, readFrom_chars_iff, List.drop_zero, Nat.zero_add]
  constructor
  · rintro ⟨hbegin, hlength⟩
    exact hbegin.eq_of_length hlength.symm
  · rintro rfl
    exact ⟨List.prefix_rfl, rfl⟩

namespace EndpointTrie

variable {E : Type} {engine : RegexEngine} {route : E → Text} {endpoints : List E}
  {trie : EndpointTrie E}

/-- What begins a literal route are characters. -/
theorem chars_of_begins {matchersOf : E → List PathMatcher} {texts : E → Text}
    {steps : List RouteStep}
    (hsteps : ∀ endpoint ∈ endpoints, stepsOf (matchersOf endpoint) = (texts endpoint).map .char)
    (hbegins : Begins matchersOf endpoints steps) : ∃ text : Text, steps = text.map .char := by
  rcases hbegins with rfl | ⟨endpoint, hmem, hbegin⟩
  · exact ⟨[], rfl⟩
  · rw [hsteps endpoint hmem] at hbegin
    obtain ⟨text, -, htext⟩ := List.prefix_map_iff.mp hbegin
    exact ⟨text, htext⟩

/-- **A trie of literal routes is a map.** `match` returns an endpoint, without parameters, exactly
on the path of its route, and nothing on any other path. -/
theorem match_literal_iff
    (hliteral : ∀ endpoint ∈ endpoints, LiteralRoute (route endpoint))
    (hattach : (attachRoutes route engine endpoints).exec empty = (.ok (), trie))
    {path : Text} (hpath : path ≠ []) :
    (∀ endpoint, trie.match engine path = .ok (some (endpoint, [])) ↔
        endpoint ∈ endpoints ∧ path = literalPath (route endpoint)) ∧
      ((∀ endpoint ∈ endpoints, path ≠ literalPath (route endpoint)) →
        trie.match engine path = .ok none) := by
  have hrepresents := represents_of_attachRoutes hattach
  have hsteps : ∀ endpoint ∈ endpoints, stepsOf (routeMatchers engine route endpoint) =
      (literalPath (route endpoint)).map .char := by
    intro endpoint hmem
    rw [routeMatchers, (hliteral endpoint hmem).parse, Option.getD_some,
      (hliteral endpoint hmem).stepsOf_eq]
  rcases hrepresents.match_cases engine hpath with ⟨hmatch, hnone⟩ |
    ⟨steps, log, hfirst, hlogged, hmatch⟩
  · have hother : ∀ endpoint ∈ endpoints, path ≠ literalPath (route endpoint) := by
      intro endpoint hmem hsame
      apply hnone _ (Or.inr ⟨endpoint, hmem, List.prefix_rfl⟩)
      rw [hsteps endpoint hmem, reads_chars, hsame]
    refine ⟨?_, fun _ => hmatch⟩
    intro endpoint
    rw [hmatch]
    apply iff_of_false (by simp)
    rintro ⟨hmem, hsame⟩
    exact hother endpoint hmem hsame
  · obtain ⟨text, rfl⟩ := chars_of_begins hsteps hfirst.begins
    obtain rfl := (reads_chars engine path text).mp hfirst.reads
    have hlog : log = [] := by
      apply List.eq_nil_iff_forall_not_mem.mpr
      intro recording hmem
      obtain ⟨hmade, -⟩ := (hlogged.mem_iff recording).mp hmem
      obtain ⟨other, hother⟩ := chars_of_begins hsteps hmade.begins
      have hwild : RouteStep.wild recording.matcher ∈ other.map .char := by
        rw [← hother]
        exact List.mem_append_right _ (List.mem_singleton_self _)
      simp at hwild
    have hendpoint : ∀ endpoint, trie.endpoint (nodeOf (text.map .char)) = some endpoint ↔
        endpoint ∈ endpoints ∧ text = literalPath (route endpoint) := by
      intro endpoint
      rw [hrepresents.endpoint]
      apply and_congr_right
      intro hmem
      rw [hsteps endpoint hmem]
      constructor
      · exact fun hnode => (nodeOf_chars_injective hnode).symm
      · exact fun hsame => by rw [hsame]
    rw [hlog] at hmatch
    rw [hmatch]
    refine ⟨?_, ?_⟩
    · intro endpoint
      rw [← hendpoint]
      simp [recordAll]
    · intro hother
      cases hfound : trie.endpoint (nodeOf (text.map .char)) with
      | none => rfl
      | some endpoint =>
          obtain ⟨hmem, hsame⟩ := (hendpoint endpoint).mp hfound
          exact absurd hsame (hother endpoint hmem)

/-- One route that is the beginning of the other, and the path of the shorter one. -/
theorem match_literal_iff_foo :
    (∀ endpoint, (trieOf ["/foo/bar", "//foo/"]).match plainEngine "/foo".toList =
          .ok (some (endpoint, [])) ↔
        endpoint ∈ ["/foo/bar", "//foo/"].map String.toList ∧
          "/foo".toList = literalPath endpoint) ∧
      ((∀ endpoint ∈ ["/foo/bar", "//foo/"].map String.toList,
          "/foo".toList ≠ literalPath endpoint) →
        (trieOf ["/foo/bar", "//foo/"]).match plainEngine "/foo".toList = .ok none) := by
  have hliteral : ∀ endpoint ∈ ["/foo/bar", "//foo/"].map String.toList,
      LiteralRoute (id endpoint) := by decide
  have hroutable : ∀ endpoint ∈ ["/foo/bar", "//foo/"].map String.toList,
      Routable plainEngine id endpoint := by
    have hlong : MountPath.parseEndpoint plainEngine "/foo/bar".toList =
        .ok [.literal "foo".toList, .literal "bar".toList] := by decide
    have hshort : MountPath.parseEndpoint plainEngine "//foo/".toList =
        .ok [.literal "foo".toList] := by decide
    intro endpoint hmem
    simp only [List.map_cons, List.map_nil, List.mem_cons, List.not_mem_nil, or_false] at hmem
    rcases hmem with rfl | rfl
    · exact routable_id hlong (by simp)
    · exact routable_id hshort (by simp)
  have hattach := exec_trieOf_pair hroutable (not_conflict_of_parting 4 (by decide) (by decide))
  exact match_literal_iff hliteral hattach (by decide)

end EndpointTrie

end Liblw.Http
