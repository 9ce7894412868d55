import Liblw.Proof.MountParts
import Liblw.Proof.RouteCaptures
import Liblw.Proof.Routing

/-!
# When a mount path matches the segments

A matcher captures what it should, but for a sign that stands alone. The loop reads a path by its
segments exactly if the path is plain.
-/

namespace Liblw.Http

open Liblw.Lib
open EndpointTrie (plainEngine)

variable {engine : RegexEngine} {matchers : List PathMatcher}

/-! ### What a matcher captures -/

theorem length_of_sameName {first second : Text} (hname : sameName first second = true) :
    first.length = second.length := by
  have hlength := congrArg List.length (eq_of_beq hname)
  simpa using hlength

theorem sameName_nil_iff (text : Text) : sameName [] text = true ↔ text = [] := by
  constructor
  · exact fun hname => List.length_eq_zero_iff.mp (length_of_sameName hname).symm
  · rintro rfl
    rfl

/-- A parameter of a segment captures what remains before the extension. -/
theorem remains_iff {extension segment captured : Text} (hne : segment ≠ []) :
    Remains extension segment captured ↔
      PathMatcher.matchParameter extension segment = some captured := by
  by_cases hextension : extension = []
  · subst hextension
    rw [PathMatcher.matchParameter, if_pos rfl, Option.some.injEq, Remains]
    constructor
    · rintro ⟨-, ending, rfl, hname⟩
      rw [(sameName_nil_iff ending).mp hname, List.append_nil]
    · rintro rfl
      exact ⟨hne, [], (List.append_nil segment).symm, rfl⟩
  · rw [PathMatcher.matchParameter, if_neg hextension, Remains]
    constructor
    · rintro ⟨hcaptured, ending, rfl, hname⟩
      have hlength := length_of_sameName hname
      have hpos := List.length_pos_iff.mpr hcaptured
      have htake : (captured ++ ending).take ((captured ++ ending).length - extension.length) =
          captured := by
        rw [List.length_append, hlength, Nat.add_sub_cancel, List.take_left]
      rw [if_neg (by rw [List.length_append]; omega)]
      simp only [htake, List.drop_left, hname, if_true]
    · intro hmatch
      split_ifs at hmatch with hshort
      dsimp only at hmatch
      split_ifs at hmatch with hname
      obtain rfl := Option.some.inj hmatch
      have hlength : (segment.take (segment.length - extension.length)).length =
          segment.length - extension.length := by
        rw [List.length_take]
        omega
      refine ⟨?_, _, (List.take_append_drop _ segment).symm, ?_⟩
      · rw [← List.length_pos_iff, hlength]
        omega
      · rwa [hlength] at hname

theorem Validator.accepts_of_admits {validator : Validator} {text : Text}
    (hadmits : validator.Admits text) : validator.accepts text = true := by
  have hdigits : ∀ {digits}, IsDigits digits → digits.all isDigit = true := by
    intro digits hdigits
    exact List.all_eq_true.mpr hdigits.2
  cases validator with
  | uint =>
      rw [Validator.accepts]
      · exact hdigits hadmits
      · simp
  | int =>
      rcases hadmits with htext | ⟨digits, rfl, htext⟩
      · obtain ⟨c, rest, rfl⟩ := List.exists_cons_of_ne_nil htext.1
        rw [Validator.accepts]
        · exact hdigits htext
        · rintro digits - hminus
          obtain ⟨rfl, -⟩ := List.cons.inj hminus
          exact absurd (htext.2 '-' List.mem_cons_self) (by decide)
      · exact hdigits htext

theorem Validator.admits_of_accepts {validator : Validator} {text : Text} (hne : text ≠ [])
    (hsign : validator = .int → text ≠ ['-']) (haccepts : validator.accepts text = true) :
    validator.Admits text := by
  cases validator with
  | uint =>
      rw [Validator.accepts] at haccepts
      · exact ⟨hne, List.all_eq_true.mp haccepts⟩
      · simp
  | int =>
      obtain ⟨c, rest, rfl⟩ := List.exists_cons_of_ne_nil hne
      by_cases hminus : c = '-'
      · subst hminus
        refine Or.inr ⟨rest, rfl, ?_, List.all_eq_true.mp haccepts⟩
        rintro rfl
        exact hsign rfl rfl
      · rw [Validator.accepts] at haccepts
        · exact Or.inl ⟨hne, List.all_eq_true.mp haccepts⟩
        · rintro digits - hsame
          exact hminus (List.cons.inj hsame).1

theorem match_of_captures {matcher : PathMatcher} {segment captured : Text}
    (hcaptures : Captures matcher segment captured) :
    matcher.match engine segment = some captured := by
  have hremains : ∀ {extension}, Remains extension segment captured →
      PathMatcher.matchParameter extension segment = some captured := by
    intro extension hremains
    have hne : segment ≠ [] := by
      obtain ⟨hcaptured, ending, rfl, -⟩ := hremains
      simp [hcaptured]
    exact (remains_iff hne).mp hremains
  cases matcher with
  | literal chunk =>
      obtain ⟨hname, rfl⟩ := hcaptures
      exact if_pos hname
  | parameter chunk name extension => exact hremains hcaptures
  | validated chunk name extension validator =>
      obtain ⟨hcaptures, hadmits⟩ := hcaptures
      rw [PathMatcher.match, hremains hcaptures, Option.filter_some,
        if_pos (Validator.accepts_of_admits hadmits)]
  | regex index chunk => exact hcaptures.elim

theorem not_isNumeral_sign : ¬ IsNumeral ['-'] := by
  rintro (hdigits | ⟨digits, hsame, hdigits⟩)
  · exact absurd (hdigits.2 '-' List.mem_cons_self) (by decide)
  · exact hdigits.1 (List.cons.inj hsame).2.symm

theorem captures_of_match {matcher : PathMatcher} {segment captured : Text} (hne : segment ≠ [])
    (hregex : ∀ index chunk, matcher ≠ .regex index chunk)
    (hsign : ∀ chunk name extension, matcher = .validated chunk name extension .int →
      ¬ Remains extension segment ['-'])
    (hmatch : matcher.match engine segment = some captured) :
    Captures matcher segment captured := by
  cases matcher with
  | literal chunk =>
      rw [PathMatcher.match] at hmatch
      split_ifs at hmatch with hname
      exact ⟨hname, (Option.some.inj hmatch).symm⟩
  | parameter chunk name extension => exact (remains_iff hne).mpr hmatch
  | validated chunk name extension validator =>
      obtain ⟨hparameter, haccepts⟩ := Option.filter_eq_some_iff.mp hmatch
      have hremains := (remains_iff hne).mpr hparameter
      refine ⟨hremains, Validator.admits_of_accepts hremains.1 ?_ haccepts⟩
      rintro rfl rfl
      exact hsign chunk name extension rfl hremains
  | regex index chunk => exact absurd rfl (hregex index chunk)

/-! ### Routes without regular expressions -/

namespace MountPath

theorem not_regex_of_solo {carry : Carry} {piece : Text} {made : List PathMatcher × Carry}
    (hwhole : Whole piece) (hregex : ¬ regexStart <+: piece)
    (hsolo : solo engine carry piece = some made) :
    ∀ matcher ∈ made.1, ∀ index chunk, matcher ≠ .regex index chunk := by
  obtain ⟨form, hform⟩ := form_of_solo hwhole hsolo
  rw [solo_of_form hwhole hform] at hsolo
  cases hform with
  | literal hhead =>
      obtain rfl := Option.some.inj hsolo
      simp
  | @parameter name extension hname hextension =>
      obtain ⟨matcher, hmatcher, rfl⟩ := Option.map_eq_some_iff.mp hsolo
      rw [parameterMatcher] at hmatcher
      split_ifs at hmatcher with htype
      · obtain rfl := Option.some.inj hmatcher
        simp
      · cases hvalidator : validatorFor carry.type with
        | error fault =>
            rw [hvalidator] at hmatcher
            cases hmatcher
        | ok validator =>
            rw [hvalidator] at hmatcher
            obtain rfl := Option.some.inj hmatcher
            simp
  | @typed validator name extension hname hextension =>
      obtain rfl := Option.some.inj hsolo
      simp
  | @regex pattern hcompiles => exact absurd (List.prefix_append _ _) hregex

theorem not_regex_of_runPieces {carry : Carry} {pieces : List Text}
    (hwhole : ∀ piece ∈ pieces, Whole piece) (hregex : ∀ piece ∈ pieces, ¬ regexStart <+: piece)
    (hrun : runPieces engine carry pieces = some matchers) :
    ∀ matcher ∈ matchers, ∀ index chunk, matcher ≠ .regex index chunk := by
  induction pieces generalizing carry matchers with
  | nil =>
      obtain rfl := Option.some.inj hrun
      simp
  | cons piece rest ih =>
      rw [runPieces] at hrun
      obtain ⟨made, hsolo, hsome⟩ := Option.bind_eq_some_iff.mp hrun
      obtain ⟨later, hlater, rfl⟩ := Option.map_eq_some_iff.mp hsome
      intro matcher hmem
      rcases List.mem_append.mp hmem with hmem | hmem
      · exact not_regex_of_solo (hwhole piece List.mem_cons_self) (hregex piece List.mem_cons_self)
          hsolo matcher hmem
      · exact ih (fun piece hmem => hwhole piece (List.mem_cons_of_mem _ hmem))
          (fun piece hmem => hregex piece (List.mem_cons_of_mem _ hmem)) hlater matcher hmem

/-- No piece that is a regular expression, no matcher that is one. -/
theorem not_regex_of_parse {endpoint : Text} (hparse : parseEndpoint engine endpoint = .ok matchers)
    (hregex : ∀ piece ∈ routePieces endpoint, ¬ regexStart <+: piece) :
    ∀ matcher ∈ matchers, ∀ index chunk, matcher ≠ .regex index chunk := by
  have hrun : runPieces engine ⟨[], 0⟩ (routePieces endpoint) = some matchers := by
    rw [← toOption_parse_eq_runPieces, hparse]
    rfl
  exact not_regex_of_runPieces (fun piece => whole_of_mem) hregex hrun

/-! ### The parameters -/

/-- The parameters of matchers with their segments. -/
def captureAll (engine : RegexEngine) (pairs : List (PathMatcher × Text)) : HeadersView :=
  pairs.foldl (fun parameters pair =>
    if pair.1.isLiteral then parameters
    else match pair.1.match engine pair.2 with
      | none => parameters
      | some captured => parameters.assign pair.1.name captured) []

theorem captureAll_concat (pairs : List (PathMatcher × Text)) (last : PathMatcher × Text)
    {captured : Text} (hmatch : last.1.match engine last.2 = some captured) :
    captureAll engine (pairs ++ [last]) =
      if last.1.isLiteral then captureAll engine pairs
      else (captureAll engine pairs).assign last.1.name captured := by
  rw [captureAll, List.foldl_append, List.foldl_cons, List.foldl_nil, hmatch]
  rfl

/-- Parameters that capture the same under one name are all found. -/
theorem find_captureAll {pairs : List (PathMatcher × Text)} {name value : Text}
    (haccepts : ∀ pair ∈ pairs, (pair.1.match engine pair.2).isSome)
    (hdistinct : ∀ first ∈ pairs, ∀ second ∈ pairs, first.1.isLiteral = false →
      second.1.isLiteral = false → sameName first.1.name second.1.name = true →
        first.1.match engine first.2 = second.1.match engine second.2) :
    (captureAll engine pairs).find name = some value ↔
      ∃ pair ∈ pairs, pair.1.isLiteral = false ∧ sameName pair.1.name name = true ∧
        pair.1.match engine pair.2 = some value := by
  induction pairs using List.reverseRecOn with
  | nil => simp [captureAll, HeadersView.find]
  | append_singleton pairs last ih =>
      have hbefore := ih (fun pair hmem => haccepts pair (List.mem_append_left _ hmem))
        fun first hfirst second hsecond => hdistinct first (List.mem_append_left _ hfirst) second
          (List.mem_append_left _ hsecond)
      obtain ⟨captured, hcaptured⟩ := Option.isSome_iff_exists.mp
        (haccepts last (List.mem_append_right _ (List.mem_singleton_self last)))
      rw [captureAll_concat pairs last hcaptured]
      by_cases hliteral : last.1.isLiteral = true
      · rw [if_pos hliteral, hbefore]
        simp [or_and_right, exists_or, hliteral]
      · rw [if_neg hliteral, HeadersView.find_assign]
        rw [Bool.not_eq_true] at hliteral
        by_cases hname : sameName last.1.name name = true
        · rw [if_pos hname]
          constructor
          · intro hvalue
            exact ⟨last, by simp, hliteral, hname, hcaptured.trans hvalue⟩
          · rintro ⟨pair, hmem, hpair, hsame, hmatch⟩
            have hboth := hdistinct pair hmem last (by simp) hpair hliteral
              (sameName_trans hsame (sameName_symm hname))
            rw [← hcaptured, ← hboth, hmatch]
        · rw [if_neg hname, hbefore]
          simp [or_and_right, exists_or, hname]

/-- `match` has a value exactly if the parts are the segments and the matchers accept them. -/
theorem match_value_iff {urlPath : Text} {parameters : HeadersView} :
    MountPath.match engine urlPath matchers = .ok (some parameters) ↔
      Tight matchers urlPath ∧ Accepts engine matchers (segmentsOf urlPath) ∧
        parameters = captureAll engine (matchers.zip (segmentsOf urlPath)) := by
  rw [match_eq_some_iff]
  apply and_congr_right
  intro htight
  constructor
  · intro hmatch
    have haccepts := accepts_of_matchSegments hmatch
    rw [matchSegments_of_accepts haccepts] at hmatch
    exact ⟨haccepts, (Option.some.inj hmatch).symm⟩
  · rintro ⟨haccepts, rfl⟩
    exact matchSegments_of_accepts haccepts []

theorem segment_ne_nil {urlPath : Text} {pair : PathMatcher × Text}
    (hmem : pair ∈ matchers.zip (segmentsOf urlPath)) : pair.2 ≠ [] := by
  simpa using (List.mem_filter.mp (List.of_mem_zip hmem).2).2

theorem accepts_of_fits {segments : List Text} (hfits : List.Forall₂ Fits matchers segments) :
    Accepts engine matchers segments := by
  apply hfits.imp
  rintro matcher segment ⟨captured, hcaptures⟩
  rw [match_of_captures hcaptures]
  rfl

/-! ### Plain paths -/

theorem plain_of_matchesSegments {urlPath : Text}
    (hmatches : MatchesSegments engine matchers urlPath) : Plain engine matchers urlPath := by
  obtain ⟨found, hmatch, hsome, hholds⟩ := hmatches
  have htaken : Tight matchers urlPath → Accepts engine matchers (segmentsOf urlPath) →
      ∃ parameters, found = some parameters := by
    intro htight haccepts
    have hfound := match_value_iff.mpr ⟨htight, haccepts, rfl⟩
    rw [hmatch] at hfound
    exact ⟨_, Except.ok.inj hfound⟩
  refine ⟨?_, ?_, ?_, ?_⟩
  · intro before after hparts hlength haccepts
    obtain ⟨fault, herror⟩ :=
      (match_error_iff engine urlPath matchers).mpr ⟨before, after, hparts, hlength, haccepts⟩
    rw [hmatch] at herror
    cases herror
  · intro hall
    obtain ⟨parameters, rfl⟩ := Option.isSome_iff_exists.mp (hsome.mpr hall)
    exact (match_value_iff.mp hmatch).1
  · intro htight haccepts chunk name extension segment hmem hremains
    obtain ⟨parameters, rfl⟩ := htaken htight haccepts
    obtain ⟨captured, hcaptured, hnumeral⟩ := List.forall₂_zip (hsome.mp rfl) hmem
    have hsegment : segment ≠ [] := segment_ne_nil hmem
    have hsame := (remains_iff hsegment).mp hremains
    rw [(remains_iff hsegment).mp hcaptured] at hsame
    rw [Option.some.inj hsame] at hnumeral
    exact not_isNumeral_sign hnumeral
  · intro htight haccepts first hfirst second hsecond hliteral hliteral' hname captured captured'
      hcaptured hcaptured'
    obtain ⟨parameters, rfl⟩ := htaken htight haccepts
    have hfind := (hholds parameters rfl second.1.name captured).mpr
      ⟨first, hfirst, hliteral, hname, hcaptured⟩
    have hfind' := (hholds parameters rfl second.1.name captured').mpr
      ⟨second, hsecond, hliteral', sameName_self _, hcaptured'⟩
    exact Option.some.inj (hfind.symm.trans hfind')

/-- On a plain path that is taken the matchers capture what they should. -/
theorem Plain.captures_iff {urlPath : Text} (hplain : Plain engine matchers urlPath)
    (hkind : ∀ matcher ∈ matchers, ∀ index chunk, matcher ≠ .regex index chunk)
    (htight : Tight matchers urlPath) (haccepts : Accepts engine matchers (segmentsOf urlPath))
    {pair : PathMatcher × Text} (hmem : pair ∈ matchers.zip (segmentsOf urlPath))
    (captured : Text) :
    pair.1.match engine pair.2 = some captured ↔ Captures pair.1 pair.2 captured := by
  constructor
  · apply captures_of_match (segment_ne_nil hmem) (hkind _ (List.of_mem_zip hmem).1)
    intro chunk name extension hmatcher
    apply hplain.signed htight haccepts chunk name extension
    rwa [← hmatcher]
  · exact match_of_captures

theorem matchesSegments_of_plain {urlPath : Text} (hplain : Plain engine matchers urlPath)
    (hkind : ∀ matcher ∈ matchers, ∀ index chunk, matcher ≠ .regex index chunk) :
    MatchesSegments engine matchers urlPath := by
  cases hmatch : MountPath.match engine urlPath matchers with
  | error fault =>
      obtain ⟨before, after, hparts, hlength, haccepts⟩ :=
        (match_error_iff engine urlPath matchers).mp ⟨fault, hmatch⟩
      exact absurd haccepts (hplain.begun before after hparts hlength)
  | ok found =>
      refine ⟨found, hmatch, ⟨?_, ?_⟩, ?_⟩
      · intro hfound
        obtain ⟨parameters, rfl⟩ := Option.isSome_iff_exists.mp hfound
        obtain ⟨htight, haccepts, -⟩ := match_value_iff.mp hmatch
        apply List.forall₂_iff_zip.mpr
        refine ⟨haccepts.length_eq, ?_⟩
        intro matcher segment hmem
        obtain ⟨captured, hcaptured⟩ :=
          Option.isSome_iff_exists.mp (List.forall₂_zip haccepts hmem)
        exact ⟨captured, (hplain.captures_iff hkind htight haccepts hmem captured).mp hcaptured⟩
      · intro hall
        have haccepts : Accepts engine matchers (segmentsOf urlPath) := accepts_of_fits hall
        have hfound := match_value_iff.mpr ⟨hplain.ended hall, haccepts, rfl⟩
        rw [hmatch] at hfound
        rw [Except.ok.inj hfound]
        rfl
      · rintro parameters rfl name value
        obtain ⟨htight, haccepts, rfl⟩ := match_value_iff.mp hmatch
        rw [find_captureAll]
        · apply exists_congr
          intro pair
          apply and_congr_right
          intro hmem
          rw [hplain.captures_iff hkind htight haccepts hmem]
        · intro pair hmem
          exact List.forall₂_zip haccepts hmem
        · intro first hfirst second hsecond hliteral hliteral' hname
          obtain ⟨captured, hcaptured⟩ :=
            Option.isSome_iff_exists.mp (List.forall₂_zip haccepts hfirst)
          obtain ⟨captured', hcaptured'⟩ :=
            Option.isSome_iff_exists.mp (List.forall₂_zip haccepts hsecond)
          have hfirst' := (hplain.captures_iff hkind htight haccepts hfirst _).mp hcaptured
          have hsecond' := (hplain.captures_iff hkind htight haccepts hsecond _).mp hcaptured'
          rw [hcaptured, hcaptured']
          exact congrArg some (hplain.distinct htight haccepts first hfirst second hsecond hliteral
            hliteral' hname _ _ hfirst' hsecond')

/-- **When a mount path matches the segments.** Exactly if the path is plain. -/
theorem matchesSegments_iff {endpoint : Text}
    (hparse : parseEndpoint engine endpoint = .ok matchers)
    (hregex : ∀ piece ∈ routePieces endpoint, ¬ regexStart <+: piece) (urlPath : Text) :
    MatchesSegments engine matchers urlPath ↔ Plain engine matchers urlPath :=
  ⟨plain_of_matchesSegments, fun hplain =>
    matchesSegments_of_plain hplain (not_regex_of_parse hparse hregex)⟩

theorem parse_foo_parameter : parseEndpoint plainEngine "/foo/:a".toList =
    .ok [.literal "foo".toList, .parameter ":a".toList ['a'] []] := rfl

theorem not_regex_foo_parameter :
    ∀ piece ∈ routePieces "/foo/:a".toList, ¬ regexStart <+: piece := by
  have hpieces : routePieces "/foo/:a".toList = ["foo".toList, ":a".toList] := by decide
  rw [hpieces]
  simp [regexStart]

theorem matchesSegments_iff_foo_parameter :
    MatchesSegments plainEngine [.literal "foo".toList, .parameter ":a".toList ['a'] []]
        "/foo/1".toList ↔
      Plain plainEngine [.literal "foo".toList, .parameter ":a".toList ['a'] []] "/foo/1".toList :=
  matchesSegments_iff parse_foo_parameter not_regex_foo_parameter _

/-- The path ends at the separator behind its first segment, and a view is made of nothing. -/
theorem not_matchesSegments :
    ¬ ∀ (endpoint : Text) (matchers : List PathMatcher) (urlPath : Text),
      parseEndpoint plainEngine endpoint = .ok matchers →
      (∀ piece ∈ routePieces endpoint, ¬ regexStart <+: piece) →
      MatchesSegments plainEngine matchers urlPath := by
  intro hmatches
  obtain ⟨found, hmatch, -⟩ := hmatches _ _ "/foo/".toList parse_foo_parameter
    not_regex_foo_parameter
  cases hmatch

end MountPath

end Liblw.Http
