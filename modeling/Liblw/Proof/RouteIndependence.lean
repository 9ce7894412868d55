import Liblw.Proof.RouteForms
import Liblw.Proof.Routing

/-!
# Which routes are parsed piece by piece

Two things of one piece change another. The type of a typed piece stays behind and is that of every
parameter without a type that comes later. An escape at the end of a regular expression leaves the
expression open, and the piece is dropped. Every other accepted route has for each of its pieces the
matcher that the piece has alone.
-/

namespace Liblw.Http.MountPath

open Liblw.Lib
open EndpointTrie (plainEngine)

variable {engine : RegexEngine} {carry : Carry}

/-! ### One piece alone -/

theorem parse_alone {piece : Text} (hwhole : Whole piece) :
    (parseEndpoint engine piece).toOption =
      (solo engine ⟨[], 0⟩ piece).map fun made => made.1 := by
  rw [toOption_parse_eq_runPieces, hwhole.routePieces_eq, runPieces]
  cases solo engine ⟨[], 0⟩ piece with
  | none => rfl
  | some made => exact congrArg some (List.append_nil made.1)

theorem ok_iff_toOption {α : Type} {result : Result α} {value : α} :
    result = .ok value ↔ result.toOption = some value := by
  cases result with
  | ok value' => simp [Except.toOption]
  | error fault => simp [Except.toOption]

/-- A piece is accepted alone exactly if it has a form. -/
theorem accepted_alone_iff {piece : Text} (hwhole : Whole piece) :
    (∃ matchers, parseEndpoint engine piece = .ok matchers) ↔
      ∃ form, HasForm engine piece form := by
  simp only [ok_iff_toOption, parse_alone hwhole]
  constructor
  · rintro ⟨matchers, hsome⟩
    obtain ⟨made, hsolo, -⟩ := Option.map_eq_some_iff.mp hsome
    exact form_of_solo hwhole hsolo
  · rintro ⟨form, hform⟩
    rw [solo_of_form hwhole hform]
    cases form with
    | literal => exact ⟨_, rfl⟩
    | parameter name extension => exact ⟨_, rfl⟩
    | typed validator name extension => exact ⟨_, rfl⟩
    | regex pattern => exact ⟨_, rfl⟩

/-! ### All pieces -/

/-- A piece without a form fails wherever it stands. -/
theorem runPieces_of_formless {pieces : List Text} {piece : Text}
    (hwhole : ∀ piece ∈ pieces, Whole piece) (hmem : piece ∈ pieces)
    (hformless : ¬ ∃ form, HasForm engine piece form) : runPieces engine carry pieces = none := by
  induction pieces generalizing carry with
  | nil => cases hmem
  | cons first rest ih =>
      rw [runPieces]
      cases hsolo : solo engine carry first with
      | none => rfl
      | some made =>
          rcases List.mem_cons.mp hmem with rfl | hmem
          · exact absurd (form_of_solo (hwhole piece List.mem_cons_self) hsolo) hformless
          · rw [Option.bind_some, ih (fun piece hmem => hwhole piece (List.mem_cons_of_mem _ hmem))
              hmem]
            rfl

/-- The matcher is that of the piece alone. -/
def Alone (engine : RegexEngine) (piece : Text) (matcher : PathMatcher) : Prop :=
  parseEndpoint engine piece = .ok [matcher] ∧ matcher.chunk = piece

/-- The piece is as it is alone behind the carry. -/
def Unspoiled (carry : Carry) (piece : Text) : Prop :=
  (carry.type ≠ [] → ¬ IsUntyped piece) ∧ ¬ IsDangling piece

theorem alone_of_made {piece : Text} {matcher : PathMatcher} {next : Carry} (hwhole : Whole piece)
    (hsolo : solo engine ⟨[], 0⟩ piece = some ([matcher], next)) (hchunk : matcher.chunk = piece) :
    Alone engine piece matcher := by
  refine ⟨?_, hchunk⟩
  rw [ok_iff_toOption, parse_alone hwhole, hsolo]
  rfl

theorem made_of_alone {piece : Text} {matcher : PathMatcher} (hwhole : Whole piece)
    (halone : Alone engine piece matcher) :
    ∃ next, solo engine ⟨[], 0⟩ piece = some ([matcher], next) := by
  have hsome := ok_iff_toOption.mp halone.1
  rw [parse_alone hwhole] at hsome
  obtain ⟨⟨made, next⟩, hsolo, rfl⟩ := Option.map_eq_some_iff.mp hsome
  exact ⟨next, hsolo⟩

theorem typed_of_regex (pattern : Text) : IsTyped (regexStart ++ pattern) :=
  ⟨"re]".toList ++ pattern, rfl⟩

theorem isDangling_iff (pattern : Text) :
    IsDangling (regexStart ++ pattern) ↔ dangles false pattern = true := by
  constructor
  · rintro ⟨other, hother, hdangles⟩
    rwa [List.append_cancel_left hother]
  · exact fun hdangles => ⟨pattern, rfl, hdangles⟩

theorem not_isUntyped_of_isTyped {piece : Text} (htyped : IsTyped piece) : ¬ IsUntyped piece :=
  fun huntyped => huntyped.2 htyped

/-- A type that is no regular expression is none to its end. -/
theorem not_isDangling_of_typed (validator : Validator) (rest : Text) :
    ¬ IsDangling (typeStart ++ typeText validator ++ ']' :: rest) := by
  rintro ⟨pattern, hsame, -⟩
  cases validator <;> cases hsame

theorem parameter_isUntyped {name : Text} (hname : Named name) (extension : Text) :
    IsUntyped (':' :: name ++ extension) := by
  refine ⟨rfl, ?_⟩
  obtain ⟨c, tail, rfl⟩ := List.exists_cons_of_ne_nil hname.1
  rintro ⟨rest, hrest⟩
  have hc : '[' = c := by
    have := congrArg (fun text => text[1]?) hrest
    simpa [typeStart] using this
  exact absurd (hname.2 c List.mem_cons_self) (by rw [← hc]; decide)

/-- An unspoiled piece makes the matcher it has alone, up to its number. -/
theorem solo_of_unspoiled {piece : Text} {form : PieceForm} (hwhole : Whole piece)
    (hform : HasForm engine piece form) (hclean : Unspoiled carry piece) :
    ∃ matcher made next, Alone engine piece matcher ∧
      solo engine carry piece = some (made, next) ∧
      (∀ rest, numbered carry.unnamedCounter (matcher :: rest) =
        made ++ numbered next.unnamedCounter rest) ∧
      (next.type ≠ [] ↔ carry.type ≠ [] ∨ IsTyped piece) := by
  have hsolo : ∀ carry, solo engine carry piece = makes carry piece form :=
    fun _ => solo_of_form hwhole hform
  cases hform with
  | literal hhead =>
      have huntyped : ¬ IsTyped piece := by
        rintro ⟨rest, rfl⟩
        exact hhead rfl
      exact ⟨.literal piece, [.literal piece], carry, alone_of_made hwhole (hsolo _) rfl, hsolo _,
        fun rest => rfl, (or_iff_left huntyped).symm⟩
  | @parameter name extension hname hextension =>
      have huntyped := parameter_isUntyped hname extension
      have htype : carry.type = [] := by
        by_contra htype
        exact hclean.1 htype huntyped
      have hmade : makes carry (':' :: name ++ extension) (.parameter name extension) =
          some ([.parameter (':' :: name ++ extension) name extension], carry) := by
        rw [makes, parameterMatcher, if_pos htype]
        rfl
      exact ⟨.parameter _ name extension, _, carry, alone_of_made hwhole (hsolo _) rfl,
        (hsolo _).trans hmade, fun rest => rfl, (or_iff_left huntyped.2).symm⟩
  | @typed validator name extension hname hextension =>
      have htyped : IsTyped (typeStart ++ typeText validator ++ ']' :: name ++ extension) := by
        rw [List.append_assoc, List.append_assoc]
        exact List.prefix_append _ _
      have htype : typeText validator ≠ [] := by cases validator <;> simp [typeText]
      exact ⟨.validated _ name extension validator, _, _, alone_of_made hwhole (hsolo _) rfl,
        hsolo _, fun rest => rfl, iff_of_true htype (Or.inr htyped)⟩
  | @regex pattern hcompiles =>
      have hdangles : dangles false pattern = false := by
        rw [← Bool.not_eq_true, ← isDangling_iff]
        exact hclean.2
      have hmade : ∀ carry : Carry, solo engine carry (regexStart ++ pattern) =
          some ([.regex (carry.unnamedCounter + 1) (regexStart ++ pattern)],
            ⟨"re".toList, carry.unnamedCounter + 1⟩) := by
        intro carry
        rw [hsolo, makes, hdangles]
        rfl
      exact ⟨.regex 1 _, _, _, alone_of_made hwhole (hmade _) rfl, hmade _, fun rest => rfl,
        iff_of_true (by simp) (Or.inr (typed_of_regex pattern))⟩

/-- A piece that makes its own matcher, up to its number, is unspoiled. -/
theorem unspoiled_of_numbered {piece : Text} {form : PieceForm} {matcher : PathMatcher}
    {made later rest : List PathMatcher} {next : Carry} (hwhole : Whole piece)
    (hform : HasForm engine piece form) (halone : Alone engine piece matcher)
    (hsolo : solo engine carry piece = some (made, next))
    (hsame : made ++ later = numbered carry.unnamedCounter (matcher :: rest)) :
    Unspoiled carry piece := by
  obtain ⟨next', halone⟩ := made_of_alone hwhole halone
  rw [solo_of_form hwhole hform] at hsolo halone
  cases hform with
  | literal hhead =>
      refine ⟨fun _ huntyped => hhead huntyped.1, ?_⟩
      rintro ⟨pattern, rfl, -⟩
      exact hhead rfl
  | @parameter name extension hname hextension =>
      have huntyped := parameter_isUntyped hname extension
      refine ⟨?_, ?_⟩
      · intro htype
        rw [makes, parameterMatcher, if_neg htype] at hsolo
        obtain ⟨made', hmade, hpair⟩ := Option.map_eq_some_iff.mp hsolo
        obtain ⟨rfl, rfl⟩ := Prod.mk.inj hpair
        have hplain : matcher = .parameter (':' :: name ++ extension) name extension := by
          cases halone
          rfl
        subst hplain
        have hhead : made' = .parameter (':' :: name ++ extension) name extension :=
          (List.cons.inj hsame).1
        subst hhead
        cases hvalidator : validatorFor carry.type with
        | error fault =>
            rw [hvalidator] at hmade
            cases hmade
        | ok validator =>
            rw [hvalidator] at hmade
            cases hmade
      · rintro ⟨pattern, hpattern, -⟩
        apply huntyped.2
        rw [hpattern]
        exact typed_of_regex pattern
  | @typed validator name extension hname hextension =>
      rw [List.append_assoc, List.cons_append]
      refine ⟨fun _ huntyped => huntyped.2 ?_, not_isDangling_of_typed validator _⟩
      rw [List.append_assoc]
      exact List.prefix_append _ _
  | @regex pattern hcompiles =>
      refine ⟨fun _ => not_isUntyped_of_isTyped (typed_of_regex pattern), ?_⟩
      rw [isDangling_iff]
      intro hdangles
      rw [makes, if_pos hdangles] at halone
      cases halone

/-- No piece of a list that is parsed behind the carry is changed by what stands before it. -/
def Clean (carry : Carry) (pieces : List Text) : Prop :=
  (carry.type ≠ [] → ∀ piece ∈ pieces, ¬ IsUntyped piece) ∧
    pieces.Pairwise (fun first second => IsTyped first → ¬ IsUntyped second) ∧
      ∀ piece ∈ pieces, ¬ IsDangling piece

theorem clean_cons {piece : Text} {rest : List Text} {next : Carry}
    (hnext : next.type ≠ [] ↔ carry.type ≠ [] ∨ IsTyped piece) :
    Clean carry (piece :: rest) ↔ Unspoiled carry piece ∧ Clean next rest := by
  simp only [Clean, Unspoiled, List.forall_mem_cons, List.pairwise_cons, hnext]
  constructor
  · rintro ⟨hcarry, ⟨hhead, htail⟩, hdangling, hrest⟩
    refine ⟨⟨fun htype => (hcarry htype).1, hdangling⟩, ?_, htail, hrest⟩
    rintro (htype | htyped) later hlater
    · exact (hcarry htype).2 later hlater
    · exact hhead later hlater htyped
  · rintro ⟨⟨hcarry, hdangling⟩, hnext, htail, hrest⟩
    refine ⟨fun htype => ⟨hcarry htype, hnext (Or.inl htype)⟩, ⟨?_, htail⟩, hdangling, hrest⟩
    exact fun later hlater htyped => hnext (Or.inr htyped) later hlater

/-- **Clean pieces** make the matchers that they have alone. -/
theorem runPieces_of_clean {pieces : List Text} (hwhole : ∀ piece ∈ pieces, Whole piece)
    (hforms : ∀ piece ∈ pieces, ∃ form, HasForm engine piece form) (hclean : Clean carry pieces) :
    ∃ alone, List.Forall₂ (Alone engine) pieces alone ∧
      runPieces engine carry pieces = some (numbered carry.unnamedCounter alone) := by
  induction pieces generalizing carry with
  | nil => exact ⟨[], List.Forall₂.nil, rfl⟩
  | cons piece rest ih =>
      obtain ⟨form, hform⟩ := hforms piece List.mem_cons_self
      have hunspoiled : Unspoiled carry piece :=
        ⟨fun htype => hclean.1 htype piece List.mem_cons_self, hclean.2.2 piece List.mem_cons_self⟩
      obtain ⟨matcher, made, next, halone, hsolo, hnumbered, hnext⟩ :=
        solo_of_unspoiled (hwhole piece List.mem_cons_self) hform hunspoiled
      obtain ⟨alone, hall, hrun⟩ :=
        ih (fun piece hmem => hwhole piece (List.mem_cons_of_mem _ hmem))
        (fun piece hmem => hforms piece (List.mem_cons_of_mem _ hmem))
        ((clean_cons hnext).mp hclean).2
      refine ⟨matcher :: alone, List.Forall₂.cons halone hall, ?_⟩
      rw [runPieces, hsolo, Option.bind_some, hrun, hnumbered]
      rfl

/-- Pieces that make the matchers that they have alone are clean. -/
theorem clean_of_runPieces {pieces : List Text} {alone : List PathMatcher}
    (hwhole : ∀ piece ∈ pieces, Whole piece)
    (hforms : ∀ piece ∈ pieces, ∃ form, HasForm engine piece form)
    (hall : List.Forall₂ (Alone engine) pieces alone)
    (hrun : runPieces engine carry pieces = some (numbered carry.unnamedCounter alone)) :
    Clean carry pieces := by
  induction hall generalizing carry with
  | nil => simp [Clean]
  | @cons piece matcher rest matchers halone hall ih =>
      obtain ⟨form, hform⟩ := hforms piece List.mem_cons_self
      have hpiece := hwhole piece List.mem_cons_self
      rw [runPieces] at hrun
      obtain ⟨⟨made, next⟩, hsolo, hsome⟩ := Option.bind_eq_some_iff.mp hrun
      obtain ⟨later, hlater, hsame⟩ := Option.map_eq_some_iff.mp hsome
      have hunspoiled := unspoiled_of_numbered hpiece hform halone hsolo hsame
      obtain ⟨matcher', made', next', halone', hsolo', hnumbered, hnext⟩ :=
        solo_of_unspoiled hpiece hform hunspoiled
      obtain ⟨rfl, rfl⟩ := Prod.mk.inj (Option.some.inj (hsolo.symm.trans hsolo'))
      have hmatcher : matcher = matcher' := by
        have hboth := halone.1.symm.trans halone'.1
        exact (List.cons.inj (Except.ok.inj hboth)).1
      rw [hmatcher, hnumbered] at hsame
      rw [List.append_cancel_left hsame] at hlater
      refine (clean_cons hnext).mpr ⟨hunspoiled, ?_⟩
      exact ih (fun piece hmem => hwhole piece (List.mem_cons_of_mem _ hmem))
        (fun piece hmem => hforms piece (List.mem_cons_of_mem _ hmem)) hlater

/-! ### Independence -/

/-- **When a route is parsed piece by piece.** Exactly if one of its pieces has no form, so that
the route is refused, or no typed piece or regular expression stands before a parameter without a
type and no regular expression ends in an open escape. -/
theorem parse_independent_iff (engine : RegexEngine) (route : Text) :
    Independent engine route ↔
      (∃ piece ∈ routePieces route, ¬ ∃ form, HasForm engine piece form) ∨
        ((routePieces route).Pairwise (fun first second => IsTyped first → ¬ IsUntyped second) ∧
          ∀ piece ∈ routePieces route, ¬ IsDangling piece) := by
  have hwhole : ∀ piece ∈ routePieces route, Whole piece := fun piece => whole_of_mem
  have haccepted : (∀ piece ∈ routePieces route, ∃ matchers,
        parseEndpoint engine piece = .ok matchers) ↔
      ∀ piece ∈ routePieces route, ∃ form, HasForm engine piece form :=
    forall₂_congr fun piece hmem => accepted_alone_iff (hwhole piece hmem)
  have hroute : ∀ matchers, parseEndpoint engine route = .ok matchers ↔
      runPieces engine ⟨[], 0⟩ (routePieces route) = some matchers := by
    intro matchers
    rw [ok_iff_toOption, toOption_parse_eq_runPieces]
  rw [Independent, haccepted]
  by_cases hforms : ∀ piece ∈ routePieces route, ∃ form, HasForm engine piece form
  · have hclean : Clean ⟨[], 0⟩ (routePieces route) ↔
        (routePieces route).Pairwise (fun first second => IsTyped first → ¬ IsUntyped second) ∧
          ∀ piece ∈ routePieces route, ¬ IsDangling piece := by
      simp [Clean]
    rw [← hclean]
    constructor
    · rintro ⟨hiff, hmade⟩
      obtain ⟨matchers, hparse⟩ := hiff.mpr hforms
      obtain ⟨alone, hall, rfl⟩ := hmade matchers hparse
      exact Or.inr (clean_of_runPieces hwhole hforms hall ((hroute _).mp hparse))
    · rintro (⟨piece, hmem, hnot⟩ | hclean)
      · exact absurd (hforms piece hmem) hnot
      · obtain ⟨alone, hall, hrun⟩ := runPieces_of_clean hwhole hforms hclean
        refine ⟨iff_of_true ⟨_, (hroute _).mpr hrun⟩ hforms, ?_⟩
        intro matchers hparse
        have hsame := ((hroute _).mp hparse).symm.trans hrun
        exact ⟨alone, hall, Option.some.inj hsame⟩
  · push Not at hforms
    obtain ⟨piece, hmem, hformless⟩ := hforms
    have hnot : ¬ ∃ form, HasForm engine piece form := by
      rintro ⟨form, hform⟩
      exact hformless form hform
    have hrefused : ∀ matchers, parseEndpoint engine route ≠ .ok matchers := by
      intro matchers hparse
      rw [hroute, runPieces_of_formless hwhole hmem hnot] at hparse
      cases hparse
    refine iff_of_true ⟨?_, ?_⟩ (Or.inl ⟨piece, hmem, hnot⟩)
    · apply iff_of_false
      · rintro ⟨matchers, hparse⟩
        exact hrefused matchers hparse
      · exact fun hall => hnot (hall piece hmem)
    · intro matchers hparse
      exact absurd hparse (hrefused matchers)

/-- The type of the first piece is that of the second one too. -/
theorem not_independent_typed : ¬ Independent plainEngine "/:[int]a/:b".toList := by
  rintro ⟨-, hmade⟩
  have hparse : parseEndpoint plainEngine "/:[int]a/:b".toList =
      .ok [.validated ":[int]a".toList ['a'] [] .int, .validated ":b".toList ['b'] [] .int] := rfl
  have hpieces : routePieces "/:[int]a/:b".toList = [":[int]a".toList, ":b".toList] := by decide
  have halone : parseEndpoint plainEngine ":b".toList = .ok [.parameter ":b".toList ['b'] []] := rfl
  obtain ⟨alone, hall, hsame⟩ := hmade _ hparse
  rw [hpieces] at hall
  obtain ⟨first, rest, hfirst, hrest, rfl⟩ := List.forall₂_cons_left_iff.mp hall
  obtain ⟨second, last, hsecond, hlast, rfl⟩ := List.forall₂_cons_left_iff.mp hrest
  obtain rfl := List.forall₂_nil_left_iff.mp hlast
  obtain rfl : PathMatcher.parameter ":b".toList ['b'] [] = second :=
    (List.cons.inj (Except.ok.inj (halone.symm.trans hsecond.1))).1
  cases first <;> simp [numbered] at hsame

end Liblw.Http.MountPath
