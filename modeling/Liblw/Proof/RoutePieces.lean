import Liblw.Http.Segments
import Liblw.Lib.Separator
import Liblw.Proof.RouteSegments

/-!
# A route is parsed piece by piece

The machine of `parse_into_matchers` comes back to its start between the pieces of a route, a
parameter one character late. So its result is that of the pieces one after the other, each with the
carry that the ones before have left. A type with a separator in it is no type, so that nothing goes
wrong where the machine does not cut.
-/

namespace Liblw.Http.MountPath

open Liblw.Lib

variable {engine : RegexEngine} {carry : Carry} {state : State}

/-! ### Runs without messages -/

/-- What the machine makes of the end of the text. -/
def finish (engine : RegexEngine) (parser : Parser) : Option (List PathMatcher) :=
  (do
    let parser ← parser.step engine [] 0 none
    match parser.state with
    | .parameterEnd chunk name extension => do
        let parser ← parser.pushParameter chunk name extension
        pure parser.matchers
    | _ => pure parser.matchers : Result (List PathMatcher)).toOption

/-- The matchers that the machine returns on the rest of a text. -/
def outcome (engine : RegexEngine) : Parser → Text → Option (List PathMatcher)
  | parser, [] => finish engine parser
  | parser, c :: rest =>
      (parser.step engine [] 0 (some c)).toOption.bind fun next => outcome engine next rest

theorem toOption_step (parser : Parser) (endpoint : Text) (i : Nat) (c : Option Char) :
    (parser.step engine endpoint i c).toOption = (parser.step engine [] 0 c).toOption := by
  cases hstep : parser.step engine endpoint i c with
  | ok next => rw [Parser.step_eq_ok hstep [] 0]
  | error fault =>
      cases hfree : parser.step engine [] 0 c with
      | ok next =>
          rw [Parser.step_eq_ok hfree endpoint i] at hstep
          cases hstep
      | error fault' => rfl

theorem toOption_bind {α β : Type} (result : Result α) (next : α → Result β) :
    (result >>= next).toOption = result.toOption.bind fun value => (next value).toOption := by
  cases result <;> rfl

theorem toOption_parse (endpoint : Text) :
    (parseEndpoint engine endpoint).toOption = outcome engine .make endpoint := by
  have hloop : ∀ (rest : Text) (i : Nat) (parser : Parser),
      (Parser.loop engine endpoint i rest parser >>= fun parser =>
        match parser.state with
        | .parameterEnd chunk name extension => do
            let parser ← parser.pushParameter chunk name extension
            pure parser.matchers
        | _ => pure parser.matchers).toOption = outcome engine parser rest := by
    intro rest
    induction rest with
    | nil =>
        intro i parser
        rw [Parser.loop, toOption_bind, toOption_step, outcome, finish, toOption_bind]
    | cons c rest ih =>
        intro i parser
        rw [Parser.loop, bind_assoc, toOption_bind, toOption_step, outcome]
        congr 1
        funext next
        exact ih _ _
  exact hloop endpoint 0 .make

/-! ### States and their ends -/

/-- The matchers that the end of a piece makes in a state. -/
def closeSegment (engine : RegexEngine) (carry : Carry) : State → Option (List PathMatcher)
  | .literal chunk => some [.literal chunk]
  | .parameterName chunk name =>
      if name = [] then none
      else (parameterMatcher carry.type chunk name []).toOption.map fun matcher => [matcher]
  | .parameterExtension chunk name extension =>
      if extension.length = 1 then none
      else (parameterMatcher carry.type chunk name extension).toOption.map fun matcher => [matcher]
  | .regex chunk escaping =>
      if escaping then some []
      else if engine.compiles (chunk.drop 5) then some [.regex carry.unnamedCounter chunk]
      else none
  | _ => none

/-- A parameter whose end has been seen is pushed, and the machine goes on from its start. -/
theorem outcome_parameterEnd (engine : RegexEngine) (carry : Carry) (matchers : List PathMatcher)
    (chunk name extension : Text) (rest : Text) :
    outcome engine ⟨.parameterEnd chunk name extension, carry, matchers⟩ rest =
      (parameterMatcher carry.type chunk name extension).toOption.bind fun matcher =>
        outcome engine ⟨.start, carry, matchers ++ [matcher]⟩ rest := by
  have hpush : ∀ c, (Parser.mk (.parameterEnd chunk name extension) carry matchers).step engine []
      0 c = (parameterMatcher carry.type chunk name extension).map fun matcher =>
        Parser.stepStart ⟨.start, carry, matchers ++ [matcher]⟩ c := by
    intro c
    simp only [Parser.step, Parser.pushParameter]
    cases parameterMatcher carry.type chunk name extension <;> rfl
  cases rest with
  | nil =>
      rw [outcome, finish, hpush]
      cases parameterMatcher carry.type chunk name extension <;> rfl
  | cons c rest =>
      rw [outcome, hpush]
      cases parameterMatcher carry.type chunk name extension with
      | error fault => rfl
      | ok matcher => rfl

theorem finish_of_end {parser : Parser} {matchers : List PathMatcher} {chunk name extension : Text}
    (hstep : parser.step engine [] 0 none =
      .ok ⟨.parameterEnd chunk name extension, carry, matchers⟩) :
    finish engine parser =
      (parameterMatcher carry.type chunk name extension).toOption.map fun matcher =>
        matchers ++ [matcher] := by
  rw [finish, hstep]
  change (Parser.pushParameter ⟨.parameterEnd chunk name extension, carry, matchers⟩ chunk name
    extension >>= fun parser => pure parser.matchers).toOption = _
  rw [Parser.pushParameter]
  cases parameterMatcher carry.type chunk name extension <;> rfl

/-- At the end of the text the open piece is closed. -/
theorem outcome_nil (engine : RegexEngine) (state : State) (carry : Carry)
    (matchers : List PathMatcher) (hstart : state ≠ .start)
    (hend : ∀ chunk name extension, state ≠ .parameterEnd chunk name extension) :
    outcome engine ⟨state, carry, matchers⟩ [] =
      (closeSegment engine carry state).map fun made => matchers ++ made := by
  cases state with
  | start => exact absurd rfl hstart
  | literal chunk => rfl
  | parameterStart chunk => rfl
  | parameterType chunk type => rfl
  | parameterName chunk name =>
      by_cases hname : name = []
      · simp [outcome, finish, closeSegment, Parser.step, Parser.stepParameterName, hname, refuse]
        rfl
      · have hstep : (Parser.mk (.parameterName chunk name) carry matchers).step engine [] 0 none =
            .ok ⟨.parameterEnd chunk name [], carry, matchers⟩ := by
          simp [Parser.step, Parser.stepParameterName, hname]
        rw [outcome, finish_of_end hstep, closeSegment, if_neg hname, Option.map_map]
        rfl
  | parameterExtension chunk name extension =>
      by_cases hextension : extension.length = 1
      · simp [outcome, finish, closeSegment, Parser.step, Parser.stepParameterExtension,
          hextension, refuse]
        rfl
      · have hstep : (Parser.mk (.parameterExtension chunk name extension) carry matchers).step
            engine [] 0 none = .ok ⟨.parameterEnd chunk name extension, carry, matchers⟩ := by
          simp [Parser.step, Parser.stepParameterExtension, hextension]
        rw [outcome, finish_of_end hstep, closeSegment, if_neg hextension, Option.map_map]
        rfl
  | parameterEnd chunk name extension => exact absurd rfl (hend chunk name extension)
  | regex chunk escaping =>
      simp only [outcome, finish, Parser.step, Parser.stepRegex, Parser.stepRegex.closeRegex,
        closeSegment]
      split_ifs
      · exact congrArg some (List.append_nil _).symm
      · rfl
      · rfl

/-! ### A separator inside a type -/

/-- There is a separator in the type that the machine will look up. -/
def Doomed (parser : Parser) : Prop :=
  match parser.state with
  | .parameterType _ type => '/' ∈ type
  | .parameterName _ _ => '/' ∈ parser.carry.type
  | .parameterExtension _ _ _ => '/' ∈ parser.carry.type
  | .parameterEnd _ _ _ => '/' ∈ parser.carry.type
  | _ => False

theorem parameterMatcher_of_slash {type : Text} (hslash : '/' ∈ type)
    (chunk name extension : Text) :
    (parameterMatcher type chunk name extension).toOption = none := by
  have hnil : type ≠ [] := List.ne_nil_of_mem hslash
  have hint : type ≠ "int".toList := by
    rintro rfl
    simp at hslash
  have huint : type ≠ "uint".toList := by
    rintro rfl
    simp at hslash
  rw [parameterMatcher, if_neg hnil, validatorFor, if_neg hint, if_neg huint]
  rfl

theorem Doomed.step {parser next : Parser} {c : Char} (hdoomed : Doomed parser)
    (hstep : parser.step engine [] 0 (some c) = .ok next) : Doomed next := by
  obtain ⟨state, carry, matchers⟩ := parser
  cases state with
  | start => exact hdoomed.elim
  | literal chunk => exact hdoomed.elim
  | parameterStart chunk => exact hdoomed.elim
  | parameterType chunk type =>
      have hslash : '/' ∈ type := hdoomed
      have hregex : type ≠ "re".toList := by
        rintro rfl
        simp at hslash
      simp only [Parser.step, Parser.stepParameterType] at hstep
      split_ifs at hstep with hend hempty
      · cases hstep
      · obtain rfl := Except.ok.inj hstep
        exact hslash
      · obtain rfl := Except.ok.inj hstep
        exact List.mem_append_left _ hslash
  | parameterName chunk name =>
      dsimp only [Parser.step, Parser.stepParameterName] at hstep
      split_ifs at hstep
      all_goals
        first
        | (obtain rfl := Except.ok.inj hstep; exact hdoomed)
        | cases hstep
  | parameterExtension chunk name extension =>
      dsimp only [Parser.step, Parser.stepParameterExtension] at hstep
      split_ifs at hstep
      all_goals
        first
        | (obtain rfl := Except.ok.inj hstep; exact hdoomed)
        | cases hstep
  | parameterEnd chunk name extension =>
      have hnone := parameterMatcher_of_slash (show '/' ∈ carry.type from hdoomed) chunk name
        extension
      simp only [Parser.step, Parser.pushParameter] at hstep
      cases hmatcher : parameterMatcher carry.type chunk name extension with
      | ok matcher =>
          rw [hmatcher] at hnone
          cases hnone
      | error fault =>
          rw [hmatcher] at hstep
          cases hstep
  | regex chunk escaping => exact hdoomed.elim

theorem Doomed.outcome {parser : Parser} (hdoomed : Doomed parser) (rest : Text) :
    outcome engine parser rest = none := by
  induction rest generalizing parser with
  | nil =>
      obtain ⟨state, carry, matchers⟩ := parser
      cases state with
      | start => exact hdoomed.elim
      | literal chunk => exact hdoomed.elim
      | parameterStart chunk => exact hdoomed.elim
      | parameterType chunk type => rfl
      | parameterName chunk name =>
          have hslash : '/' ∈ carry.type := hdoomed
          rw [outcome_nil engine _ _ _ (by simp) (by simp), closeSegment,
            parameterMatcher_of_slash hslash]
          split_ifs <;> rfl
      | parameterExtension chunk name extension =>
          have hslash : '/' ∈ carry.type := hdoomed
          rw [outcome_nil engine _ _ _ (by simp) (by simp), closeSegment,
            parameterMatcher_of_slash hslash]
          split_ifs <;> rfl
      | parameterEnd chunk name extension =>
          have hslash : '/' ∈ carry.type := hdoomed
          rw [outcome_parameterEnd, parameterMatcher_of_slash hslash]
          rfl
      | regex chunk escaping => exact hdoomed.elim
  | cons c rest ih =>
      rw [MountPath.outcome]
      cases hstep : parser.step engine [] 0 (some c) with
      | error fault => rfl
      | ok next => exact ih (hdoomed.step hstep)

/-! ### Piece by piece -/

/-- What a piece makes, and the carry it leaves. -/
def solo (engine : RegexEngine) (carry : Carry) (piece : Text) :
    Option (List PathMatcher × Carry) :=
  (openChunk engine carry piece).bind fun reached =>
    (closeSegment engine reached.2 reached.1).map fun made => (made, reached.2)

/-- The pieces one after the other. -/
def runPieces (engine : RegexEngine) : Carry → List Text → Option (List PathMatcher)
  | _, [] => some []
  | carry, piece :: rest =>
      (solo engine carry piece).bind fun made =>
        (runPieces engine made.2 rest).map fun later => made.1 ++ later

/-- The escape flag of the machine. -/
def State.escaping : State → Bool
  | .regex _ escaping => escaping
  | _ => false

/-- The piece is no beginning of a regular expression, nor will it become one. -/
def Parted (piece : Text) : Prop := ¬ regexStart <+: piece ∧ ¬ piece <+: regexStart

theorem Parted.append {piece : Text} (hparted : Parted piece) (more : Text) :
    Parted (piece ++ more) := by
  refine ⟨?_, fun hbegin => hparted.2 ((List.prefix_append _ _).trans hbegin)⟩
  intro hbegin
  rcases Nat.le_total regexStart.length piece.length with hle | hle
  · exact hparted.1 (List.prefix_of_prefix_length_le hbegin (List.prefix_append _ _) hle)
  · exact hparted.2 (List.prefix_of_prefix_length_le (List.prefix_append _ _) hbegin hle)

/-- The state is inside the piece that has been read. -/
def InPiece (piece : Text) : State → Prop
  | .literal chunk => chunk = piece ∧ Parted piece
  | .parameterStart chunk => chunk = piece ∧ piece = [':']
  | .parameterType chunk type => chunk = piece ∧ piece = typeStart ++ type ∧ ']' ∉ type
  | .parameterName chunk _ => chunk = piece ∧ Parted piece
  | .parameterExtension chunk _ _ => chunk = piece ∧ Parted piece
  | .regex chunk _ => chunk = piece ∧ regexStart <+: piece
  | _ => False

theorem escapes_of_parted {piece : Text} (hparted : Parted piece) (escaped : Bool) (c : Char) :
    escapes piece escaped c = false := by
  have hregex : regexStart.isPrefixOf piece = false := by
    rw [Bool.eq_false_iff, ne_eq, List.isPrefixOf_iff_prefix]
    exact hparted.1
  rw [escapes, hregex, Bool.false_and, Bool.false_and]

theorem not_regex_of_type {type : Text} (htype : ']' ∉ type) :
    ¬ regexStart <+: typeStart ++ type := by
  rintro ⟨rest, hrest⟩
  have htail : type = "re]".toList ++ rest := by
    have hboth := congrArg (List.drop 2) hrest
    exact hboth.symm
  rw [htail] at htype
  simp at htype

theorem parted_of_type {type : Text} (htype : ']' ∉ type) (hregex : type ≠ "re".toList) :
    Parted (typeStart ++ type ++ [']']) := by
  refine ⟨?_, ?_⟩
  · rintro ⟨rest, hrest⟩
    have htail : "re".toList ++ ']' :: rest = type ++ ']' :: [] := by
      have hboth := congrArg (List.drop 2) hrest
      simpa [regexStart, typeStart] using hboth
    obtain ⟨hsame, -⟩ := append_inj_of_notMem (by simp) htype (by simp) (by simp) htail
    exact hregex hsame.symm
  · rintro ⟨rest, hrest⟩
    have htail : type ++ ']' :: rest = "re".toList ++ ']' :: [] := by
      have hboth := congrArg (List.drop 2) hrest
      simpa [regexStart, typeStart] using hboth
    obtain ⟨hsame, -⟩ := append_inj_of_notMem htype (by simp) (by simp) (by simp) htail
    exact hregex hsame

/-- The machine and the cut are at the same place behind one more character. -/
def Advances (engine : RegexEngine) (carry : Carry) (matchers : List PathMatcher) (piece : Text)
    (state : State) (c : Char) : Prop :=
  (openStep engine (state, carry) c = none ∧
      ((Parser.mk state carry matchers).step engine [] 0 (some c)).toOption = none) ∨
    ∃ state' carry', openStep engine (state, carry) c = some (state', carry') ∧
      ((Parser.mk state carry matchers).step engine [] 0 (some c)).toOption =
        some ⟨state', carry', matchers⟩ ∧
      InPiece (piece ++ [c]) state' ∧ state'.escaping = escapes piece state.escaping c

theorem advances_of_ok {piece : Text} {carry' : Carry} {state' : State} {c : Char}
    (hstep : ∀ matchers, (Parser.mk state carry matchers).step engine [] 0 (some c) =
      .ok ⟨state', carry', matchers⟩)
    (hinside : InPiece (piece ++ [c]) state')
    (hescaping : state'.escaping = escapes piece state.escaping c) (matchers : List PathMatcher) :
    Advances engine carry matchers piece state c :=
  Or.inr ⟨state', carry', openStep_of_step (hstep matchers), by rw [hstep]; rfl, hinside, hescaping⟩

theorem advances_of_error {piece : Text} {c : Char}
    (hstep : ∀ matchers, ∃ fault, (Parser.mk state carry matchers).step engine [] 0 (some c) =
      .error fault) (matchers : List PathMatcher) :
    Advances engine carry matchers piece state c := by
  obtain ⟨fault, hfault⟩ := hstep []
  obtain ⟨fault', hfault'⟩ := hstep matchers
  exact Or.inl ⟨by rw [openStep, hfault], by rw [hfault']; rfl⟩

section Advances

variable {piece : Text} {c : Char}

theorem advances_literal {chunk : Text} (hinside : InPiece piece (.literal chunk))
    (hslash : c ≠ '/') (matchers : List PathMatcher) :
    Advances engine carry matchers piece (.literal chunk) c := by
  obtain ⟨rfl, hparted⟩ := hinside
  have hstep : ∀ matchers, (Parser.mk (.literal chunk) carry matchers).step engine [] 0 (some c) =
      .ok ⟨.literal (chunk ++ [c]), carry, matchers⟩ := by
    intro matchers
    simp only [Parser.step, Parser.stepLiteral, if_neg hslash]
  have hnext : InPiece (chunk ++ [c]) (.literal (chunk ++ [c])) := ⟨rfl, hparted.append [c]⟩
  exact advances_of_ok hstep hnext (escapes_of_parted hparted _ c).symm matchers

theorem advances_parameterStart {chunk : Text} (hinside : InPiece piece (.parameterStart chunk))
    (matchers : List PathMatcher) :
    Advances engine carry matchers piece (.parameterStart chunk) c := by
  obtain ⟨rfl, rfl⟩ := hinside
  by_cases htype : c = '['
  · subst htype
    have hstep : ∀ matchers, (Parser.mk (.parameterStart [':']) carry matchers).step engine [] 0
        (some '[') = .ok ⟨.parameterType typeStart [], carry, matchers⟩ := fun _ => rfl
    have hnext : InPiece ([':'] ++ ['[']) (.parameterType typeStart []) := ⟨rfl, rfl, by simp⟩
    exact advances_of_ok hstep hnext rfl matchers
  by_cases halnum : isAlnum c = true
  · have hstep : ∀ matchers, (Parser.mk (.parameterStart [':']) carry matchers).step engine [] 0
        (some c) = .ok ⟨.parameterName [':', c] [c], carry, matchers⟩ := by
      intro matchers
      simp [Parser.step, Parser.stepParameterStart, htype, halnum]
    have hnext : InPiece ([':'] ++ [c]) (.parameterName [':', c] [c]) := by
      refine ⟨rfl, ?_⟩
      simp [Parted, regexStart, htype, Ne.symm htype]
    exact advances_of_ok hstep hnext rfl matchers
  · refine advances_of_error ?_ matchers
    intro matchers
    simp [Parser.step, Parser.stepParameterStart, htype, halnum, refuse]

theorem advances_parameterType {chunk type : Text}
    (hinside : InPiece piece (.parameterType chunk type)) (matchers : List PathMatcher) :
    Advances engine carry matchers piece (.parameterType chunk type) c := by
  obtain ⟨rfl, rfl, htype⟩ := hinside
  have hescapes : escapes (typeStart ++ type) false c = false := by
    have hregex : regexStart.isPrefixOf (typeStart ++ type) = false := by
      rw [Bool.eq_false_iff, ne_eq, List.isPrefixOf_iff_prefix]
      exact not_regex_of_type htype
    rw [escapes, hregex, Bool.false_and, Bool.false_and]
  by_cases hend : c = ']'
  · subst hend
    by_cases hempty : type = []
    · refine advances_of_error ?_ matchers
      intro matchers
      simp [Parser.step, Parser.stepParameterType, hempty, refuse]
    by_cases hregex : type = "re".toList
    · subst hregex
      have hstep : ∀ matchers, (Parser.mk (.parameterType (typeStart ++ "re".toList) "re".toList)
          carry matchers).step engine [] 0 (some ']') = .ok ⟨.regex regexStart false,
            ⟨"re".toList, carry.unnamedCounter + 1⟩, matchers⟩ := fun _ => rfl
      have hnext : InPiece (typeStart ++ "re".toList ++ [']']) (.regex regexStart false) :=
        ⟨rfl, List.prefix_rfl⟩
      exact advances_of_ok hstep hnext hescapes.symm matchers
    · have hstep : ∀ matchers, (Parser.mk (.parameterType (typeStart ++ type) type) carry
          matchers).step engine [] 0 (some ']') = .ok ⟨.parameterName
            (typeStart ++ type ++ [']']) [], { carry with type }, matchers⟩ := by
        intro matchers
        simp only [Parser.step, Parser.stepParameterType, if_neg hempty, if_neg hregex, if_true]
      have hnext : InPiece (typeStart ++ type ++ [']'])
          (.parameterName (typeStart ++ type ++ [']']) []) :=
        ⟨rfl, parted_of_type htype hregex⟩
      exact advances_of_ok hstep hnext hescapes.symm matchers
  · have hstep : ∀ matchers, (Parser.mk (.parameterType (typeStart ++ type) type) carry
        matchers).step engine [] 0 (some c) = .ok ⟨.parameterType
          (typeStart ++ type ++ [c]) (type ++ [c]), carry, matchers⟩ := by
      intro matchers
      simp only [Parser.step, Parser.stepParameterType, if_neg hend]
    have hnext : InPiece (typeStart ++ type ++ [c])
        (.parameterType (typeStart ++ type ++ [c]) (type ++ [c])) :=
      ⟨rfl, List.append_assoc _ _ _, by simp [htype, Ne.symm hend]⟩
    exact advances_of_ok hstep hnext hescapes.symm matchers

theorem advances_parameterName {chunk name : Text}
    (hinside : InPiece piece (.parameterName chunk name)) (hslash : c ≠ '/')
    (matchers : List PathMatcher) :
    Advances engine carry matchers piece (.parameterName chunk name) c := by
  obtain ⟨rfl, hparted⟩ := hinside
  have hescapes := (escapes_of_parted hparted false c).symm
  by_cases hdot : c = '.'
  · by_cases hname : name = []
    · refine advances_of_error ?_ matchers
      intro matchers
      simp [Parser.step, Parser.stepParameterName, hdot, hname, refuse]
    · have hstep : ∀ matchers, (Parser.mk (.parameterName chunk name) carry matchers).step
          engine [] 0 (some c) =
            .ok ⟨.parameterExtension (chunk ++ [c]) name [c], carry, matchers⟩ := by
        intro matchers
        simp [Parser.step, Parser.stepParameterName, hdot, hname]
      have hnext : InPiece (chunk ++ [c]) (.parameterExtension (chunk ++ [c]) name [c]) :=
        ⟨rfl, hparted.append [c]⟩
      exact advances_of_ok hstep hnext hescapes matchers
  by_cases halnum : isAlnum c = true
  · have hstep : ∀ matchers, (Parser.mk (.parameterName chunk name) carry matchers).step
        engine [] 0 (some c) =
          .ok ⟨.parameterName (chunk ++ [c]) (name ++ [c]), carry, matchers⟩ := by
      intro matchers
      simp [Parser.step, Parser.stepParameterName, hdot, hslash, halnum]
    have hnext : InPiece (chunk ++ [c]) (.parameterName (chunk ++ [c]) (name ++ [c])) :=
      ⟨rfl, hparted.append [c]⟩
    exact advances_of_ok hstep hnext hescapes matchers
  · refine advances_of_error ?_ matchers
    intro matchers
    simp [Parser.step, Parser.stepParameterName, hdot, hslash, halnum, refuse]

theorem advances_parameterExtension {chunk name extension : Text}
    (hinside : InPiece piece (.parameterExtension chunk name extension))
    (hslash : c ≠ '/') (matchers : List PathMatcher) :
    Advances engine carry matchers piece (.parameterExtension chunk name extension) c := by
  obtain ⟨rfl, hparted⟩ := hinside
  by_cases hwrong : c ≠ '.' ∧ isAlnum c = false
  · refine advances_of_error ?_ matchers
    intro matchers
    simp [Parser.step, Parser.stepParameterExtension, hslash, hwrong, refuse]
  · have hright : ¬ (c ≠ '.' ∧ (!isAlnum c) = true) := by simpa using hwrong
    have hstep : ∀ matchers, (Parser.mk (.parameterExtension chunk name extension) carry
        matchers).step engine [] 0 (some c) = .ok ⟨.parameterExtension (chunk ++ [c]) name
          (extension ++ [c]), carry, matchers⟩ := by
      intro matchers
      simp only [Parser.step, Parser.stepParameterExtension, reduceCtorEq, Option.some.injEq,
        hslash, or_false, false_and, if_false, if_neg hright]
    have hnext : InPiece (chunk ++ [c])
        (.parameterExtension (chunk ++ [c]) name (extension ++ [c])) :=
      ⟨rfl, hparted.append [c]⟩
    exact advances_of_ok hstep hnext (escapes_of_parted hparted false c).symm matchers

theorem advances_regex {chunk : Text} {escaping : Bool}
    (hinside : InPiece piece (.regex chunk escaping)) (hc : ¬ (c = '/' ∧ escaping = false))
    (matchers : List PathMatcher) :
    Advances engine carry matchers piece (.regex chunk escaping) c := by
  obtain ⟨rfl, hregex⟩ := hinside
  have hescapes : escapes chunk escaping c = (decide (c = '\\') && !escaping) := by
    rw [escapes, List.isPrefixOf_iff_prefix.mpr hregex, Bool.true_and]
  have hnext : ∀ escaping', InPiece (chunk ++ [c]) (.regex (chunk ++ [c]) escaping') :=
    fun _ => ⟨rfl, hregex.trans (List.prefix_append _ _)⟩
  have hstep : ∀ matchers, (Parser.mk (.regex chunk escaping) carry matchers).step engine [] 0
      (some c) = .ok ⟨.regex (chunk ++ [c]) (decide (c = '\\') && !escaping), carry,
        matchers⟩ := by
    intro matchers
    cases escaping with
    | true => simp [Parser.step, Parser.stepRegex]
    | false =>
        have hslash : c ≠ '/' := fun heq => hc ⟨heq, rfl⟩
        by_cases hback : c = '\\'
        · simp [Parser.step, Parser.stepRegex, hback]
        · simp [Parser.step, Parser.stepRegex, hslash, hback]
  exact advances_of_ok hstep (hnext _) hescapes.symm matchers

/-- **A character inside a piece** leads to the same state, whatever has been pushed. -/
theorem advances (hinside : InPiece piece state) (hc : ¬ (c = '/' ∧ state.escaping = false))
    (matchers : List PathMatcher) : Advances engine carry matchers piece state c := by
  cases state with
  | start => exact hinside.elim
  | parameterEnd chunk name extension => exact hinside.elim
  | literal chunk => exact advances_literal hinside (fun heq => hc ⟨heq, rfl⟩) matchers
  | parameterStart chunk => exact advances_parameterStart hinside matchers
  | parameterType chunk type => exact advances_parameterType hinside matchers
  | parameterName chunk name =>
      exact advances_parameterName hinside (fun heq => hc ⟨heq, rfl⟩) matchers
  | parameterExtension chunk name extension =>
      exact advances_parameterExtension hinside (fun heq => hc ⟨heq, rfl⟩) matchers
  | regex chunk escaping => exact advances_regex hinside hc matchers

end Advances

theorem InPiece.ne_nil {piece : Text} (hinside : InPiece piece state) : piece ≠ [] := by
  rintro rfl
  cases state with
  | start => exact hinside
  | parameterEnd chunk name extension => exact hinside
  | literal chunk => exact hinside.2.2 List.nil_prefix
  | parameterStart chunk => cases hinside.2
  | parameterType chunk type => cases hinside.2.1
  | parameterName chunk name => exact hinside.2.2 List.nil_prefix
  | parameterExtension chunk name extension => exact hinside.2.2 List.nil_prefix
  | regex chunk escaping => cases List.prefix_nil.mp hinside.2

/-- A separator ends the piece, and the machine is at its start, with what the piece makes. -/
theorem outcome_separator {piece : Text} (hinside : InPiece piece state)
    (hescaping : state.escaping = false) (matchers : List PathMatcher) (rest : Text) :
    outcome engine ⟨state, carry, matchers⟩ ('/' :: rest) =
      (closeSegment engine carry state).bind fun made =>
        outcome engine ⟨.start, carry, matchers ++ made⟩ rest := by
  cases state with
  | start => exact hinside.elim
  | parameterEnd chunk name extension => exact hinside.elim
  | literal chunk => rfl
  | parameterStart chunk => rfl
  | parameterType chunk type =>
      have hdoomed : Doomed ⟨.parameterType (chunk ++ ['/']) (type ++ ['/']), carry, matchers⟩ :=
        List.mem_append_right type List.mem_cons_self
      exact hdoomed.outcome rest
  | parameterName chunk name =>
      rw [outcome, closeSegment]
      simp only [Parser.step, Parser.stepParameterName]
      by_cases hname : name = []
      · simp [hname, refuse, Except.toOption]
      · simp only [hname, and_false, if_false]
        rw [Option.bind_map]
        exact outcome_parameterEnd engine carry matchers chunk name [] rest
  | parameterExtension chunk name extension =>
      rw [outcome, closeSegment]
      simp only [Parser.step, Parser.stepParameterExtension]
      by_cases hextension : extension.length = 1
      · simp [hextension, refuse, Except.toOption]
      · simp only [hextension, and_false, if_false]
        rw [Option.bind_map]
        exact outcome_parameterEnd engine carry matchers chunk name extension rest
  | regex chunk escaping =>
      obtain rfl : escaping = false := hescaping
      rw [outcome, closeSegment]
      simp only [Parser.step, Parser.stepRegex, Parser.stepRegex.closeRegex]
      by_cases hcompiles : engine.compiles (chunk.drop 5) = true
      · simp [hcompiles, Except.toOption]
      · simp [hcompiles, Except.toOption]

/-- The first piece goes on from what has been read of it, and is cut in the same way alone. -/
theorem cutFrom_head (piece : Text) (escaped : Bool) (rest : Text) :
    ∃ more others, cutFrom piece escaped rest = (piece ++ more) :: others ∧
      cutFrom piece escaped more = [piece ++ more] ∧
      ∀ other ∈ others, cutFrom [] false other = [other] := by
  induction rest generalizing piece escaped with
  | nil => exact ⟨[], [], by simp [cutFrom], by simp [cutFrom], by simp⟩
  | cons c rest ih =>
      by_cases hend : c = '/' ∧ escaped = false
      · obtain ⟨more, others, hcut, halone, hothers⟩ := ih [] false
        refine ⟨[], (more :: others), ?_, by simp [cutFrom], ?_⟩
        · rw [cutFrom, if_pos hend, hcut, List.append_nil, List.nil_append]
        · intro other hmem
          rcases List.mem_cons.mp hmem with rfl | hmem
          · exact halone
          · exact hothers other hmem
      · obtain ⟨more, others, hcut, halone, hothers⟩ := ih (piece ++ [c]) (escapes piece escaped c)
        refine ⟨c :: more, others, ?_, ?_, hothers⟩
        · rw [cutFrom, if_neg hend, hcut, List.append_assoc, List.singleton_append]
        · rw [cutFrom, if_neg hend, halone, List.append_assoc, List.singleton_append]

/-- There is something, and nothing to cut in it. -/
def Whole (piece : Text) : Prop := piece ≠ [] ∧ cutFrom [] false piece = [piece]

theorem whole_of_mem {route piece : Text} (hmem : piece ∈ routePieces route) : Whole piece := by
  obtain ⟨hcut, hne⟩ := List.mem_filter.mp hmem
  refine ⟨by simpa using hne, ?_⟩
  obtain ⟨more, others, hroute, hmore, hothers⟩ := cutFrom_head [] false route
  rw [hroute, List.nil_append] at hcut
  rcases List.mem_cons.mp hcut with rfl | hcut
  · exact hmore
  · exact hothers piece hcut

/-- A piece is its own only piece. -/
theorem Whole.routePieces_eq {piece : Text} (hwhole : Whole piece) :
    routePieces piece = [piece] := by
  simp [routePieces, hwhole.2, hwhole.1]

theorem openChunk_append (before : Carry) (piece more : Text) :
    openChunk engine before (piece ++ more) =
      (openChunk engine before piece).bind fun reached =>
        more.foldlM (openStep engine) reached := by
  rw [openChunk, List.foldlM_append]
  rfl

/-- The machine runs piece by piece from its start. -/
def StartsAs (engine : RegexEngine) (rest : Text) : Prop :=
  ∀ carry matchers, outcome engine ⟨.start, carry, matchers⟩ rest =
    (runPieces engine carry (routePieces rest)).map fun made => matchers ++ made

/-- It does so from inside a piece. -/
def GoesOnAs (engine : RegexEngine) (rest : Text) : Prop :=
  ∀ before piece state carry matchers, openChunk engine before piece = some (state, carry) →
    InPiece piece state → outcome engine ⟨state, carry, matchers⟩ rest =
      (runPieces engine before ((cutFrom piece state.escaping rest).filter (· ≠ []))).map
        fun made => matchers ++ made

theorem startsAs_nil : StartsAs engine [] :=
  fun _ matchers => congrArg some (List.append_nil matchers).symm

theorem goesOnAs_nil : GoesOnAs engine [] := by
  intro before piece state carry matchers hopen hinside
  have hstart : state ≠ .start := by
    rintro rfl
    exact hinside
  have hend : ∀ chunk name extension, state ≠ .parameterEnd chunk name extension := by
    rintro chunk name extension rfl
    exact hinside
  have hpieces : ([piece].filter (· ≠ [])) = [piece] := by simp [hinside.ne_nil]
  rw [outcome_nil engine state carry matchers hstart hend, cutFrom, hpieces, runPieces, solo,
    hopen, Option.bind_some]
  cases closeSegment engine carry state with
  | none => rfl
  | some made => simp [runPieces]

/-- A separator is passed over, and any other character begins a piece. -/
theorem startsAs_cons {c : Char} {rest : Text} (hstart : StartsAs engine rest)
    (hopened : GoesOnAs engine rest) : StartsAs engine (c :: rest) := by
  intro carry matchers
  by_cases hslash : c = '/'
  · subst hslash
    exact hstart carry matchers
  · have hcut : routePieces (c :: rest) = (cutFrom [c] false rest).filter (· ≠ []) := by
      rw [routePieces, cutFrom, if_neg (by simp [hslash])]
      rfl
    rw [hcut]
    by_cases hparameter : c = ':'
    · subst hparameter
      have hopen : openChunk engine carry [':'] = some (.parameterStart [':'], carry) := rfl
      exact hopened carry [':'] _ carry matchers hopen ⟨rfl, rfl⟩
    · have hstep : ∀ matchers, (Parser.mk .start carry matchers).step engine [] 0 (some c) =
          .ok ⟨.literal [c], carry, matchers⟩ := by
        intro matchers
        simp only [Parser.step, Parser.stepStart, if_neg hslash, if_neg hparameter]
      have hopen : openChunk engine carry [c] = some (.literal [c], carry) := by
        have hnil : openChunk engine carry [] = some (.start, carry) := rfl
        exact openChunk_snoc hnil (openStep_of_step (hstep []))
      have hinside : InPiece [c] (.literal [c]) := by
        refine ⟨rfl, ?_⟩
        simp [Parted, regexStart, hparameter, Ne.symm hparameter]
      rw [outcome, hstep]
      exact hopened carry [c] _ carry matchers hopen hinside

/-- A separator ends the piece, and any other character goes on in it or dooms the route. -/
theorem goesOnAs_cons {c : Char} {rest : Text} (hstart : StartsAs engine rest)
    (hopened : GoesOnAs engine rest) : GoesOnAs engine (c :: rest) := by
  intro before piece state carry matchers hopen hinside
  by_cases hend : c = '/' ∧ state.escaping = false
  · obtain ⟨rfl, hescaping⟩ := hend
    have hpieces : (cutFrom piece state.escaping ('/' :: rest)).filter (· ≠ []) =
        piece :: routePieces rest := by
      rw [cutFrom, if_pos ⟨rfl, hescaping⟩, List.filter_cons_of_pos (by simp [hinside.ne_nil])]
      rfl
    rw [outcome_separator hinside hescaping, hpieces, runPieces, solo, hopen, Option.bind_some]
    cases closeSegment engine carry state with
    | none => rfl
    | some made =>
        simp only [Option.bind_some, Option.map_some, hstart _ _, Option.map_map]
        congr 1
        funext later
        exact List.append_assoc _ _ _
  · rw [cutFrom, if_neg hend]
    rcases advances hinside hend matchers with ⟨hnone, hfails⟩ |
      ⟨state', carry', hsome, hstep, hinside', hescaping⟩
    · obtain ⟨more, others, hcut, -⟩ :=
        cutFrom_head (piece ++ [c]) (escapes piece state.escaping c) rest
      have hsolo : solo engine before (piece ++ [c] ++ more) = none := by
        rw [solo, List.append_assoc, openChunk_append, hopen, Option.bind_some,
          List.singleton_append, List.foldlM_cons, hnone]
        rfl
      rw [outcome, hfails, hcut, List.filter_cons_of_pos (by simp), runPieces, hsolo]
      rfl
    · rw [outcome, hstep, Option.bind_some, ← hescaping]
      exact hopened before (piece ++ [c]) state' carry' matchers (openChunk_snoc hopen hsome)
        hinside'

/-- **The machine runs piece by piece**: from its start, and from inside a piece. -/
theorem outcome_eq_runPieces (engine : RegexEngine) (rest : Text) :
    StartsAs engine rest ∧ GoesOnAs engine rest := by
  induction rest with
  | nil => exact ⟨startsAs_nil, goesOnAs_nil⟩
  | cons c rest ih => exact ⟨startsAs_cons ih.1 ih.2, goesOnAs_cons ih.1 ih.2⟩

/-- **Parsing is piece by piece.** -/
theorem toOption_parse_eq_runPieces (engine : RegexEngine) (route : Text) :
    (parseEndpoint engine route).toOption = runPieces engine ⟨[], 0⟩ (routePieces route) := by
  rw [toOption_parse, Parser.make, (outcome_eq_runPieces engine route).1 _ _]
  cases runPieces engine ⟨[], 0⟩ (routePieces route) <;> rfl

end Liblw.Http.MountPath
