import Liblw.Http.MountPath

/-!
# Matchers follow from the segments before them

A matcher is made from the characters of its own segment and from what the segments before have left
behind. So two routes that agree in their first segments have equal matchers there, whatever comes
later and wherever in the text the segments stand.
-/

namespace Liblw.Http.MountPath

open Liblw.Lib

variable {engine : RegexEngine}

namespace Parser

/-- Positions and the text of the route only show in error messages. -/
theorem step_eq_ok {parser next : Parser} {endpoint : Text} {i : Nat} {c : Option Char}
    (hstep : parser.step engine endpoint i c = .ok next) (endpoint' : Text) (i' : Nat) :
    parser.step engine endpoint' i' c = .ok next := by
  unfold step at hstep ⊢
  cases hstate : parser.state with
  | start => simpa only [hstate] using hstep
  | literal chunk => simpa only [hstate] using hstep
  | parameterStart chunk =>
      simp only [hstate] at hstep ⊢
      cases c with
      | none => cases hstep
      | some c =>
          simp only [stepParameterStart] at hstep ⊢
          split_ifs at hstep ⊢
          · exact hstep
          · cases hstep
          · exact hstep
  | parameterType chunk type =>
      simp only [hstate] at hstep ⊢
      cases c with
      | none => cases hstep
      | some c =>
          simp only [stepParameterType] at hstep ⊢
          split_ifs at hstep ⊢
          · cases hstep
          · exact hstep
          · exact hstep
          · exact hstep
  | parameterName chunk name =>
      simp only [hstate] at hstep ⊢
      unfold stepParameterName at hstep ⊢
      by_cases hended : (c = none ∨ c = some '.' ∨ c = some '/') ∧ name = []
      · rw [if_pos hended] at hstep
        cases hstep
      · rw [if_neg hended] at hstep ⊢
        cases c with
        | none => exact hstep
        | some c =>
            dsimp only at hstep ⊢
            split_ifs at hstep ⊢
            · exact hstep
            · exact hstep
            · cases hstep
            · exact hstep
  | parameterExtension chunk name extension =>
      simp only [hstate] at hstep ⊢
      unfold stepParameterExtension at hstep ⊢
      by_cases hended : (c = none ∨ c = some '/') ∧ extension.length = 1
      · rw [if_pos hended] at hstep
        cases hstep
      · rw [if_neg hended] at hstep ⊢
        cases c with
        | none => exact hstep
        | some c =>
            dsimp only at hstep ⊢
            split_ifs at hstep ⊢
            · exact hstep
            · cases hstep
            · exact hstep
  | parameterEnd chunk name extension => simpa only [hstate] using hstep
  | regex chunk escaping => simpa only [hstate] using hstep

theorem stepStart_matchers (state : State) (carry : Carry) (matchers : List PathMatcher)
    (c : Option Char) :
    stepStart ⟨state, carry, matchers⟩ c =
      ⟨(stepStart ⟨state, carry, []⟩ c).state, (stepStart ⟨state, carry, []⟩ c).carry,
        matchers⟩ := by
  cases c with
  | none => rfl
  | some c =>
      simp only [stepStart]
      split_ifs <;> rfl

/-- The matchers that have been pushed play no part in a step: it leaves them in front. -/
theorem step_matchers (state : State) (carry : Carry) (matchers : List PathMatcher)
    (endpoint : Text) (i : Nat) (c : Option Char) :
    step engine endpoint ⟨state, carry, matchers⟩ i c =
      (step engine endpoint ⟨state, carry, []⟩ i c).map fun parser =>
        { parser with matchers := matchers ++ parser.matchers } := by
  cases state with
  | start =>
      simp only [step, stepStart_matchers _ _ matchers, Except.map]
      cases c with
      | none => simp [stepStart]
      | some c =>
          simp only [stepStart]
          split_ifs <;> simp
  | literal chunk =>
      cases c with
      | none => simp [step, stepLiteral, Except.map]
      | some c =>
          simp only [step, stepLiteral, Except.map]
          split_ifs <;> simp
  | parameterStart chunk =>
      cases c with
      | none => rfl
      | some c =>
          simp only [step, stepParameterStart]
          split_ifs <;> simp [Except.map, refuse]
  | parameterType chunk type =>
      cases c with
      | none => rfl
      | some c =>
          simp only [step, stepParameterType]
          split_ifs <;> simp [Except.map, refuse]
  | parameterName chunk name =>
      simp only [step]
      unfold stepParameterName
      split_ifs
      · rfl
      · cases c with
        | none => simp [Except.map]
        | some c =>
            dsimp only
            split_ifs <;> simp [Except.map, refuse]
  | parameterExtension chunk name extension =>
      simp only [step]
      unfold stepParameterExtension
      split_ifs
      · rfl
      · cases c with
        | none => simp [Except.map]
        | some c =>
            dsimp only
            split_ifs <;> simp [Except.map, refuse]
  | parameterEnd chunk name extension =>
      simp only [step, pushParameter]
      cases parameterMatcher carry.type chunk name extension with
      | error fault => rfl
      | ok matcher =>
          simp only [Except.map, List.nil_append]
          rw [stepStart_matchers _ _ (matchers ++ [matcher]), stepStart_matchers _ _ [matcher]]
  | regex chunk escaping =>
      cases c with
      | none =>
          simp only [step, stepRegex, stepRegex.closeRegex]
          split_ifs <;> simp [Except.map]
      | some c =>
          simp only [step, stepRegex, stepRegex.closeRegex]
          split_ifs <;> simp [Except.map]

end Parser

/-! ### One segment -/

/-- A step inside a segment, told without positions. -/
def openStep (engine : RegexEngine) (current : State × Carry) (c : Char) :
    Option (State × Carry) :=
  match (Parser.mk current.1 current.2 []).step engine [] 0 (some c) with
  | .ok ⟨state, carry, []⟩ => some (state, carry)
  | _ => none

/-- Where the characters of a segment lead from its start. -/
def openChunk (engine : RegexEngine) (carry : Carry) (chunk : Text) : Option (State × Carry) :=
  chunk.foldlM (openStep engine) (.start, carry)

/-- The matcher that the end of the segment makes. -/
def closes (state : State) (carry : Carry) : Option PathMatcher :=
  match state with
  | .literal chunk => some (.literal chunk)
  | .parameterName chunk name => (parameterMatcher carry.type chunk name []).toOption
  | .parameterExtension chunk name extension =>
      (parameterMatcher carry.type chunk name extension).toOption
  | .regex chunk _ => some (.regex carry.unnamedCounter chunk)
  | _ => none

/-- The segment of a matcher leads from one carry to the next. -/
structure Segment (engine : RegexEngine) (carry : Carry) (matcher : PathMatcher) (next : Carry) :
    Prop where
  made : ∃ state, openChunk engine carry matcher.chunk = some (state, next) ∧
    closes state next = some matcher
  literal : matcher.isLiteral = true → matcher.chunk ≠ [] ∧ '/' ∉ matcher.chunk

/-- **A segment has one matcher.** -/
theorem Segment.unique {carry next next' : Carry} {matcher matcher' : PathMatcher}
    (hsegment : Segment engine carry matcher next)
    (hsegment' : Segment engine carry matcher' next') (hchunk : matcher.chunk = matcher'.chunk) :
    matcher = matcher' ∧ next = next' := by
  obtain ⟨state, hopen, hcloses⟩ := hsegment.made
  obtain ⟨state', hopen', hcloses'⟩ := hsegment'.made
  rw [hchunk, hopen', Option.some.injEq, Prod.mk.injEq] at hopen
  obtain ⟨rfl, rfl⟩ := hopen
  rw [hcloses] at hcloses'
  exact ⟨Option.some.inj hcloses', rfl⟩

/-- The matchers of consecutive segments. -/
inductive Chain (engine : RegexEngine) : Carry → List PathMatcher → Carry → Prop where
  | nil (carry : Carry) : Chain engine carry [] carry
  | cons {carry middle next : Carry} {matcher : PathMatcher} {rest : List PathMatcher}
      (hsegment : Segment engine carry matcher middle) (hrest : Chain engine middle rest next) :
      Chain engine carry (matcher :: rest) next

theorem Chain.snoc {carry middle next : Carry} {matchers : List PathMatcher}
    {matcher : PathMatcher} (hchain : Chain engine carry matchers middle)
    (hsegment : Segment engine middle matcher next) :
    Chain engine carry (matchers ++ [matcher]) next := by
  induction hchain with
  | nil carry => exact .cons hsegment (.nil _)
  | cons hfirst hrest ih => exact .cons hfirst (ih hsegment)

/-! ### The whole route -/

/-- The characters of the segment that is open in a state. -/
def State.chunk : State → Text
  | .start => []
  | .literal chunk => chunk
  | .parameterStart chunk => chunk
  | .parameterType chunk _ => chunk
  | .parameterName chunk _ => chunk
  | .parameterExtension chunk _ _ => chunk
  | .parameterEnd chunk _ _ => chunk
  | .regex chunk _ => chunk

/-- The state is where the characters of its segment lead, or one separator further. -/
def Inside (engine : RegexEngine) (carry : Carry) (state : State) (current : Carry) : Prop :=
  match state with
  | .parameterEnd chunk name extension =>
      ∃ before, openChunk engine carry chunk = some (before, current) ∧
        (before = .parameterName chunk name ∧ extension = [] ∨
          before = .parameterExtension chunk name extension)
  | .literal chunk =>
      openChunk engine carry chunk = some (.literal chunk, current) ∧ chunk ≠ [] ∧ '/' ∉ chunk
  | state => openChunk engine carry state.chunk = some (state, current)

/-- The matchers so far are a chain, and the state is inside the segment behind it. -/
def Parsed (engine : RegexEngine) (carry : Carry) (parser : Parser) : Prop :=
  ∃ middle, Chain engine carry parser.matchers middle ∧
    Inside engine middle parser.state parser.carry

/-- A step that pushes nothing is one inside the segment. -/
theorem openStep_of_step {state next : State} {carry carry' : Carry} {matchers : List PathMatcher}
    {c : Char}
    (hstep : Parser.step engine [] ⟨state, carry, matchers⟩ 0 (some c) =
      .ok ⟨next, carry', matchers⟩) :
    openStep engine (state, carry) c = some (next, carry') := by
  rw [Parser.step_matchers] at hstep
  unfold openStep
  cases hfree : Parser.step engine [] ⟨state, carry, []⟩ 0 (some c) with
  | error fault =>
      rw [hfree] at hstep
      cases hstep
  | ok parser =>
      rw [hfree] at hstep
      obtain ⟨state', carry'', pushed⟩ := parser
      have hparts := Except.ok.inj hstep
      rw [Parser.mk.injEq] at hparts
      obtain ⟨rfl, rfl, hpushed⟩ := hparts
      obtain rfl : pushed = [] := by simpa using hpushed
      rfl

theorem openChunk_snoc {carry : Carry} {chunk : Text} {current next : State × Carry} {c : Char}
    (hopen : openChunk engine carry chunk = some current)
    (hstep : openStep engine current c = some next) :
    openChunk engine carry (chunk ++ [c]) = some next := by
  unfold openChunk at hopen ⊢
  rw [List.foldlM_append, hopen]
  simp [hstep]

theorem parameterMatcher_eq_ok {type chunk name extension : Text} {matcher : PathMatcher}
    (hmatcher : parameterMatcher type chunk name extension = .ok matcher) :
    matcher.chunk = chunk ∧ matcher.isLiteral = false := by
  unfold parameterMatcher at hmatcher
  split_ifs at hmatcher
  · obtain rfl := Except.ok.inj hmatcher
    exact ⟨rfl, rfl⟩
  · cases hvalidator : validatorFor type with
    | error fault =>
        rw [hvalidator] at hmatcher
        cases hmatcher
    | ok validator =>
        rw [hvalidator] at hmatcher
        obtain rfl := Except.ok.inj hmatcher
        exact ⟨rfl, rfl⟩

namespace Parser

variable {carry : Carry} {parser next : Parser} {c : Char}

/-- The segment of a parameter is closed by pushing its matcher. -/
theorem parsed_pushParameter {chunk name extension : Text} (hparsed : Parsed engine carry parser)
    (hstate : parser.state = .parameterEnd chunk name extension)
    (hpush : parser.pushParameter chunk name extension = .ok next) :
    Parsed engine carry next ∧ next.state = .start := by
  obtain ⟨middle, hchain, hinside⟩ := hparsed
  rw [hstate] at hinside
  obtain ⟨before, hopen, hbefore⟩ := hinside
  unfold pushParameter at hpush
  cases hmatcher : parameterMatcher parser.carry.type chunk name extension with
  | error fault =>
      rw [hmatcher] at hpush
      cases hpush
  | ok matcher =>
      rw [hmatcher] at hpush
      obtain rfl := Except.ok.inj hpush
      obtain ⟨hchunk, hliteral⟩ := parameterMatcher_eq_ok hmatcher
      have hsegment : Segment engine middle matcher parser.carry := by
        refine ⟨⟨before, ?_, ?_⟩, ?_⟩
        · rw [hchunk]
          exact hopen
        · rcases hbefore with ⟨rfl, rfl⟩ | rfl
          · simp only [closes, hmatcher]
            rfl
          · simp only [closes, hmatcher]
            rfl
        · intro htrue
          rw [hliteral] at htrue
          cases htrue
      exact ⟨⟨parser.carry, hchain.snoc hsegment, rfl⟩, rfl⟩

theorem parsed_stepStart (hparsed : Parsed engine carry parser) (hstate : parser.state = .start) :
    Parsed engine carry (parser.stepStart (some c)) := by
  obtain ⟨middle, hchain, hinside⟩ := hparsed
  have hstart := hinside
  rw [hstate] at hstart
  simp only [stepStart]
  split_ifs with hseparator hparameter
  · exact ⟨middle, hchain, hinside⟩
  · refine ⟨middle, hchain, openChunk_snoc hstart ?_⟩
    simp [openStep, step, stepStart, hparameter]
  · refine ⟨middle, hchain, openChunk_snoc hstart ?_, by simp, by simpa using Ne.symm hseparator⟩
    simp [openStep, step, stepStart, hseparator, hparameter]

theorem parsed_closeRegex {middle current : Carry} {matchers : List PathMatcher} {chunk : Text}
    {escaping : Bool} (hchain : Chain engine carry matchers middle)
    (hopen : openChunk engine middle chunk = some (.regex chunk escaping, current))
    (hclose : stepRegex.closeRegex engine ⟨.regex chunk escaping, current, matchers⟩ chunk =
      .ok next) :
    Parsed engine carry next := by
  unfold stepRegex.closeRegex at hclose
  split_ifs at hclose with hcompiles
  obtain rfl := Except.ok.inj hclose
  have hsegment : Segment engine middle (.regex current.unnamedCounter chunk) current :=
    ⟨⟨.regex chunk escaping, hopen, rfl⟩, fun hliteral => by cases hliteral⟩
  exact ⟨current, hchain.snoc hsegment, rfl⟩

section Step

variable {middle current : Carry} {matchers : List PathMatcher} {chunk name extension type : Text}
  {escaping : Bool}

theorem parsed_stepLiteral (hchain : Chain engine carry matchers middle)
    (hinside : Inside engine middle (.literal chunk) current)
    (hstep : step engine [] ⟨.literal chunk, current, matchers⟩ 0 (some c) = .ok next) :
    Parsed engine carry next := by
  have hfree := hstep
  obtain ⟨hopen, hne, hslash⟩ := hinside
  simp only [step, stepLiteral] at hstep
  split_ifs at hstep with hseparator
  · obtain rfl := Except.ok.inj hstep
    have hsegment : Segment engine middle (.literal chunk) current :=
      ⟨⟨.literal chunk, hopen, rfl⟩, fun _ => ⟨hne, hslash⟩⟩
    exact ⟨current, hchain.snoc hsegment, rfl⟩
  · obtain rfl := Except.ok.inj hstep
    refine ⟨middle, hchain, openChunk_snoc hopen (openStep_of_step hfree), by simp, ?_⟩
    simpa [hslash] using Ne.symm hseparator

theorem parsed_stepParameterStart (hchain : Chain engine carry matchers middle)
    (hinside : Inside engine middle (.parameterStart chunk) current)
    (hstep : step engine [] ⟨.parameterStart chunk, current, matchers⟩ 0 (some c) = .ok next) :
    Parsed engine carry next := by
  have hfree := hstep
  simp only [step, stepParameterStart] at hstep
  split_ifs at hstep with htype halnum
  · obtain rfl := Except.ok.inj hstep
    exact ⟨middle, hchain, openChunk_snoc hinside (openStep_of_step hfree)⟩
  · cases hstep
  · obtain rfl := Except.ok.inj hstep
    exact ⟨middle, hchain, openChunk_snoc hinside (openStep_of_step hfree)⟩

theorem parsed_stepParameterType (hchain : Chain engine carry matchers middle)
    (hinside : Inside engine middle (.parameterType chunk type) current)
    (hstep : step engine [] ⟨.parameterType chunk type, current, matchers⟩ 0 (some c) =
      .ok next) :
    Parsed engine carry next := by
  have hfree := hstep
  simp only [step, stepParameterType] at hstep
  split_ifs at hstep with hend hempty hregex
  · cases hstep
  · obtain rfl := Except.ok.inj hstep
    exact ⟨middle, hchain, openChunk_snoc hinside (openStep_of_step hfree)⟩
  · obtain rfl := Except.ok.inj hstep
    exact ⟨middle, hchain, openChunk_snoc hinside (openStep_of_step hfree)⟩
  · obtain rfl := Except.ok.inj hstep
    exact ⟨middle, hchain, openChunk_snoc hinside (openStep_of_step hfree)⟩

theorem parsed_stepParameterName (hchain : Chain engine carry matchers middle)
    (hinside : Inside engine middle (.parameterName chunk name) current)
    (hstep : step engine [] ⟨.parameterName chunk name, current, matchers⟩ 0 (some c) =
      .ok next) :
    Parsed engine carry next := by
  have hfree := hstep
  dsimp only [step, stepParameterName] at hstep
  by_cases hended : (some c = none ∨ some c = some '.' ∨ some c = some '/') ∧ name = []
  · rw [if_pos hended] at hstep
    cases hstep
  · rw [if_neg hended] at hstep
    split_ifs at hstep with hdot hseparator halnum
    · obtain rfl := Except.ok.inj hstep
      exact ⟨middle, hchain, openChunk_snoc hinside (openStep_of_step hfree)⟩
    · obtain rfl := Except.ok.inj hstep
      exact ⟨middle, hchain, _, hinside, Or.inl ⟨rfl, rfl⟩⟩
    · cases hstep
    · obtain rfl := Except.ok.inj hstep
      exact ⟨middle, hchain, openChunk_snoc hinside (openStep_of_step hfree)⟩

theorem parsed_stepParameterExtension (hchain : Chain engine carry matchers middle)
    (hinside : Inside engine middle (.parameterExtension chunk name extension) current)
    (hstep : step engine [] ⟨.parameterExtension chunk name extension, current, matchers⟩ 0
      (some c) = .ok next) :
    Parsed engine carry next := by
  have hfree := hstep
  dsimp only [step, stepParameterExtension] at hstep
  by_cases hended : (some c = none ∨ some c = some '/') ∧ extension.length = 1
  · rw [if_pos hended] at hstep
    cases hstep
  · rw [if_neg hended] at hstep
    split_ifs at hstep with hseparator halnum
    · obtain rfl := Except.ok.inj hstep
      exact ⟨middle, hchain, _, hinside, Or.inr rfl⟩
    · cases hstep
    · obtain rfl := Except.ok.inj hstep
      exact ⟨middle, hchain, openChunk_snoc hinside (openStep_of_step hfree)⟩

theorem parsed_stepParameterEnd
    (hparsed : Parsed engine carry ⟨.parameterEnd chunk name extension, current, matchers⟩)
    (hstep : step engine [] ⟨.parameterEnd chunk name extension, current, matchers⟩ 0 (some c) =
      .ok next) :
    Parsed engine carry next := by
  simp only [step] at hstep
  cases hpush : pushParameter ⟨.parameterEnd chunk name extension, current, matchers⟩
      chunk name extension with
  | error fault =>
      rw [hpush] at hstep
      cases hstep
  | ok pushed =>
      rw [hpush] at hstep
      obtain rfl := Except.ok.inj hstep
      obtain ⟨hpushed, hstart⟩ := parsed_pushParameter hparsed rfl hpush
      exact parsed_stepStart hpushed hstart

theorem parsed_stepRegex (hchain : Chain engine carry matchers middle)
    (hinside : Inside engine middle (.regex chunk escaping) current)
    (hstep : step engine [] ⟨.regex chunk escaping, current, matchers⟩ 0 (some c) = .ok next) :
    Parsed engine carry next := by
  have hfree := hstep
  simp only [step, stepRegex] at hstep
  split_ifs at hstep with hescaping hescape hseparator
  · obtain rfl := Except.ok.inj hstep
    exact ⟨middle, hchain, openChunk_snoc hinside (openStep_of_step hfree)⟩
  · obtain rfl := Except.ok.inj hstep
    exact ⟨middle, hchain, openChunk_snoc hinside (openStep_of_step hfree)⟩
  · exact parsed_closeRegex hchain hinside hstep
  · obtain rfl := Except.ok.inj hstep
    exact ⟨middle, hchain, openChunk_snoc hinside (openStep_of_step hfree)⟩

end Step

/-- **One step.** It goes on inside its segment, or closes it with the matcher of the segment. -/
theorem parsed_step {endpoint : Text} {i : Nat} (hparsed : Parsed engine carry parser)
    (hstep : parser.step engine endpoint i (some c) = .ok next) : Parsed engine carry next := by
  have hfree := step_eq_ok hstep [] 0
  obtain ⟨state, current, matchers⟩ := parser
  have hwhole := hparsed
  obtain ⟨middle, hchain, hinside⟩ := hparsed
  cases state with
  | start =>
      obtain rfl := Except.ok.inj hfree
      exact parsed_stepStart hwhole rfl
  | literal chunk => exact parsed_stepLiteral hchain hinside hfree
  | parameterStart chunk => exact parsed_stepParameterStart hchain hinside hfree
  | parameterType chunk type => exact parsed_stepParameterType hchain hinside hfree
  | parameterName chunk name => exact parsed_stepParameterName hchain hinside hfree
  | parameterExtension chunk name extension =>
      exact parsed_stepParameterExtension hchain hinside hfree
  | parameterEnd chunk name extension => exact parsed_stepParameterEnd hwhole hfree
  | regex chunk escaping => exact parsed_stepRegex hchain hinside hfree

/-- The last step closes the last segment, ends a parameter, or drops an unfinished escape. -/
theorem parsed_step_none {endpoint : Text} {i : Nat} (hparsed : Parsed engine carry parser)
    (hstep : parser.step engine endpoint i none = .ok next) :
    Parsed engine carry next ∨ ∃ last, Chain engine carry next.matchers last ∧
      ∃ chunk, next.state = .regex chunk false := by
  obtain ⟨state, current, matchers⟩ := parser
  have hwhole := hparsed
  obtain ⟨middle, hchain, hinside⟩ := hparsed
  cases state with
  | start =>
      obtain rfl := Except.ok.inj hstep
      exact Or.inl hwhole
  | literal chunk =>
      obtain rfl := Except.ok.inj hstep
      obtain ⟨hopen, hne, hslash⟩ := hinside
      have hsegment : Segment engine middle (.literal chunk) current :=
        ⟨⟨.literal chunk, hopen, rfl⟩, fun _ => ⟨hne, hslash⟩⟩
      exact Or.inl ⟨current, hchain.snoc hsegment, rfl⟩
  | parameterStart chunk => cases hstep
  | parameterType chunk type => cases hstep
  | parameterName chunk name =>
      dsimp only [step, stepParameterName] at hstep
      by_cases hended :
        ((none : Option Char) = none ∨ none = some '.' ∨ none = some '/') ∧ name = []
      · rw [if_pos hended] at hstep
        cases hstep
      · rw [if_neg hended] at hstep
        obtain rfl := Except.ok.inj hstep
        exact Or.inl ⟨middle, hchain, _, hinside, Or.inl ⟨rfl, rfl⟩⟩
  | parameterExtension chunk name extension =>
      dsimp only [step, stepParameterExtension] at hstep
      by_cases hended : ((none : Option Char) = none ∨ none = some '/') ∧ extension.length = 1
      · rw [if_pos hended] at hstep
        cases hstep
      · rw [if_neg hended] at hstep
        obtain rfl := Except.ok.inj hstep
        exact Or.inl ⟨middle, hchain, _, hinside, Or.inr rfl⟩
  | parameterEnd chunk name extension =>
      simp only [step] at hstep
      cases hpush : pushParameter ⟨.parameterEnd chunk name extension, current, matchers⟩
          chunk name extension with
      | error fault =>
          rw [hpush] at hstep
          cases hstep
      | ok pushed =>
          rw [hpush] at hstep
          obtain rfl := Except.ok.inj hstep
          exact Or.inl (parsed_pushParameter hwhole rfl hpush).1
  | regex chunk escaping =>
      simp only [step, stepRegex] at hstep
      split_ifs at hstep with hescaping
      · obtain rfl := Except.ok.inj hstep
        exact Or.inr ⟨middle, hchain, chunk, rfl⟩
      · exact Or.inl (parsed_closeRegex hchain hinside hstep)

theorem parsed_loop {endpoint rest : Text} {i : Nat} (hparsed : Parsed engine carry parser)
    (hloop : loop engine endpoint i rest parser = .ok next) :
    Parsed engine carry next ∨ ∃ last, Chain engine carry next.matchers last ∧
      ∃ chunk, next.state = .regex chunk false := by
  induction rest generalizing i parser with
  | nil => exact parsed_step_none hparsed hloop
  | cons c rest ih =>
      unfold loop at hloop
      cases hstep : parser.step engine endpoint i (some c) with
      | error fault =>
          rw [hstep] at hloop
          cases hloop
      | ok middle =>
          rw [hstep] at hloop
          exact ih (parsed_step hparsed hstep) hloop

end Parser

/-- **The matchers of an accepted route are a chain**: each follows from its own segment and from
those before it. -/
theorem chain_of_parseEndpoint {endpoint : Text} {matchers : List PathMatcher}
    (hparse : parseEndpoint engine endpoint = .ok matchers) :
    ∃ last, Chain engine ⟨[], 0⟩ matchers last := by
  unfold parseEndpoint parseIntoMatchers at hparse
  have hstart : Parsed engine ⟨[], 0⟩ Parser.make := ⟨⟨[], 0⟩, .nil _, rfl⟩
  cases hloop : Parser.loop engine endpoint 0 endpoint Parser.make with
  | error fault =>
      rw [hloop] at hparse
      cases hparse
  | ok parser =>
      rw [hloop] at hparse
      simp only [bind, Except.bind] at hparse
      rcases Parser.parsed_loop hstart hloop with hparsed | ⟨last, hchain, chunk, hregex⟩
      · cases hstate : parser.state with
        | parameterEnd chunk name extension =>
            rw [hstate] at hparse
            dsimp only at hparse
            cases hpush : parser.pushParameter chunk name extension with
            | error fault =>
                rw [hpush] at hparse
                cases hparse
            | ok pushed =>
                rw [hpush] at hparse
                obtain rfl := Except.ok.inj hparse
                obtain ⟨⟨middle, hchain, -⟩, -⟩ := Parser.parsed_pushParameter hparsed hstate hpush
                exact ⟨middle, hchain⟩
        | _ =>
            rw [hstate] at hparse
            obtain rfl := Except.ok.inj hparse
            obtain ⟨middle, hchain, -⟩ := hparsed
            exact ⟨middle, hchain⟩
      · rw [hregex] at hparse
        obtain rfl := Except.ok.inj hparse
        exact ⟨last, hchain⟩

end Liblw.Http.MountPath
