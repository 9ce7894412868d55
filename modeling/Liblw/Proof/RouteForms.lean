import Liblw.Proof.RoutePieces

/-!
# The forms of a piece

A piece without a form makes nothing. A piece of a form makes what the form says and leaves the
carry of the form: a typed piece and a regular expression leave their type, a regular expression
counts one further, and one that ends in an open escape makes no matcher at all.
-/

namespace Liblw.Http.MountPath

open Liblw.Lib

variable {engine : RegexEngine} {carry : Carry}

/-- What a piece of a form makes, and the carry it leaves. -/
def makes (carry : Carry) (piece : Text) : PieceForm → Option (List PathMatcher × Carry)
  | .literal => some ([.literal piece], carry)
  | .parameter name extension =>
      (parameterMatcher carry.type piece name extension).toOption.map fun matcher =>
        ([matcher], carry)
  | .typed validator name extension =>
      some ([.validated piece name extension validator],
        ⟨typeText validator, carry.unnamedCounter⟩)
  | .regex pattern =>
      some (if dangles false pattern then [] else [.regex (carry.unnamedCounter + 1) piece],
        ⟨"re".toList, carry.unnamedCounter + 1⟩)

/-! ### One character -/

theorem openStep_literal {chunk : Text} {c : Char} (hc : c ≠ '/') :
    openStep engine (.literal chunk, carry) c = some (.literal (chunk ++ [c]), carry) := by
  simp [openStep, Parser.step, Parser.stepLiteral, hc]

theorem openStep_parameterStart {chunk : Text} {c : Char} :
    openStep engine (.parameterStart chunk, carry) c =
      if c = '[' then some (.parameterType (chunk ++ [c]) [], carry)
      else if isAlnum c then some (.parameterName (chunk ++ [c]) [c], carry)
      else none := by
  by_cases htype : c = '['
  · simp [openStep, Parser.step, Parser.stepParameterStart, htype]
  · by_cases halnum : isAlnum c = true
    · simp [openStep, Parser.step, Parser.stepParameterStart, htype, halnum]
    · simp [openStep, Parser.step, Parser.stepParameterStart, htype, halnum, refuse]

theorem openStep_parameterType {chunk type : Text} {c : Char} (hc : c ≠ ']') :
    openStep engine (.parameterType chunk type, carry) c =
      some (.parameterType (chunk ++ [c]) (type ++ [c]), carry) := by
  simp [openStep, Parser.step, Parser.stepParameterType, hc]

theorem openStep_parameterName {chunk name : Text} {c : Char} (hc : c ≠ '/') :
    openStep engine (.parameterName chunk name, carry) c =
      if c = '.' then
        if name = [] then none else some (.parameterExtension (chunk ++ [c]) name [c], carry)
      else if isAlnum c then some (.parameterName (chunk ++ [c]) (name ++ [c]), carry)
      else none := by
  by_cases hdot : c = '.'
  · by_cases hname : name = []
    · simp [openStep, Parser.step, Parser.stepParameterName, hdot, hname, refuse]
    · simp [openStep, Parser.step, Parser.stepParameterName, hdot, hname]
  · by_cases halnum : isAlnum c = true
    · simp [openStep, Parser.step, Parser.stepParameterName, hdot, hc, halnum]
    · simp [openStep, Parser.step, Parser.stepParameterName, hdot, hc, halnum, refuse]

theorem openStep_parameterExtension {chunk name extension : Text} {c : Char} (hc : c ≠ '/') :
    openStep engine (.parameterExtension chunk name extension, carry) c =
      if c = '.' ∨ isAlnum c = true then
        some (.parameterExtension (chunk ++ [c]) name (extension ++ [c]), carry)
      else none := by
  by_cases hdot : c = '.'
  · simp [openStep, Parser.step, Parser.stepParameterExtension, hdot]
  · by_cases halnum : isAlnum c = true
    · simp [openStep, Parser.step, Parser.stepParameterExtension, hc, hdot, halnum]
    · simp [openStep, Parser.step, Parser.stepParameterExtension, hc, hdot, halnum, refuse]

theorem openStep_regex {chunk : Text} {escaping : Bool} {c : Char}
    (hc : ¬ (c = '/' ∧ escaping = false)) :
    openStep engine (.regex chunk escaping, carry) c =
      some (.regex (chunk ++ [c]) (decide (c = '\\') && !escaping), carry) := by
  cases escaping with
  | true => simp [openStep, Parser.step, Parser.stepRegex]
  | false =>
      have hslash : c ≠ '/' := fun heq => hc ⟨heq, rfl⟩
      by_cases hback : c = '\\'
      · simp [openStep, Parser.step, Parser.stepRegex, hback]
      · simp [openStep, Parser.step, Parser.stepRegex, hslash, hback]

/-! ### Runs of characters -/

theorem run_literal {chunk more : Text} (hmore : '/' ∉ more) :
    more.foldlM (openStep engine) (.literal chunk, carry) =
      some (.literal (chunk ++ more), carry) := by
  induction more generalizing chunk with
  | nil => simp
  | cons c rest ih =>
      rw [List.mem_cons, not_or] at hmore
      rw [List.foldlM_cons, openStep_literal (Ne.symm hmore.1), Option.bind_eq_bind,
        Option.bind_some, ih hmore.2, List.append_assoc, List.singleton_append]

theorem run_parameterType {chunk type more : Text} (hmore : ']' ∉ more) :
    more.foldlM (openStep engine) (.parameterType chunk type, carry) =
      some (.parameterType (chunk ++ more) (type ++ more), carry) := by
  induction more generalizing chunk type with
  | nil => simp
  | cons c rest ih =>
      rw [List.mem_cons, not_or] at hmore
      rw [List.foldlM_cons, openStep_parameterType (Ne.symm hmore.1), Option.bind_eq_bind,
        Option.bind_some, ih hmore.2]
      simp

/-- The characters of a name. -/
theorem run_parameterName {chunk name more : Text} (hmore : ∀ c ∈ more, isAlnum c = true) :
    more.foldlM (openStep engine) (.parameterName chunk name, carry) =
      some (.parameterName (chunk ++ more) (name ++ more), carry) := by
  induction more generalizing chunk name with
  | nil => simp
  | cons c rest ih =>
      have halnum := hmore c List.mem_cons_self
      have hslash : c ≠ '/' := by
        rintro rfl
        exact absurd halnum (by decide)
      have hdot : c ≠ '.' := by
        rintro rfl
        exact absurd halnum (by decide)
      rw [List.foldlM_cons, openStep_parameterName hslash, if_neg hdot, if_pos halnum,
        Option.bind_eq_bind, Option.bind_some,
        ih fun c hmem => hmore c (List.mem_cons_of_mem _ hmem)]
      simp

/-- An extension goes on exactly as far as its characters do. -/
theorem run_parameterExtension {chunk name extension more : Text} (hslash : '/' ∉ more) :
    more.foldlM (openStep engine) (.parameterExtension chunk name extension, carry) =
      if ∀ c ∈ more, c = '.' ∨ isAlnum c = true then
        some (.parameterExtension (chunk ++ more) name (extension ++ more), carry)
      else none := by
  induction more generalizing chunk extension with
  | nil => simp
  | cons c rest ih =>
      rw [List.mem_cons, not_or] at hslash
      rw [List.foldlM_cons, openStep_parameterExtension (Ne.symm hslash.1)]
      by_cases hc : c = '.' ∨ isAlnum c = true
      · rw [if_pos hc, Option.bind_eq_bind, Option.bind_some, ih hslash.2]
        simp [hc]
      · rw [if_neg hc, if_neg fun hall => hc (hall c List.mem_cons_self)]
        rfl

/-- The machine follows a regular expression that the cut leaves whole. -/
theorem run_regex {chunk more : Text} {escaping : Bool} (hregex : regexStart <+: chunk)
    (hwhole : cutFrom chunk escaping more = [chunk ++ more]) :
    more.foldlM (openStep engine) (.regex chunk escaping, carry) =
      some (.regex (chunk ++ more) (dangles escaping more), carry) := by
  induction more generalizing chunk escaping with
  | nil => simp [dangles]
  | cons c rest ih =>
      rw [cutFrom] at hwhole
      by_cases hend : c = '/' ∧ escaping = false
      · rw [if_pos hend] at hwhole
        obtain ⟨more, others, hcut, -⟩ := cutFrom_head [] false rest
        rw [hcut] at hwhole
        simp at hwhole
      · have hescapes : escapes chunk escaping c = (decide (c = '\\') && !escaping) := by
          rw [escapes, List.isPrefixOf_iff_prefix.mpr hregex, Bool.true_and]
        rw [if_neg hend, hescapes] at hwhole
        have hrest : cutFrom (chunk ++ [c]) (decide (c = '\\') && !escaping) rest =
            [chunk ++ [c] ++ rest] := by
          rw [hwhole, List.append_assoc, List.singleton_append]
        rw [List.foldlM_cons, openStep_regex hend, Option.bind_eq_bind, Option.bind_some,
          ih (hregex.trans (List.prefix_append _ _)) hrest, dangles, List.append_assoc,
          List.singleton_append]

/-! ### Pieces -/

/-- Outside a regular expression the cut is made at every separator. -/
theorem notMem_of_cutFrom {piece more : Text} (hwhole : cutFrom piece false more = [piece ++ more])
    (hregex : ¬ regexStart <+: piece ++ more) : '/' ∉ more := by
  induction more generalizing piece with
  | nil => exact List.not_mem_nil
  | cons c rest ih =>
      rw [cutFrom] at hwhole
      by_cases hend : c = '/'
      · rw [if_pos ⟨hend, rfl⟩] at hwhole
        obtain ⟨more, others, hcut, -⟩ := cutFrom_head [] false rest
        rw [hcut] at hwhole
        simp at hwhole
      · have hbefore : regexStart.isPrefixOf piece = false := by
          rw [Bool.eq_false_iff, ne_eq, List.isPrefixOf_iff_prefix]
          exact fun hbegin => hregex (hbegin.trans (List.prefix_append _ _))
        have hescapes : escapes piece false c = false := by
          rw [escapes, hbefore, Bool.false_and, Bool.false_and]
        rw [if_neg fun hboth => hend hboth.1, hescapes] at hwhole
        rw [List.append_cons piece c rest] at hwhole hregex
        exact List.not_mem_cons_of_ne_of_not_mem (Ne.symm hend) (ih hwhole hregex)

/-- A piece is a regular expression or has no separator. -/
theorem Whole.notMem {piece : Text} (hwhole : Whole piece) (hregex : ¬ regexStart <+: piece) :
    '/' ∉ piece :=
  notMem_of_cutFrom hwhole.2 hregex

theorem Whole.pattern {pattern : Text} (hwhole : Whole (regexStart ++ pattern)) :
    cutFrom regexStart false pattern = [regexStart ++ pattern] :=
  hwhole.2

/-! ### What a form makes -/

/-- A name and its extension are read to the matcher that they make. -/
theorem run_parameter {chunk first tail extension : Text}
    (htail : ∀ c ∈ tail, isAlnum c = true) (hname : first ++ tail ≠ [])
    (hextension : Extends extension) :
    ((tail ++ extension).foldlM (openStep engine) (.parameterName chunk first, carry)).bind
        (fun reached => (closeSegment engine reached.2 reached.1).map fun made =>
          (made, reached.2)) =
      (parameterMatcher carry.type (chunk ++ (tail ++ extension)) (first ++ tail)
        extension).toOption.map fun matcher => ([matcher], carry) := by
  rw [List.foldlM_append, run_parameterName htail, Option.bind_eq_bind, Option.bind_some]
  rcases hextension with rfl | ⟨more, rfl, hmore, hall⟩
  · simp [closeSegment, hname, Function.comp_def]
  · have hslash : '/' ∉ more := fun hmem => absurd (hall '/' hmem) (by decide)
    rw [List.foldlM_cons, openStep_parameterName (by decide), if_pos rfl, if_neg hname,
      Option.bind_eq_bind, Option.bind_some, run_parameterExtension hslash, if_pos hall]
    simp [closeSegment, hmore, Function.comp_def]

/-- **A piece of a form makes what the form says.** -/
theorem solo_of_form {piece : Text} {form : PieceForm} (hwhole : Whole piece)
    (hform : HasForm engine piece form) : solo engine carry piece = makes carry piece form := by
  cases hform with
  | literal hhead =>
      obtain ⟨c, rest, rfl⟩ := List.exists_cons_of_ne_nil hwhole.1
      have hparameter : c ≠ ':' := by simpa using hhead
      have hregex : ¬ regexStart <+: c :: rest := by
        simp [regexStart, Ne.symm hparameter]
      obtain ⟨hslash, hrest⟩ := List.ne_and_not_mem_of_not_mem_cons (hwhole.notMem hregex)
      have hstart : openStep engine (.start, carry) c = some (.literal [c], carry) := by
        simp [openStep, Parser.step, Parser.stepStart, hparameter, Ne.symm hslash]
      rw [solo, openChunk, List.foldlM_cons, hstart, Option.bind_eq_bind, Option.bind_some,
        run_literal hrest]
      rfl
  | @parameter name extension hname hextension =>
      obtain ⟨c, tail, rfl⟩ := List.exists_cons_of_ne_nil hname.1
      have halnum := hname.2 c List.mem_cons_self
      have htype : c ≠ '[' := by
        rintro rfl
        exact absurd halnum (by decide)
      have htail : ∀ c ∈ tail, isAlnum c = true := fun c hmem =>
        hname.2 c (List.mem_cons_of_mem _ hmem)
      have hopen : openChunk engine carry (':' :: (c :: tail) ++ extension) =
          (tail ++ extension).foldlM (openStep engine) (.parameterName [':', c] [c], carry) := by
        change (openStep engine (.parameterStart [':'], carry) c).bind _ = _
        rw [openStep_parameterStart, if_neg htype, if_pos halnum]
        rfl
      rw [solo, hopen, run_parameter htail (by simp) hextension]
      rfl
  | @typed validator name extension hname hextension =>
      have hopen : openChunk engine carry
            (typeStart ++ typeText validator ++ ']' :: name ++ extension) =
          (name ++ extension).foldlM (openStep engine)
            (.parameterName (typeStart ++ typeText validator ++ [']']) [],
              ⟨typeText validator, carry.unnamedCounter⟩) := by
        cases validator <;> rfl
      have hnamed : [] ++ name ≠ [] := hname.1
      rw [solo, hopen, run_parameter hname.2 hnamed hextension]
      have hmatcher : ∀ chunk, parameterMatcher (typeText validator) chunk ([] ++ name) extension =
          .ok (.validated chunk name extension validator) := by
        intro chunk
        cases validator <;> rfl
      rw [hmatcher]
      simp [makes, Except.toOption]
  | @regex pattern hcompiles =>
      have hopen : openChunk engine carry (regexStart ++ pattern) =
          pattern.foldlM (openStep engine)
            (.regex regexStart false, ⟨"re".toList, carry.unnamedCounter + 1⟩) := rfl
      rw [solo, hopen, run_regex List.prefix_rfl hwhole.pattern, Option.bind_some, makes,
        closeSegment]
      cases hdangles : dangles false pattern with
      | true => rfl
      | false =>
          have hpattern : engine.compiles ((regexStart ++ pattern).drop 5) = true :=
            hcompiles.resolve_left (by simp [hdangles])
          simp [hpattern]

/-! ### Formless pieces -/

/-- What goes on from a name is the rest of the name, and an extension. -/
theorem of_run_parameterName {chunk first more : Text} {reached : State × Carry}
    {made : List PathMatcher} (hslash : '/' ∉ more) (hfirst : ∀ c ∈ first, isAlnum c = true)
    (hrun : more.foldlM (openStep engine) (.parameterName chunk first, carry) = some reached)
    (hclose : closeSegment engine reached.2 reached.1 = some made) :
    (∃ tail extension, more = tail ++ extension ∧ Named (first ++ tail) ∧ Extends extension) ∧
      reached.2 = carry ∧ ∃ name extension matcher,
        (parameterMatcher carry.type (chunk ++ more) name extension).toOption = some matcher := by
  induction more generalizing chunk first with
  | nil =>
      obtain rfl := Option.some.inj hrun
      rw [closeSegment] at hclose
      by_cases hname : first = []
      · rw [if_pos hname] at hclose
        cases hclose
      · rw [if_neg hname] at hclose
        obtain ⟨matcher, hmatcher, -⟩ := Option.map_eq_some_iff.mp hclose
        refine ⟨⟨[], [], rfl, ?_, Or.inl rfl⟩, rfl, first, [], matcher, ?_⟩
        · rw [List.append_nil]
          exact ⟨hname, hfirst⟩
        · rwa [List.append_nil]
  | cons c rest ih =>
      obtain ⟨hc, hrest⟩ := List.ne_and_not_mem_of_not_mem_cons hslash
      rw [List.foldlM_cons, openStep_parameterName (Ne.symm hc)] at hrun
      by_cases hdot : c = '.'
      · subst hdot
        by_cases hname : first = []
        · rw [if_pos rfl, if_pos hname] at hrun
          cases hrun
        · rw [if_pos rfl, if_neg hname, Option.bind_eq_bind, Option.bind_some,
            run_parameterExtension hrest] at hrun
          split_ifs at hrun with hall
          obtain rfl := Option.some.inj hrun
          rw [closeSegment] at hclose
          by_cases hlength : (['.'] ++ rest).length = 1
          · rw [if_pos hlength] at hclose
            cases hclose
          · rw [if_neg hlength] at hclose
            obtain ⟨matcher, hmatcher, -⟩ := Option.map_eq_some_iff.mp hclose
            have hmore : rest ≠ [] := by
              rintro rfl
              exact hlength rfl
            refine ⟨⟨[], '.' :: rest, rfl, ?_, Or.inr ⟨rest, rfl, hmore, hall⟩⟩, rfl, first,
              '.' :: rest, matcher, ?_⟩
            · rw [List.append_nil]
              exact ⟨hname, hfirst⟩
            · rw [List.append_cons]
              exact hmatcher
      · by_cases halnum : isAlnum c = true
        · rw [if_neg hdot, if_pos halnum, Option.bind_eq_bind, Option.bind_some] at hrun
          have hnext : ∀ d ∈ first ++ [c], isAlnum d = true := by
            simpa [or_imp, forall_and, halnum] using hfirst
          obtain ⟨⟨tail, extension, rfl, hnamed, hextension⟩, hcarry, hmatcher⟩ :=
            ih hrest hnext hrun
          rw [← List.append_cons] at hnamed hmatcher
          exact ⟨⟨c :: tail, extension, rfl, hnamed, hextension⟩, hcarry, hmatcher⟩
        · rw [if_neg hdot, if_neg halnum] at hrun
          cases hrun

theorem typeText_of_matcher {type chunk name extension : Text} {matcher : PathMatcher}
    (htype : type ≠ [])
    (hmatcher : (parameterMatcher type chunk name extension).toOption = some matcher) :
    ∃ validator, type = typeText validator := by
  rw [parameterMatcher, if_neg htype, validatorFor] at hmatcher
  split_ifs at hmatcher with hint huint
  · exact ⟨.int, hint⟩
  · exact ⟨.uint, huint⟩
  · cases hmatcher

/-- A type that is closed makes a typed parameter or a regular expression. -/
theorem form_of_type {type more : Text} {reached : State × Carry} {made : List PathMatcher}
    (hwhole : Whole (typeStart ++ type ++ ']' :: more)) (htype : ']' ∉ type)
    (hopen : openChunk engine carry (typeStart ++ type ++ ']' :: more) = some reached)
    (hclose : closeSegment engine reached.2 reached.1 = some made) :
    ∃ form, HasForm engine (typeStart ++ type ++ ']' :: more) form := by
  have hbegin : openChunk engine carry (typeStart ++ type ++ ']' :: more) =
      (openStep engine (.parameterType (typeStart ++ type) type, carry) ']').bind
        fun reached => more.foldlM (openStep engine) reached := by
    rw [List.append_assoc, openChunk_append]
    change (type ++ ']' :: more).foldlM (openStep engine) (.parameterType typeStart [], carry) = _
    rw [List.foldlM_append, run_parameterType htype]
    rfl
  rw [hbegin] at hopen
  by_cases hempty : type = []
  · subst hempty
    cases hopen
  by_cases hregex : type = "re".toList
  · subst hregex
    have hrun : more.foldlM (openStep engine)
        (.regex regexStart false, ⟨"re".toList, carry.unnamedCounter + 1⟩) = some reached := hopen
    rw [run_regex List.prefix_rfl hwhole.pattern] at hrun
    obtain rfl := Option.some.inj hrun
    refine ⟨.regex more, HasForm.regex ?_⟩
    rw [closeSegment] at hclose
    split_ifs at hclose with hdangles hcompiles
    · exact Or.inl hdangles
    · exact Or.inr hcompiles
  · have hstep : openStep engine (.parameterType (typeStart ++ type) type, carry) ']' =
        some (.parameterName (typeStart ++ type ++ [']']) [], { carry with type }) := by
      simp only [openStep, Parser.step, Parser.stepParameterType, if_true, if_neg hempty,
        if_neg hregex]
    rw [hstep, Option.bind_some] at hopen
    have hnot : ¬ regexStart <+: typeStart ++ type ++ ']' :: more := by
      rw [List.append_cons]
      exact ((parted_of_type htype hregex).append more).1
    have hslash : '/' ∉ more := fun hmem =>
      hwhole.notMem hnot (List.mem_append_right _ (List.mem_cons_of_mem _ hmem))
    obtain ⟨⟨tail, extension, rfl, hnamed, hextension⟩, -, name', extension', matcher, hmatcher⟩ :=
      of_run_parameterName hslash (by simp) hopen hclose
    obtain ⟨validator, rfl⟩ := typeText_of_matcher hempty hmatcher
    exact ⟨_, by simpa using HasForm.typed hnamed hextension⟩

/-- **What makes something has a form.** -/
theorem form_of_solo {piece : Text} {made : List PathMatcher × Carry} (hwhole : Whole piece)
    (hsolo : solo engine carry piece = some made) : ∃ form, HasForm engine piece form := by
  by_cases hhead : piece.head? = some ':'
  · obtain ⟨rest, rfl⟩ : ∃ rest, piece = ':' :: rest := by
      cases piece with
      | nil => cases hhead
      | cons c rest =>
          obtain rfl := Option.some.inj hhead
          exact ⟨rest, rfl⟩
    obtain ⟨reached, hopen, hmade⟩ := Option.bind_eq_some_iff.mp hsolo
    obtain ⟨closed, hclose, -⟩ := Option.map_eq_some_iff.mp hmade
    cases rest with
    | nil =>
        obtain rfl := Option.some.inj hopen
        cases hclose
    | cons c more =>
        have hrun : (openStep engine (.parameterStart [':'], carry) c).bind
            (fun reached => more.foldlM (openStep engine) reached) = some reached := hopen
        rw [openStep_parameterStart] at hrun
        by_cases htype : c = '['
        · subst htype
          by_cases hend : ']' ∈ more
          · obtain ⟨type, more, rfl, hnot⟩ := List.eq_append_cons_of_mem hend
            exact form_of_type hwhole hnot hopen hclose
          · rw [if_pos rfl, Option.bind_some, run_parameterType hend] at hrun
            obtain rfl := Option.some.inj hrun
            cases hclose
        · by_cases halnum : isAlnum c = true
          · rw [if_neg htype, if_pos halnum, Option.bind_some] at hrun
            have hnot : ¬ regexStart <+: ':' :: c :: more := by
              simp [regexStart, Ne.symm htype]
            have hslash : '/' ∉ more := fun hmem =>
              hwhole.notMem hnot (List.mem_cons_of_mem _ (List.mem_cons_of_mem _ hmem))
            obtain ⟨⟨tail, extension, rfl, hnamed, hextension⟩, -⟩ :=
              of_run_parameterName hslash (by simpa using halnum) hrun hclose
            exact ⟨_, HasForm.parameter hnamed hextension⟩
          · rw [if_neg htype, if_neg halnum] at hrun
            cases hrun
  · exact ⟨.literal, .literal hhead⟩

end Liblw.Http.MountPath
