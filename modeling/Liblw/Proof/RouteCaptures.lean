import Liblw.Proof.Routing

/-!
# The parameters of a match

The parameters are what the search recorded last under each name, on whatever way it was then. They
are those of the matched route exactly if what was recorded aside from the route is recorded again
or is the same.
-/

namespace Liblw.Http

open Liblw.Lib

variable {E : Type} {engine : RegexEngine} {path : Text} {matchersOf : E → List PathMatcher}
  {endpoints : List E} {steps : List RouteStep}

/-! ### Names in a map -/

theorem sameName_self (name : Text) : sameName name name := by
  simp [sameName]

theorem sameName_symm {first second : Text} (hname : sameName first second) :
    sameName second first := by
  simp only [sameName, beq_iff_eq] at hname ⊢
  exact hname.symm

theorem sameName_trans {first second third : Text} (hfirst : sameName first second)
    (hsecond : sameName second third) : sameName first third := by
  simp only [sameName, beq_iff_eq] at hfirst hsecond ⊢
  exact hfirst.trans hsecond

namespace HeadersView

theorem find_cons (entry : Text × Text) (headers : HeadersView) (name : Text) :
    find (entry :: headers) name =
      if sameName entry.1 name then some entry.2 else find headers name := by
  unfold find
  cases hname : sameName entry.1 name <;> simp [hname]

theorem find_replace (headers : HeadersView) (name value other : Text) :
    find (headers.map fun entry => if sameName entry.1 name then (entry.1, value) else entry)
        other =
      if sameName name other then (headers.find other).map fun _ => value
      else headers.find other := by
  induction headers with
  | nil => simp [find]
  | cons entry headers ih =>
      rw [List.map_cons, find_cons, find_cons, ih]
      by_cases hother : sameName name other
      · by_cases hentry : sameName entry.1 name
        · simp [hentry, hother, sameName_trans hentry hother]
        · have hentry' : ¬ sameName entry.1 other := fun h =>
            hentry (sameName_trans h (sameName_symm hother))
          simp [hentry, hentry', hother]
      · by_cases hentry : sameName entry.1 name
        · have hentry' : ¬ sameName entry.1 other := fun h =>
            hother (sameName_trans (sameName_symm hentry) h)
          simp [hentry, hentry', hother]
        · simp [hentry, hother]

theorem find_append_singleton (headers : HeadersView) (name value other : Text) :
    find (headers ++ [(name, value)]) other =
      (headers.find other).or (if sameName name other then some value else none) := by
  induction headers with
  | nil => simp [find]
  | cons entry headers ih =>
      rw [List.cons_append, find_cons, find_cons, ih]
      split_ifs <;> simp

theorem find_eq_find_of_sameName (headers : HeadersView) {name other : Text}
    (hname : sameName name other) : headers.find name = headers.find other := by
  have hnames : ∀ key, sameName key name = sameName key other := by
    intro key
    rw [Bool.eq_iff_iff]
    exact ⟨fun h => sameName_trans h hname, fun h => sameName_trans h (sameName_symm hname)⟩
  simp only [find, hnames]

/-- An assignment shows under its own name only. -/
theorem find_assign (headers : HeadersView) (name value other : Text) :
    (headers.assign name value).find other =
      if sameName name other then some value else headers.find other := by
  unfold assign
  by_cases hpresent : headers.contains name
  · rw [if_pos hpresent, find_replace]
    by_cases hother : sameName name other
    · rw [if_pos hother, if_pos hother, ← find_eq_find_of_sameName headers hother]
      obtain ⟨present, hfind⟩ := Option.isSome_iff_exists.mp hpresent
      rw [hfind]
      rfl
    · rw [if_neg hother, if_neg hother]
  · rw [if_neg hpresent, find_append_singleton]
    by_cases hother : sameName name other
    · have habsent : headers.find name = none := by
        simpa [contains] using hpresent
      rw [if_pos hother, if_pos hother, ← find_eq_find_of_sameName headers hother, habsent]
      rfl
    · rw [if_neg hother, if_neg hother, Option.or_none]

end HeadersView

/-! ### What was recorded last -/

theorem recordAll_concat (log : List Recording) (recording : Recording) :
    recordAll (log ++ [recording]) =
      (recordAll log).assign recording.matcher.name recording.captured := by
  simp [recordAll]

/-- The recording is the last one in the log under its name. -/
def LastUnder (log : List Recording) (name : Text) (recording : Recording) : Prop :=
  recording ∈ log ∧ sameName recording.matcher.name name ∧
    ∀ other ∈ log, sameName other.matcher.name name →
      other = recording ∨ Precedes other.steps recording.steps

theorem find_recordAll (log : List Recording) (name : Text)
    (hsorted : log.Pairwise fun first second => Precedes first.steps second.steps) :
    ((recordAll log).find name = none ∧ ∀ recording ∈ log, ¬ sameName recording.matcher.name name) ∨
      ∃ recording, LastUnder log name recording ∧
        (recordAll log).find name = some recording.captured := by
  induction log using List.reverseRecOn with
  | nil => exact Or.inl ⟨rfl, by simp⟩
  | append_singleton log last ih =>
      obtain ⟨hlog, -, hbefore⟩ := List.pairwise_append.mp hsorted
      rw [recordAll_concat, HeadersView.find_assign]
      by_cases hname : sameName last.matcher.name name
      · refine Or.inr ⟨last, ⟨by simp, hname, ?_⟩, by rw [if_pos hname]⟩
        intro other hother hsame
        rcases List.mem_append.mp hother with hother | hother
        · exact Or.inr (hbefore other hother last List.mem_cons_self)
        · exact Or.inl (List.mem_singleton.mp hother)
      · rw [if_neg hname]
        rcases ih hlog with ⟨hnone, hall⟩ | ⟨recording, ⟨hmem, hrecording, hlast⟩, hfind⟩
        · refine Or.inl ⟨hnone, ?_⟩
          intro other hother
          rcases List.mem_append.mp hother with hother | hother
          · exact hall other hother
          · rw [List.mem_singleton.mp hother]
            exact hname
        · refine Or.inr ⟨recording, ⟨List.mem_append_left _ hmem, hrecording, ?_⟩, hfind⟩
          intro other hother hsame
          rcases List.mem_append.mp hother with hother | hother
          · exact hlast other hother hsame
          · rw [List.mem_singleton.mp hother] at hsame
            exact absurd hsame hname

theorem LastUnder.unique {log : List Recording} {name : Text} {first second : Recording}
    (hfirst : LastUnder log name first) (hsecond : LastUnder log name second) : first = second := by
  rcases hfirst.2.2 second hsecond.1 hsecond.2.1 with heq | hbefore
  · exact heq.symm
  · rcases hsecond.2.2 first hfirst.1 hfirst.2.1 with heq | hafter
    · exact heq
    · exact absurd (hbefore.trans hafter) (not_precedes_self _)

theorem LastUnder.find {log : List Recording} {name : Text} {recording : Recording}
    (hsorted : log.Pairwise fun first second => Precedes first.steps second.steps)
    (hlast : LastUnder log name recording) :
    (recordAll log).find name = some recording.captured := by
  rcases find_recordAll log name hsorted with ⟨-, hnone⟩ | ⟨other, hother, hfind⟩
  · exact absurd hlast.2.1 (hnone recording hlast.1)
  · rw [hfind, hother.unique hlast]

/-! ### What the route records -/

/-- The recordings of the steps themselves, in their order. -/
structure OwnLog (engine : RegexEngine) (matchersOf : E → List PathMatcher) (endpoints : List E)
    (path : Text) (steps : List RouteStep) (log : List Recording) : Prop where
  sorted : log.Pairwise fun first second => Precedes first.steps second.steps
  mem_iff : ∀ recording, recording ∈ log ↔
    recording.Made engine matchersOf endpoints path ∧ recording.steps <+: steps

/-- Of two beginnings of the same steps the one that is tried first is the shorter one. -/
theorem prefix_of_precedes {first second : List RouteStep} (hfirst : first <+: steps)
    (hsecond : second <+: steps) (hprecedes : first = second ∨ Precedes first second) :
    first <+: second := by
  rcases hprecedes with rfl | hprecedes
  · exact List.prefix_rfl
  · rcases List.prefix_or_prefix_of_prefix hfirst hsecond with hbegin | hbegin
    · exact hbegin
    · rcases EndpointTrie.eq_or_precedes_of_prefix hbegin with rfl | hafter
      · exact List.prefix_rfl
      · exact absurd (hprecedes.trans hafter) (not_precedes_self _)

theorem comparable_of_sorted {log : List Recording} {first second : Recording}
    (hsorted : log.Pairwise fun first second => Precedes first.steps second.steps)
    (hfirst : first ∈ log) (hsecond : second ∈ log) (hne : first ≠ second) :
    Precedes first.steps second.steps ∨ Precedes second.steps first.steps := by
  have heither : log.Pairwise fun first second =>
      Precedes first.steps second.steps ∨ Precedes second.steps first.steps :=
    hsorted.imp Or.inl
  have hsymm : Std.Symm fun first second : Recording =>
      Precedes first.steps second.steps ∨ Precedes second.steps first.steps :=
    ⟨fun _ _ => Or.symm⟩
  exact heither.forall hfirst hsecond hne

/-- What the steps themselves record, the search records too. -/
theorem OwnLog.subset {log own : List Recording}
    (hlogged : EndpointTrie.Logged engine matchersOf endpoints path steps log)
    (hown : OwnLog engine matchersOf endpoints path steps own) {recording : Recording}
    (hmem : recording ∈ own) : recording ∈ log := by
  obtain ⟨hmade, hbegin⟩ := (hown.mem_iff recording).mp hmem
  refine (hlogged.mem_iff recording).mpr ⟨hmade, ?_⟩
  rcases EndpointTrie.eq_or_precedes_of_prefix hbegin with heq | hprecedes
  · exact Or.inl heq.symm
  · exact Or.inr hprecedes

/-- A recording aside that none follows under its name is the one the search leaves there. -/
theorem lastUnder_of_aside {log : List Recording} {aside : Recording}
    (hlogged : EndpointTrie.Logged engine matchersOf endpoints path steps log)
    (hmade : aside.Made engine matchersOf endpoints path) (hprecedes : Precedes aside.steps steps)
    (hlast : ¬ ∃ later : Recording, later.Made engine matchersOf endpoints path ∧
      sameName later.matcher.name aside.matcher.name ∧ Precedes aside.steps later.steps ∧
      (later.steps = steps ∨ Precedes later.steps steps)) :
    LastUnder log aside.matcher.name aside := by
  have hmem : aside ∈ log := (hlogged.mem_iff aside).mpr ⟨hmade, Or.inr hprecedes⟩
  refine ⟨hmem, sameName_self _, ?_⟩
  intro other hother hsame
  by_cases heq : other = aside
  · exact Or.inl heq
  · rcases comparable_of_sorted hlogged.sorted hother hmem heq with hbefore | hafter
    · exact Or.inr hbefore
    · obtain ⟨hmade', hvisited⟩ := (hlogged.mem_iff other).mp hother
      exact absurd ⟨other, hmade', hsame, hafter, hvisited⟩ hlast

/-- The last recording of the steps under a name is the longest of them. -/
theorem LastUnder.steps_begin {own : List Recording} {name : Text} {last other : Recording}
    (hown : OwnLog engine matchersOf endpoints path steps own) (hlast : LastUnder own name last)
    (hother : other.Made engine matchersOf endpoints path) (hbegin : other.steps <+: steps)
    (hsame : sameName other.matcher.name name) : other.steps <+: last.steps := by
  refine prefix_of_precedes hbegin ((hown.mem_iff last).mp hlast.1).2 ?_
  rcases hlast.2.2 other ((hown.mem_iff other).mpr ⟨hother, hbegin⟩) hsame with rfl | hbefore
  · exact Or.inl rfl
  · exact Or.inr hbefore

/-- The longest recording of the steps under a name is the last of them. -/
theorem lastUnder_of_longest {own : List Recording} {name : Text} {last : Recording}
    (hown : OwnLog engine matchersOf endpoints path steps own)
    (hmade : last.Made engine matchersOf endpoints path) (hbegin : last.steps <+: steps)
    (hsame : sameName last.matcher.name name)
    (hlongest : ∀ other : Recording, other.Made engine matchersOf endpoints path →
      other.steps <+: steps → sameName other.matcher.name name → other.steps <+: last.steps) :
    LastUnder own name last := by
  refine ⟨(hown.mem_iff last).mpr ⟨hmade, hbegin⟩, hsame, ?_⟩
  intro other hother hsame'
  obtain ⟨hmade', hbegin'⟩ := (hown.mem_iff other).mp hother
  rcases EndpointTrie.eq_or_precedes_of_prefix (hlongest other hmade' hbegin' hsame') with
    heq | hprecedes
  · exact Or.inl (hmade'.unique hmade heq.symm)
  · exact Or.inr hprecedes

/-- If the parameters are those of the steps, nothing aside disturbs them. -/
theorem undisturbed_of_find {log own : List Recording}
    (hlogged : EndpointTrie.Logged engine matchersOf endpoints path steps log)
    (hown : OwnLog engine matchersOf endpoints path steps own)
    (hfind : ∀ name, (recordAll log).find name = (recordAll own).find name) :
    Undisturbed engine matchersOf endpoints path steps := by
  intro aside hmade hprecedes haside
  by_cases hlater : ∃ later : Recording, later.Made engine matchersOf endpoints path ∧
      sameName later.matcher.name aside.matcher.name ∧ Precedes aside.steps later.steps ∧
      (later.steps = steps ∨ Precedes later.steps steps)
  · exact Or.inl hlater
  · right
    have hlast := lastUnder_of_aside hlogged hmade hprecedes hlater
    have hvalue := hfind aside.matcher.name
    rw [hlast.find hlogged.sorted] at hvalue
    rcases find_recordAll own aside.matcher.name hown.sorted with ⟨hnone, -⟩ |
      ⟨recording, hrecording, hsome⟩
    · rw [hnone] at hvalue
      cases hvalue
    · rw [hsome, Option.some.injEq] at hvalue
      obtain ⟨hmade', hbegin⟩ := (hown.mem_iff recording).mp hrecording.1
      refine ⟨recording, hmade', hbegin, hrecording.2.1, hvalue.symm, ?_⟩
      intro other hother hbegin' hsame'
      exact hrecording.steps_begin hown hother hbegin' hsame'

/-- If nothing aside disturbs the steps, their last recording under a name holds what the search
left there. -/
theorem Undisturbed.exists_lastUnder {log own : List Recording} {name : Text}
    {recording : Recording} (hundisturbed : Undisturbed engine matchersOf endpoints path steps)
    (hlogged : EndpointTrie.Logged engine matchersOf endpoints path steps log)
    (hown : OwnLog engine matchersOf endpoints path steps own)
    (hlast : LastUnder log name recording) :
    ∃ last, LastUnder own name last ∧ last.captured = recording.captured := by
  obtain ⟨hmem, hsame, hbefore⟩ := hlast
  obtain ⟨hmade, hposition⟩ := (hlogged.mem_iff recording).mp hmem
  by_cases hbegin : recording.steps <+: steps
  · refine ⟨recording, ⟨(hown.mem_iff recording).mpr ⟨hmade, hbegin⟩, hsame, ?_⟩, rfl⟩
    intro other hother hsame'
    exact hbefore other (hown.subset hlogged hother) hsame'
  · have hprecedes : Precedes recording.steps steps := by
      rcases hposition with heq | hprecedes
      · exact absurd (by rw [heq]) hbegin
      · exact hprecedes
    rcases hundisturbed recording hmade hprecedes hbegin with
      ⟨later, hlater, hsame', hafter, hvisited⟩ |
        ⟨last, hmade', hbegin', hsame', hcaptured, hlongest⟩
    -- what is recorded later under the name would have come last
    · rcases hbefore later ((hlogged.mem_iff later).mpr ⟨hlater, hvisited⟩)
        (sameName_trans hsame' hsame) with rfl | hearlier
      · exact absurd hafter (not_precedes_self _)
      · exact absurd (hafter.trans hearlier) (not_precedes_self _)
    · refine ⟨last, lastUnder_of_longest hown hmade' hbegin' (sameName_trans hsame' hsame) ?_,
        hcaptured⟩
      intro other hother hbegin'' hsame''
      exact hlongest other hother hbegin'' (sameName_trans hsame'' (sameName_symm hsame))

/-- **The parameters are those of the steps** exactly if nothing aside disturbs them. -/
theorem find_eq_iff_undisturbed {log own : List Recording}
    (hlogged : EndpointTrie.Logged engine matchersOf endpoints path steps log)
    (hown : OwnLog engine matchersOf endpoints path steps own) :
    (∀ name, (recordAll log).find name = (recordAll own).find name) ↔
      Undisturbed engine matchersOf endpoints path steps := by
  constructor
  · exact undisturbed_of_find hlogged hown
  · intro hundisturbed name
    rcases find_recordAll log name hlogged.sorted with ⟨hnone, hall⟩ |
      ⟨recording, hlast, hsome⟩
    · rcases find_recordAll own name hown.sorted with ⟨hnone', -⟩ | ⟨recording, hlast, -⟩
      · rw [hnone, hnone']
      · exact absurd hlast.2.1 (hall recording (hown.subset hlogged hlast.1))
    · obtain ⟨last, hlastOwn, hcaptured⟩ := hundisturbed.exists_lastUnder hlogged hown hlast
      rw [hsome, hlastOwn.find hown.sorted, hcaptured]

theorem ownLog_nil : OwnLog engine matchersOf endpoints path [] [] where
  sorted := List.Pairwise.nil
  mem_iff := by
    intro recording
    simp [Recording.steps]

theorem OwnLog.char {own : List Recording} (c : Char)
    (hown : OwnLog engine matchersOf endpoints path steps own) :
    OwnLog engine matchersOf endpoints path (steps ++ [.char c]) own where
  sorted := hown.sorted
  mem_iff := by
    intro recording
    rw [hown.mem_iff]
    refine and_congr_right ?_
    intro hmade
    constructor
    · intro hbegin
      exact hbegin.trans (List.prefix_append _ _)
    · intro hbegin
      exact prefix_of_snoc_prefix hbegin (by simp)

theorem OwnLog.chars {own : List Recording} (chunk : Text)
    (hown : OwnLog engine matchersOf endpoints path steps own) :
    OwnLog engine matchersOf endpoints path (steps ++ chunk.map RouteStep.char) own := by
  induction chunk generalizing steps with
  | nil => simpa using hown
  | cons c chunk ih => simpa using ih (hown.char c)

theorem OwnLog.wild {own : List Recording} {recording : Recording}
    (hown : OwnLog engine matchersOf endpoints path recording.before own)
    (hmade : recording.Made engine matchersOf endpoints path) :
    OwnLog engine matchersOf endpoints path recording.steps (own ++ [recording]) where
  sorted := by
    refine List.pairwise_append.mpr ⟨hown.sorted, List.pairwise_singleton _ _, ?_⟩
    intro earlier hmem last hlast
    rw [List.mem_singleton.mp hlast]
    have hbegin := ((hown.mem_iff earlier).mp hmem).2
    have hlength := hbegin.length_le
    refine lex_of_begins (hbegin.trans (List.prefix_append _ _)) ?_
    intro heq
    rw [heq] at hlength
    simp [Recording.steps] at hlength
  mem_iff := by
    intro other
    rw [List.mem_append, List.mem_singleton, hown.mem_iff]
    constructor
    · rintro (⟨hother, hbegin⟩ | rfl)
      · exact ⟨hother, hbegin.trans (List.prefix_append _ _)⟩
      · exact ⟨hmade, List.prefix_rfl⟩
    · rintro ⟨hother, hbegin⟩
      rcases List.prefix_concat_iff.mp hbegin with heq | hshort
      · exact Or.inr (hother.unique hmade heq)
      · exact Or.inl ⟨hother, hshort⟩

end Liblw.Http
