import Liblw.Http.MountFits
import Liblw.Proof.MountAgreement
import Liblw.Proof.RouteForms

/-!
# The loop of a mount path

The loop hands the parts of the path to the matchers, and has nothing to make a view of when a part
is empty. It has a value exactly if the parts are the segments, up to one empty part behind them,
and the matchers accept all of them.
-/

namespace Liblw.Http.MountPath

open Liblw.Lib

variable {engine : RegexEngine} {urlPath : Text} {matchers : List PathMatcher}

/-- The parts behind a leading separator are handed to the matchers in turn. -/
def matchParts (engine : RegexEngine) :
    List PathMatcher → List Text → HeadersView → Result (Option HeadersView)
  | [], parts, parameters => .ok (if parts = [] ∨ parts = [[]] then some parameters else none)
  | _ :: _, [], _ => .ok none
  | matcher :: matchers, part :: parts, parameters =>
      if part = [] then .error (.undefined .nullView)
      else
        match matcher.match engine part with
        | none => .ok none
        | some value => matchParts engine matchers parts
            (if matcher.isLiteral then parameters else parameters.assign matcher.name value)

/-- A text has no separator, or a first one. -/
theorem splitOn_cases (text : Text) :
    ('/' ∉ text ∧ text.splitOn '/' = [text]) ∨
      ∃ part rest, text = part ++ '/' :: rest ∧ '/' ∉ part ∧
        text.splitOn '/' = part :: rest.splitOn '/' := by
  by_cases hslash : '/' ∈ text
  · obtain ⟨part, rest, rfl, hpart⟩ := List.eq_append_cons_of_mem hslash
    exact Or.inr ⟨part, rest, rfl, hpart, List.splitOn_append_cons_self_of_not_mem hpart rest⟩
  · exact Or.inl ⟨hslash, List.splitOn_eq_singleton hslash⟩

theorem splitOn_eq_singleton_nil_iff (text : Text) : text.splitOn '/' = [[]] ↔ text = [] := by
  constructor
  · intro hsplit
    have hjoin : ['/'].intercalate (text.splitOn '/') = text := List.intercalate_splitOn '/'
    rw [hsplit] at hjoin
    exact hjoin.symm
  · rintro rfl
    rfl

/-- Behind a separator the loop hands on the parts of the rest. -/
theorem matchFrom_eq_matchParts {before rest : Text} (hpath : urlPath = before ++ rest)
    (parameters : HeadersView) :
    matchFrom engine urlPath before.length none rest matchers parameters =
      matchParts engine matchers (rest.splitOn '/') parameters := by
  induction hlength : rest.length using Nat.strong_induction_on
    generalizing rest before matchers parameters with
  | h n ih =>
      cases matchers with
      | nil =>
          have hrest : before.length < urlPath.length ↔ rest ≠ [] := by
            rw [hpath, List.length_append, ← List.length_pos_iff]
            omega
          rw [matchFrom, matchParts]
          by_cases hnil : rest = []
          · simp [hrest, hnil]
          · simp [hrest, hnil, splitOn_eq_singleton_nil_iff]
      | cons matcher matchers =>
          rcases splitOn_cases rest with ⟨hfree, hsplit⟩ | ⟨part, later, rfl, hfree, hsplit⟩
          · rw [hsplit, matchParts]
            by_cases hnil : rest = []
            · subst hnil
              rfl
            · have hwhole : urlPath = before ++ rest ++ [] := by rw [hpath, List.append_nil]
              have hrun : matchFrom engine urlPath before.length none (rest ++ [])
                    (matcher :: matchers) parameters =
                  matchFrom engine urlPath (before.length + rest.length) (some before.length) []
                    (matcher :: matchers) parameters :=
                matchFrom_segment hfree hnil _ _ _ _ _
              rw [List.append_nil] at hrun
              rw [hrun, if_neg hnil, matchFrom, endPart_segment hnil hwhole]
              cases matcher.match engine rest with
              | none => rfl
              | some value => cases matchers <;> rfl
          · rw [hsplit, matchParts]
            by_cases hnil : part = []
            · subst hnil
              rfl
            · rw [matchFrom_segment hfree hnil, if_neg hnil, matchFrom, if_neg (by simp),
                endPart_segment hnil (by rw [hpath, List.append_assoc])]
              cases matcher.match engine part with
              | none => rfl
              | some value =>
                  have hnext : urlPath = (before ++ part ++ ['/']) ++ later := by
                    rw [hpath]
                    simp
                  have hshort : later.length < n := by
                    rw [← hlength, List.length_append, List.length_cons]
                    omega
                  have hrun := @ih later.length hshort matchers _ later hnext
                    (if matcher.isLiteral then parameters else parameters.assign matcher.name value)
                    rfl
                  rw [List.length_append, List.length_append] at hrun
                  exact hrun

/-- **The loop hands the parts on in turn.** -/
theorem match_eq_matchParts (engine : RegexEngine) (urlPath : Text) (matchers : List PathMatcher)
    (hmatchers : matchers ≠ []) :
    MountPath.match engine urlPath matchers = matchParts engine matchers (partsOf urlPath) [] := by
  obtain ⟨matcher, matchers, rfl⟩ := List.exists_cons_of_ne_nil hmatchers
  cases urlPath with
  | nil => rfl
  | cons c rest =>
      rw [«match», partsOf]
      by_cases hslash : c = '/'
      · subst hslash
        have hnext : '/' :: rest = ['/'] ++ rest := rfl
        have hrun : matchFrom engine ('/' :: rest) 1 none rest (matcher :: matchers) [] =
            matchParts engine (matcher :: matchers) (rest.splitOn '/') [] :=
          matchFrom_eq_matchParts hnext []
        rw [List.splitOn_cons_eq_if_modifyHead, matchFrom, if_neg (by simp), if_pos (by simp)]
        exact hrun
      · obtain ⟨first, others, hsplit⟩ := List.exists_cons_of_ne_nil (List.splitOn_ne_nil '/' rest)
        have hrun : matchFrom engine (c :: rest) 0 none (c :: rest) (matcher :: matchers) [] =
            matchParts engine (matcher :: matchers) ((c :: rest).splitOn '/') [] := by
          have hwhole : c :: rest = [] ++ c :: rest := rfl
          exact matchFrom_eq_matchParts hwhole []
        rw [matchFrom, if_pos hslash] at hrun ⊢
        rw [List.splitOn_cons_eq_if_modifyHead, if_neg (by simpa using hslash), hsplit] at hrun ⊢
        exact hrun

/-! ### Null views and values -/

/-- The loop makes a view of a null pointer exactly if an empty part comes while matchers are left
and all before it is accepted. -/
theorem matchParts_error_iff {parts : List Text} (parameters : HeadersView) :
    (∃ fault, matchParts engine matchers parts parameters = .error fault) ↔
      ∃ before after, parts = before ++ [] :: after ∧ before.length < matchers.length ∧
        Accepts engine (matchers.take before.length) before := by
  induction matchers generalizing parts parameters with
  | nil => simp [matchParts]
  | cons matcher matchers ih =>
      cases parts with
      | nil => simp [matchParts]
      | cons part parts =>
          by_cases hnil : part = []
          · subst hnil
            apply iff_of_true ⟨_, rfl⟩
            exact ⟨[], parts, rfl, Nat.succ_pos _, List.Forall₂.nil⟩
          · rw [matchParts, if_neg hnil]
            cases hmatch : matcher.match engine part with
            | none =>
                apply iff_of_false (by simp)
                rintro ⟨before, after, hparts, -, haccepts⟩
                cases before with
                | nil => exact hnil (List.cons.inj hparts).1
                | cons first before =>
                    obtain ⟨rfl, -⟩ := List.cons.inj hparts
                    obtain ⟨hfirst, -⟩ := List.forall₂_cons.mp haccepts
                    rw [hmatch] at hfirst
                    cases hfirst
            | some value =>
                dsimp only
                rw [ih]
                constructor
                · rintro ⟨before, after, rfl, hlength, haccepts⟩
                  refine ⟨part :: before, after, rfl, Nat.succ_lt_succ hlength, ?_⟩
                  exact List.Forall₂.cons (by rw [hmatch]; rfl) haccepts
                · rintro ⟨before, after, hparts, hlength, haccepts⟩
                  cases before with
                  | nil => exact absurd (List.cons.inj hparts).1 hnil
                  | cons first before =>
                      obtain ⟨rfl, rfl⟩ := List.cons.inj hparts
                      obtain ⟨-, haccepts⟩ := List.forall₂_cons.mp haccepts
                      exact ⟨before, after, rfl, Nat.lt_of_succ_lt_succ hlength, haccepts⟩

/-- The loop has a value exactly if the matchers take up the parts, up to an empty last one. -/
theorem matchParts_eq_some_iff {parts : List Text} {parameters result : HeadersView} :
    matchParts engine matchers parts parameters = .ok (some result) ↔
      ∃ before after, parts = before ++ after ∧ [] ∉ before ∧ (after = [] ∨ after = [[]]) ∧
        matchSegments engine matchers before parameters = some result := by
  induction matchers generalizing parts parameters with
  | nil =>
      rw [matchParts, Except.ok.injEq]
      constructor
      · intro hsome
        split_ifs at hsome with hparts
        exact ⟨[], parts, rfl, List.not_mem_nil, hparts, hsome⟩
      · rintro ⟨before, after, rfl, -, hafter, hmatch⟩
        cases before with
        | nil => rwa [List.nil_append, if_pos hafter]
        | cons first before => cases hmatch
  | cons matcher matchers ih =>
      cases parts with
      | nil =>
          apply iff_of_false (by simp [matchParts])
          rintro ⟨before, after, hparts, -, -, hmatch⟩
          obtain ⟨rfl, -⟩ := List.append_eq_nil_iff.mp hparts.symm
          cases hmatch
      | cons part parts =>
          by_cases hnil : part = []
          · subst hnil
            apply iff_of_false (by simp [matchParts])
            rintro ⟨before, after, hparts, hne, -, hmatch⟩
            cases before with
            | nil => cases hmatch
            | cons first before =>
                rw [(List.cons.inj hparts).1] at hne
                exact hne List.mem_cons_self
          · rw [matchParts, if_neg hnil]
            cases hmatch : matcher.match engine part with
            | none =>
                apply iff_of_false (by simp)
                rintro ⟨before, after, hparts, -, -, hsome⟩
                cases before with
                | nil => cases hsome
                | cons first before =>
                    obtain ⟨rfl, -⟩ := List.cons.inj hparts
                    rw [matchSegments, hmatch] at hsome
                    cases hsome
            | some value =>
                dsimp only
                rw [ih]
                constructor
                · rintro ⟨before, after, rfl, hne, hafter, hsome⟩
                  refine ⟨part :: before, after, rfl, ?_, hafter, ?_⟩
                  · exact List.not_mem_cons_of_ne_of_not_mem (Ne.symm hnil) hne
                  · rw [matchSegments, hmatch]
                    exact hsome
                · rintro ⟨before, after, hparts, hne, hafter, hsome⟩
                  cases before with
                  | nil => cases hsome
                  | cons first before =>
                      obtain ⟨rfl, rfl⟩ := List.cons.inj hparts
                      rw [matchSegments, hmatch] at hsome
                      exact ⟨before, after, rfl, fun hmem => hne (List.mem_cons_of_mem _ hmem),
                        hafter, hsome⟩

/-! ### The whole path -/

theorem segmentsOf_eq (urlPath : Text) :
    segmentsOf urlPath = (partsOf urlPath).filter (· ≠ []) := by
  rw [segmentsOf, partsOf]
  split
  · rename_i hsplit
    rw [hsplit]
    rfl
  · rfl

theorem partsOf_eq_nil_iff (urlPath : Text) : partsOf urlPath = [] ↔ urlPath = [] := by
  rw [partsOf]
  constructor
  · intro hnil
    split at hnil
    · rename_i hsplit
      rw [hnil] at hsplit
      exact (splitOn_eq_singleton_nil_iff urlPath).mp hsplit
    · exact absurd hnil (List.splitOn_ne_nil _ _)
  · rintro rfl
    rfl

theorem match_nil_matchers (engine : RegexEngine) (urlPath : Text) :
    MountPath.match engine urlPath [] = .ok (if urlPath = [] then some [] else none) := by
  cases urlPath <;> rfl

/-- A null view is made exactly if an empty part comes while matchers are left. -/
theorem match_error_iff (engine : RegexEngine) (urlPath : Text) (matchers : List PathMatcher) :
    (∃ fault, MountPath.match engine urlPath matchers = .error fault) ↔
      ∃ before after, partsOf urlPath = before ++ [] :: after ∧ before.length < matchers.length ∧
        Accepts engine (matchers.take before.length) before := by
  by_cases hmatchers : matchers = []
  · subst hmatchers
    simp [match_nil_matchers]
  · rw [match_eq_matchParts engine urlPath matchers hmatchers]
    exact matchParts_error_iff []

theorem filter_of_free {before after : List Text} (hbefore : [] ∉ before)
    (hafter : after = [] ∨ after = [[]]) : (before ++ after).filter (· ≠ []) = before := by
  have hkeep : before.filter (· ≠ []) = before := by
    apply List.filter_eq_self.mpr
    intro part hmem
    simpa using fun hnil : part = [] => hbefore (hnil ▸ hmem)
  rw [List.filter_append, hkeep]
  rcases hafter with rfl | rfl <;> simp

/-- **`match` has a value** exactly if the parts are the segments, and the matchers accept them. -/
theorem match_eq_some_iff (engine : RegexEngine) (urlPath : Text) (matchers : List PathMatcher)
    (result : HeadersView) :
    MountPath.match engine urlPath matchers = .ok (some result) ↔
      Tight matchers urlPath ∧
        matchSegments engine matchers (segmentsOf urlPath) [] = some result := by
  by_cases hmatchers : matchers = []
  · subst hmatchers
    rw [match_nil_matchers, Tight]
    by_cases hnil : urlPath = []
    · subst hnil
      simp [partsOf, segmentsOf, matchSegments]
    · apply iff_of_false (by simp [hnil])
      rintro ⟨hparts | ⟨-, hne⟩, hmatch⟩
      · have hsome : partsOf urlPath ≠ [] :=
          fun hparts => hnil ((partsOf_eq_nil_iff urlPath).mp hparts)
        rw [← hparts] at hmatch
        obtain ⟨part, parts, hcons⟩ := List.exists_cons_of_ne_nil hsome
        rw [hcons] at hmatch
        cases hmatch
      · exact hne rfl
  · rw [match_eq_matchParts engine urlPath matchers hmatchers, matchParts_eq_some_iff, Tight,
      segmentsOf_eq]
    constructor
    · rintro ⟨before, after, hparts, hbefore, hafter, hmatch⟩
      rw [hparts, filter_of_free hbefore hafter]
      refine ⟨?_, hmatch⟩
      rcases hafter with rfl | rfl
      · exact Or.inl (List.append_nil before)
      · exact Or.inr ⟨rfl, hmatchers⟩
    · rintro ⟨hparts, hmatch⟩
      have hfree : [] ∉ (partsOf urlPath).filter (· ≠ []) := by simp
      rcases hparts with hparts | ⟨hparts, -⟩
      · exact ⟨_, [], by rw [List.append_nil]; exact hparts, hfree, Or.inl rfl, hmatch⟩
      · exact ⟨_, [[]], hparts, hfree, Or.inr rfl, hmatch⟩

end Liblw.Http.MountPath
