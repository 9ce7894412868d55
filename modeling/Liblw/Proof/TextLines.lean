import Liblw.Http.Message
import Liblw.Proof.HeaderFields

/-!
# Lines

A text that is made of lines with their ends is told apart into these lines, unless there is a line
end inside of one of them; then there are more line ends than lines.
-/

namespace Liblw.Http

open HttpRequest

/-- The number of line ends in a text. -/
def lineEnds : Text → Nat
  | '\r' :: '\n' :: rest => lineEnds rest + 1
  | _ :: rest => lineEnds rest
  | [] => 0

def terminated (lines : List Text) : Text := lines.flatMap fun line => line ++ ['\r', '\n']

theorem terminated_cons (line : Text) (lines : List Text) :
    terminated (line :: lines) = line ++ '\r' :: '\n' :: terminated lines := by
  rw [terminated, List.flatMap_cons, List.append_assoc]
  rfl

theorem lineEnds_cons_of_ne {c : Char} {rest : Text}
    (hne : ∀ tail, c = '\r' → rest = '\n' :: tail → False) :
    lineEnds (c :: rest) = lineEnds rest := by
  rw [lineEnds]
  exact hne

theorem lineEnds_append_end (line rest : Text) :
    lineEnds (line ++ '\r' :: '\n' :: rest) = lineEnds line + 1 + lineEnds rest := by
  induction line using lineEnds.induct with
  | case1 line ih =>
      rw [List.cons_append, List.cons_append, lineEnds, ih, lineEnds]
      omega
  | case2 c line hne ih =>
      rw [List.cons_append, lineEnds_cons_of_ne, ih, lineEnds_cons_of_ne]
      · exact fun tail hc hline => hne tail hc hline
      · rintro tail hc hline
        cases line with
        | nil => cases hline
        | cons d line =>
            obtain ⟨rfl, -⟩ := List.cons.inj hline
            exact hne line hc rfl
  | case3 =>
      rw [List.nil_append, lineEnds, lineEnds]
      omega

theorem lineEnds_eq_zero_iff (text : Text) : lineEnds text = 0 ↔ ¬ ['\r', '\n'] <:+: text := by
  induction text using lineEnds.induct with
  | case1 rest ih =>
      rw [lineEnds]
      refine iff_of_false (Nat.succ_ne_zero _) (not_not_intro ?_)
      exact ⟨[], rest, rfl⟩
  | case2 c rest hne ih =>
      rw [lineEnds_cons_of_ne hne, ih, List.infix_cons_iff, not_or]
      refine ⟨fun h => ⟨?_, h⟩, And.right⟩
      rintro ⟨tail, htail⟩
      obtain ⟨rfl, hrest⟩ := List.cons.inj htail
      exact hne tail rfl hrest.symm
  | case3 => simp [lineEnds]

theorem lineEnds_terminated (lines : List Text) :
    lineEnds (terminated lines) = lines.length + (lines.map lineEnds).sum := by
  induction lines with
  | nil => rfl
  | cons line lines ih =>
      rw [terminated_cons, lineEnds_append_end, ih, List.map_cons, List.sum_cons, List.length_cons]
      omega

theorem findLineEnd_eq_some {text : Text} {length : Nat} (hfind : findLineEnd text = some length) :
    ∃ line rest, text = line ++ '\r' :: '\n' :: rest ∧ line.length = length ∧
      lineEnds line = 0 := by
  induction text using findLineEnd.induct generalizing length with
  | case1 rest =>
      obtain rfl := Option.some.inj hfind
      exact ⟨[], rest, rfl, rfl, rfl⟩
  | case2 c rest hne ih =>
      rw [findLineEnd] at hfind
      · obtain ⟨inner, hinner, rfl⟩ := Option.map_eq_some_iff.mp hfind
        obtain ⟨line, tail, rfl, rfl, hline⟩ := ih hinner
        refine ⟨c :: line, tail, rfl, rfl, ?_⟩
        rw [lineEnds_cons_of_ne, hline]
        rintro after rfl rfl
        exact hne _ rfl rfl
      · exact hne
  | case3 => cases hfind

/-- The first line of a text is what stands before its first line end. -/
theorem cutLine_eq_some_iff {text line rest : Text} :
    cutLine text = some (line, rest) ↔ text = line ++ '\r' :: '\n' :: rest ∧ lineEnds line = 0 := by
  unfold cutLine
  constructor
  · intro hcut
    obtain ⟨length, hfind, hpair⟩ := Option.map_eq_some_iff.mp hcut
    obtain ⟨first, after, rfl, rfl, hfirst⟩ := findLineEnd_eq_some hfind
    have hafter : (first ++ '\r' :: '\n' :: after).drop (first.length + 2) = after := by
      rw [← List.drop_drop, List.drop_left]
      rfl
    rw [List.take_left, hafter, Prod.mk.injEq] at hpair
    obtain ⟨rfl, rfl⟩ := hpair
    exact ⟨rfl, hfirst⟩
  · rintro ⟨rfl, hline⟩
    have hafter : (line ++ '\r' :: '\n' :: rest).drop (line.length + 2) = rest := by
      rw [← List.drop_drop, List.drop_left]
      rfl
    rw [findLineEnd_value ((lineEnds_eq_zero_iff line).mp hline), Option.map_some, List.take_left,
      hafter]

theorem cutLine_append {line : Text} (hline : lineEnds line = 0) (rest : Text) :
    cutLine (line ++ '\r' :: '\n' :: rest) = some (line, rest) :=
  cutLine_eq_some_iff.mpr ⟨rfl, hline⟩

/-- Lines without line ends are told by what they make together. -/
theorem terminated_inj {lines lines' : List Text} (hlines : ∀ line ∈ lines, lineEnds line = 0)
    (hlines' : ∀ line ∈ lines', lineEnds line = 0) (heq : terminated lines = terminated lines') :
    lines = lines' := by
  induction lines generalizing lines' with
  | nil =>
      cases lines' with
      | nil => rfl
      | cons line' lines' =>
          rw [terminated_cons] at heq
          exact absurd heq.symm (by simp [terminated])
  | cons line lines ih =>
      cases lines' with
      | nil =>
          rw [terminated_cons] at heq
          exact absurd heq (by simp [terminated])
      | cons line' lines' =>
          rw [terminated_cons, terminated_cons] at heq
          have hfirst := cutLine_append (hlines line List.mem_cons_self) (terminated lines)
          have hsecond := cutLine_append (hlines' line' List.mem_cons_self) (terminated lines')
          rw [heq, hsecond, Option.some.injEq, Prod.mk.injEq] at hfirst
          obtain ⟨rfl, hrest⟩ := hfirst
          rw [ih (fun other hmem => hlines other (List.mem_cons_of_mem _ hmem))
            (fun other hmem => hlines' other (List.mem_cons_of_mem _ hmem)) hrest.symm]

/-- As many lines without line ends make the same text only if there are none in the others. -/
theorem terminated_unique {lines lines' : List Text} (hlines : ∀ line ∈ lines, lineEnds line = 0)
    (hlength : lines.length = lines'.length) (heq : terminated lines = terminated lines') :
    lines = lines' := by
  refine terminated_inj hlines ?_ heq
  have hcount := congrArg lineEnds heq
  have hzero : (lines.map lineEnds).sum = 0 := by
    rw [List.sum_eq_zero_iff]
    intro n hmem
    obtain ⟨line, hline, rfl⟩ := List.mem_map.mp hmem
    exact hlines line hline
  rw [lineEnds_terminated, lineEnds_terminated, hzero, hlength] at hcount
  have hzero' : (lines'.map lineEnds).sum = 0 := by omega
  intro line hmem
  exact List.sum_eq_zero_iff.mp hzero' _ (List.mem_map_of_mem hmem)

end Liblw.Http
