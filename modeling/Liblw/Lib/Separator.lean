import Mathlib.Tactic

/-!
# Lists with separators

Pieces that are free of a separator are told by the list in which each of them stands behind one.
-/

namespace Liblw.Lib

variable {α : Type} {separator : α}

/-- A piece without the separator ends where the separator stands first. -/
theorem append_inj_of_notMem {first second rest rest' : List α} (hfirst : separator ∉ first)
    (hsecond : separator ∉ second) (hrest : ∀ a ∈ rest.head?, a = separator)
    (hrest' : ∀ a ∈ rest'.head?, a = separator) (heq : first ++ rest = second ++ rest') :
    first = second ∧ rest = rest' := by
  rcases List.append_eq_append_iff.mp heq with ⟨inner, rfl, rfl⟩ | ⟨inner, rfl, rfl⟩
  · cases inner with
    | nil => exact ⟨(List.append_nil _).symm, rfl⟩
    | cons a inner =>
        obtain rfl := hrest a rfl
        simp at hsecond
  · cases inner with
    | nil => exact ⟨List.append_nil _, rfl⟩
    | cons a inner =>
        obtain rfl := hrest' a rfl
        simp at hfirst

theorem head?_flatMap_separator (pieces : List (List α)) :
    ∀ a ∈ (pieces.flatMap fun piece => separator :: piece).head?, a = separator := by
  cases pieces with
  | nil => simp
  | cons piece pieces => simp

theorem flatMap_separator_inj {pieces pieces' : List (List α)}
    (hpieces : ∀ piece ∈ pieces, separator ∉ piece)
    (hpieces' : ∀ piece ∈ pieces', separator ∉ piece)
    (heq : (pieces.flatMap fun piece => separator :: piece) =
      pieces'.flatMap fun piece => separator :: piece) : pieces = pieces' := by
  induction pieces generalizing pieces' with
  | nil =>
      cases pieces' with
      | nil => rfl
      | cons piece' pieces' => simp at heq
  | cons piece pieces ih =>
      cases pieces' with
      | nil => simp at heq
      | cons piece' pieces' =>
          rw [List.flatMap_cons, List.flatMap_cons, List.cons_append, List.cons_append,
            List.cons.injEq] at heq
          obtain ⟨rfl, hrest⟩ := append_inj_of_notMem (hpieces _ List.mem_cons_self)
            (hpieces' _ List.mem_cons_self) (head?_flatMap_separator _)
            (head?_flatMap_separator _) heq.2
          rw [ih (fun piece hmem => hpieces piece (List.mem_cons_of_mem _ hmem))
            (fun piece hmem => hpieces' piece (List.mem_cons_of_mem _ hmem)) hrest]

/-- Lists of naturals that are bounded entry by entry and have one sum are the same. -/
theorem eq_of_sum_eq {f g : α → Nat} {list : List α} (hle : ∀ a ∈ list, f a ≤ g a)
    (hsum : (list.map f).sum = (list.map g).sum) : ∀ a ∈ list, f a = g a := by
  induction list with
  | nil => simp
  | cons a list ih =>
      obtain ⟨ha, hlist⟩ := List.forall_mem_cons.mp hle
      have htail : (list.map f).sum ≤ (list.map g).sum := List.sum_le_sum hlist
      rw [List.map_cons, List.map_cons, List.sum_cons, List.sum_cons] at hsum
      exact List.forall_mem_cons.mpr ⟨by omega, ih hlist (by omega)⟩

theorem count_flatMap_separator [DecidableEq α] (separator : α) (pieces : List (List α)) :
    (pieces.flatMap fun piece => separator :: piece).count separator =
      pieces.length + (pieces.map fun piece => piece.count separator).sum := by
  induction pieces with
  | nil => rfl
  | cons piece pieces ih =>
      simp only [List.flatMap_cons, List.count_append, List.count_cons_self, ih, List.length_cons,
        List.map_cons, List.sum_cons]
      omega

/-- Pieces that are as many as the pieces of a cut at all separators are those pieces. -/
theorem eq_of_flatMap_separator [DecidableEq α] {pieces pieces' : List (List α)}
    (hpieces' : ∀ piece ∈ pieces', separator ∉ piece) (hlength : pieces.length = pieces'.length)
    (heq : (pieces.flatMap fun piece => separator :: piece) =
      pieces'.flatMap fun piece => separator :: piece) : pieces = pieces' := by
  refine flatMap_separator_inj ?_ hpieces' heq
  have hzero : (pieces'.map fun piece => piece.count separator).sum = 0 := by
    rw [List.sum_eq_zero_iff]
    intro count hmem
    obtain ⟨piece, hpiece, rfl⟩ := List.mem_map.mp hmem
    exact List.count_eq_zero.mpr (hpieces' piece hpiece)
  have hcount := congrArg (List.count separator) heq
  rw [count_flatMap_separator, count_flatMap_separator, hlength, hzero] at hcount
  have hsum : (pieces.map fun piece => piece.count separator).sum = 0 := by omega
  intro piece hpiece
  exact List.count_eq_zero.mp
    (List.sum_eq_zero_iff.mp hsum _ (List.mem_map.mpr ⟨piece, hpiece, rfl⟩))

end Liblw.Lib
