import Mathlib.Tactic
import Mathlib.Data.List.Lex

/-!
# The order of a search

The order in which a depth first search comes to the nodes of a tree is the lexicographic one of the
ways to them: a node comes before what lies below it, and of two ways that part the one comes first
whose edge is tried first.
-/

namespace Liblw.Lib

variable {α : Type} {r : α → α → Prop} {first second common : List α} {a b : α}

theorem lex_of_begins (hbegin : first <+: second) (hne : first ≠ second) :
    List.Lex r first second := by
  obtain ⟨rest, rfl⟩ := hbegin
  induction first with
  | nil =>
      cases rest with
      | nil => exact absurd rfl hne
      | cons head rest => exact List.Lex.nil
  | cons head first ih =>
      refine List.Lex.cons (ih ?_)
      intro heq
      exact hne (by rw [List.cons_append, ← heq])

theorem lex_of_part (hpart : r a b) (hfirst : common ++ [a] <+: first)
    (hsecond : common ++ [b] <+: second) : List.Lex r first second := by
  obtain ⟨rest, rfl⟩ := hfirst
  obtain ⟨rest', rfl⟩ := hsecond
  rw [List.append_assoc, List.append_assoc]
  exact List.Lex.append_left r (List.Lex.rel hpart) common

theorem prefix_or_part_of_lex (hlex : List.Lex r first second) :
    (first <+: second ∧ first ≠ second) ∨
      ∃ common a b, r a b ∧ common ++ [a] <+: first ∧ common ++ [b] <+: second := by
  induction hlex with
  | nil => exact Or.inl ⟨List.nil_prefix, by simp⟩
  | @rel a first b second hpart =>
      exact Or.inr ⟨[], a, b, hpart, ⟨first, rfl⟩, ⟨second, rfl⟩⟩
  | @cons head first second hlex ih =>
      rcases ih with ⟨hbegin, hne⟩ | ⟨common, a, b, hpart, hfirst, hsecond⟩
      · exact Or.inl ⟨List.cons_prefix_cons.mpr ⟨rfl, hbegin⟩, by simpa using hne⟩
      · exact Or.inr ⟨head :: common, a, b, hpart, List.cons_prefix_cons.mpr ⟨rfl, hfirst⟩,
          List.cons_prefix_cons.mpr ⟨rfl, hsecond⟩⟩

/-- Two ways lead on from one another, or part somewhere. -/
theorem prefix_or_part (first second : List α) :
    first <+: second ∨ second <+: first ∨
      ∃ common a b, a ≠ b ∧ common ++ [a] <+: first ∧ common ++ [b] <+: second := by
  induction first generalizing second with
  | nil => exact Or.inl List.nil_prefix
  | cons head first ih =>
      cases second with
      | nil => exact Or.inr (Or.inl List.nil_prefix)
      | cons head' second =>
          by_cases hhead : head = head'
          · subst hhead
            simp only [List.cons_prefix_cons, true_and]
            rcases ih second with hbegin | hbegin | ⟨common, a, b, hne, hfirst, hsecond⟩
            · exact Or.inl hbegin
            · exact Or.inr (Or.inl hbegin)
            · exact Or.inr (Or.inr ⟨head :: common, a, b, hne,
                List.cons_prefix_cons.mpr ⟨rfl, hfirst⟩, List.cons_prefix_cons.mpr ⟨rfl, hsecond⟩⟩)
          · exact Or.inr (Or.inr ⟨[], head, head', hhead, ⟨first, rfl⟩, ⟨second, rfl⟩⟩)

/-- What comes after a longer way comes after its beginning. -/
theorem prefix_of_snoc_prefix {c : α} (hbegin : common ++ [c] <+: first ++ [a]) (hne : c ≠ a) :
    common ++ [c] <+: first := by
  rcases List.prefix_concat_iff.mp hbegin with heq | hshort
  · exact absurd (List.append_inj' heq rfl).2 (by simpa using hne)
  · exact hshort

end Liblw.Lib
