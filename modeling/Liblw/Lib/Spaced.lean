import Mathlib.Tactic

/-!
# Separators that a neighbourhood asks for

Some neighbours in a list need a separator between them, all others must not have one. A list in
which this has been respected is told by what is left of it without the separators: `spaced` puts
them back.
-/

namespace Liblw.Lib

variable {α : Type} (separator : α) (needs : α → α → Bool)

/-- The list with a separator between all neighbours that need one. -/
def spaced : List α → List α
  | [] => []
  | [a] => [a]
  | a :: b :: rest =>
      if needs a b then a :: separator :: spaced (b :: rest) else a :: spaced (b :: rest)

/-- The separators of the list stand where neighbours need one, and all that need one have one. -/
inductive WellSpaced : List α → Prop where
  | nil : WellSpaced []
  | single {a : α} (hvalue : a ≠ separator) : WellSpaced [a]
  | apart {a b : α} {rest : List α} (hvalue : a ≠ separator) (hneeds : needs a b = true)
      (hrest : WellSpaced (b :: rest)) : WellSpaced (a :: separator :: b :: rest)
  | next {a b : α} {rest : List α} (hvalue : a ≠ separator) (hneeds : needs a b = false)
      (hrest : WellSpaced (b :: rest)) : WellSpaced (a :: b :: rest)

variable {separator needs}

theorem spaced_cons (a : α) (rest : List α) :
    ∃ tail, spaced separator needs (a :: rest) = a :: tail := by
  cases rest with
  | nil => exact ⟨[], rfl⟩
  | cons b rest =>
      rw [spaced]
      split
      · exact ⟨_, rfl⟩
      · exact ⟨_, rfl⟩

theorem WellSpaced.head_ne {a : α} {rest : List α}
    (hspaced : WellSpaced separator needs (a :: rest)) : a ≠ separator := by
  cases hspaced with
  | single hvalue => exact hvalue
  | apart hvalue _ _ => exact hvalue
  | next hvalue _ _ => exact hvalue

/-- What is well spaced is determined by what it separates. -/
theorem WellSpaced.eq_spaced [DecidableEq α] {list : List α}
    (hspaced : WellSpaced separator needs list) :
    list = spaced separator needs (list.filter (· ≠ separator)) := by
  induction hspaced with
  | nil => rfl
  | single hvalue => simp [hvalue, spaced]
  | @apart a b rest hvalue hneeds hrest ih =>
      have hb := hrest.head_ne
      simp only [List.filter_cons, hb, hvalue, ne_eq, not_false_eq_true, decide_true, ↓reduceIte,
        not_true_eq_false, decide_false, Bool.false_eq_true] at ih ⊢
      rw [spaced, if_pos hneeds, ← ih]
  | @next a b rest hvalue hneeds hrest ih =>
      have hb := hrest.head_ne
      simp only [List.filter_cons, hb, hvalue, ne_eq, not_false_eq_true, decide_true,
        ↓reduceIte] at ih ⊢
      rw [spaced, if_neg (by simp [hneeds]), ← ih]

theorem wellSpaced_spaced {list : List α} (hlist : separator ∉ list) :
    WellSpaced separator needs (spaced separator needs list) := by
  induction list with
  | nil => exact .nil
  | cons a list ih =>
      rw [List.mem_cons, not_or] at hlist
      have ha : a ≠ separator := Ne.symm hlist.1
      have htail := ih hlist.2
      cases list with
      | nil => exact .single ha
      | cons b rest =>
          rw [spaced]
          obtain ⟨tail, hcut⟩ := @spaced_cons α separator needs b rest
          rw [hcut] at htail ⊢
          cases hneeds : needs a b with
          | true => exact .apart ha hneeds htail
          | false => exact .next ha hneeds htail

/-- The separators can be taken out again. -/
theorem filter_spaced [DecidableEq α] {list : List α} (hlist : separator ∉ list) :
    (spaced separator needs list).filter (· ≠ separator) = list := by
  induction list with
  | nil => rfl
  | cons a list ih =>
      rw [List.mem_cons, not_or] at hlist
      have ha : a ≠ separator := Ne.symm hlist.1
      have htail := ih hlist.2
      cases list with
      | nil => simp [spaced, ha]
      | cons b rest =>
          rw [spaced]
          split
          · rw [List.filter_cons_of_pos (by simpa using ha), List.filter_cons_of_neg (by simp),
              htail]
          · rw [List.filter_cons_of_pos (by simpa using ha), htail]

/-- A list that is well spaced has no neighbours that still need a separator. -/
theorem WellSpaced.isChain {list : List α} (hspaced : WellSpaced separator needs list)
    (hleft : ∀ a, needs a separator = false) (hright : ∀ b, needs separator b = false) :
    list.IsChain fun a b => needs a b = false := by
  induction hspaced with
  | nil => exact List.isChain_nil
  | single hvalue => exact List.isChain_singleton _
  | apart hvalue hneeds hrest ih =>
      exact List.isChain_cons_cons.mpr ⟨hleft _, List.isChain_cons_cons.mpr ⟨hright _, ih⟩⟩
  | next hvalue hneeds hrest ih => exact List.isChain_cons_cons.mpr ⟨hneeds, ih⟩

theorem spaced_append_next {first second : List α}
    (hneeds : ∀ a ∈ first.getLast?, ∀ b ∈ second.head?, needs a b = false) :
    spaced separator needs (first ++ second) =
      spaced separator needs first ++ spaced separator needs second := by
  induction first with
  | nil => rfl
  | cons a first ih =>
      cases first with
      | nil =>
          cases second with
          | nil => rfl
          | cons b second =>
              have hnext : needs a b = false := hneeds a rfl b rfl
              simp [spaced, hnext]
      | cons c first =>
          have htail := ih (by simpa using hneeds)
          rw [List.cons_append] at htail
          rw [List.cons_append, List.cons_append, spaced, spaced, htail]
          split
          · rfl
          · rfl

theorem spaced_append_apart {first second : List α} {a b : α} (hfirst : first.getLast? = some a)
    (hsecond : second.head? = some b) (hneeds : needs a b = true) :
    spaced separator needs (first ++ second) =
      spaced separator needs first ++ separator :: spaced separator needs second := by
  induction first with
  | nil => simp at hfirst
  | cons c first ih =>
      cases first with
      | nil =>
          obtain rfl : c = a := by simpa using hfirst
          cases second with
          | nil => simp at hsecond
          | cons d second =>
              obtain rfl : d = b := by simpa using hsecond
              simp [spaced, hneeds]
      | cons d first =>
          have htail := ih (by simpa using hfirst)
          rw [List.cons_append] at htail
          rw [List.cons_append, List.cons_append, spaced, spaced, htail]
          split
          · rfl
          · rfl

end Liblw.Lib
