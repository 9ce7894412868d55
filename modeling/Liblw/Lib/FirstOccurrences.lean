import Mathlib.Tactic

/-!
# First occurrences

`List.eraseDups` leaves the first occurrence of each element of a list. Appending an element only
when it is new builds this list from the left.
-/

namespace Liblw.Lib

variable {α β : Type} [DecidableEq α] [DecidableEq β]

/-- The recursion of `List.eraseDups`: behind the first element only the others matter. -/
@[elab_as_elim]
theorem eraseDups_induction {motive : List α → Prop} (nil : motive [])
    (cons : ∀ first elements, motive (elements.filter fun b => !b == first) →
      motive (first :: elements)) (elements : List α) : motive elements := by
  induction hlength : elements.length using Nat.strong_induction_on generalizing elements with
  | _ length ih =>
      cases elements with
      | nil => exact nil
      | cons first elements =>
          have hshorter : (elements.filter fun b => !b == first).length < length :=
            hlength ▸ Nat.lt_succ_of_le (List.length_filter_le _ _)
          exact cons first elements (ih _ hshorter _ rfl)

theorem nodup_eraseDups (elements : List α) : elements.eraseDups.Nodup := by
  induction elements using eraseDups_induction with
  | nil => exact List.nodup_nil
  | cons first elements ih =>
      rw [List.eraseDups_cons, List.nodup_cons, List.mem_eraseDups, List.mem_filter]
      exact ⟨fun hmem => by simp at hmem, ih⟩

theorem eraseDups_eq_self {elements : List α} (hnodup : elements.Nodup) :
    elements.eraseDups = elements := by
  induction elements with
  | nil => rfl
  | cons first elements ih =>
      obtain ⟨hfirst, hrest⟩ := List.nodup_cons.mp hnodup
      have hkept : (elements.filter fun b => !b == first) = elements := by
        apply List.filter_eq_self.mpr
        intro b hb
        simpa using ne_of_mem_of_not_mem hb hfirst
      rw [List.eraseDups_cons, hkept, ih hrest]

theorem eraseDups_map {f : α → β} (hinjective : Function.Injective f) (elements : List α) :
    (elements.map f).eraseDups = elements.eraseDups.map f := by
  induction elements using eraseDups_induction with
  | nil => rfl
  | cons first elements ih =>
      have hfilter : ((elements.map f).filter fun b => !b == f first) =
          (elements.filter fun b => !b == first).map f := by
        rw [List.filter_map]
        congr 2
        funext b
        simp [hinjective.eq_iff]
      rw [List.map_cons, List.eraseDups_cons, hfilter, ih, List.eraseDups_cons, List.map_cons]

/-- What a list adds to the elements that are there already. -/
theorem removeAll_cons (first : α) (elements known : List α) :
    (first :: elements).removeAll known =
      if first ∈ known then elements.removeAll known else first :: elements.removeAll known := by
  simp only [List.removeAll, List.filter_cons, List.elem_eq_mem, Bool.not_eq_true',
    decide_eq_false_iff_not]
  split_ifs <;> rfl

theorem removeAll_append_singleton (elements known : List α) (last : α) :
    elements.removeAll (known ++ [last]) =
      (elements.removeAll known).filter fun b => !b == last := by
  rw [List.removeAll, List.removeAll, List.filter_filter]
  congr 1
  funext b
  by_cases hlast : b = last <;> simp [hlast]

end Liblw.Lib
