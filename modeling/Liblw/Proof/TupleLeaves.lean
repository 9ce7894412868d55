import Liblw.Lib.FirstOccurrences
import Liblw.Tuple

/-!
# Sanitized tuples

Deduplication leaves the first occurrences, and flattening leaves the leaves as long as no tuple
inside is qualified. A qualified one is not opened, and without its qualifiers it is a tuple again.
-/

namespace Liblw

variable {α : Type}

/-- Induction on a type, with the hypothesis for each member of a tuple. -/
@[elab_as_elim]
theorem CppType.inductionOn {motive : CppType α → Prop} (T : CppType α)
    (plain : ∀ qualifiers name, motive (.plain qualifiers name))
    (tuple : ∀ qualifiers members, (∀ T ∈ members, motive T) → motive (.tuple qualifiers members)) :
    motive T :=
  @CppType.rec α motive (fun members => ∀ T ∈ members, motive T) plain tuple nofun
    (fun _ _ hfirst hrest => List.forall_mem_cons.mpr ⟨hfirst, hrest⟩) T

/-! ### Deduplication -/

section Dedup

variable [DecidableEq α]

theorem tupleMemberIndex_eq_neg_one_iff {index : Int} (hindex : 0 ≤ index) (T : CppType α)
    (members : List (CppType α)) : tupleMemberIndex index T members = -1 ↔ T ∉ members := by
  induction members generalizing index with
  | nil => exact iff_of_true rfl List.not_mem_nil
  | cons member rest ih =>
      rw [tupleMemberIndex, List.mem_cons, not_or]
      split_ifs with hsame
      · exact iff_of_false (by omega) fun hboth => hboth.1 hsame
      · rw [ih (Int.add_nonneg hindex Int.one_nonneg)]
        exact (and_iff_right hsame).symm

theorem dedupTuple_eq (types results : List (CppType α)) :
    dedupTuple types results = results ++ (types.removeAll results).eraseDups := by
  induction types generalizing results with
  | nil => exact (List.append_nil results).symm
  | cons T rest ih =>
      have hnew := tupleMemberIndex_eq_neg_one_iff (Int.le_refl 0) T results
      rw [dedupTuple, Lib.removeAll_cons]
      by_cases hknown : T ∈ results
      · rw [if_neg fun hindex => hnew.mp hindex hknown, if_pos hknown, ih]
      · rw [if_pos (hnew.mpr hknown), if_neg hknown, ih, Lib.removeAll_append_singleton,
          List.eraseDups_cons, List.append_assoc, List.singleton_append]

theorem deduplicateTuple_eq (types : List (CppType α)) :
    deduplicateTuple types = types.eraseDups := by
  rw [deduplicateTuple, dedupTuple_eq, List.removeAll_nil, List.nil_append]

end Dedup

/-! ### Flattening -/

theorem tupleFlattenMembers_eq_of {members : List (CppType α)}
    (hmembers : ∀ T ∈ members, ∀ results, tupleFlatten T results = results ++ tupleFlatten T [])
    (results : List (CppType α)) :
    tupleFlattenMembers members results =
      results ++ members.flatMap fun T => tupleFlatten T [] := by
  induction members generalizing results with
  | nil => exact (List.append_nil results).symm
  | cons T rest ih =>
      obtain ⟨hfirst, hrest⟩ := List.forall_mem_cons.mp hmembers
      rw [tupleFlattenMembers, ih hrest, hfirst, List.append_assoc, List.flatMap_cons]

/-- What one type adds to the results does not depend on them. -/
theorem tupleFlatten_eq (T : CppType α) (results : List (CppType α)) :
    tupleFlatten T results = results ++ tupleFlatten T [] := by
  induction T using CppType.inductionOn generalizing results with
  | plain qualifiers name => rfl
  | tuple qualifiers members ih =>
      rw [tupleFlatten, tupleFlatten]
      split_ifs with hbare
      · rw [tupleFlattenMembers_eq_of ih, tupleFlattenMembers_eq_of ih, List.nil_append]
      · rfl

theorem flatTuple_eq (types : List (CppType α)) :
    flatTuple types = types.flatMap fun T => tupleFlatten T [] :=
  tupleFlattenMembers_eq_of (fun T _ => tupleFlatten_eq T) []

theorem tupleFlatten_tuple_bare (members : List (CppType α)) :
    tupleFlatten (.tuple .bare members) [] = flatTuple members := by
  rw [tupleFlatten, if_pos rfl, flatTuple]

/-- A qualified tuple is left as it is by the flattening. -/
theorem tupleFlatten_tuple_of_ne {qualifiers : Qualifiers} (hqualified : qualifiers ≠ .bare)
    (members : List (CppType α)) :
    tupleFlatten (.tuple qualifiers members) [] = [.tuple qualifiers members] := by
  rw [tupleFlatten, if_neg hqualified, List.nil_append]

theorem leavesOfMembers_eq (types : List (CppType α)) :
    leavesOfMembers types = types.flatMap leaves := by
  induction types with
  | nil => rfl
  | cons T rest ih => rw [leavesOfMembers, ih, List.flatMap_cons]

theorem tupleFlatten_map {T : CppType α} (hbare : ¬ HoldsQualifiedTuple T) :
    (tupleFlatten T []).map CppType.removeCvref = (leaves T).map (CppType.plain .bare) := by
  induction T using CppType.inductionOn with
  | plain qualifiers name => rfl
  | tuple qualifiers members ih =>
      have hqualifiers : qualifiers = .bare := by
        by_contra hqualified
        exact hbare (.here members hqualified)
      have hmembers : ∀ T ∈ members, (tupleFlatten T []).map CppType.removeCvref =
          (leaves T).map (CppType.plain .bare) :=
        fun T hmem => ih T hmem fun hholds => hbare (.inside _ hmem hholds)
      rw [hqualifiers, tupleFlatten_tuple_bare, flatTuple_eq, leaves, leavesOfMembers_eq,
        List.map_flatMap, List.map_flatMap]
      exact List.flatMap_congr hmembers

theorem exists_tuple_mem_tupleFlatten {T : CppType α} (hholds : HoldsQualifiedTuple T) :
    ∃ U ∈ tupleFlatten T [], U.IsTuple := by
  induction hholds with
  | @here qualifiers members hqualified =>
      rw [tupleFlatten_tuple_of_ne hqualified]
      exact ⟨.tuple qualifiers members, List.mem_singleton_self _, trivial⟩
  | @inside qualifiers T members hmem _ ih =>
      obtain ⟨U, hU, htuple⟩ := ih
      by_cases hbare : qualifiers = .bare
      · rw [hbare, tupleFlatten_tuple_bare, flatTuple_eq]
        exact ⟨U, List.mem_flatMap.mpr ⟨T, hmem, hU⟩, htuple⟩
      · rw [tupleFlatten_tuple_of_ne hbare]
        exact ⟨.tuple qualifiers members, List.mem_singleton_self _, trivial⟩

/-! ### Sanitized tuples -/

theorem CppType.plain_bare_injective :
    Function.Injective (CppType.plain .bare : α → CppType α) := by
  intro first second hsame
  exact (CppType.plain.inj hsame).2

theorem leavesOfMembers_map_plain (names : List α) :
    leavesOfMembers (names.map (CppType.plain .bare)) = names := by
  rw [leavesOfMembers_eq, List.flatMap_map]
  exact List.flatMap_singleton' names

section Sanitize

variable [DecidableEq α]

theorem sanitizeTuple_eq (types : List (CppType α)) :
    sanitizeTuple types = ((flatTuple types).map CppType.removeCvref).eraseDups :=
  deduplicateTuple_eq _

theorem sanitizeTuple_of_bare {types : List (CppType α)}
    (hbare : ∀ T ∈ types, ¬ HoldsQualifiedTuple T) :
    sanitizeTuple types = (leavesOfMembers types).eraseDups.map (.plain .bare) := by
  have hflat : (flatTuple types).map CppType.removeCvref =
      (leavesOfMembers types).map (CppType.plain .bare) := by
    rw [flatTuple_eq, leavesOfMembers_eq, List.map_flatMap, List.map_flatMap]
    exact List.flatMap_congr fun T hmem => tupleFlatten_map (hbare T hmem)
  rw [sanitizeTuple_eq, hflat, Lib.eraseDups_map CppType.plain_bare_injective]

/-- A list of unqualified plain types is only deduplicated. -/
theorem sanitizeTuple_map_plain (names : List α) :
    sanitizeTuple (names.map (CppType.plain .bare)) =
      names.eraseDups.map (CppType.plain .bare) := by
  have hbare : ∀ T ∈ names.map (CppType.plain .bare), ¬ HoldsQualifiedTuple T := by
    intro T hmem
    obtain ⟨name, _, rfl⟩ := List.mem_map.mp hmem
    nofun
  rw [sanitizeTuple_of_bare hbare, leavesOfMembers_map_plain]

theorem sanitizes_of_bare {types : List (CppType α)}
    (hbare : ∀ T ∈ types, ¬ HoldsQualifiedTuple T) : Sanitizes types := by
  have heq := sanitizeTuple_of_bare hbare
  have hplain : ∀ T ∈ sanitizeTuple types, ∃ name, T = .plain .bare name := by
    intro T hmem
    rw [heq] at hmem
    obtain ⟨name, _, rfl⟩ := List.mem_map.mp hmem
    exact ⟨name, rfl⟩
  have hnodup := Lib.nodup_eraseDups (leavesOfMembers types)
  refine ⟨?flat, ?unqualified, ?nodup, heq, ?idempotent⟩
  case flat =>
    intro T hmem
    obtain ⟨name, rfl⟩ := hplain T hmem
    exact id
  case unqualified =>
    intro T hmem
    obtain ⟨name, rfl⟩ := hplain T hmem
    rfl
  case nodup =>
    rw [heq]
    exact hnodup.map CppType.plain_bare_injective
  case idempotent =>
    rw [heq, sanitizeTuple_map_plain, Lib.eraseDups_eq_self hnodup]

theorem exists_tuple_mem_sanitizeTuple {types : List (CppType α)} {T : CppType α} (hmem : T ∈ types)
    (hholds : HoldsQualifiedTuple T) : ∃ U ∈ sanitizeTuple types, U.IsTuple := by
  obtain ⟨U, hU, htuple⟩ := exists_tuple_mem_tupleFlatten hholds
  have hflat : U ∈ flatTuple types := by
    rw [flatTuple_eq]
    exact List.mem_flatMap.mpr ⟨T, hmem, hU⟩
  refine ⟨U.removeCvref, ?_, ?_⟩
  · rw [sanitizeTuple_eq, List.mem_eraseDups]
    exact List.mem_map_of_mem hflat
  · cases U with
    | plain qualifiers name => exact htuple
    | tuple qualifiers members => trivial

/-- **Sanitizing a tuple.** The sanitized tuple holds the leaves, unqualified, once and in the order
of their first occurrence, and is sanitized itself, if and only if no tuple inside is qualified. -/
theorem sanitizes_iff (types : List (CppType α)) :
    Sanitizes types ↔ ∀ T ∈ types, ¬ HoldsQualifiedTuple T := by
  refine ⟨fun hsanitizes T hmem hholds => ?_, sanitizes_of_bare⟩
  obtain ⟨U, hU, htuple⟩ := exists_tuple_mem_sanitizeTuple hmem hholds
  exact hsanitizes.flat U hU htuple

end Sanitize

/-- `std::tuple<const std::tuple<int>>` keeps a tuple, which the next call opens. -/
theorem not_sanitizes_const_tuple :
    let constant : Qualifiers := ⟨true, false, .none⟩
    let types := [CppType.tuple constant [.plain .bare "int"]]
    sanitizeTuple types = [.tuple .bare [.plain .bare "int"]] ∧
      sanitizeTuple (sanitizeTuple types) = [.plain .bare "int"] ∧ ¬ Sanitizes types := by
  intro constant types
  have honce : sanitizeTuple types = [.tuple .bare [.plain .bare "int"]] := by decide
  refine ⟨honce, ?_, ?_⟩
  · rw [honce]
    decide
  · intro hsanitizes
    have hmem : CppType.tuple .bare [.plain .bare "int"] ∈ sanitizeTuple types :=
      honce ▸ List.mem_singleton_self _
    exact hsanitizes.flat _ hmem trivial

end Liblw
