import Liblw.Mime.Render

/-!
# Two spellings of one tree

The texts of a tree under two spellings of characters differ only inside its strings and keys, and
in length they differ exactly as the spellings of those characters do. The formatter's own spelling
is never longer than that of JSON, and shorter on every bare control character, so that the two
texts agree only where there is none.
-/

namespace Liblw.Mime

theorem length_commaSeparated (parts : List Text) :
    (commaSeparated parts).length = (parts.flatMap (',' :: ·)).length - 1 := by
  cases parts with
  | nil => rfl
  | cons first rest => simp [commaSeparated_cons]

/-! ### Two spellings of one tree -/

section Spellings

variable {spell other : Char → Text}

/-- The two texts of a string differ in length as the spellings of its characters do. -/
theorem length_literalIn (str : Text) :
    (literalIn spell str).length + (str.flatMap other).length =
      (literalIn other str).length + (str.flatMap spell).length := by
  simp only [literalIn, List.length_append, List.length_cons, List.length_nil]
  omega

mutual

theorem length_renderIn (value : Value) :
    (renderIn spell value).length + (value.characters.flatMap other).length =
      (renderIn other value).length + (value.characters.flatMap spell).length := by
  cases value with
  | string str => exact length_literalIn str
  | list elements =>
      have helements := length_renderElementsIn elements
      simp only [renderIn, Value.characters, List.length_append, List.length_cons,
        length_commaSeparated]
      cases elements with
      | nil => rfl
      | cons value rest =>
          simp only [renderElementsIn, List.flatMap_cons, List.length_append, List.length_cons]
            at helements ⊢
          omega
  | object members =>
      have hmembers := length_renderMembersIn members
      simp only [renderIn, Value.characters, List.length_append, List.length_cons,
        length_commaSeparated]
      cases members with
      | nil => rfl
      | cons member rest =>
          simp only [renderMembersIn, List.flatMap_cons, List.length_append, List.length_cons]
            at hmembers ⊢
          omega
  | _ => rfl

theorem length_renderElementsIn (elements : List Value) :
    ((renderElementsIn spell elements).flatMap (',' :: ·)).length +
        ((charactersOfElements elements).flatMap other).length =
      ((renderElementsIn other elements).flatMap (',' :: ·)).length +
        ((charactersOfElements elements).flatMap spell).length := by
  cases elements with
  | nil => rfl
  | cons value rest =>
      have hvalue := length_renderIn value
      have hrest := length_renderElementsIn rest
      simp only [renderElementsIn, charactersOfElements, List.flatMap_cons, List.flatMap_append,
        List.length_append, List.length_cons]
      omega

theorem length_renderMembersIn (members : List (Text × Value)) :
    ((renderMembersIn spell members).flatMap (',' :: ·)).length +
        ((charactersOfMembers members).flatMap other).length =
      ((renderMembersIn other members).flatMap (',' :: ·)).length +
        ((charactersOfMembers members).flatMap spell).length := by
  cases members with
  | nil => rfl
  | cons member rest =>
      obtain ⟨key, value⟩ := member
      have hkey := @length_literalIn spell other key
      have hvalue := length_renderIn value
      have hrest := length_renderMembersIn rest
      simp only [renderMembersIn, charactersOfMembers, List.flatMap_cons, List.flatMap_append,
        List.length_append, List.length_cons]
      omega

end

theorem literalIn_congr {str : Text} (hagree : ∀ c ∈ str, spell c = other c) :
    literalIn spell str = literalIn other str := by
  rw [literalIn, literalIn, List.flatMap_congr hagree]

mutual

theorem renderIn_congr (value : Value) (hagree : ∀ c ∈ value.characters, spell c = other c) :
    renderIn spell value = renderIn other value := by
  cases value with
  | string str => exact literalIn_congr hagree
  | list elements => rw [renderIn, renderIn, renderElementsIn_congr elements hagree]
  | object members => rw [renderIn, renderIn, renderMembersIn_congr members hagree]
  | _ => rfl

theorem renderElementsIn_congr (elements : List Value)
    (hagree : ∀ c ∈ charactersOfElements elements, spell c = other c) :
    renderElementsIn spell elements = renderElementsIn other elements := by
  cases elements with
  | nil => rfl
  | cons value rest =>
      simp only [charactersOfElements, List.forall_mem_append] at hagree
      rw [renderElementsIn, renderElementsIn, renderIn_congr value hagree.1,
        renderElementsIn_congr rest hagree.2]

theorem renderMembersIn_congr (members : List (Text × Value))
    (hagree : ∀ c ∈ charactersOfMembers members, spell c = other c) :
    renderMembersIn spell members = renderMembersIn other members := by
  cases members with
  | nil => rfl
  | cons member rest =>
      obtain ⟨key, value⟩ := member
      simp only [charactersOfMembers, List.forall_mem_append] at hagree
      rw [renderMembersIn, renderMembersIn, literalIn_congr hagree.1.1,
        renderIn_congr value hagree.1.2, renderMembersIn_congr rest hagree.2]

end

end Spellings

/-! ### Where the formatter spells as JSON does -/

theorem escape_of_isBareControl {c : Char} (hbare : isBareControl c = true) : escape c = [c] := by
  unfold escape
  split <;> first | rfl | cases hbare

theorem length_escape_le (c : Char) : (escape c).length ≤ (jsonEscape c).length := by
  unfold jsonEscape
  split_ifs with hbare
  · rw [escape_of_isBareControl hbare]
    simp [unicodeEscape]
  · exact le_refl _

theorem length_escape_lt {c : Char} (hbare : isBareControl c = true) :
    (escape c).length < (jsonEscape c).length := by
  rw [jsonEscape, if_pos hbare, escape_of_isBareControl hbare]
  simp [unicodeEscape]

theorem length_flatMap_escape_le (str : Text) :
    (str.flatMap escape).length ≤ (str.flatMap jsonEscape).length := by
  induction str with
  | nil => exact le_refl _
  | cons c str ih =>
      simp only [List.flatMap_cons, List.length_append]
      exact Nat.add_le_add (length_escape_le c) ih

/-- A bare control character makes the text that JSON asks for the longer one. -/
theorem length_flatMap_escape_lt {str : Text} {c : Char} (hmem : c ∈ str)
    (hbare : isBareControl c = true) :
    (str.flatMap escape).length < (str.flatMap jsonEscape).length := by
  obtain ⟨before, after, rfl⟩ := List.append_of_mem hmem
  have hbefore := length_flatMap_escape_le before
  have hafter := length_flatMap_escape_le after
  have hc := length_escape_lt hbare
  simp only [List.flatMap_append, List.flatMap_cons, List.length_append]
  omega

theorem render_eq_jsonText {value : Value}
    (hcharacters : ∀ c ∈ value.characters, isBareControl c = false) :
    render value = jsonText value := by
  refine renderIn_congr value fun c hmem => ?_
  rw [jsonEscape, hcharacters c hmem]
  rfl

theorem bareless_of_render_eq {value : Value} (hrender : render value = jsonText value) :
    ∀ c ∈ value.characters, isBareControl c = false := by
  intro c hmem
  by_contra hbare
  have hlonger := length_flatMap_escape_lt hmem (by simpa using hbare)
  have hlength := @length_renderIn escape jsonEscape value
  rw [render, jsonText] at hrender
  rw [hrender] at hlength
  omega

end Liblw.Mime
