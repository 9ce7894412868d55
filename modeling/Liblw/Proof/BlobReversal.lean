import Liblw.Proof.BlobEncoding

/-!
# Reading a view backwards

A step forward at the end of a block goes to the end of the buffer where that is nearer than the
next block, and a step back always goes by three bytes. So the steps undo each other, and the view
can be read backwards, exactly if the last block is a whole one.
-/

namespace Liblw.Format

open Liblw.Lib
open Base64Alphabet (standard)

namespace Base64Iterator

/-- One step back between whole blocks. -/
theorem decrement_positionOf {buffer : BufferView} (hwhole : buffer.size % 3 = 0) {count : Nat}
    (hcount : count ≤ 4 * (buffer.size / 3)) :
    (positionOf buffer (count + 1)).decrement = .ok (positionOf buffer count) := by
  have hsize : buffer.size < 2 ^ 63 := buffer.length_lt
  by_cases hlast : count % 4 = 3
  · have hindex : (min (3 * ((count + 1) / 4)) buffer.size + (2 ^ 64 - 3)) % 2 ^ 64 =
        min (3 * (count / 4)) buffer.size := by
      omega
    have hplace : (count + 1) % 4 = 0 := by omega
    simp only [decrement, positionOf, hplace, if_true, hindex]
    rw [loadChars_of_le (Nat.min_le_right _ _), hlast]
  · have hblock : (count + 1) / 4 = count / 4 := by omega
    have hplace : (count + 1) % 4 = count % 4 + 1 := by omega
    simp only [decrement, positionOf, hplace, Nat.succ_ne_zero, if_false, hblock,
      Nat.add_sub_cancel]
    rfl

/-- The end iterator, which has no block, steps back as the position there does. -/
theorem decrement_ending {view : Base64View} (hwhole : view.buffer.size % 3 = 0) :
    view.ending.decrement = (positionOf view.buffer (4 * (view.buffer.size / 3))).decrement := by
  have hindex : min (3 * (4 * (view.buffer.size / 3) / 4)) view.buffer.size = view.buffer.size := by
    omega
  have hplace : 4 * (view.buffer.size / 3) % 4 = 0 := by omega
  simp only [decrement, positionOf, Base64View.ending, hindex, hplace, if_true]
  rfl

theorem agrees_refl {iterator : Base64Iterator} {c : Char} (hvalue : iterator.value = .ok c) :
    iterator.Agrees iterator := by
  refine ⟨?_, c, hvalue, hvalue⟩
  simp only [same, BufferView.same, beq_self_eq_true, Bool.and_self]

/-- Loading a block changes nothing else. -/
theorem index_of_loadChars {iterator loaded : Base64Iterator}
    (hload : iterator.loadChars = .ok loaded) : loaded.index = iterator.index := by
  rw [loadChars] at hload
  split_ifs at hload with hpast
  · rw [← Except.ok.inj hload]
  · cases htrim : iterator.buffer.trimPrefix iterator.index with
    | error fault =>
      rw [htrim] at hload
      cases hload
    | ok trimmed =>
      rw [htrim] at hload
      change (toBase64 trimmed).bind _ = _ at hload
      rw [toBase64_eq] at hload
      rw [← Except.ok.inj hload]

end Base64Iterator

namespace Base64View

open Base64Iterator

variable {view : Base64View}

theorem size_eq (view : Base64View) : view.size = 4 * ((view.buffer.size + 2) / 3) :=
  size_of_lt view.buffer.length_lt

/-- Up to the end there is a character, and at the end one of padding. -/
theorem exists_value (view : Base64View) {count : Nat} (hcount : count ≤ view.size) :
    ∃ c, (positionOf view.buffer count).value = .ok c := by
  rcases Nat.lt_or_eq_of_le hcount with hmore | hend
  · rw [← length_encode_bytes] at hmore
    exact ⟨_, value_positionOf view.buffer hmore⟩
  · have hindex : min (3 * (count / 4)) view.buffer.size = view.buffer.size := by
      rw [hend, size_eq]
      omega
    have hplace : count % 4 = 0 := by
      rw [hend, size_eq]
      omega
    have hnone : view.buffer.bytes.drop view.buffer.size = [] := List.drop_length
    refine ⟨'=', ?_⟩
    simp only [value, positionOf, hindex, hplace, hnone, blockOf, if_true]
    rfl

theorem same_beginning_iff (view : Base64View) {count : Nat} (hcount : count ≤ view.size) :
    (positionOf view.buffer count).same (positionOf view.buffer 0) = true ↔ count = 0 := by
  rw [size_eq] at hcount
  simp only [same, BufferView.same, positionOf, beq_self_eq_true, Bool.true_and, Bool.and_eq_true,
    beq_iff_eq]
  omega

section Whole

variable (hwhole : view.buffer.size % 3 = 0)
include hwhole

theorem size_of_whole : view.size = 4 * (view.buffer.size / 3) := by
  rw [size_eq]
  omega

theorem backwards_positionOf {fuel : Nat} (hfuel : view.size < fuel) :
    iterating.backwards .diverged fuel (positionOf view.buffer 0)
        (positionOf view.buffer view.size) =
      .ok (standard.encode view.buffer.bytes).reverse := by
  have hlength := length_encode_bytes view
  rw [← List.take_of_length_le hlength.le]
  refine Iterating.backwards_eq (@Stands.value view) ?_ ?_ .diverged ⟨rfl, Nat.le_refl _⟩
    hlength.ge hfuel
  · rintro iterator count ⟨rfl, hcount⟩ _
    have hback := @decrement_positionOf view.buffer hwhole count (by
      rw [← size_of_whole hwhole]
      exact Nat.le_of_succ_le hcount)
    exact ⟨_, hback, rfl, Nat.le_of_succ_le hcount⟩
  · rintro iterator count ⟨rfl, hcount⟩
    exact same_beginning_iff view hcount

theorem streamBackwards_eq {fuel : Nat} (hfuel : view.size < fuel) :
    view.streamBackwards fuel = .ok (standard.encode view.buffer.bytes).reverse := by
  obtain ⟨fuel, rfl⟩ := Nat.exists_eq_add_one_of_ne_zero (Nat.ne_zero_of_lt hfuel)
  have hsame : iterating.same view.ending (positionOf view.buffer 0) =
      iterating.same (positionOf view.buffer view.size) (positionOf view.buffer 0) := by
    have hindex : min (3 * (view.size / 4)) view.buffer.size = view.buffer.size := by
      rw [size_of_whole hwhole]
      omega
    have hplace : view.size % 4 = 0 := by
      rw [size_of_whole hwhole]
      omega
    simp only [iterating, same, ending, positionOf, hindex, hplace]
  have hback : iterating.decrement view.ending =
      iterating.decrement (positionOf view.buffer view.size) := by
    unfold iterating
    dsimp only
    rw [decrement_ending hwhole, size_of_whole hwhole]
  have hend := backwards_positionOf hwhole hfuel
  rw [Iterating.backwards, ← hsame, ← hback] at hend
  rw [streamBackwards, beginning_eq]
  exact hend

theorem reversible_of_whole : view.Reversible where
  backwards fuel hfuel := ⟨_, view.stream_eq hfuel, streamBackwards_eq hwhole hfuel⟩
  forth := by
    intro count hcount
    obtain ⟨c, hvalue⟩ := view.exists_value hcount
    have hback := @decrement_positionOf view.buffer hwhole count (by
      rw [← size_of_whole hwhole]
      exact hcount)
    exact ⟨_, _, _, view.reach_eq count, increment_positionOf view.buffer count, hback,
      agrees_refl hvalue⟩
  back := by
    intro count hcount first hfirst
    rw [beginning_eq, Except.ok.injEq] at hfirst
    refine ⟨_, view.reach_eq count, fun hdiffers => ?_⟩
    rw [← hfirst, ← Bool.not_eq_true, same_beginning_iff view hcount] at hdiffers
    obtain ⟨before, rfl⟩ := Nat.exists_eq_add_one_of_ne_zero hdiffers
    obtain ⟨c, hvalue⟩ := view.exists_value hcount
    have hback := @decrement_positionOf view.buffer hwhole before (by
      rw [← size_of_whole hwhole]
      exact Nat.le_of_succ_le hcount)
    exact ⟨_, _, hback, increment_positionOf view.buffer before, agrees_refl hvalue⟩

end Whole

/-- A step back from the end goes to the beginning of the last block only if that has three
bytes. -/
theorem whole_of_reversible (hreversible : view.Reversible) : view.buffer.size % 3 = 0 := by
  have hsize : view.buffer.size < 2 ^ 63 := view.buffer.length_lt
  by_cases hempty : view.size = 0
  · rw [size_eq] at hempty
    omega
  obtain ⟨iterator, next, back, hreach, hnext, hback, hsame, -⟩ :=
    hreversible.forth (view.size - 1) (Nat.sub_le _ _)
  rw [reach_eq, Except.ok.injEq] at hreach
  subst hreach
  rw [increment_positionOf, Except.ok.injEq] at hnext
  subst hnext
  have hplace : (positionOf view.buffer (view.size - 1 + 1)).charIndex = 0 := by
    change (view.size - 1 + 1) % 4 = 0
    rw [size_eq] at hempty ⊢
    omega
  rw [decrement, if_pos hplace] at hback
  have hindex := index_of_loadChars hback
  simp only [same, Bool.and_eq_true, beq_iff_eq] at hsame
  rw [hsame.1.2] at hindex
  simp only [positionOf] at hindex
  rw [size_eq] at hempty hindex
  omega

end Base64View

/-- **Reading backwards.** Decrementing from `end()` reads the characters in the reverse order and
comes to `begin()`, and steps forth and back undo each other, exactly if the last block is whole. -/
theorem reversible_iff (buffer : BufferView) :
    (base64 buffer).Reversible ↔ buffer.size % 3 = 0 :=
  ⟨Base64View.whole_of_reversible, Base64View.reversible_of_whole⟩

/-- One byte: the step back from `end()` goes past the beginning of the buffer. -/
theorem not_reversible_single : ¬ (base64 ⟨0, [77], by decide⟩).Reversible := by
  intro hreversible
  obtain ⟨text, hforth, hback⟩ := hreversible.backwards 5 (by decide)
  have htext : (base64 ⟨0, [77], by decide⟩).stream 5 = .ok ['T', 'Q', '=', '='] := by
    decide
  rw [htext, Except.ok.injEq] at hforth
  rw [← hforth] at hback
  revert hback
  decide

end Liblw.Format
