import Liblw.Proof.ReaderProgress

/-!
# When `adjust_buffers` makes room

The additional space is told by a signed number. From `2 ^ 63` bytes on it is negative, so that any
buffer seems to have it in front of its read window. A new block is doubled before it is held
against the maximum, so that only a maximum of `2 ^ 63` or more lets it become larger than a block
can be.
-/

namespace Liblw.Io

open Liblw.Lib

variable {flags : ReadFlags} {allocator : Allocator} {buffers : Buffers} {desired : Nat}

/-- From `2 ^ 63` bytes on the additional space is negative. -/
theorem bmod_additional_neg {additional : Nat} (hlarge : 2 ^ 63 ≤ additional)
    (hsize : additional < 2 ^ 64) : (additional : Int).bmod (2 ^ 64) < 0 := by
  have hwrap : (additional : Int).bmod (2 ^ 64) = (additional : Int) - 2 ^ 64 := by
    rw [Int.bmod_def]
    omega
  omega

/-- Sliding makes the room that there is in front of the read window, and no more. -/
theorem exec_slideBuffers (hlayout : buffers.Layout) :
    ∃ final, slideBuffers.exec buffers = (.ok (), final) ∧
      final.write.size =
        buffers.read.data - buffers.buffer.address + buffers.write.size ∧
      final.buffer.cells.length = buffers.buffer.cells.length ∧ final.Layout ∧
      final.waiting = buffers.waiting := by
  obtain ⟨final, hexec, hroom⟩ := exists_slideBuffers hlayout
  obtain ⟨hlength, hfinal, hwaiting⟩ := slideBuffers_eq_ok (Or.inr hlayout) hexec
  obtain ⟨hstart, hadjacent, hfinish⟩ := hlayout
  exact ⟨final, hexec, by omega, hlength, hfinal, hwaiting⟩

/-! ### What `adjust_buffers` does -/

theorem exec_adjustBuffers_enough (hroom : desired ≤ buffers.write.size) :
    (adjustBuffers flags allocator desired).exec buffers = (.ok (), buffers) := by
  rw [adjustBuffers, Call.exec_get_bind, if_pos hroom]
  rfl

theorem exec_adjustBuffers_slide (hdesired : buffers.write.size < desired)
    (hfront : ¬ (buffers.read.data : Int) - buffers.buffer.address <
      ((desired - buffers.write.size : Nat) : Int).bmod (2 ^ 64)) :
    (adjustBuffers flags allocator desired).exec buffers = slideBuffers.exec buffers := by
  rw [adjustBuffers, Call.exec_get_bind, if_neg (by omega)]
  dsimp only
  rw [if_neg hfront]

theorem exec_adjustBuffers_realloc (hsmall : buffers.buffer.cells.length < 2 ^ 63)
    (hdesired : buffers.write.size < desired) (hneed : desired - buffers.write.size < 2 ^ 63)
    (hfront : (buffers.read.data : Int) - buffers.buffer.address <
      (desired - buffers.write.size : Nat)) :
    (adjustBuffers flags allocator desired).exec buffers =
      (reallocBuffers flags allocator
        (buffers.buffer.cells.length + (desired - buffers.write.size))).exec buffers := by
  rw [adjustBuffers, Call.exec_get_bind, if_neg (by omega)]
  simp only [bmod_additional hneed, total_toNat hsmall hneed]
  rw [if_pos hfront]

/-- A block that is too large for a block, or never found, is none. -/
theorem not_makesRoom_realloc {total : Nat} {result : Except Fault Unit × Buffers}
    (hexec : (reallocBuffers flags allocator total).exec buffers = result)
    (hmaximum : total ≤ flags.maximumReadBufferSize)
    (hlarge : ∀ grown, growSize 65 (buffers.buffer.cells.length * 2 % 2 ^ 64) total = some grown →
      2 ^ 63 ≤ min grown flags.maximumReadBufferSize) :
    result.1 = .error .diverged ∨ result.1 = .error (.standard .badAlloc) := by
  rw [reallocBuffers, if_neg (by omega), Call.exec_get_bind] at hexec
  cases hgrow : growSize 65 (buffers.buffer.cells.length * 2 % 2 ^ 64) total with
  | none =>
      rw [hgrow] at hexec
      rw [← hexec]
      exact Or.inl rfl
  | some grown =>
      rw [hgrow] at hexec
      have hallocate : (allocate allocator (min grown flags.maximumReadBufferSize)).exec buffers =
          (.error (.standard .badAlloc), buffers) := by
        rw [allocate, Call.exec_get_bind, if_pos (hlarge grown hgrow)]
        rfl
      dsimp only at hexec
      rw [Call.exec_bind_error hallocate] at hexec
      rw [← hexec]
      exact Or.inr rfl

theorem exec_reallocBuffers_limited {total : Nat} (hlimited : flags.maximumReadBufferSize < total) :
    ∃ message, (reallocBuffers flags allocator total).exec buffers =
      (.error (.thrown ⟨.resourceExhausted, message⟩), buffers) := by
  rw [reallocBuffers, if_pos hlimited]
  exact ⟨_, rfl⟩

/-! ### When there is room -/

/-- Where a new block is needed and within the maximum, it has to be found and allocated. -/
theorem makesRoom_iff_block {total : Nat} (hlayout : buffers.Layout)
    (hexec : (adjustBuffers flags allocator desired).exec buffers =
      (reallocBuffers flags allocator total).exec buffers)
    (htotal : total = buffers.buffer.cells.length + (desired - buffers.write.size))
    (hdesired : buffers.write.size < desired) (hmaximum : total ≤ flags.maximumReadBufferSize) :
    buffers.MakesRoom flags allocator desired ↔
      ∃ grown, growSize 65 (buffers.buffer.cells.length * 2 % 2 ^ 64) total = some grown ∧
        min grown flags.maximumReadBufferSize < 2 ^ 63 := by
  have ⟨hstart, hadjacent, hfinish⟩ := hlayout
  constructor
  · intro hroom
    by_contra hnone
    have hlarge : ∀ grown, growSize 65 (buffers.buffer.cells.length * 2 % 2 ^ 64) total =
        some grown → 2 ^ 63 ≤ min grown flags.maximumReadBufferSize := by
      intro grown hgrow
      by_contra hless
      exact hnone ⟨grown, hgrow, not_le.mp hless⟩
    have hresult := not_makesRoom_realloc hexec.symm hmaximum hlarge
    rcases hroom with ⟨message, hthrown⟩ | ⟨final, hok, -⟩
    · rw [hthrown] at hresult
      simp at hresult
    · rw [hok] at hresult
      simp at hresult
  · rintro ⟨grown, hgrow, hsize⟩
    have hread : buffers.read.size ≤ total := by omega
    obtain ⟨final, hrealloc, hlarge⟩ : ∃ final,
        (reallocBuffers flags allocator total).exec buffers = (.ok (), final) ∧
          total ≤ buffers.read.size + final.write.size :=
      exec_reallocBuffers (Or.inr hlayout) hmaximum hgrow hsize hread
    have hwrite : desired ≤ final.write.size := by omega
    obtain ⟨size, -, hcells, -, hfinal, hkept⟩ := reallocBuffers_eq_ok (Or.inr hlayout) hrealloc
    refine Or.inr ⟨final, hexec.trans hrealloc, hwrite, hkept, hfinal, ?_⟩
    rw [hcells]
    exact (min_le_right _ _).trans (le_max_right _ _)

/-- **When `adjust_buffers` makes room or refuses.** Exactly if the additional space is a positive
number and no block larger than a block can be would have to be allocated for it. -/
theorem makesRoom_iff (hlayout : buffers.Layout) (hpositive : 1 ≤ buffers.buffer.cells.length)
    (hsmall : buffers.buffer.cells.length < 2 ^ 63) (hdesired : desired < 2 ^ 64) :
    buffers.MakesRoom flags allocator desired ↔ buffers.Adjustable flags desired := by
  have ⟨hstart, hadjacent, hfinish⟩ := hlayout
  by_cases henough : desired ≤ buffers.write.size
  · have hexec : (adjustBuffers flags allocator desired).exec buffers = (.ok (), buffers) :=
      exec_adjustBuffers_enough henough
    apply iff_of_true
    · exact Or.inr ⟨buffers, hexec, henough, rfl, hlayout, le_max_left _ _⟩
    · exact ⟨by omega, Or.inl (by omega)⟩
  rw [not_le] at henough
  obtain ⟨slid, hslide, hroom, hlength, hslid, hwaiting⟩ := exec_slideBuffers hlayout
  by_cases hneed : 2 ^ 63 ≤ desired - buffers.write.size
  · have hnonneg : (0 : Int) ≤ (buffers.read.data : Int) - buffers.buffer.address := by omega
    have hnegative := bmod_additional_neg hneed (by omega)
    have hexec : (adjustBuffers flags allocator desired).exec buffers = (.ok (), slid) := by
      rw [exec_adjustBuffers_slide henough (not_lt.mpr (hnegative.le.trans hnonneg)), hslide]
    apply iff_of_false
    · rintro (⟨message, hthrown⟩ | ⟨final, hok, henough', -⟩)
      · rw [hexec] at hthrown
        cases hthrown
      · rw [hexec] at hok
        obtain ⟨-, rfl⟩ := Prod.mk.inj hok
        omega
    · exact fun hadjustable => absurd hadjustable.1 (by omega)
  rw [not_le] at hneed
  by_cases hfront : desired - buffers.write.size ≤ buffers.read.data - buffers.buffer.address
  · have hexec : (adjustBuffers flags allocator desired).exec buffers = (.ok (), slid) := by
      rw [exec_adjustBuffers_slide henough, hslide]
      rw [bmod_additional hneed]
      omega
    apply iff_of_true
    · exact Or.inr ⟨slid, hexec, by omega, hwaiting, hslid, by omega⟩
    · exact ⟨hneed, Or.inl hfront⟩
  rw [not_le] at hfront
  have hexec : (adjustBuffers flags allocator desired).exec buffers =
      (reallocBuffers flags allocator
        (buffers.buffer.cells.length + (desired - buffers.write.size))).exec buffers :=
    exec_adjustBuffers_realloc hsmall henough hneed (by omega)
  by_cases hlimited : flags.maximumReadBufferSize <
      buffers.buffer.cells.length + (desired - buffers.write.size)
  · apply iff_of_true
    · rw [Buffers.MakesRoom, hexec]
      exact Or.inl (exec_reallocBuffers_limited hlimited)
    · exact ⟨hneed, Or.inr (Or.inl hlimited)⟩
  rw [not_lt] at hlimited
  rw [makesRoom_iff_block hlayout hexec rfl henough hlimited,
    exists_block_iff hpositive hsmall hlimited]
  constructor
  · exact fun hgrows => ⟨hneed, Or.inr (Or.inr hgrows)⟩
  · rintro ⟨-, hslides | hlimits | hgrows⟩
    · exact absurd hslides (not_le.mpr hfront)
    · exact absurd hlimits (not_lt.mpr hlimited)
    · exact hgrows

/-- A byte that waits, and room for another one. -/
def twoBytes : Buffers := ⟨⟨4096, [0, 0]⟩, ⟨4096, 1⟩, ⟨4097, 1⟩, 1⟩

theorem layout_twoBytes : twoBytes.Layout := ⟨le_rfl, rfl, rfl⟩

theorem makesRoom_iff_twoBytes :
    twoBytes.MakesRoom ⟨2, 8, 2⟩ zeroAllocator 3 ↔ twoBytes.Adjustable ⟨2, 8, 2⟩ 3 :=
  makesRoom_iff layout_twoBytes (by decide) (by decide) (by decide)

/-- The largest size asks for a negative space more, and the window stays as small as it was. -/
theorem not_makesRoom :
    ¬ ∀ (buffers : Buffers) (desired : Nat), buffers.Layout → 1 ≤ buffers.buffer.cells.length →
      desired < 2 ^ 64 → buffers.MakesRoom ⟨2, 8, 2⟩ zeroAllocator desired := by
  intro hroom
  have hexec : (adjustBuffers ⟨2, 8, 2⟩ zeroAllocator (2 ^ 64 - 1)).exec twoBytes =
      (.ok (), twoBytes) := by decide
  rcases hroom twoBytes (2 ^ 64 - 1) layout_twoBytes (by decide) (by decide) with
    ⟨message, hthrown⟩ | ⟨final, hok, hlarge, -⟩
  · rw [hexec] at hthrown
    cases hthrown
  · rw [hexec] at hok
    obtain ⟨-, rfl⟩ := Prod.mk.inj hok
    exact absurd hlarge (by decide)

end Liblw.Io
