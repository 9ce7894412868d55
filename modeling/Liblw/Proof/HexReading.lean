import Liblw.Format.Hex
import Liblw.Proof.BlobEncoding

/-!
# What the hexadecimal view of a buffer reads

An iterator with `count` characters in front of it is on the byte `count / 2` and has its digits, or
it is at the end. This is what a step in either direction keeps, also the first step back from the
end iterator, which has no digits.
-/

namespace Liblw.Format

open Liblw.Lib

/-! ## Digits -/

theorem toHexChar_eq {n : Nat} (hn : n < 16) : toHexChar n = Nat.digitChar n := by
  have hall : ∀ n < 16, toHexChar n = Nat.digitChar n := by decide
  exact hall n hn

theorem toHexChar_nibbles (byte : UInt8) :
    [toHexChar ((byte.toNat >>> 4) &&& 0x0f), toHexChar (byte.toNat &&& 0x0f)] = hexPair byte := by
  have hbyte : byte.toNat < 2 ^ 8 := byte.toNat_lt
  have hhigh : (byte.toNat >>> 4) &&& 0x0f = byte.toNat / 16 := by
    rw [Nat.and_two_pow_sub_one_eq_mod (byte.toNat >>> 4) 4, Nat.shiftRight_eq_div_pow]
    omega
  have hlow : byte.toNat &&& 0x0f = byte.toNat % 16 :=
    Nat.and_two_pow_sub_one_eq_mod byte.toNat 4
  rw [hhigh, hlow, toHexChar_eq (by omega), toHexChar_eq (by omega), hexPair]

theorem length_hexDigits (bytes : List UInt8) : (hexDigits bytes).length = 2 * bytes.length := by
  induction bytes with
  | nil => rfl
  | cons byte bytes ih =>
      rw [hexDigits, List.flatMap_cons, List.length_append, ← hexDigits, ih, List.length_cons]
      change 2 + 2 * bytes.length = _
      omega

/-- The digits of a byte are where twice its index is. -/
theorem getElem?_hexDigits (bytes : List UInt8) (count : Nat) :
    (hexDigits bytes)[count]? = bytes[count / 2]?.bind fun byte => (hexPair byte)[count % 2]? := by
  induction bytes generalizing count with
  | nil => rfl
  | cons byte bytes ih =>
      rw [hexDigits, List.flatMap_cons, ← hexDigits]
      match count with
      | 0 => rfl
      | 1 => rfl
      | count + 2 =>
          have hrest : (hexPair byte ++ hexDigits bytes)[count + 2]? = (hexDigits bytes)[count]? :=
            List.getElem?_append_right (Nat.le_add_left 2 count)
          have hindex : (count + 2) / 2 = count / 2 + 1 := by omega
          rw [hrest, ih, hindex, List.getElem?_cons_succ, Nat.add_mod_right]

/-! ## The iterator -/

namespace HexIterator

/-- Where the iterator is. Except at the end it has the digits of the byte that it is on. -/
structure Stands (buffer : BufferView) (iterator : HexIterator) (count : Nat) : Prop where
  le : count ≤ 2 * buffer.size
  buffer_eq : iterator.buffer = buffer
  index_eq : iterator.index = count / 2
  charIndex_eq : iterator.charIndex = count % 2
  hex_eq : ∀ byte ∈ buffer.bytes[count / 2]?, iterator.hex = hexPair byte

theorem buffer_loadChars (iterator : HexIterator) :
    iterator.loadChars.buffer = iterator.buffer := by
  unfold loadChars
  split <;> rfl

theorem index_loadChars (iterator : HexIterator) : iterator.loadChars.index = iterator.index := by
  unfold loadChars
  split <;> rfl

theorem charIndex_loadChars (iterator : HexIterator) :
    iterator.loadChars.charIndex = iterator.charIndex := by
  unfold loadChars
  split <;> rfl

theorem hex_loadChars {iterator : HexIterator} {byte : UInt8}
    (hbyte : byte ∈ iterator.buffer.bytes[iterator.index]?) :
    iterator.loadChars.hex = hexPair byte := by
  rw [loadChars, Option.mem_def.mp hbyte]
  exact toHexChar_nibbles byte

variable {buffer : BufferView} {iterator other : HexIterator} {count count' : Nat}

theorem stands_loadChars (hle : count ≤ 2 * buffer.size) (hbuffer : iterator.buffer = buffer)
    (hindex : iterator.index = count / 2) (hchar : iterator.charIndex = count % 2) :
    Stands buffer iterator.loadChars count where
  le := hle
  buffer_eq := (buffer_loadChars iterator).trans hbuffer
  index_eq := (index_loadChars iterator).trans hindex
  charIndex_eq := (charIndex_loadChars iterator).trans hchar
  hex_eq byte hbyte := by
    apply hex_loadChars
    rwa [hbuffer, hindex]

theorem Stands.value (hstands : Stands buffer iterator count)
    (hcount : count < (hexDigits buffer.bytes).length) :
    iterator.value = .ok (hexDigits buffer.bytes)[count] := by
  have hsome := getElem?_hexDigits buffer.bytes count
  rw [List.getElem?_eq_getElem hcount] at hsome
  obtain ⟨byte, hbyte, hdigit⟩ := Option.bind_eq_some_iff.mp hsome.symm
  rw [HexIterator.value, hstands.hex_eq byte hbyte, hstands.charIndex_eq, hdigit]
  rfl

theorem Stands.increment (hstands : Stands buffer iterator count)
    (hcount : count < 2 * buffer.size) : Stands buffer iterator.increment (count + 1) := by
  have hsize : buffer.size < 2 ^ 63 := buffer.length_lt
  rw [HexIterator.increment]
  split_ifs with hsecond
  · rw [hstands.charIndex_eq] at hsecond
    apply stands_loadChars hcount
    · exact hstands.buffer_eq
    · change (iterator.index + 1) % 2 ^ 64 = (count + 1) / 2
      rw [hstands.index_eq]
      omega
    · change 0 = (count + 1) % 2
      omega
  · have hfirst : count % 2 = 0 := by
      rw [hstands.charIndex_eq] at hsecond
      omega
    have hsame : (count + 1) / 2 = count / 2 := by omega
    refine ⟨hcount, hstands.buffer_eq, ?_, ?_, ?_⟩
    · rw [hsame]
      exact hstands.index_eq
    · change 1 = (count + 1) % 2
      omega
    · rw [hsame]
      exact hstands.hex_eq

theorem Stands.decrement (hstands : Stands buffer iterator (count + 1)) :
    Stands buffer iterator.decrement count := by
  have hsize : buffer.size < 2 ^ 63 := buffer.length_lt
  have hle : count ≤ 2 * buffer.size := Nat.le_of_succ_le hstands.le
  rw [HexIterator.decrement]
  split_ifs with hfirst
  · rw [hstands.charIndex_eq] at hfirst
    have hcount := hstands.le
    apply stands_loadChars hle
    · exact hstands.buffer_eq
    · change (iterator.index + (2 ^ 64 - 1)) % 2 ^ 64 = count / 2
      rw [hstands.index_eq]
      omega
    · change 1 = count % 2
      omega
  · have hsecond : (count + 1) % 2 = 1 := by
      rw [hstands.charIndex_eq] at hfirst
      omega
    have hsame : (count + 1) / 2 = count / 2 := by omega
    refine ⟨hle, hstands.buffer_eq, ?_, ?_, ?_⟩
    · rw [← hsame]
      exact hstands.index_eq
    · change 0 = count % 2
      omega
    · rw [← hsame]
      exact hstands.hex_eq

theorem Stands.same_iff (hstands : Stands buffer iterator count)
    (hother : Stands buffer other count') : iterator.same other = true ↔ count = count' := by
  simp only [same, BufferView.same, hstands.buffer_eq, hother.buffer_eq, hstands.index_eq,
    hother.index_eq, hstands.charIndex_eq, hother.charIndex_eq, beq_self_eq_true, Bool.true_and,
    Bool.and_eq_true, beq_iff_eq]
  omega

theorem Stands.position (hstands : Stands buffer iterator count) : iterator.position = count := by
  have hsize : buffer.size < 2 ^ 63 := buffer.length_lt
  have hcount := hstands.le
  rw [HexIterator.position, size, hstands.index_eq, hstands.charIndex_eq]
  omega

/-- The iterators of a buffer read its digits in both directions. -/
theorem traverses (buffer : BufferView) :
    iterating.Traverses (Stands buffer) (hexDigits buffer.bytes) where
  value hstands hcount := hstands.value hcount
  increment hstands hcount := by
    rw [length_hexDigits] at hcount
    exact ⟨_, rfl, hstands.increment hcount⟩
  same hstands hother := hstands.same_iff hother
  decrement hstands _ := ⟨_, rfl, hstands.decrement⟩

end HexIterator

/-! ## The view -/

namespace HexView

open HexIterator

variable {view : HexView} {iterator other : HexIterator} {count count' : Nat}

theorem size_eq (view : HexView) : view.size = 2 * view.buffer.size := by
  have hsize : view.buffer.size < 2 ^ 63 := view.buffer.length_lt
  rw [HexView.size, HexIterator.size]
  omega

theorem stands_beginning (view : HexView) : Stands view.buffer view.beginning 0 := by
  apply stands_loadChars (Nat.zero_le _)
  · rfl
  · rfl
  · rfl

theorem stands_ending (view : HexView) : Stands view.buffer view.ending (2 * view.buffer.size) where
  le := Nat.le_refl _
  buffer_eq := rfl
  index_eq := (Nat.mul_div_cancel_left _ Nat.two_pos).symm
  charIndex_eq := (Nat.mul_mod_right 2 _).symm
  hex_eq byte hbyte := by
    rw [Nat.mul_div_cancel_left _ Nat.two_pos] at hbyte
    obtain ⟨hlt, -⟩ := List.getElem?_eq_some_iff.mp hbyte
    exact absurd hlt (Nat.lt_irrefl _)

/-- Every way to an iterator leaves it where its number of characters says. -/
theorem Reached.stands (hreached : view.Reached iterator count) :
    Stands view.buffer iterator count := by
  induction hreached with
  | beginning => exact view.stands_beginning
  | ending =>
      rw [size_eq]
      exact view.stands_ending
  | increment _ hcount ih =>
      rw [size_eq] at hcount
      exact ih.increment hcount
  | decrement _ ih => exact ih.decrement

/-- Two iterators at the same character, and one that has it. -/
theorem agrees_of_stands (hstands : Stands view.buffer iterator count)
    (hother : Stands view.buffer other count) (hcount : count < view.size) :
    iterator.Agrees other := by
  have hlength : count < (hexDigits view.buffer.bytes).length := by
    rw [length_hexDigits]
    rwa [size_eq] at hcount
  exact ⟨(hstands.same_iff hother).mpr rfl, _, hstands.value hlength, hother.value hlength⟩

theorem Reached.bidirectional (hreached : view.Reached iterator count) :
    view.Bidirectional iterator count := by
  have hstands := hreached.stands
  refine ⟨hstands.value, ?_, hstands.same_iff view.stands_beginning, ?_, ?_⟩
  · rw [size_eq]
    exact hstands.same_iff view.stands_ending
  · intro _ hcount
    have hmore : count < 2 * view.buffer.size := by rwa [← size_eq]
    exact agrees_of_stands (hstands.increment hmore).decrement hstands hcount
  · intro hpos hcount
    obtain ⟨before, rfl⟩ := Nat.exists_eq_add_one_of_ne_zero (Nat.ne_of_gt hpos)
    have hmore : before < 2 * view.buffer.size := by
      rw [size_eq] at hcount
      exact Nat.lt_of_succ_lt hcount
    exact agrees_of_stands (hstands.decrement.increment hmore) hstands hcount

theorem stream_eq (view : HexView) {fuel : Nat} (hfuel : view.size < fuel) :
    view.stream fuel = .ok (hexDigits view.buffer.bytes) := by
  have hlength := length_hexDigits view.buffer.bytes
  have hlast : Stands view.buffer view.ending (hexDigits view.buffer.bytes).length := by
    rw [hlength]
    exact view.stands_ending
  apply (HexIterator.traverses view.buffer).forwards_eq .diverged hlast view.stands_beginning
  · exact Nat.zero_le _
  · rw [hlength]
    rwa [size_eq] at hfuel

theorem streamBackwards_eq (view : HexView) {fuel : Nat} (hfuel : view.size < fuel) :
    view.streamBackwards fuel = .ok (hexDigits view.buffer.bytes).reverse := by
  have hlength := length_hexDigits view.buffer.bytes
  have hback := (HexIterator.traverses view.buffer).backwards_eq .diverged view.stands_beginning
    view.stands_ending hlength.ge (by rwa [← size_eq])
  change view.streamBackwards fuel = _ at hback
  have hall : (hexDigits view.buffer.bytes).take (2 * view.buffer.size) =
      hexDigits view.buffer.bytes := by
    change (hexDigits view.buffer.bytes).take (2 * view.buffer.bytes.length) = _
    rw [← hlength, List.take_length]
  rw [hback, hall]

theorem reached_increment (view : HexView) {count : Nat} (hcount : count ≤ view.size) :
    view.Reached (HexIterator.increment^[count] view.beginning) count := by
  induction count with
  | zero => exact .beginning
  | succ count ih =>
      rw [Function.iterate_succ_apply']
      exact .increment (ih (Nat.le_of_succ_le hcount)) hcount

theorem reached_decrement (view : HexView) {count : Nat} (hcount : count ≤ view.size) :
    view.Reached (HexIterator.decrement^[count] view.ending) (view.size - count) := by
  induction count with
  | zero => exact .ending
  | succ count ih =>
      have hbefore := ih (Nat.le_of_succ_le hcount)
      have hstep : view.size - count = view.size - (count + 1) + 1 := by omega
      rw [hstep] at hbefore
      rw [Function.iterate_succ_apply']
      exact .decrement hbefore

theorem difference_eq (hreached : view.Reached iterator count)
    (hother : view.Reached other count') :
    iterator.difference other = Int.bmod ((count : Int) - count') (2 ^ 64) := by
  rw [difference, hreached.stands.position, hother.stands.position]

end HexView

/-- **What `hex` reads.** The loops forwards and backwards give the digits of the buffer and their
reverse, and take `size()` steps to come from `begin()` to `end()` and back. Any iterator on the
way, whichever mix of steps has led to it, has the digit that belongs there; and the difference of
two is the number of steps between them, as long as an `std::int64_t` can hold it. -/
theorem hex_reads (buffer : BufferView) :
    let view := hex buffer
    let digits := hexDigits buffer.bytes
    view.size = 2 * buffer.size ∧
      (∀ fuel, view.size < fuel →
        view.stream fuel = .ok digits ∧ view.streamBackwards fuel = .ok digits.reverse) ∧
      (∀ count ≤ view.size,
        ((HexIterator.increment^[count] view.beginning).same view.ending = true ↔
            count = view.size) ∧
          ((HexIterator.decrement^[count] view.ending).same view.beginning = true ↔
            count = view.size)) ∧
      (∀ iterator count, view.Reached iterator count → view.Bidirectional iterator count) ∧
      ∀ iterator count other count', view.Reached iterator count → view.Reached other count' →
        -2 ^ 63 ≤ (count : Int) - count' → (count : Int) - count' < 2 ^ 63 →
          iterator.difference other = (count : Int) - count' := by
  intro view digits
  refine ⟨view.size_eq, ?_, ?_, ?_, ?_⟩
  · intro fuel hfuel
    exact ⟨view.stream_eq hfuel, view.streamBackwards_eq hfuel⟩
  · intro count hcount
    have hback := (view.reached_decrement hcount).bidirectional.at_beginning
    refine ⟨(view.reached_increment hcount).bidirectional.at_ending, hback.trans ?_⟩
    omega
  · intro iterator count hreached
    exact hreached.bidirectional
  · intro iterator count other count' hreached hother hlower hupper
    rw [HexView.difference_eq hreached hother]
    apply Int.bmod_eq_of_le
    · omega
    · omega

/-- A buffer of `2 ^ 62` zeros, which has `2 ^ 63` digits. -/
def hugeBuffer : BufferView where
  data := 0
  bytes := List.replicate (2 ^ 62) 0
  length_lt := by
    rw [List.length_replicate]
    decide

/-- The difference of `end()` and `begin()` does not have to be the number of steps. -/
theorem not_difference_hugeBuffer :
    ¬ ∀ iterator count other count', (hex hugeBuffer).Reached iterator count →
      (hex hugeBuffer).Reached other count' →
        iterator.difference other = (count : Int) - count' := by
  intro hdifference
  have hsize : (hex hugeBuffer).size = 2 ^ 63 := by
    have hlength : (hex hugeBuffer).buffer.size = 2 ^ 62 := List.length_replicate
    rw [HexView.size_eq, hlength]
    rfl
  have hend := hdifference _ _ _ _ (.ending) (.beginning)
  rw [HexView.difference_eq .ending .beginning, hsize] at hend
  exact absurd hend (by decide)

end Liblw.Format
