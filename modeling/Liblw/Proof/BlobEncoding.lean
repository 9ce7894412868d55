import Liblw.Format.Blobs

/-!
# What the view of a buffer reads

An iterator that has been incremented `count` times stands on the character `count` of the encoding:
it has loaded the block `count / 4` and its index is three times that, but not more than the size of
the buffer. So it meets the end iterator after four characters for each block that has been started,
for all three residues of the size.
-/

namespace Liblw.Format

open Liblw.Lib
open Base64Alphabet (standard sextet)

/-! ## One block -/

theorem b64Table_eq : b64Table = standard.symbols := by
  decide

theorem tableAt_and (bits : Nat) :
    tableAt (bits &&& 0x3f) = .ok (standard.symbol (Fin.ofNat 64 bits)) := by
  have hmask : bits &&& 0x3f = bits % 64 := Nat.and_two_pow_sub_one_eq_mod bits 6
  have hbound : bits % 64 < standard.symbols.length := by
    rw [standard.length_symbols]
    exact Nat.mod_lt bits (by decide)
  rw [tableAt, hmask, b64Table_eq, List.getElem?_eq_getElem hbound]
  rfl

theorem push_of_lt {out : Text} (hlength : out.length < b64BlockSize) (c : Char) :
    push out c = .ok (out ++ [c]) := if_pos hlength

theorem accumulate_eq {accumulator : Nat} (haccumulator : accumulator < 2 ^ 24) (byte : UInt8) :
    ((accumulator <<< 8) ||| (byte.toNat &&& 0xff)) % 2 ^ 32 =
      accumulator * 2 ^ 8 + byte.toNat := by
  have hbyte : byte.toNat < 2 ^ 8 := byte.toNat_lt
  have hmask : byte.toNat &&& 0xff = byte.toNat := by
    rw [Nat.and_two_pow_sub_one_eq_mod byte.toNat 8]
    exact Nat.mod_eq_of_lt hbyte
  rw [hmask, ← Nat.shiftLeft_add_eq_or_of_lt hbyte, Nat.shiftLeft_eq]
  apply Nat.mod_eq_of_lt
  omega

theorem writeGroups_of_lt {bitsCollected : Nat} (hbits : bitsCollected < 6) (accumulator : Nat)
    (out : Text) : writeGroups bitsCollected accumulator out = .ok (bitsCollected, out) := by
  rw [writeGroups]
  · rfl
  · intro rest hrest
    omega

theorem writeGroups_add_six (bitsCollected accumulator : Nat) {out : Text}
    (hlength : out.length < b64BlockSize) :
    writeGroups (bitsCollected + 6) accumulator out =
      writeGroups bitsCollected accumulator
        (out ++ [standard.symbol (sextet accumulator bitsCollected)]) := by
  rw [writeGroups, tableAt_and, Nat.shiftRight_eq_div_pow]
  simp only [bind, Except.bind, push_of_lt hlength]
  rfl

theorem collectBytes_cons {accumulator : Nat} (haccumulator : accumulator < 2 ^ 24) {out : Text}
    (hlength : out.length < b64BlockSize) (bitsCollected : Nat) (byte : UInt8)
    (bytes : List UInt8) :
    collectBytes (byte :: bytes) ⟨bitsCollected, accumulator, out⟩ =
      (writeGroups (bitsCollected + 8) (accumulator * 2 ^ 8 + byte.toNat) out).bind
        fun written => collectBytes bytes
          ⟨written.1, accumulator * 2 ^ 8 + byte.toNat, written.2⟩ := by
  rw [collectBytes, if_pos hlength, accumulate_eq haccumulator]
  rfl

theorem collectBytes_full (bytes : List UInt8) (accumulator : Nat) {out : Text}
    (hlength : out.length = b64BlockSize) :
    collectBytes bytes ⟨0, accumulator, out⟩ = .ok ⟨0, accumulator, out⟩ := by
  cases bytes with
  | nil => rfl
  | cons byte bytes =>
    rw [collectBytes, if_neg]
    · rfl
    · rw [hlength]
      decide

/-- The first byte gives one character and leaves two bits. -/
theorem collectBytes_first (first : UInt8) (bytes : List UInt8) :
    collectBytes (first :: bytes) ⟨0, 0, []⟩ =
      collectBytes bytes ⟨2, first.toNat, [standard.symbol (sextet first.toNat 2)]⟩ := by
  rw [collectBytes_cons (by decide) (by decide), Nat.zero_mul, Nat.zero_add first.toNat,
    writeGroups_add_six 2 _ (by decide), writeGroups_of_lt (by decide)]
  rfl

/-- The second byte gives one more and leaves four bits. -/
theorem collectBytes_second {accumulator : Nat} (haccumulator : accumulator < 2 ^ 8) (c : Char)
    (second : UInt8) (bytes : List UInt8) :
    let bits := accumulator * 2 ^ 8 + second.toNat
    collectBytes (second :: bytes) ⟨2, accumulator, [c]⟩ =
      collectBytes bytes ⟨4, bits, [c, standard.symbol (sextet bits 4)]⟩ := by
  intro bits
  rw [collectBytes_cons (by omega) (by simp [b64BlockSize]),
    writeGroups_add_six 4 _ (by simp [b64BlockSize]), writeGroups_of_lt (by decide)]
  rfl

/-- The third byte fills the block and leaves no bits. -/
theorem collectBytes_third {accumulator : Nat} (haccumulator : accumulator < 2 ^ 16) (c d : Char)
    (third : UInt8) (bytes : List UInt8) :
    let bits := accumulator * 2 ^ 8 + third.toNat
    collectBytes (third :: bytes) ⟨4, accumulator, [c, d]⟩ =
      .ok ⟨0, bits, [c, d, standard.symbol (sextet bits 6), standard.symbol (sextet bits 0)]⟩ := by
  intro bits
  rw [collectBytes_cons (by omega) (by simp [b64BlockSize]),
    writeGroups_add_six 6 _ (by simp [b64BlockSize]),
    writeGroups_add_six 0 _ (by simp [b64BlockSize]), writeGroups_of_lt (by decide)]
  exact collectBytes_full bytes bits rfl

theorem writeRest_of_pos {bitsCollected accumulator : Nat} (hbits : 0 < bitsCollected)
    (haccumulator : accumulator * 2 ^ (6 - bitsCollected) < 2 ^ 32) {out : Text}
    (hlength : out.length < b64BlockSize) :
    writeRest ⟨bitsCollected, accumulator, out⟩ =
      .ok (out ++ [standard.symbol (Fin.ofNat 64 (accumulator * 2 ^ (6 - bitsCollected)))]) := by
  simp only [writeRest, hbits, if_true, Nat.shiftLeft_eq, Nat.mod_eq_of_lt haccumulator,
    tableAt_and, bind, Except.bind, push_of_lt hlength]

theorem sextet_congr {bits bits' shift shift' : Nat}
    (hbits : bits / 2 ^ shift % 64 = bits' / 2 ^ shift' % 64) :
    sextet bits shift = sextet bits' shift' := Fin.ext hbits

theorem ofNat_eq_sextet {rest bits shift : Nat} (hbits : rest % 64 = bits / 2 ^ shift % 64) :
    Fin.ofNat 64 rest = sextet bits shift := Fin.ext hbits

/-- What one block holds. The end of the buffer gives a block of padding. -/
def blockOf (bytes : List UInt8) : Text :=
  if bytes = [] then List.replicate 4 '=' else standard.encode (bytes.take 3)

theorem toBase64_eq (buffer : BufferView) : toBase64 buffer = .ok (blockOf buffer.bytes) := by
  rw [toBase64]
  match buffer.bytes with
  | [] => rfl
  | [first] =>
    have hfirst := first.toNat_lt
    let bits := first.toNat * 2 ^ 16
    rw [collectBytes_first, collectBytes]
    change (writeRest _).bind _ = _
    rw [writeRest_of_pos (by decide) (by omega) (by simp [b64BlockSize]),
      @sextet_congr _ bits 2 18 (by omega), @ofNat_eq_sextet _ bits 12 (by omega)]
    rfl
  | [first, second] =>
    have hfirst := first.toNat_lt
    have hsecond := second.toNat_lt
    let bits := first.toNat * 2 ^ 16 + second.toNat * 2 ^ 8
    rw [collectBytes_first, collectBytes_second hfirst, collectBytes]
    change (writeRest _).bind _ = _
    rw [writeRest_of_pos (by decide) (by omega) (by simp [b64BlockSize]),
      @sextet_congr _ bits 2 18 (by omega), @sextet_congr _ bits 4 12 (by omega),
      @ofNat_eq_sextet _ bits 6 (by omega)]
    rfl
  | first :: second :: third :: rest =>
    have hfirst := first.toNat_lt
    have hsecond := second.toNat_lt
    have hthird := third.toNat_lt
    let bits := first.toNat * 2 ^ 16 + second.toNat * 2 ^ 8 + third.toNat
    rw [collectBytes_first, collectBytes_second hfirst, collectBytes_third (by omega),
      @sextet_congr _ bits 2 18 (by omega), @sextet_congr _ bits 4 12 (by omega),
      @sextet_congr _ bits 6 6 (by omega), @sextet_congr _ bits 0 0 (by omega)]
    rfl

/-! ## The iterator -/

namespace Base64Iterator

/-- Where `begin()` stands after `count` steps. -/
def positionOf (buffer : BufferView) (count : Nat) : Base64Iterator :=
  let index := min (3 * (count / 4)) buffer.size
  { buffer, block := blockOf (buffer.bytes.drop index), index, charIndex := count % 4 }

theorem loadChars_of_le {iterator : Base64Iterator}
    (hindex : iterator.index ≤ iterator.buffer.size) :
    iterator.loadChars =
      .ok { iterator with block := blockOf (iterator.buffer.bytes.drop iterator.index) } := by
  rw [loadChars, if_neg (by omega), BufferView.trimPrefix, if_neg (by omega)]
  change (toBase64 _).bind _ = _
  rw [toBase64_eq]
  rfl

/-- One step. The index is clamped at the end of the buffer, where it stays. -/
theorem increment_positionOf (buffer : BufferView) (count : Nat) :
    (positionOf buffer count).increment = .ok (positionOf buffer (count + 1)) := by
  have hsize : buffer.size < 2 ^ 63 := buffer.length_lt
  by_cases hlast : count % 4 = 3
  · have hindex : min ((min (3 * (count / 4)) buffer.size + 3) % 2 ^ 64) buffer.size
        = min (3 * ((count + 1) / 4)) buffer.size := by
      omega
    have hplace : (count + 1) % 4 = 0 := by omega
    simp only [increment, positionOf, hlast, if_true, hindex]
    rw [loadChars_of_le (Nat.min_le_right _ _), hplace]
  · have hblock : (count + 1) / 4 = count / 4 := by omega
    have hplace : (count % 4 + 1) % 2 ^ 8 = (count + 1) % 4 := by omega
    simp only [increment, positionOf, hlast, if_false, hblock, hplace]
    rfl

theorem advance_positionOf (buffer : BufferView) (count : Nat) :
    (positionOf buffer 0).advance count = .ok (positionOf buffer count) := by
  induction count with
  | zero => rfl
  | succ count ih =>
    rw [advance, ih]
    exact increment_positionOf buffer count

/-- While a character is left, the iterator stands on the next one. -/
theorem value_positionOf (buffer : BufferView) {count : Nat}
    (hcount : count < (standard.encode buffer.bytes).length) :
    (positionOf buffer count).value = .ok (standard.encode buffer.bytes)[count] := by
  have hlength := standard.length_encode buffer.bytes
  have hsize : buffer.size = buffer.bytes.length := rfl
  have hindex : min (3 * (count / 4)) buffer.size = 3 * (count / 4) := by omega
  have hmore : buffer.bytes.drop (3 * (count / 4)) ≠ [] := by
    apply List.ne_nil_of_length_pos
    rw [List.length_drop]
    omega
  have hgroup := standard.getElem?_encode buffer.bytes (count / 4) (Nat.mod_lt count (by decide))
  rw [Nat.div_add_mod, List.getElem?_eq_getElem hcount] at hgroup
  simp only [value, positionOf, hindex, blockOf, hmore, if_false, ← hgroup]
  rfl

theorem size_of_lt {s : Nat} (hs : s < 2 ^ 63) : size s = 4 * ((s + 2) / 3) := by
  rw [size]
  omega

/-- The end iterator is met after all the steps and not before. -/
theorem same_ending_iff (view : Base64View) {count : Nat} (hcount : count ≤ view.size) :
    (positionOf view.buffer count).same view.ending = true ↔ count = view.size := by
  have hlength : view.buffer.size < 2 ^ 63 := view.buffer.length_lt
  rw [Base64View.size, size_of_lt hlength] at hcount ⊢
  simp only [same, BufferView.same, positionOf, Base64View.ending, beq_self_eq_true,
    Bool.true_and, Bool.and_eq_true, beq_iff_eq]
  omega

theorem position_positionOf (view : Base64View) {count : Nat} (hcount : count ≤ view.size) :
    (positionOf view.buffer count).position = count := by
  have hlength : view.buffer.size < 2 ^ 63 := view.buffer.length_lt
  rw [Base64View.size, size_of_lt hlength] at hcount
  have hindex : min (3 * (count / 4)) view.buffer.size < 2 ^ 63 := by omega
  simp only [position, positionOf, size_of_lt hindex]
  omega

/-- The difference is the number of steps, as far as 64 bits with a sign go. -/
theorem difference_positionOf (view : Base64View) {count count' : Nat}
    (hcount : count ≤ view.size) (hcount' : count' ≤ view.size) :
    (positionOf view.buffer count).difference (positionOf view.buffer count') =
      Int.bmod ((count : Int) - count') (2 ^ 64) := by
  rw [difference, position_positionOf view hcount, position_positionOf view hcount']

/-! ## The loops -/

/-- The iterator has been incremented so many times. -/
def Stands (view : Base64View) (iterator : Base64Iterator) (count : Nat) : Prop :=
  iterator = positionOf view.buffer count ∧ count ≤ view.size

theorem length_encode_bytes (view : Base64View) :
    (standard.encode view.buffer.bytes).length = view.size := by
  rw [standard.length_encode, Base64View.size]
  exact (size_of_lt view.buffer.length_lt).symm

theorem Stands.value {view : Base64View} {iterator : Base64Iterator} {count : Nat}
    (hstands : Stands view iterator count)
    (hcount : count < (standard.encode view.buffer.bytes).length) :
    iterating.value iterator = .ok (standard.encode view.buffer.bytes)[count] := by
  rw [hstands.1]
  exact value_positionOf view.buffer hcount

theorem forwards_positionOf (view : Base64View) {fuel : Nat} (hfuel : view.size < fuel) :
    iterating.forwards .diverged fuel (positionOf view.buffer 0) view.ending =
      .ok (standard.encode view.buffer.bytes) := by
  have hlength := length_encode_bytes view
  change _ = Except.ok ((standard.encode view.buffer.bytes).drop 0)
  refine Iterating.forwards_eq (@Stands.value view) ?_ ?_ .diverged ⟨rfl, Nat.zero_le _⟩
    (Nat.zero_le _) (by rwa [hlength])
  · rintro iterator count ⟨rfl, _⟩ hcount
    rw [hlength] at hcount
    exact ⟨_, increment_positionOf view.buffer count, rfl, hcount⟩
  · rintro iterator count ⟨rfl, hcount⟩
    rw [hlength]
    exact same_ending_iff view hcount

end Base64Iterator

namespace Base64View

open Base64Iterator

theorem beginning_eq (view : Base64View) : view.beginning = .ok (positionOf view.buffer 0) := by
  have hindex : min (3 * (0 / 4)) view.buffer.size = 0 := Nat.zero_min _
  rw [beginning, loadChars_of_le (Nat.zero_le _)]
  simp only [positionOf, hindex]

theorem reach_eq (view : Base64View) (count : Nat) :
    view.reach count = .ok (positionOf view.buffer count) := by
  rw [reach, beginning_eq]
  exact advance_positionOf view.buffer count

theorem stream_eq (view : Base64View) {fuel : Nat} (hfuel : view.size < fuel) :
    view.stream fuel = .ok (standard.encode view.buffer.bytes) := by
  rw [stream, beginning_eq]
  exact forwards_positionOf view hfuel

theorem distance_eq (view : Base64View) {count count' : Nat} (hcount : count ≤ view.size)
    (hcount' : count' ≤ view.size) :
    view.distance count count' = .ok (Int.bmod ((count : Int) - count') (2 ^ 64)) := by
  rw [distance, reach_eq, reach_eq, ← difference_positionOf view hcount hcount']
  rfl

end Base64View

/-- **What `base64` reads.** It streams the encoding of the buffer, from which the decoder recovers
the bytes; `size()` is four times the number of groups; `begin()` meets `end()` after that many
steps and not before; and the difference of two positions on the way is the number of steps between
them, as long as an `std::int64_t` can hold it. -/
theorem base64_encodes (buffer : BufferView) :
    let view := base64 buffer
    let encoded := standard.encode buffer.bytes
    (∀ fuel, view.size < fuel → view.stream fuel = .ok encoded) ∧
      standard.decode encoded = some buffer.bytes ∧
      view.size = 4 * (buffer.size ⌈/⌉ 3) ∧
      (∀ count ≤ view.size, ∃ iterator, view.reach count = .ok iterator ∧
        (iterator.same view.ending = true ↔ count = view.size)) ∧
      ∀ count ≤ view.size, ∀ count' ≤ view.size,
        -2 ^ 63 ≤ (count : Int) - count' → (count : Int) - count' < 2 ^ 63 →
          view.distance count count' = .ok ((count : Int) - count') := by
  intro view encoded
  refine ⟨fun fuel hfuel => view.stream_eq hfuel, standard.decode_encode buffer.bytes, ?_, ?_, ?_⟩
  · rw [Nat.ceilDiv_eq_add_pred_div]
    exact Base64Iterator.size_of_lt buffer.length_lt
  · intro count hcount
    exact ⟨_, view.reach_eq count, Base64Iterator.same_ending_iff view hcount⟩
  · intro count hcount count' hcount' hlower hupper
    rw [view.distance_eq hcount hcount', Int.bmod_eq_of_le (by omega) (by omega)]

/-- A buffer of `3 * 2 ^ 61` zeros, which is encoded in `2 ^ 63` characters. -/
def longBuffer : BufferView where
  data := 0
  bytes := List.replicate (3 * 2 ^ 61) 0
  length_lt := by
    rw [List.length_replicate]
    decide

/-- The difference of `end()` and `begin()` does not have to be the number of steps. -/
theorem not_distance_longBuffer :
    ¬ ∀ count ≤ (base64 longBuffer).size, ∀ count' ≤ (base64 longBuffer).size,
      (base64 longBuffer).distance count count' = .ok ((count : Int) - count') := by
  intro hdistance
  have hlength : longBuffer.size = 3 * 2 ^ 61 := List.length_replicate
  have hsize : (base64 longBuffer).size = 2 ^ 63 := by
    change Base64Iterator.size longBuffer.size = 2 ^ 63
    rw [hlength]
    decide
  have hend := hdistance (2 ^ 63) hsize.ge 0 (Nat.zero_le _)
  rw [Base64View.distance_eq _ hsize.ge (Nat.zero_le _)] at hend
  have hwrapped :
      Int.bmod ((2 ^ 63 : Nat) - (0 : Nat) : Int) (2 ^ 64) ≠ (2 ^ 63 : Nat) - (0 : Nat) := by
    decide
  exact hwrapped (Except.ok.inj hend)

end Liblw.Format
