import Liblw.Proof.ReaderConservation

/-!
# When the reader has room

A read that the maximum allows does return. What can stand in its way is arithmetic: the doubling
loop must end, the block must be one that can be allocated, and the sums must not wrap. Each is
settled by how the sizes of the blocks have come about.
-/

namespace Liblw.Io

open Liblw.Lib

/-! ### The doubling loop -/

theorem le_of_growSize {rounds size desired grown : Nat}
    (hgrow : growSize rounds size desired = some grown) : desired ≤ grown := by
  induction rounds generalizing size with
  | zero => cases hgrow
  | succ rounds ih =>
      unfold growSize at hgrow
      split_ifs at hgrow with hless
      · exact ih hgrow
      · obtain rfl := Option.some.inj hgrow
        omega

theorem pos_of_growSize {rounds size desired grown : Nat} (hsize : 0 < size)
    (hgrow : growSize rounds size desired = some grown) : 0 < grown := by
  have hdesired := le_of_growSize hgrow
  cases rounds with
  | zero => cases hgrow
  | succ rounds =>
      unfold growSize at hgrow
      split_ifs at hgrow with hless
      · omega
      · obtain rfl := Option.some.inj hgrow
        exact hsize

/-- No doubling gets away from zero. -/
theorem growSize_zero {rounds desired grown : Nat}
    (hgrow : growSize rounds 0 desired = some grown) : grown = 0 := by
  induction rounds with
  | zero => cases hgrow
  | succ rounds ih =>
      unfold growSize at hgrow
      split_ifs at hgrow with hless
      · exact ih hgrow
      · exact (Option.some.inj hgrow).symm

/-- Up to `2 ^ 63` the doubling does not wrap and gets there. -/
theorem exists_growSize {rounds size desired : Nat} (hbound : desired ≤ 2 ^ 63)
    (hreach : desired ≤ size * 2 ^ rounds) :
    ∃ grown, growSize (rounds + 1) size desired = some grown := by
  induction rounds generalizing size with
  | zero =>
      rw [Nat.pow_zero, Nat.mul_one] at hreach
      exact ⟨size, by rw [growSize, if_neg (by omega)]⟩
  | succ rounds ih =>
      unfold growSize
      split_ifs with hless
      · have hwrap : size * 2 % 2 ^ 64 = size * 2 := Nat.mod_eq_of_lt (by omega)
        rw [hwrap]
        refine ih ?_
        calc desired ≤ size * 2 ^ (rounds + 1) := hreach
          _ = size * 2 * 2 ^ rounds := by rw [Nat.pow_succ]; ring
      · exact ⟨size, rfl⟩

/-- The doubling stops at the first size that is large enough. -/
theorem growSize_le {rounds size desired grown doublings : Nat}
    (hgrow : growSize rounds size desired = some grown) (hreach : desired ≤ size * 2 ^ doublings)
    (hsmall : size * 2 ^ doublings < 2 ^ 64) : grown ≤ size * 2 ^ doublings := by
  induction rounds generalizing size doublings with
  | zero => cases hgrow
  | succ rounds ih =>
      unfold growSize at hgrow
      split_ifs at hgrow with hless
      · cases doublings with
        | zero =>
            rw [Nat.pow_zero, Nat.mul_one] at hreach
            omega
        | succ doublings =>
            have hpower : size * 2 ^ (doublings + 1) = size * 2 * 2 ^ doublings := by
              rw [Nat.pow_succ]
              ring
            have hpositive := Nat.two_pow_pos doublings
            have hwrap : size * 2 % 2 ^ 64 = size * 2 := by
              apply Nat.mod_eq_of_lt
              calc size * 2 ≤ size * 2 * 2 ^ doublings := Nat.le_mul_of_pos_right _ hpositive
                _ < 2 ^ 64 := by rwa [← hpower]
            rw [hwrap] at hgrow
            rw [hpower] at hreach hsmall ⊢
            exact ih hgrow hreach hsmall
      · obtain rfl := Option.some.inj hgrow
        exact Nat.le_mul_of_pos_right _ (Nat.two_pow_pos doublings)

/-- Below `2 ^ 63` the doubling has not wrapped. -/
theorem growSize_eq_mul {rounds size desired grown : Nat}
    (hgrow : growSize rounds size desired = some grown) (hsmall : grown < 2 ^ 63) :
    ∃ doublings, grown = size * 2 ^ doublings := by
  induction rounds generalizing size with
  | zero => cases hgrow
  | succ rounds ih =>
      have hdesired := le_of_growSize hgrow
      unfold growSize at hgrow
      split_ifs at hgrow with hless
      · obtain ⟨doublings, hgrown⟩ := ih hgrow
        have hwrap : size * 2 % 2 ^ 64 = size * 2 := Nat.mod_eq_of_lt (by omega)
        rw [hwrap] at hgrown
        refine ⟨doublings + 1, ?_⟩
        rw [hgrown, Nat.pow_succ]
        ring
      · obtain rfl := Option.some.inj hgrow
        exact ⟨0, by simp⟩

/-- The loop finds a block for what some doubling reaches. -/
theorem exists_growSize_double {length total : Nat} (hpositive : 1 ≤ length)
    (hsmall : length < 2 ^ 63) (htotal : total ≤ 2 ^ 63) :
    ∃ grown, growSize 65 (length * 2 % 2 ^ 64) total = some grown := by
  have hdouble : length * 2 % 2 ^ 64 = length * 2 := Nat.mod_eq_of_lt (by omega)
  apply exists_growSize htotal
  rw [hdouble]
  calc total ≤ 1 * 2 ^ 64 := by omega
    _ ≤ length * 2 * 2 ^ 64 := Nat.mul_le_mul_right _ (by omega)

/-- The loop finds a size that a block can have exactly if the maximum is one, or a doubling is. -/
theorem exists_block_iff {length total maximum : Nat} (hpositive : 1 ≤ length)
    (hsmall : length < 2 ^ 63) (hmaximum : total ≤ maximum) :
    (∃ grown, growSize 65 (length * 2 % 2 ^ 64) total = some grown ∧ min grown maximum < 2 ^ 63) ↔
      maximum < 2 ^ 63 ∨
        ∃ doublings, 0 < doublings ∧ total ≤ length * 2 ^ doublings ∧
          length * 2 ^ doublings < 2 ^ 63 := by
  have hdouble : length * 2 % 2 ^ 64 = length * 2 := Nat.mod_eq_of_lt (by omega)
  have hpower : ∀ doublings, length * 2 * 2 ^ doublings = length * 2 ^ (doublings + 1) := by
    intro doublings
    rw [Nat.pow_succ]
    ring
  constructor
  · rintro ⟨grown, hgrow, hmin⟩
    by_cases hblock : maximum < 2 ^ 63
    · exact Or.inl hblock
    · have hgrown : grown < 2 ^ 63 := by omega
      obtain ⟨doublings, hpow⟩ := growSize_eq_mul hgrow hgrown
      rw [hdouble, hpower] at hpow
      have htotal := le_of_growSize hgrow
      rw [hpow] at htotal hgrown
      exact Or.inr ⟨doublings + 1, Nat.succ_pos _, htotal, hgrown⟩
  · rintro (hblock | ⟨doublings, hdoublings, htotal, hblock⟩)
    · have htotal : total ≤ 2 ^ 63 := by omega
      obtain ⟨grown, hgrow⟩ := exists_growSize_double hpositive hsmall htotal
      exact ⟨grown, hgrow, by omega⟩
    · have hreach : total ≤ 2 ^ 63 := by omega
      obtain ⟨grown, hgrow⟩ := exists_growSize_double hpositive hsmall hreach
      obtain ⟨count, rfl⟩ := Nat.exists_eq_succ_of_ne_zero hdoublings.ne'
      rw [Nat.succ_eq_add_one, ← hpower, ← hdouble] at htotal hblock
      have hle := growSize_le hgrow htotal (by omega)
      exact ⟨grown, hgrow, by omega⟩

/-! ### The sizes of the blocks -/

/-- What the sizes of a reader's blocks have in common. -/
structure Sized (flags : ReadFlags) (buffers : Buffers) : Prop where
  small : buffers.buffer.cells.length < 2 ^ 63
  empty : flags.initialReadBufferSize = 0 → buffers.buffer.cells.length = 0
  positive : 0 < flags.initialReadBufferSize → 0 < flags.maximumReadBufferSize →
    0 < buffers.buffer.cells.length

variable {flags : ReadFlags} {allocator : Allocator}

theorem sized_of_grown {before after : Buffers} (hsized : Sized flags before)
    (hgrown : Grown flags before after) : Sized flags after := by
  rcases hgrown with hsame | ⟨size, desired, hgrow, hlength, hsmall⟩
  · exact ⟨hsame ▸ hsized.small, fun hzero => hsame ▸ hsized.empty hzero,
      fun hinitial hmaximum => hsame ▸ hsized.positive hinitial hmaximum⟩
  · refine ⟨hsmall, ?_, ?_⟩
    · intro hzero
      rw [hsized.empty hzero] at hgrow
      rw [hlength, growSize_zero hgrow, Nat.zero_min]
    · intro hinitial hmaximum
      have hbefore := hsized.positive hinitial hmaximum
      have hdouble : 0 < before.buffer.cells.length * 2 % 2 ^ 64 := by
        have := hsized.small
        omega
      have hsize := pos_of_growSize hdouble hgrow
      rw [hlength]
      exact Nat.lt_min.mpr ⟨hsize, hmaximum⟩

theorem sized_make {σ : Type} {start : σ} {reader : CoReader σ}
    (hmake : CoReader.make flags allocator start = .ok reader) : Sized flags reader.buffers := by
  unfold CoReader.make at hmake
  split_ifs at hmake with hsize
  obtain rfl := Except.ok.inj hmake
  have hlength := allocator.length_cells 0 flags.initialReadBufferSize
  refine ⟨?_, ?_, ?_⟩
  · show (allocator.allocate 0 flags.initialReadBufferSize).cells.length < 2 ^ 63
    omega
  · intro hzero
    show (allocator.allocate 0 flags.initialReadBufferSize).cells.length = 0
    omega
  · intro hinitial _
    show 0 < (allocator.allocate 0 flags.initialReadBufferSize).cells.length
    omega

theorem settled_make {σ : Type} {start : σ} {reader : CoReader σ}
    (hmake : CoReader.make flags allocator start = .ok reader) : reader.buffers.Settled := by
  unfold CoReader.make at hmake
  split_ifs at hmake with hsize
  obtain rfl := Except.ok.inj hmake
  exact Or.inl ⟨rfl, rfl⟩

/-- Every reader that completed calls have led to has settled windows and a sized block. -/
theorem invariant_sized {σ : Type} {source : Source σ} :
    Invariant flags allocator source fun _ reader =>
      reader.buffers.Settled ∧ Sized flags reader.buffers where
  load := by
    rintro returned reader final limit hlimit ⟨hsettled, hsized⟩ hexec
    obtain ⟨bytes, -, hgrown, hlayout, -⟩ := CoReader.loadBuffer_eq_ok hsettled hlimit hexec
    exact ⟨Or.inr hlayout, sized_of_grown hsized hgrown⟩
  take := by
    rintro returned bytes reader final n ⟨hsettled, hsized⟩ hexec
    obtain ⟨buffers, htake, rfl⟩ := Call.exec_within_eq_ok hexec
    refine ⟨hsettled.imp (fun h => CoReader.unloaded_takeFront h htake)
      (fun h => CoReader.layout_takeFront h htake), ?_⟩
    obtain ⟨-, -, rfl⟩ := CoReader.takeFront_eq_ok htake
    exact ⟨hsized.small, hsized.empty, hsized.positive⟩

/-! ### Calls that return -/

section Primitives

variable {σ : Type}

theorem exec_loadBytes {block : Block UInt8} {pointer count : Nat} {bytes : List UInt8}
    (hload : block.load pointer count = some bytes) (state : σ) :
    (loadBytes block pointer count).exec state = (.ok bytes, state) := by
  unfold loadBytes
  rw [hload]
  rfl

theorem exec_storeBytes {block after : Block UInt8} {pointer : Nat} {bytes : List UInt8}
    (hstore : block.store pointer bytes = some after) (state : σ) :
    (storeBytes block pointer bytes).exec state = (.ok after, state) := by
  unfold storeBytes
  rw [hstore]
  rfl

theorem exec_trimPrefix {window : Window} {n : Nat} (hroom : n ≤ window.size) (state : σ) :
    (window.trimPrefix n).exec state = (.ok ⟨window.data + n, window.size - n⟩, state) := by
  unfold Window.trimPrefix
  simp only [Nat.not_lt.mpr hroom, ↓reduceIte, Call.exec_pure]

/-- Behind bytes at the front of a block. -/
theorem exec_trimCopied {block : Block UInt8} {count : Nat} (hroom : count ≤ block.cells.length)
    (state : σ) : (Window.trimPrefix ⟨block.address, block.cells.length⟩ count).exec state =
      (.ok ⟨block.address + count, block.cells.length - count⟩, state) :=
  @exec_trimPrefix _ ⟨block.address, block.cells.length⟩ count hroom state

theorem exec_copy {target source after : Block UInt8} {pointer count : Nat} {bytes : List UInt8}
    (hroom : count ≤ target.cells.length) (hload : source.load pointer count = some bytes)
    (hstore : target.store target.address bytes = some after) (state : σ) :
    (copy target source pointer count).exec state = (.ok after, state) := by
  unfold copy
  rw [Nat.min_eq_left hroom, Call.exec_bind_ok (exec_loadBytes hload state)]
  exact exec_storeBytes hstore state

/-- Bytes fit at the front of a block that is long enough. -/
theorem exists_store_front {block : Block UInt8} {bytes : List UInt8}
    (hroom : bytes.length ≤ block.cells.length) :
    ∃ after, block.store block.address bytes = some after ∧
      after.cells.length = block.cells.length := by
  have hcontains : block.Contains block.address bytes.length := ⟨le_refl _, by omega⟩
  obtain ⟨after, hstore⟩ := Block.exists_store hcontains
  exact ⟨after, hstore, (Block.store_frame hstore).2⟩

end Primitives

variable {buffers : Buffers} {desired : Nat}

/-- A block that can be allocated takes the bytes over. -/
theorem exec_reallocBuffers {grown : Nat} (hsettled : buffers.Settled)
    (hmaximum : desired ≤ flags.maximumReadBufferSize)
    (hgrow : growSize 65 (buffers.buffer.cells.length * 2 % 2 ^ 64) desired = some grown)
    (hsize : min grown flags.maximumReadBufferSize < 2 ^ 63) (hread : buffers.read.size ≤ desired) :
    ∃ final, (reallocBuffers flags allocator desired).exec buffers = (.ok (), final) ∧
      desired ≤ buffers.read.size + final.write.size := by
  have hgrown := le_of_growSize hgrow
  let newBuff := allocator.allocate buffers.allocations (min grown flags.maximumReadBufferSize)
  have hlength : newBuff.cells.length = min grown flags.maximumReadBufferSize :=
    allocator.length_cells _ _
  have hallocate : (allocate allocator (min grown flags.maximumReadBufferSize)).exec buffers =
      (.ok newBuff, { buffers with allocations := buffers.allocations + 1 }) := by
    unfold allocate
    rw [Call.exec_get_bind, if_neg (by omega)]
    rfl
  obtain ⟨copied, hstore, hcells⟩ : ∃ after,
      newBuff.store newBuff.address buffers.waiting = some after ∧
        after.cells.length = newBuff.cells.length := by
    refine exists_store_front ?_
    rw [Buffers.length_waiting hsettled]
    omega
  unfold reallocBuffers
  rw [if_neg (by omega), Call.exec_get_bind, hgrow]
  dsimp only
  rw [Call.exec_bind_ok hallocate, Call.exec_bind_ok
      (exec_copy (by omega) (Buffers.load_waiting hsettled) hstore _), Call.exec_modify_bind,
    Call.exec_bind_ok (exec_trimCopied (by omega) _)]
  refine ⟨_, rfl, ?_⟩
  show desired ≤ buffers.read.size + (copied.cells.length - buffers.read.size)
  omega

theorem exists_reallocBuffers (hsettled : buffers.Settled)
    (hpositive : 0 < buffers.buffer.cells.length)
    (hmaximum : desired ≤ flags.maximumReadBufferSize)
    (hdoubles : Buffers.Doubles flags buffers.buffer.cells.length desired)
    (hread : buffers.read.size ≤ desired) (hsmall : buffers.buffer.cells.length < 2 ^ 63) :
    ∃ final, (reallocBuffers flags allocator desired).exec buffers = (.ok (), final) ∧
      desired ≤ buffers.read.size + final.write.size := by
  obtain ⟨grown, hgrow, hsize⟩ := (exists_block_iff hpositive hsmall hmaximum).mpr
    (hdoubles.imp_right fun ⟨doublings, _, hreach⟩ => ⟨doublings, hreach⟩)
  exact exec_reallocBuffers hsettled hmaximum hgrow hsize hread

theorem exists_slideBuffers (hlayout : buffers.Layout) :
    ∃ final, slideBuffers.exec buffers = (.ok (), final) ∧
      final.write.size = buffers.buffer.cells.length - buffers.read.size := by
  have hroom : buffers.read.size ≤ buffers.buffer.cells.length := by
    obtain ⟨hstart, hadjacent, hfinish⟩ := hlayout
    omega
  obtain ⟨copied, hstore, hcells⟩ : ∃ after,
      buffers.buffer.store buffers.buffer.address buffers.waiting = some after ∧
        after.cells.length = buffers.buffer.cells.length := by
    refine exists_store_front ?_
    rwa [Buffers.length_waiting (Or.inr hlayout)]
  unfold slideBuffers
  rw [Call.exec_get_bind, Call.exec_bind_ok
      (exec_copy hroom (Buffers.load_waiting (Or.inr hlayout)) hstore _)]
  dsimp only
  rw [Call.exec_modify_bind, Call.exec_bind_ok (exec_trimCopied (hcells ▸ hroom) _)]
  refine ⟨_, rfl, ?_⟩
  show copied.cells.length - buffers.read.size = _
  rw [hcells]

theorem bmod_additional {additional : Nat} (hsmall : additional < 2 ^ 63) :
    (additional : Int).bmod (2 ^ 64) = additional :=
  Int.bmod_eq_of_le (by omega) (by omega)

theorem total_toNat {length additional : Nat} (hlength : length < 2 ^ 63)
    (hsmall : additional < 2 ^ 63) :
    (((length : Int) + additional) % 2 ^ 64).toNat = length + additional := by
  omega

/-- What is within the maximum and a block comes about for is less than `2 ^ 63`. -/
theorem Buffers.Doubles.small {length total : Nat} (hdoubles : Buffers.Doubles flags length total)
    (hmaximum : total ≤ flags.maximumReadBufferSize) : total < 2 ^ 63 := by
  rcases hdoubles with hblock | ⟨doublings, -, -, hreach, hblock⟩
  · exact hmaximum.trans_lt hblock
  · exact hreach.trans_lt hblock

/-- What is allowed is less than `2 ^ 63`, and where it does not slide a block comes about for it
within the maximum. -/
theorem allowed_additional (hsettled : buffers.Settled) (hsized : Sized flags buffers)
    (hdesired : buffers.write.size < desired)
    (hallows : buffers.Allows flags (buffers.read.size + desired)) :
    desired - buffers.write.size < 2 ^ 63 ∧
      ((buffers.read.data : Int) - buffers.buffer.address < (desired - buffers.write.size : Nat) →
        buffers.buffer.cells.length + (desired - buffers.write.size) ≤
            flags.maximumReadBufferSize ∧
          Buffers.Doubles flags buffers.buffer.cells.length
            (buffers.buffer.cells.length + (desired - buffers.write.size))) ∧
      ((buffers.read.data : Int) - buffers.buffer.address ≥ (desired - buffers.write.size : Nat) →
        buffers.Layout) := by
  have hneed : buffers.read.size + desired - (buffers.read.size + buffers.write.size) =
      desired - buffers.write.size := by omega
  have hlength := hsized.small
  have hunloaded : buffers.Unloaded → buffers.read.data = 0 := by
    rintro ⟨hread, -⟩
    rw [hread]
    rfl
  rcases hallows with hroom | hslide | hgrow
  · omega
  · rw [hneed] at hslide
    rcases hsettled with hnull | hlayout
    · have := hunloaded hnull
      omega
    · have ⟨hstart, hadjacent, hfinish⟩ := hlayout
      exact ⟨by omega, fun hless => by omega, fun _ => hlayout⟩
  · rw [hneed] at hgrow
    have hsmall := hgrow.2.small hgrow.1
    refine ⟨by omega, fun _ => hgrow, fun hgreater => ?_⟩
    rcases hsettled with hnull | hlayout
    · have := hunloaded hnull
      omega
    · exact hlayout

theorem exists_adjustBuffers (hsettled : buffers.Settled) (hsized : Sized flags buffers)
    (hinitial : 0 < flags.initialReadBufferSize) (hdesired : buffers.write.size < desired)
    (hallows : buffers.Allows flags (buffers.read.size + desired)) :
    ∃ final, (adjustBuffers flags allocator desired).exec buffers = (.ok (), final) ∧
      desired ≤ final.write.size := by
  obtain ⟨hsmall, hgrows, hslides⟩ := allowed_additional hsettled hsized hdesired hallows
  have hlength := hsized.small
  have hwindows : buffers.read.size + buffers.write.size ≤ buffers.buffer.cells.length := by
    rcases hsettled with ⟨hread, hwrite⟩ | ⟨hstart, hadjacent, hfinish⟩
    · rw [hread, hwrite]
      exact Nat.zero_le _
    · omega
  unfold adjustBuffers
  rw [Call.exec_get_bind, if_neg (by omega)]
  simp only [bmod_additional hsmall, total_toNat hlength hsmall]
  split_ifs with hless
  · obtain ⟨hmaximum, hdoubles⟩ := hgrows hless
    have hpositive := hsized.positive hinitial (by omega)
    obtain ⟨final, hexec, hroom⟩ := exists_reallocBuffers hsettled hpositive hmaximum hdoubles
      (by omega) hlength
    exact ⟨final, hexec, by omega⟩
  · have hlayout := hslides (by omega)
    obtain ⟨final, hexec, hroom⟩ := exists_slideBuffers hlayout
    have ⟨hstart, hadjacent, hfinish⟩ := hlayout
    exact ⟨final, hexec, by omega⟩

/-- From an empty block the doubling never gets anywhere. -/
theorem not_adjustBuffers_of_empty (hsettled : buffers.Settled) (hsized : Sized flags buffers)
    (hempty : buffers.buffer.cells.length = 0) (hdesired : buffers.write.size < desired)
    (hallows : buffers.Allows flags (buffers.read.size + desired)) (final : Buffers) :
    (adjustBuffers flags allocator desired).exec buffers ≠ (.ok (), final) := by
  intro hexec
  obtain ⟨hsmall, -, hslides⟩ := allowed_additional hsettled hsized hdesired hallows
  have hless : (buffers.read.data : Int) - buffers.buffer.address <
      (desired - buffers.write.size : Nat) := by
    by_contra hgreater
    have ⟨hstart, hadjacent, hfinish⟩ := hslides (by omega)
    omega
  unfold adjustBuffers at hexec
  rw [Call.exec_get_bind, if_neg (by omega)] at hexec
  simp only [bmod_additional hsmall, total_toNat hsized.small hsmall, hless, ↓reduceIte] at hexec
  obtain ⟨grown, hgrow, -⟩ := reallocBuffers_eq_ok hsettled hexec
  have hdesired := le_of_growSize hgrow
  rw [hempty] at hgrow
  rw [growSize_zero hgrow] at hdesired
  omega

namespace CoReader

theorem exists_accept {bytes : List UInt8} (hlayout : buffers.Layout)
    (hroom : bytes.length ≤ buffers.write.size) :
    ∃ final, (accept bytes).exec buffers = (.ok (), final) ∧
      final.read.size + final.write.size = buffers.read.size + buffers.write.size := by
  have hcontains : buffers.buffer.Contains buffers.write.data bytes.length := by
    obtain ⟨hstart, hadjacent, hfinish⟩ := hlayout
    exact ⟨by omega, by omega⟩
  obtain ⟨after, hstore⟩ := Block.exists_store hcontains
  unfold accept
  rw [Call.exec_get_bind, Call.exec_bind_ok (exec_storeBytes hstore _), Call.exec_modify_bind,
    Call.exec_bind_ok (exec_trimPrefix hroom _)]
  refine ⟨_, rfl, ?_⟩
  show buffers.read.size + bytes.length + (buffers.write.size - bytes.length) = _
  omega

theorem exists_takeFront {n : Nat} (hsettled : buffers.Settled) (hroom : n ≤ buffers.read.size) :
    ∃ bytes final, (takeFront n).exec buffers = (.ok bytes, final) := by
  obtain ⟨bytes, hload⟩ : ∃ bytes, buffers.buffer.load buffers.read.data n = some bytes := by
    rcases hsettled with ⟨hread, -⟩ | ⟨hstart, hadjacent, hfinish⟩
    · rw [hread] at hroom
      obtain rfl := Nat.le_zero.mp hroom
      exact ⟨[], Block.load_zero _ _⟩
    · exact ⟨_, Block.load_of_contains ⟨hstart, by omega⟩⟩
  unfold takeFront
  rw [Call.exec_get_bind, Call.exec_bind_ok (exec_trimPrefix hroom _),
    Call.exec_bind_ok (exec_loadBytes hload _), Call.exec_set_bind]
  exact ⟨bytes, _, rfl⟩

theorem exec_onlyIf_pos {ε τ : Type} {condition : Prop} [Decidable condition]
    (hcondition : condition) (call : Call ε τ Unit) (state : τ) :
    (Call.onlyIf condition call).exec state = call.exec state := by
  unfold Call.onlyIf
  rw [if_pos hcondition]

theorem exec_onlyIf_neg {ε τ : Type} {condition : Prop} [Decidable condition]
    (hcondition : ¬ condition) (call : Call ε τ Unit) (state : τ) :
    (Call.onlyIf condition call).exec state = (.ok (), state) := by
  unfold Call.onlyIf
  rw [if_neg hcondition]
  rfl

/-- **A load that is allowed returns**, if the source does, and leaves the room that it has been
asked for. -/
theorem exists_loadBuffer {σ : Type} {source : Source σ} {reader : CoReader σ} {limit : Nat}
    {bytes : List UInt8} {next : σ} (hsettled : reader.buffers.Settled)
    (hsized : Sized flags reader.buffers) (hinitial : 0 < flags.initialReadBufferSize)
    (hlimit : 0 < limit)
    (hallows : reader.buffers.Allows flags (reader.buffers.read.size + limit))
    (hread : (source.read limit).exec reader.source = (.ok bytes, next)) :
    ∃ final, (loadBuffer flags allocator source limit).exec reader = (.ok (), final) ∧
      reader.buffers.read.size + limit ≤
        final.buffers.read.size + final.buffers.write.size := by
  have hbytes := source.read_length hread
  obtain ⟨buffers, hadjust, hlayout, hroom, hwindow⟩ : ∃ buffers,
      (Call.onlyIf (reader.buffers.write.size < limit)
        (onBuffers (adjustBuffers flags allocator limit))).exec reader =
          (.ok (), { reader with buffers }) ∧ buffers.Layout ∧ limit ≤ buffers.write.size ∧
        buffers.read.size = reader.buffers.read.size := by
    by_cases hshort : reader.buffers.write.size < limit
    · obtain ⟨buffers, hexec, hroom⟩ := exists_adjustBuffers hsettled hsized hinitial hshort hallows
      obtain ⟨-, hlayout, hwaiting⟩ := adjustBuffers_eq_ok hsettled hshort hexec
      refine ⟨buffers, ?_, hlayout, hroom, ?_⟩
      · rw [exec_onlyIf_pos hshort, onBuffers, Call.exec_within, hexec]
      · rw [← Buffers.length_waiting hsettled, ← Buffers.length_waiting (Or.inr hlayout), hwaiting]
    · refine ⟨reader.buffers, exec_onlyIf_neg hshort _ _, ?_, by omega, rfl⟩
      rcases hsettled with ⟨-, hwrite⟩ | hlayout
      · rw [hwrite] at hshort
        exact absurd hlimit hshort
      · exact hlayout
  obtain ⟨accepted, haccept, hkept⟩ := exists_accept hlayout (hbytes.trans hroom)
  unfold loadBuffer
  rw [Call.exec_get_bind, Call.exec_bind_ok hadjust, Call.exec_bind, onSource, Call.exec_within]
  dsimp only
  rw [hread]
  dsimp only
  rw [onBuffers, Call.exec_within]
  dsimp only
  rw [haccept]
  refine ⟨_, rfl, ?_⟩
  show _ ≤ accepted.read.size + accepted.write.size
  omega

end CoReader

end Liblw.Io
