import Liblw.Io.Reader

/-!
# The windows keep the bytes

What each operation on the buffers has done when it returns: the layout holds, and the bytes that
wait to be read are those that waited before, with what the source has put behind them or without
what the caller has taken from their front.
-/

namespace Liblw.Io

open Liblw.Lib

namespace Buffers

/-- Before the first load, or in the layout. -/
def Settled (buffers : Buffers) : Prop := buffers.Unloaded ∨ buffers.Layout

variable {buffers : Buffers}

theorem Layout.contains_read (hlayout : buffers.Layout) :
    buffers.buffer.Contains buffers.read.data buffers.read.size := by
  obtain ⟨hstart, hadjacent, hfinish⟩ := hlayout
  exact ⟨hstart, by omega⟩

theorem load_waiting (hsettled : buffers.Settled) :
    buffers.buffer.load buffers.read.data buffers.read.size = some buffers.waiting := by
  rcases hsettled with ⟨hread, -⟩ | hlayout
  · unfold waiting
    rw [hread]
    rfl
  · unfold waiting
    rw [Block.load_of_contains hlayout.contains_read]
    rfl

theorem waiting_of_load {bytes : List UInt8}
    (hload : buffers.buffer.load buffers.read.data buffers.read.size = some bytes) :
    buffers.waiting = bytes := by
  unfold waiting
  rw [hload]
  rfl

theorem length_waiting (hsettled : buffers.Settled) :
    buffers.waiting.length = buffers.read.size :=
  Block.length_of_load (load_waiting hsettled)

end Buffers

section Primitives

variable {σ : Type}

theorem loadBytes_eq_ok {block : Block UInt8} {pointer count : Nat} {state final : σ}
    {bytes : List UInt8} (hexec : (loadBytes block pointer count).exec state = (.ok bytes, final)) :
    block.load pointer count = some bytes ∧ state = final := by
  unfold loadBytes at hexec
  cases hload : block.load pointer count with
  | none =>
      rw [hload] at hexec
      cases hexec
  | some found =>
      rw [hload] at hexec
      cases hexec
      exact ⟨rfl, rfl⟩

theorem storeBytes_eq_ok {block after : Block UInt8} {pointer : Nat} {bytes : List UInt8}
    {state final : σ} (hexec : (storeBytes block pointer bytes).exec state = (.ok after, final)) :
    block.store pointer bytes = some after ∧ state = final := by
  unfold storeBytes at hexec
  cases hstore : block.store pointer bytes with
  | none =>
      rw [hstore] at hexec
      cases hexec
  | some found =>
      rw [hstore] at hexec
      cases hexec
      exact ⟨rfl, rfl⟩

theorem trimPrefix_eq_ok {window trimmed : Window} {n : Nat} {state final : σ}
    (hexec : (window.trimPrefix n).exec state = (.ok trimmed, final)) :
    n ≤ window.size ∧ trimmed = ⟨window.data + n, window.size - n⟩ ∧ state = final := by
  unfold Window.trimPrefix at hexec
  by_cases hshort : window.size < n
  · simp only [hshort, ↓reduceIte, exec_raise] at hexec
    cases hexec
  · simp only [hshort, ↓reduceIte, Call.exec_pure] at hexec
    cases hexec
    exact ⟨by omega, rfl, rfl⟩

/-- The bytes of the source that the target has room for are at its front. -/
def Copied (source target : Block UInt8) (pointer count : Nat) (after : Block UInt8) : Prop :=
  ∃ bytes, source.load pointer (min count target.cells.length) = some bytes ∧
    target.store target.address bytes = some after

theorem copy_eq_ok {target source after : Block UInt8} {pointer count : Nat} {state final : σ}
    (hexec : (copy target source pointer count).exec state = (.ok after, final)) :
    Copied source target pointer count after ∧ state = final := by
  obtain ⟨bytes, middle, hloads, hstores⟩ := Call.exec_bind_eq_ok hexec
  obtain ⟨hload, rfl⟩ := loadBytes_eq_ok hloads
  obtain ⟨hstore, rfl⟩ := storeBytes_eq_ok hstores
  exact ⟨⟨bytes, hload, hstore⟩, rfl⟩

end Primitives

section Copied

variable {source target after : Block UInt8} {pointer count allocations : Nat}

theorem Copied.length_cells (hcopied : Copied source target pointer count after) :
    after.cells.length = target.cells.length := by
  obtain ⟨bytes, -, hstore⟩ := hcopied
  exact (Block.store_frame hstore).2

/-- The windows around bytes at the front of a block. -/
def Buffers.around (block : Block UInt8) (count allocations : Nat) : Buffers :=
  ⟨block, ⟨block.address, count⟩, ⟨block.address + count, block.cells.length - count⟩, allocations⟩

theorem Copied.layout {bytes : List UInt8} (hcopied : Copied source target pointer count after)
    (hload : source.load pointer count = some bytes) (hroom : count ≤ after.cells.length) :
    (Buffers.around after count allocations).Layout ∧
      (Buffers.around after count allocations).waiting = bytes := by
  obtain ⟨copied, hcopied, hstore⟩ := hcopied
  obtain ⟨haddress, hlength⟩ := Block.store_frame hstore
  rw [← hlength, Nat.min_eq_left hroom, hload] at hcopied
  obtain rfl := Option.some.inj hcopied
  have hsame := Block.load_store_same hstore
  rw [Block.length_of_load hload, ← haddress] at hsame
  refine ⟨⟨le_refl _, rfl, ?_⟩, Buffers.waiting_of_load hsame⟩
  change after.address + count + (after.cells.length - count) = after.address + after.cells.length
  omega

end Copied

variable {flags : ReadFlags} {allocator : Allocator}

theorem allocate_eq_ok {buffers final : Buffers} {size : Nat} {block : Block UInt8}
    (hexec : (allocate allocator size).exec buffers = (.ok block, final)) :
    size < 2 ^ 63 ∧ block.cells.length = size ∧
      final = { buffers with allocations := buffers.allocations + 1 } := by
  unfold allocate at hexec
  rw [Call.exec_get_bind, Call.exec_ite] at hexec
  split_ifs at hexec with hsize
  · cases hexec
  · rw [Call.exec_set_bind, Call.exec_pure, Prod.mk.injEq, Except.ok.injEq] at hexec
    obtain ⟨rfl, rfl⟩ := hexec
    exact ⟨by omega, allocator.length_cells _ _, rfl⟩

/-- A larger block, with the bytes that wait at its front. -/
theorem reallocBuffers_cases {buffers final : Buffers} {desired : Nat}
    (hexec : (reallocBuffers flags allocator desired).exec buffers = (.ok (), final)) :
    ∃ size fresh copied, growSize 65 (buffers.buffer.cells.length * 2 % 2 ^ 64) desired =
        some size ∧ fresh.cells.length = min size flags.maximumReadBufferSize ∧
      fresh.cells.length < 2 ^ 63 ∧
      Copied buffers.buffer fresh buffers.read.data buffers.read.size copied ∧
      buffers.read.size ≤ copied.cells.length ∧
      final = .around copied buffers.read.size (buffers.allocations + 1) := by
  unfold reallocBuffers at hexec
  simp only [Call.exec_ite, exec_raise] at hexec
  split_ifs at hexec with hmaximum
  · cases hexec
  rw [Call.exec_get_bind] at hexec
  cases hgrow : growSize 65 (buffers.buffer.cells.length * 2 % 2 ^ 64) desired with
  | none =>
      rw [hgrow] at hexec
      cases hexec
  | some size =>
      rw [hgrow] at hexec
      obtain ⟨fresh, allocated, hallocates, hallocated⟩ := Call.exec_bind_eq_ok hexec
      obtain ⟨hsmall, hlength, rfl⟩ := allocate_eq_ok hallocates
      obtain ⟨copied, middle, hcopies, hcopied⟩ := Call.exec_bind_eq_ok hallocated
      obtain ⟨hcopy, rfl⟩ := copy_eq_ok hcopies
      rw [Call.exec_modify_bind] at hcopied
      obtain ⟨write, trimmed, htrims, htrimmed⟩ := Call.exec_bind_eq_ok hcopied
      obtain ⟨hroom, rfl, rfl⟩ := trimPrefix_eq_ok htrims
      cases htrimmed
      exact ⟨size, fresh, copied, rfl, hlength, hlength ▸ hsmall, hcopy, hroom, rfl⟩

/-- The same block, with the bytes that wait at its front. -/
theorem slideBuffers_cases {buffers final : Buffers}
    (hexec : slideBuffers.exec buffers = (.ok (), final)) :
    ∃ copied, Copied buffers.buffer buffers.buffer buffers.read.data buffers.read.size copied ∧
      buffers.read.size ≤ copied.cells.length ∧
      final = .around copied buffers.read.size buffers.allocations := by
  unfold slideBuffers at hexec
  rw [Call.exec_get_bind] at hexec
  obtain ⟨copied, middle, hcopies, hcopied⟩ := Call.exec_bind_eq_ok hexec
  obtain ⟨hcopy, rfl⟩ := copy_eq_ok hcopies
  rw [Call.exec_modify_bind] at hcopied
  obtain ⟨write, trimmed, htrims, htrimmed⟩ := Call.exec_bind_eq_ok hcopied
  obtain ⟨hroom, rfl, rfl⟩ := trimPrefix_eq_ok htrims
  cases htrimmed
  exact ⟨copied, hcopy, hroom, rfl⟩

theorem adjustBuffers_cases {buffers final : Buffers} {desired : Nat}
    (hdesired : buffers.write.size < desired)
    (hexec : (adjustBuffers flags allocator desired).exec buffers = (.ok (), final)) :
    (∃ total, (reallocBuffers flags allocator total).exec buffers = (.ok (), final)) ∨
      slideBuffers.exec buffers = (.ok (), final) := by
  unfold adjustBuffers at hexec
  rw [Call.exec_get_bind, if_neg (Nat.not_le_of_lt hdesired)] at hexec
  simp only [Call.exec_ite] at hexec
  split_ifs at hexec with hroom
  · exact .inl ⟨_, hexec⟩
  · exact .inr hexec

theorem reallocBuffers_eq_ok {buffers final : Buffers} {desired : Nat}
    (hsettled : buffers.Settled)
    (hexec : (reallocBuffers flags allocator desired).exec buffers = (.ok (), final)) :
    ∃ size, growSize 65 (buffers.buffer.cells.length * 2 % 2 ^ 64) desired = some size ∧
      final.buffer.cells.length = min size flags.maximumReadBufferSize ∧
      final.buffer.cells.length < 2 ^ 63 ∧
      final.Layout ∧ final.waiting = buffers.waiting := by
  obtain ⟨size, fresh, copied, hgrow, hlength, hsmall, hcopied, hroom, rfl⟩ :=
    reallocBuffers_cases hexec
  have hcells : copied.cells.length = fresh.cells.length := hcopied.length_cells
  exact ⟨size, hgrow, hcells.trans hlength, hcells.trans_lt hsmall,
    hcopied.layout (Buffers.load_waiting hsettled) hroom⟩

theorem slideBuffers_eq_ok {buffers final : Buffers} (hsettled : buffers.Settled)
    (hexec : slideBuffers.exec buffers = (.ok (), final)) :
    final.buffer.cells.length = buffers.buffer.cells.length ∧
      final.Layout ∧ final.waiting = buffers.waiting := by
  obtain ⟨copied, hcopied, hroom, rfl⟩ := slideBuffers_cases hexec
  exact ⟨hcopied.length_cells, hcopied.layout (Buffers.load_waiting hsettled) hroom⟩

/-- The size of the block after room has been made. -/
def Grown (flags : ReadFlags) (before after : Buffers) : Prop :=
  after.buffer.cells.length = before.buffer.cells.length ∨
    ∃ size desired, growSize 65 (before.buffer.cells.length * 2 % 2 ^ 64) desired = some size ∧
      after.buffer.cells.length = min size flags.maximumReadBufferSize ∧
      after.buffer.cells.length < 2 ^ 63

/-- **Making room keeps the bytes.** Wherever the windows are and whichever way the room is made,
the layout holds afterwards and the same bytes wait. -/
theorem adjustBuffers_eq_ok {buffers final : Buffers} {desired : Nat}
    (hsettled : buffers.Settled) (hdesired : buffers.write.size < desired)
    (hexec : (adjustBuffers flags allocator desired).exec buffers = (.ok (), final)) :
    Grown flags buffers final ∧ final.Layout ∧ final.waiting = buffers.waiting := by
  rcases adjustBuffers_cases hdesired hexec with ⟨total, hrealloc⟩ | hslide
  · obtain ⟨size, hgrow, hlength, hsmall, hkept⟩ := reallocBuffers_eq_ok hsettled hrealloc
    exact ⟨Or.inr ⟨size, _, hgrow, hlength, hsmall⟩, hkept⟩
  · obtain ⟨hlength, hkept⟩ := slideBuffers_eq_ok hsettled hslide
    exact ⟨Or.inl hlength, hkept⟩

namespace CoReader

theorem accept_cases {buffers final : Buffers} {bytes : List UInt8}
    (hexec : (accept bytes).exec buffers = (.ok (), final)) :
    ∃ buffer, buffers.buffer.store buffers.write.data bytes = some buffer ∧
      bytes.length ≤ buffers.write.size ∧
      final = ⟨buffer, ⟨buffers.read.data, buffers.read.size + bytes.length⟩,
        ⟨buffers.write.data + bytes.length, buffers.write.size - bytes.length⟩,
        buffers.allocations⟩ := by
  unfold accept at hexec
  rw [Call.exec_get_bind] at hexec
  obtain ⟨buffer, middle, hstores, hstored⟩ := Call.exec_bind_eq_ok hexec
  obtain ⟨hstore, rfl⟩ := storeBytes_eq_ok hstores
  rw [Call.exec_modify_bind] at hstored
  obtain ⟨write, trimmed, htrims, htrimmed⟩ := Call.exec_bind_eq_ok hstored
  obtain ⟨hroom, rfl, rfl⟩ := trimPrefix_eq_ok htrims
  cases htrimmed
  exact ⟨buffer, hstore, hroom, rfl⟩

theorem accept_eq_ok {buffers final : Buffers} {bytes : List UInt8} (hlayout : buffers.Layout)
    (hexec : (accept bytes).exec buffers = (.ok (), final)) :
    final.buffer.cells.length = buffers.buffer.cells.length ∧ final.Layout ∧
      final.waiting = buffers.waiting ++ bytes := by
  obtain ⟨buffer, hstore, hroom, rfl⟩ := accept_cases hexec
  obtain ⟨haddress, hlength⟩ := Block.store_frame hstore
  obtain ⟨hstart, hadjacent, hfinish⟩ := hlayout
  refine ⟨hlength, ⟨?_, ?_, ?_⟩, Buffers.waiting_of_load ?_⟩
  · show buffer.address ≤ buffers.read.data
    omega
  · show buffers.write.data + bytes.length = buffers.read.data + (buffers.read.size + bytes.length)
    omega
  · show buffers.write.data + bytes.length + (buffers.write.size - bytes.length) =
      buffer.address + buffer.cells.length
    omega
  · show buffer.load buffers.read.data (buffers.read.size + bytes.length) = _
    have hread : buffer.Contains buffers.read.data buffers.read.size := ⟨by omega, by omega⟩
    have hwrite : buffer.Contains (buffers.read.data + buffers.read.size) bytes.length :=
      ⟨by omega, by omega⟩
    have hbefore := Block.load_store_before hstore hadjacent.ge
    rw [Buffers.load_waiting (Or.inr ⟨hstart, hadjacent, hfinish⟩),
      Block.load_of_contains hread] at hbefore
    have hsame := Block.load_store_same hstore
    rw [hadjacent, Block.load_of_contains hwrite] at hsame
    rw [Block.load_add hread hwrite, Option.some.inj hbefore, Option.some.inj hsame]

theorem takeFront_eq_ok {buffers final : Buffers} {n : Nat} {bytes : List UInt8}
    (hexec : (takeFront n).exec buffers = (.ok bytes, final)) :
    n ≤ buffers.read.size ∧ buffers.buffer.load buffers.read.data n = some bytes ∧
      final = { buffers with read := ⟨buffers.read.data + n, buffers.read.size - n⟩ } := by
  unfold takeFront at hexec
  rw [Call.exec_get_bind] at hexec
  obtain ⟨read, trimmed, htrims, htrimmed⟩ := Call.exec_bind_eq_ok hexec
  obtain ⟨hroom, rfl, rfl⟩ := trimPrefix_eq_ok htrims
  obtain ⟨taken, loaded, hloads, hloaded⟩ := Call.exec_bind_eq_ok htrimmed
  obtain ⟨hload, rfl⟩ := loadBytes_eq_ok hloads
  rw [Call.exec_set_bind] at hloaded
  cases hloaded
  exact ⟨hroom, hload, rfl⟩

/-- What is taken is the front of what waits. -/
theorem waiting_takeFront {buffers final : Buffers} {n : Nat} {bytes : List UInt8}
    (hsettled : buffers.Settled) (hexec : (takeFront n).exec buffers = (.ok bytes, final)) :
    buffers.waiting = bytes ++ final.waiting := by
  obtain ⟨hroom, hload, rfl⟩ := takeFront_eq_ok hexec
  rcases hsettled with ⟨hread, -⟩ | ⟨hstart, hadjacent, hfinish⟩
  · rw [hread] at hroom hload
    obtain rfl : n = 0 := Nat.le_zero.mp hroom
    obtain rfl : bytes = [] := (Option.some.inj hload).symm
    unfold Buffers.waiting
    simp [hread, Window.null, Block.load_zero]
  · have hfirst : buffers.buffer.Contains buffers.read.data n := ⟨hstart, by omega⟩
    have hsecond : buffers.buffer.Contains (buffers.read.data + n) (buffers.read.size - n) :=
      ⟨by omega, by omega⟩
    have hboth := Block.load_add hfirst hsecond
    rw [Nat.add_sub_cancel' hroom] at hboth
    rw [Buffers.waiting_of_load hboth]
    congr 1
    · rw [Block.load_of_contains hfirst] at hload
      exact Option.some.inj hload
    · unfold Buffers.waiting
      rw [Block.load_of_contains hsecond]
      rfl

theorem unloaded_takeFront {buffers final : Buffers} {n : Nat} {bytes : List UInt8}
    (hunloaded : buffers.Unloaded) (hexec : (takeFront n).exec buffers = (.ok bytes, final)) :
    final.Unloaded := by
  obtain ⟨hroom, -, rfl⟩ := takeFront_eq_ok hexec
  obtain ⟨hread, hwrite⟩ := hunloaded
  rw [hread] at hroom
  obtain rfl : n = 0 := Nat.le_zero.mp hroom
  refine ⟨?_, hwrite⟩
  simp [hread, Window.null]

theorem layout_takeFront {buffers final : Buffers} {n : Nat} {bytes : List UInt8}
    (hlayout : buffers.Layout) (hexec : (takeFront n).exec buffers = (.ok bytes, final)) :
    final.Layout := by
  obtain ⟨hroom, -, rfl⟩ := takeFront_eq_ok hexec
  obtain ⟨hstart, hadjacent, hfinish⟩ := hlayout
  refine ⟨?_, ?_, hfinish⟩
  · show buffers.buffer.address ≤ buffers.read.data + n
    omega
  · show buffers.write.data = buffers.read.data + n + (buffers.read.size - n)
    omega

end CoReader

end Liblw.Io
