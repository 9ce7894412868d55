import Liblw.Proof.DelimiterSearch

/-!
# What arrives at a reader

For a reader over a stream, how much has arrived when the bytes of a delimiter have been fetched
follows from the cuts of the stream alone. A load that has to make room puts the bytes that wait at
the front of the block, so that from then on the room in front of the window is what has been taken.
-/

namespace Liblw.Io

open Liblw.Lib

variable {flags : ReadFlags} {allocator : Allocator}

/-! ### The window and the front of the block -/

namespace Buffers

/-- The bytes that wait are at the front of the block. -/
def Fronted (buffers : Buffers) : Prop := buffers.read.data = buffers.buffer.address

end Buffers

theorem Buffers.fronted_around (block : Block UInt8) (count allocations : Nat) :
    (Buffers.around block count allocations).Fronted := rfl

theorem fronted_adjustBuffers {buffers final : Buffers} {desired : Nat}
    (hdesired : buffers.write.size < desired)
    (hexec : (adjustBuffers flags allocator desired).exec buffers = (.ok (), final)) :
    final.Fronted := by
  rcases adjustBuffers_cases hdesired hexec with ⟨total, hrealloc⟩ | hslide
  · obtain ⟨size, fresh, copied, -, -, -, -, -, rfl⟩ := reallocBuffers_cases hrealloc
    exact Buffers.fronted_around copied _ _
  · obtain ⟨copied, -, -, rfl⟩ := slideBuffers_cases hslide
    exact Buffers.fronted_around copied _ _

namespace CoReader

theorem fronted_accept {buffers final : Buffers} {bytes : List UInt8} (hfronted : buffers.Fronted)
    (hexec : (accept bytes).exec buffers = (.ok (), final)) : final.Fronted := by
  obtain ⟨buffer, hstore, -, rfl⟩ := accept_cases hexec
  exact hfronted.trans (Block.store_frame hstore).1.symm

theorem fronted_loadBuffer {σ : Type} {source : Source σ} {reader final : CoReader σ}
    {limit : Nat} (hlimit : 0 < limit)
    (hfronted : reader.buffers.Unloaded ∨ reader.buffers.Fronted)
    (hexec : (loadBuffer flags allocator source limit).exec reader = (.ok (), final)) :
    final.buffers.Fronted := by
  unfold loadBuffer at hexec
  rw [Call.exec_get_bind] at hexec
  obtain ⟨_, adjusted, hadjust, hadjusted⟩ := Call.exec_bind_eq_ok hexec
  obtain ⟨bytes, loaded, hread, hloaded⟩ := Call.exec_bind_eq_ok hadjusted
  obtain ⟨next, -, rfl⟩ := Call.exec_within_eq_ok hread
  obtain ⟨accepted, haccept, rfl⟩ := Call.exec_within_eq_ok hloaded
  apply fronted_accept _ haccept
  change adjusted.buffers.Fronted
  rcases onlyIf_eq_ok hadjust with ⟨hshort, hbuffers⟩ | ⟨hroom, rfl⟩
  · obtain ⟨buffers, hlaid, rfl⟩ := Call.exec_within_eq_ok hbuffers
    exact fronted_adjustBuffers hshort hlaid
  · rcases hfronted with ⟨-, hwrite⟩ | hfronted
    · rw [hwrite] at hroom
      exact absurd hlimit hroom
    · exact hfronted

end CoReader

/-! ### What has arrived -/

namespace CoReader

variable {reader loaded last : CoReader Stream} {limit n : Nat}

/-- A load brings what the next read of the stream delivers. -/
theorem arrives_loadBuffer (hsettled : reader.buffers.Settled) (hlimit : 0 < limit)
    (hexec : (loadBuffer flags allocator Stream.asSource limit).exec reader = (.ok (), loaded)) :
    loaded.source = reader.source.next limit ∧
      loaded.buffers.read.size = reader.buffers.read.size + reader.source.delivers limit := by
  obtain ⟨bytes, hread, -, hlayout, hwaiting⟩ := loadBuffer_eq_ok hsettled hlimit hexec
  rw [Stream.exec_asSource_read, Prod.mk.injEq, Except.ok.injEq] at hread
  obtain ⟨rfl, hsource⟩ := hread
  refine ⟨hsource.symm, ?_⟩
  rw [← Buffers.length_waiting (Or.inr hlayout), hwaiting, List.length_append,
    Buffers.length_waiting hsettled, List.length_take, Nat.add_left_cancel_iff, Stream.delivers]
  omega

/-- What has been fetched is what has arrived. By induction on the loads. -/
theorem arrive_of_fetches (hreader : reader.buffers.Settled ∧ Sized flags reader.buffers)
    (hn : n ≤ limit) (hfetches : Fetches flags allocator Stream.asSource limit reader n last) :
    (last.buffers.Settled ∧ Sized flags last.buffers) ∧
      Stream.delivery.unread last = Stream.delivery.unread reader ∧
      n ≤ last.buffers.read.size ∧
      (reader.buffers.read.size ≤ limit → last.buffers.read.size ≤ limit) ∧
      ∀ rounds, n ≤ rounds + reader.buffers.read.size →
        Stream.arrive limit n rounds reader.buffers.read.size reader.source =
          (last.buffers.read.size, last.source) := by
  induction hfetches with
  | @waiting reader n hwaiting =>
    refine ⟨hreader, rfl, hwaiting, id, fun rounds _ => ?_⟩
    cases rounds with
    | zero => rfl
    | succ rounds => rw [Stream.arrive, if_pos hwaiting]
  | @load reader next last n hshort hload hgrown _ ih =>
    have hlimit : 0 < limit - reader.buffers.read.size := by omega
    have hafter := @Invariant.load _ flags allocator _ _ invariant_sized [] _ _ _ hlimit
      hreader hload
    obtain ⟨-, hunread, -⟩ := unread_loadBuffer Stream.delivery hreader.1 hlimit hload
    obtain ⟨hsource, hsize⟩ := arrives_loadBuffer hreader.1 hlimit hload
    have hdelivers : reader.source.delivers (limit - reader.buffers.read.size) ≤
        limit - reader.buffers.read.size := by
      rw [Stream.delivers]
      omega
    obtain ⟨hlast, hsame, henough, hlimited, harrive⟩ := ih hafter hn
    refine ⟨hlast, hsame.trans hunread, henough, fun _ => hlimited (by omega),
      fun rounds hrounds => ?_⟩
    cases rounds with
    | zero => omega
    | succ rounds =>
      rw [Stream.arrive, if_neg (by omega), ← hsize, ← hsource]
      exact harrive rounds (by omega)

/-- From the first load on the bytes that wait are at the front of the block. -/
theorem fronted_of_fetches (hreader : reader.buffers.Settled)
    (hfronted : reader.buffers.Unloaded ∨ reader.buffers.Fronted) (hn : n ≤ limit)
    (hfetches : Fetches flags allocator Stream.asSource limit reader n last) :
    last.buffers.Unloaded ∨ last.buffers.Fronted := by
  induction hfetches with
  | waiting => exact hfronted
  | @load reader next last n hshort hload hgrown _ ih =>
    have hlimit : 0 < limit - reader.buffers.read.size := by omega
    exact ih (unread_loadBuffer Stream.delivery hreader hlimit hload).1
      (Or.inr (fronted_loadBuffer hlimit hfronted hload)) hn

/-- A read makes at most one read of the stream, for what is missing. -/
theorem source_of_read {bytes : List UInt8} (hsettled : reader.buffers.Settled)
    (hexec : (read flags allocator Stream.asSource n).exec reader = (.ok bytes, last)) :
    last.source = if n ≤ reader.buffers.read.size then reader.source
      else reader.source.next (n - reader.buffers.read.size) := by
  unfold read at hexec
  rw [Call.exec_get_bind] at hexec
  obtain ⟨_, loaded, hload, hloaded⟩ := Call.exec_bind_eq_ok hexec
  rw [Call.exec_get_bind] at hloaded
  obtain ⟨buffers, -, rfl⟩ := Call.exec_within_eq_ok hloaded
  rcases onlyIf_eq_ok hload with ⟨hshort, hload⟩ | ⟨henough, rfl⟩
  · rw [if_neg (by omega)]
    exact (arrives_loadBuffer hsettled (by omega) hload).1
  · rw [if_pos (by omega)]

end CoReader

end Liblw.Io
