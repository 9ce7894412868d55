import Liblw.Http.Request
import Liblw.Proof.ReaderProgress

/-!
# Reads depend on the chunks

`read` makes at most one read of the source. When the bytes that wait do not suffice and that one
read does not bring all that is missing, the caller gets less than it has asked for, although the
stream goes on.
-/

namespace Liblw.Io

open Liblw.Lib

variable {flags : ReadFlags} {allocator : Allocator} {reader : CoReader Stream} {n : Nat}

/-- The bytes that wait suffice, or the read of the source that is due brings what is missing, or
else all that is left. No load returns when the first block is empty. -/
def Enough (flags : ReadFlags) (reader : CoReader Stream) (n : Nat) : Prop :=
  n ≤ reader.buffers.waiting.length ∨
    0 < flags.initialReadBufferSize ∧
      min (n - reader.buffers.waiting.length) reader.source.rest.length ≤
        max 1 (reader.source.cuts reader.source.reads)

/-- The bytes that the caller has not seen yet. -/
def CoReader.unread (reader : CoReader Stream) : List UInt8 :=
  reader.buffers.waiting ++ reader.source.rest

namespace CoReader

theorem exec_read_of_waiting (hsettled : reader.buffers.Settled)
    (hwaiting : n ≤ reader.buffers.waiting.length) :
    ∃ final, (read flags allocator Stream.asSource n).exec reader =
      (.ok (reader.buffers.waiting.take n), final) := by
  have hlength := Buffers.length_waiting hsettled
  obtain ⟨bytes, buffers, htake⟩ := exists_takeFront hsettled (hwaiting.trans hlength.le)
  obtain ⟨hroom, hload, -⟩ := takeFront_eq_ok htake
  have hbytes : bytes = reader.buffers.waiting.take n := by
    have hsplit := waiting_takeFront hsettled htake
    rw [hsplit, List.take_left' (Block.length_of_load hload)]
  refine ⟨{ reader with buffers }, ?_⟩
  unfold read
  rw [Call.exec_get_bind, Call.exec_bind_ok (exec_onlyIf_neg (by omega) _ _), Call.exec_get_bind,
    Nat.min_eq_left hroom, onBuffers, Call.exec_within, htake, hbytes]

/-- A read that has to load returns everything there is then. -/
theorem exec_read_of_load (hsettled : reader.buffers.Settled) (hsized : Sized flags reader.buffers)
    (hinitial : 0 < flags.initialReadBufferSize) (hallows : reader.buffers.Allows flags n)
    (hwaiting : reader.buffers.waiting.length < n) :
    ∃ final, (read flags allocator Stream.asSource n).exec reader =
      (.ok (reader.buffers.waiting ++ reader.source.rest.take
        (reader.source.delivers (n - reader.buffers.waiting.length))), final) := by
  have hlength := Buffers.length_waiting hsettled
  have hmissing : reader.buffers.read.size + (n - reader.buffers.read.size) = n := by omega
  rw [← hmissing] at hallows
  obtain ⟨loaded, hload, -⟩ := @exists_loadBuffer flags allocator _ Stream.asSource _ _ _ _
    hsettled hsized hinitial (by omega) hallows (Stream.exec_asSource_read _ _)
  obtain ⟨bytes, hread, -, hlayout, hloaded⟩ := loadBuffer_eq_ok hsettled (by omega) hload
  rw [Stream.exec_asSource_read, Prod.mk.injEq, Except.ok.injEq] at hread
  rw [hlength, hread.1]
  have hfits : (reader.buffers.waiting ++ bytes).length ≤ n := by
    have hbytes := Stream.asSource.read_length
      (Stream.exec_asSource_read (n - reader.buffers.read.size) reader.source)
    rw [hread.1] at hbytes
    rw [List.length_append, hlength]
    omega
  have hall : loaded.buffers.read.size = (reader.buffers.waiting ++ bytes).length := by
    rw [← Buffers.length_waiting (Or.inr hlayout), hloaded]
  obtain ⟨taken, buffers, htake⟩ := exists_takeFront (Or.inr hlayout) (le_refl _)
  obtain ⟨-, htaken, -⟩ := takeFront_eq_ok htake
  rw [Buffers.load_waiting (Or.inr hlayout), Option.some.injEq, hloaded] at htaken
  refine ⟨{ loaded with buffers }, ?_⟩
  unfold read
  rw [Call.exec_get_bind, Call.exec_bind_ok ((exec_onlyIf_pos (by omega) _ _).trans hload),
    Call.exec_get_bind, Nat.min_eq_right (by omega), onBuffers, Call.exec_within, htake, htaken]

/-- With an empty first block no read that has to load returns. -/
theorem not_read_of_empty (hsettled : reader.buffers.Settled) (hsized : Sized flags reader.buffers)
    (hinitial : flags.initialReadBufferSize = 0) (hallows : reader.buffers.Allows flags n)
    (hwaiting : reader.buffers.waiting.length < n) (bytes : List UInt8)
    (final : CoReader Stream) :
    (read flags allocator Stream.asSource n).exec reader ≠ (.ok bytes, final) := by
  intro hexec
  have hlength := Buffers.length_waiting hsettled
  have hempty := hsized.empty hinitial
  have hmissing : reader.buffers.read.size + (n - reader.buffers.read.size) = n := by omega
  rw [← hmissing] at hallows
  unfold read at hexec
  rw [Call.exec_get_bind] at hexec
  obtain ⟨_, loaded, hload, -⟩ := Call.exec_bind_eq_ok hexec
  rw [exec_onlyIf_pos (by omega)] at hload
  unfold loadBuffer at hload
  rw [Call.exec_get_bind] at hload
  obtain ⟨_, adjusted, hadjust, -⟩ := Call.exec_bind_eq_ok hload
  have hwrite : reader.buffers.write.size < n - reader.buffers.read.size := by
    rcases hsettled with ⟨-, hnull⟩ | ⟨hstart, hadjacent, hfinish⟩
    · rw [hnull]
      show 0 < _
      omega
    · omega
  rw [exec_onlyIf_pos hwrite] at hadjust
  obtain ⟨buffers, hbuffers, -⟩ := Call.exec_within_eq_ok hadjust
  exact not_adjustBuffers_of_empty hsettled hsized hempty hwrite hallows buffers hbuffers

/-- What is read is the front of what is unread exactly when it is enough. -/
theorem read_eq_take_iff (hsettled : reader.buffers.Settled) (hsized : Sized flags reader.buffers)
    (hallows : reader.buffers.Allows flags n) :
    (∃ final, (read flags allocator Stream.asSource n).exec reader =
      (.ok (reader.unread.take n), final)) ↔ Enough flags reader n := by
  unfold unread
  by_cases hwaiting : n ≤ reader.buffers.waiting.length
  · refine iff_of_true ?_ (Or.inl hwaiting)
    rw [List.take_append_of_le_length hwaiting]
    exact exec_read_of_waiting hsettled hwaiting
  rw [Nat.not_le] at hwaiting
  rcases Nat.eq_zero_or_pos flags.initialReadBufferSize with hinitial | hinitial
  · refine iff_of_false ?_ ?_
    · rintro ⟨final, hexec⟩
      exact not_read_of_empty hsettled hsized hinitial hallows hwaiting _ final hexec
    · rintro (hless | ⟨hpositive, -⟩) <;> omega
  · obtain ⟨final, hexec⟩ : ∃ final, (read flags allocator Stream.asSource n).exec reader = _ :=
      exec_read_of_load hsettled hsized hinitial hallows hwaiting
    -- the two results start with what waits and differ at most in how much of the rest they have
    have htake : (reader.buffers.waiting ++ reader.source.rest).take n =
        reader.buffers.waiting ++
          reader.source.rest.take (n - reader.buffers.waiting.length) := by
      rw [List.take_append, List.take_of_length_le hwaiting.le]
    rw [hexec, htake]
    unfold Enough Stream.delivers
    constructor
    · rintro ⟨_, heq⟩
      rw [Prod.mk.injEq, Except.ok.injEq, List.append_cancel_left_eq] at heq
      have hlengths := congrArg List.length heq.1
      rw [List.length_take, List.length_take] at hlengths
      refine Or.inr ⟨hinitial, ?_⟩
      omega
    · rintro (hless | ⟨-, hcut⟩)
      · omega
      · refine ⟨final, ?_⟩
        congr 3
        rw [Nat.min_eq_right hcut, List.take_eq_take_iff]
        omega

end CoReader

theorem unread_performAll {stream : Stream} {calls : List ReaderCall}
    {start reader : CoReader Stream} {outs : List (List UInt8)}
    (hmake : CoReader.make flags allocator stream = .ok start)
    (hrun : (performAll flags allocator Stream.asSource calls).exec start = (.ok outs, reader)) :
    stream.rest.drop outs.flatten.length = reader.unread :=
  (unread_of_performAll Stream.delivery hmake hrun).2

theorem body_iff_read {σ : Type} {source : Source σ} {reader : CoReader σ}
    {request : Http.HttpRequest} {bytes : List UInt8} (hlength : request.contentLengthSize ≠ 0) :
    (∃ final, (Http.Exchange.body flags allocator source).exec ⟨request, reader⟩ =
        (.ok bytes, final)) ↔
      ∃ final, (CoReader.read flags allocator source request.contentLengthSize).exec reader =
        (.ok bytes, final) := by
  unfold Http.Exchange.body
  rw [Call.exec_get_bind]
  dsimp only
  rw [if_neg hlength, if_pos (Nat.pos_of_ne_zero hlength)]
  constructor
  · rintro ⟨final, hexec⟩
    obtain ⟨inner, hread, -⟩ := Call.exec_within_eq_ok hexec
    exact ⟨inner, hread⟩
  · rintro ⟨final, hread⟩
    refine ⟨⟨request, final⟩, ?_⟩
    rw [Http.Exchange.onReader, Call.exec_within, hread]

/-- **What a read returns depends on the chunks.** After any completed calls on a reader over a
stream that is cut in any way, a read that the maximum allows returns the next `n` bytes, or all
that are left, exactly when the bytes that wait and the one next read of the source are enough; and
so does the body of a request of that length. -/
theorem read_next_iff (flags : ReadFlags) (allocator : Allocator) (stream : Stream)
    (calls : List ReaderCall) (n : Nat) {start reader : CoReader Stream}
    {outs : List (List UInt8)} (hmake : CoReader.make flags allocator stream = .ok start)
    (hrun : (performAll flags allocator Stream.asSource calls).exec start = (.ok outs, reader))
    (hallows : reader.buffers.Allows flags n) :
    ((∃ final, (CoReader.read flags allocator Stream.asSource n).exec reader =
        (.ok ((stream.rest.drop outs.flatten.length).take n), final)) ↔ Enough flags reader n) ∧
      ∀ request : Http.HttpRequest, request.contentLengthSize = n →
        ((∃ final, (Http.Exchange.body flags allocator Stream.asSource).exec ⟨request, reader⟩ =
          (.ok ((stream.rest.drop outs.flatten.length).take n), final)) ↔
            Enough flags reader n) := by
  rw [unread_performAll hmake hrun]
  have hstart : start.buffers.Settled ∧ Sized flags start.buffers :=
    ⟨settled_make hmake, sized_make hmake⟩
  have hreader : reader.buffers.Settled ∧ Sized flags reader.buffers :=
    @Invariant.performAll _ flags allocator Stream.asSource _ [] start reader invariant_sized _ _
      hstart hrun
  have hread : (∃ final, (CoReader.read flags allocator Stream.asSource n).exec reader =
      (.ok (reader.unread.take n), final)) ↔ Enough flags reader n :=
    CoReader.read_eq_take_iff hreader.1 hreader.2 hallows
  refine ⟨hread, ?_⟩
  rintro request rfl
  by_cases hlength : request.contentLengthSize = 0
  · refine iff_of_true ⟨⟨request, reader⟩, ?_⟩ (Or.inl (hlength ▸ Nat.zero_le _))
    unfold Http.Exchange.body
    rw [Call.exec_get_bind]
    dsimp only
    rw [if_pos hlength, hlength]
    rfl
  · exact (body_iff_read hlength).trans hread

/-- A byte has been read from a transport that delivers two at a time; the next read of one byte is
served from what waits. -/
theorem read_next_iff_pairs :
    let flags : ReadFlags := ⟨4, 16, 4⟩
    let stream : Stream := ⟨[1, 2, 3], fun _ => 2, 0⟩
    let start : CoReader Stream := ⟨stream, ⟨zeroAllocator.allocate 0 4, .null, .null, 1⟩⟩
    let run := (performAll flags zeroAllocator Stream.asSource [.readUntilChar 1 0]).exec start
    run.1 = .ok [[1]] ∧ run.2.buffers.Allows flags 1 ∧
      ((∃ final, (CoReader.read flags zeroAllocator Stream.asSource 1).exec run.2 =
        (.ok [2], final)) ↔ Enough flags run.2 1) := by
  intro flags stream start run
  have hmake : CoReader.make flags zeroAllocator stream = .ok start := rfl
  have hreturns : run.1 = .ok [[1]] := by decide
  have hrun : run = (.ok [[1]], run.2) := by rw [← hreturns]
  have hallows : run.2.buffers.Allows flags 1 := by decide
  exact ⟨hreturns, hallows,
    (read_next_iff flags zeroAllocator stream [.readUntilChar 1 0] 1 hmake hrun hallows).1⟩

/-- Two bytes that arrive one by one: a first read of two bytes returns one, and so does the body of
a request that announces two. -/
theorem not_read_next_single :
    let flags : ReadFlags := ⟨4, 16, 4⟩
    let reader : CoReader Stream :=
      ⟨⟨[1, 2], fun _ => 1, 0⟩, ⟨zeroAllocator.allocate 0 4, .null, .null, 1⟩⟩
    let request : Http.HttpRequest := { Http.HttpRequest.make with contentLength := 2 }
    CoReader.make flags zeroAllocator reader.source = .ok reader ∧
      reader.buffers.Allows flags 2 ∧
      ((CoReader.read flags zeroAllocator Stream.asSource 2).exec reader).1 = .ok [1] ∧
      ((Http.Exchange.body flags zeroAllocator Stream.asSource).exec ⟨request, reader⟩).1 =
        .ok [1] ∧
      ¬ ∃ final, (CoReader.read flags zeroAllocator Stream.asSource 2).exec reader =
        (.ok [1, 2], final) := by
  intro flags reader request
  have hread : ((CoReader.read flags zeroAllocator Stream.asSource 2).exec reader).1 =
      .ok [1] := by decide
  refine ⟨rfl, by decide, hread, by decide, ?_⟩
  rintro ⟨final, hexec⟩
  rw [hexec, Except.ok.injEq] at hread
  cases hread

end Liblw.Io
