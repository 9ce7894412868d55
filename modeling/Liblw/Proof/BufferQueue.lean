import Liblw.Io.StringBuffer

/-!
# When a string buffer is a queue of bytes

As long as every request is answered as the queue answers it, the string is what was written and the
get pointer has gone by what was read. The end of the get area is one short of the end of the
string, so that the last byte is not read, and a character that is put is behind the string and not
in it.
-/

namespace Liblw.Io

open Liblw.Lib

namespace ByteQueue

variable {queue : ByteQueue}

@[simp]
theorem written_write (text : List UInt8) : (queue.write text).written = queue.written ++ text :=
  (List.append_assoc _ _ _).symm

@[simp]
theorem written_read (count : Nat) : (queue.read count).written = queue.written := by
  unfold written read
  rw [List.append_assoc, List.take_append_drop]

theorem length_written (queue : ByteQueue) :
    queue.written.length = queue.past.length + queue.unread.length :=
  List.length_append

theorem drop_written (queue : ByteQueue) : queue.written.drop queue.past.length = queue.unread :=
  List.drop_left

theorem getElem?_written (queue : ByteQueue) :
    queue.written[queue.past.length]? = queue.unread.head? := by
  rw [← drop_written, List.head?_drop]

/-- What was read is what was written, from its start. -/
theorem after_of_answers {input : BufferRequest} {answer : Result BufferAnswer}
    (hanswers : queue.Answers input answer) :
    (queue.after input answer).past = queue.past ++ taken input answer ∧
      (queue.after input answer).written = queue.written ++ added input answer := by
  cases input <;> rcases answer with fault | answer <;> try exact hanswers.elim
  all_goals cases answer <;> try exact hanswers.elim
  case sputc.ok.char c answer =>
    cases answer with
    | none => exact ⟨(List.append_nil _).symm, (List.append_nil _).symm⟩
    | some c' => exact ⟨(List.append_nil _).symm, written_write [c]⟩
  case sputn.ok.count text n => exact ⟨(List.append_nil _).symm, written_write _⟩
  case sbumpc.ok.char answer =>
    cases answer with
    | none => exact ⟨(List.append_nil _).symm, (List.append_nil _).symm⟩
    | some c =>
        have htake : queue.unread.take 1 = [c] := by
          rw [List.take_one, ← show some c = queue.unread.head? from hanswers]
          rfl
        exact ⟨congrArg (queue.past ++ ·) htake,
          (written_read 1).trans (List.append_nil _).symm⟩
  case sgetn.ok.bytes count text =>
    have htext : text = queue.unread.take count := hanswers
    have htake : queue.unread.take text.length = text := by
      rw [htext, List.length_take, ← List.take_eq_take_min]
    exact ⟨congrArg (queue.past ++ ·) htake, (written_read _).trans (List.append_nil _).symm⟩

end ByteQueue

namespace StringBuffer

variable {allocation : Allocation} {buffer : StringBuffer} {queue : ByteQueue}

/-- The get area is empty until a block operation sets its end. -/
structure Reflects (buffer : StringBuffer) (queue : ByteQueue) : Prop where
  bytes : buffer.string.bytes = queue.written
  gptr : buffer.gptr = queue.past.length
  egptr : buffer.egptr = buffer.string.size - 1 ∨ (buffer.egptr = 0 ∧ queue.past = [])

theorem reflects_make (allocation : Allocation) (str : List UInt8) :
    (make allocation str).Reflects ⟨[], str⟩ where
  bytes := StdString.bytes_ofBytes allocation str
  gptr := rfl
  egptr := .inr ⟨rfl, rfl⟩

/-! ### What the members return -/

theorem machine_sputc_room (hroom : buffer.pptr < buffer.epptr) (c : UInt8) :
    machine allocation buffer (.sputc c) =
      (⟨.ok (.char (some c)), (buffer.string.put buffer.pptr c).bytes⟩,
        { buffer with string := buffer.string.put buffer.pptr c, pptr := buffer.pptr + 1 }) := by
  have hexec : (sputc c).exec buffer = (.ok (some c),
      { buffer with string := buffer.string.put buffer.pptr c, pptr := buffer.pptr + 1 }) := by
    rw [sputc, Call.exec_get_bind, if_pos hroom]
    rfl
  rw [machine, request, Call.exec_bind_ok hexec]
  rfl

theorem machine_sputc_full (hfull : buffer.epptr ≤ buffer.pptr) (c : UInt8) :
    machine allocation buffer (.sputc c) =
      (⟨.ok (.char none), buffer.string.bytes⟩, buffer) := by
  have hexec : (sputc c).exec buffer = (.ok none, buffer) := by
    rw [sputc, Call.exec_get_bind, if_neg (Nat.not_lt_of_le hfull)]
    rfl
  rw [machine, request, Call.exec_bind_ok hexec]
  rfl

theorem machine_sbumpc_some {c : UInt8} (hmore : (buffer.gptr : Int) < buffer.egptr)
    (hchar : buffer.string.chars[buffer.gptr]? = some c) :
    machine allocation buffer .sbumpc =
      (⟨.ok (.char (some c)), buffer.string.bytes⟩,
        { buffer with gptr := buffer.gptr + 1 }) := by
  have hexec : sbumpc.exec buffer = (.ok (some c), { buffer with gptr := buffer.gptr + 1 }) := by
    rw [sbumpc, Call.exec_get_bind, if_pos hmore, hchar]
    rfl
  rw [machine, request, Call.exec_bind_ok hexec]
  rfl

theorem machine_sbumpc_none (hend : buffer.egptr ≤ buffer.gptr) :
    machine allocation buffer .sbumpc =
      (⟨.ok (.char none), buffer.string.bytes⟩, buffer) := by
  have hexec : sbumpc.exec buffer = (.ok none, buffer) := by
    rw [sbumpc, Call.exec_get_bind, if_neg (Int.not_lt.2 hend)]
    rfl
  rw [machine, request, Call.exec_bind_ok hexec]
  rfl

theorem machine_sgetn {count : Nat} (hfits : min count buffer.gptr ≤ buffer.string.chars.length) :
    machine allocation buffer (.sgetn count) =
      (⟨.ok (.bytes (buffer.string.chars.take (min count buffer.gptr))), buffer.string.bytes⟩,
        { buffer with
          gptr := buffer.gptr + min count buffer.gptr
          egptr := (buffer.string.size : Int) - 1 }) := by
  have hexec : (xsgetn count).exec buffer =
      (.ok (buffer.string.chars.take (min count buffer.gptr)),
        { buffer with
          gptr := buffer.gptr + min count buffer.gptr
          egptr := (buffer.string.size : Int) - 1 }) := by
    rw [xsgetn, Call.exec_get_bind, if_neg (Nat.not_lt_of_le hfits)]
    rfl
  rw [machine, request, Call.exec_bind_ok hexec]
  rfl

/-- Room is made where it is needed, and the text comes behind the string. -/
theorem machine_sputn (allocation : Allocation) (buffer : StringBuffer) (text : List UInt8) :
    ∃ next, machine allocation buffer (.sputn text) =
        (⟨.ok (.count text.length), buffer.string.bytes ++ text⟩, next) ∧
      next.string.bytes = buffer.string.bytes ++ text ∧ next.gptr = buffer.gptr ∧
      next.egptr = next.string.size - 1 := by
  let reserved := if buffer.capacity < text.length + buffer.size then
    buffer.reserve allocation ((text.length + buffer.size) * 2) else buffer
  let next : StringBuffer :=
    { string := reserved.string.append allocation text
      gptr := reserved.gptr
      egptr := (reserved.string.append allocation text).size - 1
      pptr := (reserved.string.append allocation text).size
      epptr := (reserved.string.append allocation text).capacity }
  have hexec : (xsputn allocation text).exec buffer = (.ok text.length, next) := rfl
  have hreserved : reserved.string.bytes = buffer.string.bytes ∧ reserved.gptr = buffer.gptr := by
    by_cases hroom : buffer.capacity < text.length + buffer.size
    · simp only [reserved, if_pos hroom]
      exact ⟨StdString.bytes_reserve allocation _ _, rfl⟩
    · simp only [reserved, if_neg hroom, and_self]
  have hbytes : next.string.bytes = buffer.string.bytes ++ text := by
    rw [← hreserved.1]
    exact StdString.bytes_append allocation text reserved.string
  refine ⟨next, ?_, hbytes, hreserved.2, rfl⟩
  rw [machine, request, Call.exec_bind_ok hexec, ← hbytes]
  rfl

/-! ### When the queue answers the same -/

namespace Reflects

variable (hreflects : buffer.Reflects queue)

include hreflects

theorem size : buffer.string.size = queue.past.length + queue.unread.length := by
  rw [← StdString.length_bytes, hreflects.bytes, ByteQueue.length_written]

theorem take_chars {count : Nat} (hcount : count ≤ buffer.string.size) :
    buffer.string.chars.take count = queue.written.take count := by
  rw [← hreflects.bytes, StdString.bytes, List.take_take, Nat.min_eq_left hcount]

theorem getElem?_chars (hmore : queue.unread ≠ []) :
    buffer.string.chars[buffer.gptr]? = queue.unread.head? := by
  have hlength : 0 < queue.unread.length := List.length_pos_of_ne_nil hmore
  have hlt : buffer.gptr < buffer.string.size := by
    rw [hreflects.size, hreflects.gptr]
    omega
  rw [← List.getElem?_take_of_lt hlt, ← ByteQueue.getElem?_written, ← hreflects.bytes,
    hreflects.gptr]
  rfl

/-- The string is shorter than what was written if a character is taken, as it has not grown. -/
theorem allows_sputc (c : UInt8) :
    ByteQueue.monitor.allows queue (.sputc c) (machine allocation buffer (.sputc c)).1 ↔
      buffer.Serves queue (.sputc c) := by
  by_cases hroom : buffer.pptr < buffer.epptr
  · rw [machine_sputc_room hroom]
    refine iff_of_false ?_ (Nat.not_le_of_lt hroom)
    rintro ⟨-, hstring⟩
    have hlength := congrArg List.length hstring
    have hwritten := congrArg List.length hreflects.bytes
    rw [StdString.length_bytes, StdString.size_put] at hlength
    rw [StdString.length_bytes] at hwritten
    simp only [ByteQueue.after, ByteQueue.written_write, List.length_append,
      List.length_singleton] at hlength
    omega
  · have hfull := Nat.le_of_not_lt hroom
    rw [machine_sputc_full hfull]
    exact iff_of_true ⟨.inl rfl, hreflects.bytes⟩ hfull

theorem next_sputc {c : UInt8} (hserves : buffer.Serves queue (.sputc c)) :
    (machine allocation buffer (.sputc c)).2.Reflects
      (ByteQueue.monitor.after queue (.sputc c) (machine allocation buffer (.sputc c)).1) := by
  rw [machine_sputc_full hserves]
  exact hreflects

theorem allows_sputn (text : List UInt8) :
    ByteQueue.monitor.allows queue (.sputn text) (machine allocation buffer (.sputn text)).1 := by
  obtain ⟨next, hmachine, -⟩ := machine_sputn allocation buffer text
  rw [hmachine]
  refine ⟨Nat.le_refl text.length, ?_⟩
  simp only [ByteQueue.after, ByteQueue.written_write, List.take_length, hreflects.bytes]

theorem next_sputn (text : List UInt8) :
    (machine allocation buffer (.sputn text)).2.Reflects
      (ByteQueue.monitor.after queue (.sputn text)
        (machine allocation buffer (.sputn text)).1) := by
  obtain ⟨next, hmachine, hbytes, hgptr, hegptr⟩ := machine_sputn allocation buffer text
  rw [hmachine]
  refine ⟨?_, hgptr.trans hreflects.gptr, .inl hegptr⟩
  rw [hbytes, hreflects.bytes]
  simp only [ByteQueue.monitor, ByteQueue.after, ByteQueue.written_write, List.take_length]

theorem more_iff :
    (buffer.gptr : Int) < buffer.egptr ↔ 2 ≤ queue.unread.length ∧ 0 < buffer.egptr := by
  have hsize := hreflects.size
  rw [hreflects.gptr]
  rcases hreflects.egptr with hegptr | ⟨hegptr, hpast⟩
  · rw [hegptr, hsize]
    omega
  · rw [hegptr, hpast]
    simp only [List.length_nil, Int.natCast_zero, Int.lt_irrefl, and_false]

theorem allows_sbumpc :
    ByteQueue.monitor.allows queue .sbumpc (machine allocation buffer .sbumpc).1 ↔
      buffer.Serves queue .sbumpc := by
  by_cases hmore : (buffer.gptr : Int) < buffer.egptr
  · have hserves := hreflects.more_iff.1 hmore
    have hunread : queue.unread ≠ [] := List.ne_nil_of_length_pos (by omega)
    have hchar := hreflects.getElem?_chars hunread
    rw [List.head?_eq_some_head hunread] at hchar
    rw [machine_sbumpc_some hmore hchar]
    refine iff_of_true ⟨(List.head?_eq_some_head hunread).symm, ?_⟩ (.inr hserves)
    simp only [ByteQueue.after, ByteQueue.written_read, hreflects.bytes]
  · rw [machine_sbumpc_none (Int.not_lt.1 hmore)]
    have hserves : buffer.Serves queue .sbumpc ↔ queue.unread = [] :=
      or_iff_left (mt hreflects.more_iff.2 hmore)
    rw [hserves, ← List.head?_eq_none_iff]
    exact ⟨fun hallows => hallows.1.symm, fun hnone => ⟨hnone.symm, hreflects.bytes⟩⟩

theorem next_sbumpc :
    (machine allocation buffer .sbumpc).2.Reflects
      (ByteQueue.monitor.after queue .sbumpc (machine allocation buffer .sbumpc).1) := by
  by_cases hmore : (buffer.gptr : Int) < buffer.egptr
  · have hlength := (hreflects.more_iff.1 hmore).1
    have hunread : queue.unread ≠ [] := List.ne_nil_of_length_pos (by omega)
    have hchar := hreflects.getElem?_chars hunread
    rw [List.head?_eq_some_head hunread] at hchar
    rw [machine_sbumpc_some hmore hchar]
    refine ⟨hreflects.bytes.trans (ByteQueue.written_read 1).symm, ?_, ?_⟩
    · simp only [ByteQueue.monitor, ByteQueue.after, ByteQueue.read, List.length_append,
        List.length_take, hreflects.gptr]
      omega
    · apply Or.inl
      rcases hreflects.egptr with hegptr | ⟨hegptr, -⟩
      · exact hegptr
      · exact absurd (hreflects.more_iff.1 hmore).2 (hegptr ▸ Int.lt_irrefl 0)
  · rw [machine_sbumpc_none (Int.not_lt.1 hmore)]
    exact hreflects

theorem fits (count : Nat) : min count buffer.gptr ≤ buffer.string.size := by
  rw [hreflects.size, hreflects.gptr]
  omega

theorem machine_sgetn (count : Nat) :
    machine allocation buffer (.sgetn count) =
      (⟨.ok (.bytes (queue.written.take (min count queue.past.length))), queue.written⟩,
        { buffer with
          gptr := buffer.gptr + min count buffer.gptr
          egptr := (buffer.string.size : Int) - 1 }) := by
  have hfits := hreflects.fits count
  rw [StringBuffer.machine_sgetn (hfits.trans (Nat.le_of_lt buffer.string.size_lt)),
    hreflects.take_chars hfits, hreflects.bytes, hreflects.gptr]

theorem allows_sgetn (count : Nat) :
    ByteQueue.monitor.allows queue (.sgetn count) (machine allocation buffer (.sgetn count)).1 ↔
      buffer.Serves queue (.sgetn count) := by
  rw [hreflects.machine_sgetn]
  exact and_iff_left (ByteQueue.written_read _).symm

/-- The get pointer goes by as many characters as are copied. -/
theorem next_sgetn {count : Nat} (hserves : buffer.Serves queue (.sgetn count)) :
    (machine allocation buffer (.sgetn count)).2.Reflects
      (ByteQueue.monitor.after queue (.sgetn count)
        (machine allocation buffer (.sgetn count)).1) := by
  have hlength := congrArg List.length hserves
  have hfits := hreflects.fits count
  rw [hreflects.size, hreflects.gptr] at hfits
  rw [List.length_take, List.length_take, ByteQueue.length_written,
    Nat.min_eq_left hfits] at hlength
  rw [hreflects.machine_sgetn]
  refine ⟨hreflects.bytes.trans (ByteQueue.written_read _).symm, ?_, .inl rfl⟩
  simp only [ByteQueue.monitor, ByteQueue.after, ByteQueue.read, List.length_append,
    List.length_take, ByteQueue.length_written, hreflects.gptr]
  omega

end Reflects

theorem allows_iff_serves (hreflects : buffer.Reflects queue) (input : BufferRequest) :
    ByteQueue.monitor.allows queue input (machine allocation buffer input).1 ↔
      buffer.Serves queue input := by
  cases input with
  | sputc c => exact hreflects.allows_sputc c
  | sputn text => exact iff_of_true (hreflects.allows_sputn text) trivial
  | sbumpc => exact hreflects.allows_sbumpc
  | sgetn count => exact hreflects.allows_sgetn count

theorem Reflects.next (hreflects : buffer.Reflects queue) {input : BufferRequest}
    (hserves : buffer.Serves queue input) :
    (machine allocation buffer input).2.Reflects
      (ByteQueue.monitor.after queue input (machine allocation buffer input).1) := by
  cases input with
  | sputc c => exact hreflects.next_sputc hserves
  | sputn text => exact hreflects.next_sputn text
  | sbumpc => exact hreflects.next_sbumpc
  | sgetn count => exact hreflects.next_sgetn hserves

/-- What a queue of bytes is good for: the string is all that was written, and what was read is its
beginning. -/
theorem inOrder_of_follows {requests : List BufferRequest}
    (hstart : buffer.string.bytes = queue.written)
    (hfollows : (machine allocation).Follows ByteQueue.monitor buffer queue requests) :
    let (outputs, final) := (machine allocation).run buffer requests
    final.string.bytes = queue.written ++ ByteQueue.addedBy requests outputs ∧
      final.string.bytes = queue.past ++ ByteQueue.takenBy requests outputs ++
        ((machine allocation).watch ByteQueue.monitor buffer queue requests).unread := by
  induction requests generalizing buffer queue with
  | nil =>
      refine ⟨hstart.trans (List.append_nil _).symm, hstart.trans ?_⟩
      exact congrArg (· ++ queue.unread) (List.append_nil queue.past).symm
  | cons input requests ih =>
      obtain ⟨⟨hanswers, hstring⟩, hrest⟩ := hfollows
      obtain ⟨hpast, hwritten⟩ := ByteQueue.after_of_answers hanswers
      obtain ⟨hadded, htaken⟩ := ih hstring hrest
      refine ⟨hadded.trans ?_, htaken.trans ?_⟩
      · rw [hwritten, List.append_assoc]
        rfl
      · rw [hpast, List.append_assoc queue.past]
        rfl

/-- **A queue of bytes.** A buffer that was made with a text, and is read and written in any way, is
a queue of bytes as long as every request comes where it is answered as the queue answers it. -/
theorem isByteQueue_iff (allocation : Allocation) (str : List UInt8)
    (requests : List BufferRequest) :
    (machine allocation).Follows ByteQueue.monitor (make allocation str) ⟨[], str⟩ requests ↔
      (machine allocation).Meets ByteQueue.monitor Serves (make allocation str) ⟨[], str⟩
        requests := by
  apply Machine.follows_iff_meets
  · intro buffer queue input hreflects
    exact allows_iff_serves hreflects input
  · intro buffer queue input hreflects hserves
    exact hreflects.next hserves
  · exact reflects_make allocation str

/-- The last of two bytes that were written in a block is not read, two that were written and not
read are not read in a block, and one that is put is not in the string. -/
theorem not_isByteQueue :
    ¬ (machine .tight).Follows ByteQueue.monitor (make .tight []) ⟨[], []⟩
        [.sputn [97, 98], .sbumpc, .sbumpc] ∧
      ¬ (machine .tight).Follows ByteQueue.monitor (make .tight []) ⟨[], []⟩
        [.sputn [97, 98], .sgetn 2] ∧
      ¬ (machine .tight).Follows ByteQueue.monitor (make .tight []) ⟨[], []⟩
        [.sputn [97], .sputc 98] := by
  refine ⟨fun hfollows => ?_, fun hfollows => ?_, fun hfollows => ?_⟩
  · have hchar : (none : Option UInt8) = some 98 := hfollows.2.2.1.1
    exact absurd hchar (by decide)
  · have hbytes : ([] : List UInt8) = [97, 98] := hfollows.2.1.1
    exact absurd hbytes (by decide)
  · exact absurd hfollows.2.1.2 (by decide)

end StringBuffer

end Liblw.Io
