import Liblw.Proof.DelimiterLoop

/-!
# What `read_until` finds

On a reader that any completed calls have led to, `read_until` returns the bytes up to the first
occurrence of its delimiter exactly when one of the attempts of the search begins with it and the
bytes can be fetched. Where it finds nothing it has no way to return: it runs into the limit, or
past the read window.
-/

namespace Liblw.Io

open Liblw.Lib

variable {σ : Type} {flags : ReadFlags} {allocator : Allocator} {source : Source σ}

/-! ### What can be fetched -/

/-- Where the limit is within what the maximum allows, the loads go through: the first makes the
room for all of them, which is still there after the last. By induction on the bytes that do not
wait yet. -/
theorem fetches_of_allows (delivery : Delivery source) {reader : CoReader σ} {limit stop : Nat}
    (hinitial : 0 < flags.initialReadBufferSize) (hstop : stop ≤ limit)
    (hreader : reader.buffers.Settled ∧ Sized flags reader.buffers)
    (hallows : reader.buffers.Allows flags limit)
    (hunread : stop ≤ (delivery.unread reader).length) :
    ∃ last, CoReader.Fetches flags allocator source limit reader stop last ∧
      (reader.buffers.read.size < stop →
        limit ≤ last.buffers.read.size + last.buffers.write.size) := by
  induction hleft : stop - reader.buffers.read.size using Nat.strong_induction_on
    generalizing reader with
  | _ left ih =>
    by_cases hwaiting : stop ≤ reader.buffers.read.size
    · exact ⟨reader, CoReader.Fetches.waiting hwaiting, fun hshort => by omega⟩
    obtain ⟨hsettled, hsized⟩ := hreader
    have hlimit : 0 < limit - reader.buffers.read.size := by omega
    have hmissing : reader.buffers.read.size + (limit - reader.buffers.read.size) = limit := by
      omega
    rw [CoReader.length_unread delivery hsettled] at hunread
    have hrest : delivery.rest reader.source ≠ [] := by
      apply List.ne_nil_of_length_pos
      omega
    obtain ⟨bytes, next, hread, hsome⟩ := delivery.delivers hlimit hrest
    obtain ⟨loaded, hload, hroom⟩ := @CoReader.exists_loadBuffer flags allocator _ _ _ _ _ _
      hsettled hsized hinitial hlimit (by rwa [hmissing]) hread
    have hafter := @Invariant.load _ flags allocator source _ invariant_sized [] _ _ _ hlimit
      ⟨hsettled, hsized⟩ hload
    obtain ⟨-, hsame, hplace⟩ := CoReader.unread_loadBuffer delivery hsettled hlimit hload
    rw [← CoReader.length_unread delivery hsettled, ← hsame] at hunread
    have hgrown : reader.buffers.read.size < loaded.buffers.read.size := by
      rcases hplace with hgrown | ⟨hsize, hnone⟩
      · exact hgrown
      · rw [CoReader.length_unread delivery hafter.1, hnone, List.length_nil] at hunread
        omega
    by_cases hdone : stop ≤ loaded.buffers.read.size
    · exact ⟨loaded, CoReader.Fetches.load (by omega) hload hgrown (CoReader.Fetches.waiting hdone),
        fun _ => by omega⟩
    · obtain ⟨last, hrest, hkept⟩ := ih _ (by omega) hafter (Or.inl (by omega)) hunread rfl
      exact ⟨last, CoReader.Fetches.load (by omega) hload hgrown hrest,
        fun _ => hkept (by omega)⟩

/-! ### The search -/

section Search

variable (delivery : Delivery source) {reader : CoReader σ} {limit : Nat}

/-- Where the bytes are that the search finds. -/
theorem readUntilString_eq_take_iff (hsettled : reader.buffers.Settled) {str : List UInt8}
    (hstr : str ≠ []) {stop : Nat}
    (hfirst : Search.EndsFirstAt str (delivery.unread reader) stop)
    (hlimit : stop ≤ flags.bound limit) :
    (∃ final, (CoReader.readUntilString flags allocator source str limit).exec reader =
        (.ok ((delivery.unread reader).take stop), final)) ↔
      Search.Attempt str (delivery.unread reader) (stop - str.length) ∧
        ∃ last, CoReader.Fetches flags allocator source (flags.bound limit) reader stop last := by
  have hloop := (Delimiter.string str hstr).readUntil_eq flags allocator source limit
  rw [Delimiter.readUntil, Delimiter.bytes] at hloop
  obtain ⟨hlength, hwithin, -⟩ := Search.endsAt_iff.1 hfirst.ends
  have hpositive := List.length_pos_iff.2 hstr
  rw [hloop, ← Search.scan_eq_some_iff_of_first hstr hfirst]
  constructor
  · rintro ⟨final, hexec⟩
    have hsome : (delivery.unread reader).take stop ≠ [] := by
      apply List.ne_nil_of_length_pos
      rw [List.length_take]
      omega
    obtain ⟨found, -, hscan, hfetches, htake⟩ := CoReader.scan_of_scanLoop delivery hsettled
      (Nat.zero_add _) (Nat.zero_le _) hexec hsome
    have hless := (Search.lt_of_scan hscan).2
    have hsame := congrArg List.length htake
    rw [List.drop_zero] at hscan hless
    rw [List.length_take, List.length_take] at hsame
    obtain rfl : found = stop := by omega
    exact ⟨hscan, hfetches⟩
  · rintro ⟨hscan, last, hfetches⟩
    obtain ⟨final, -, hexec⟩ := CoReader.scanLoop_of_scan delivery hsettled (Nat.zero_add _)
      (Nat.zero_le _) hlimit hscan hfetches
    exact ⟨final, CoReader.scanLoop_of_within hexec⟩

theorem unread_eq_nil (hsettled : reader.buffers.Settled) (hsize : reader.buffers.read.size = 0)
    (hbad : source.good reader.source = false) : delivery.unread reader = [] := by
  have hrest : delivery.rest reader.source = [] := by
    by_contra hmore
    rw [delivery.good hmore] at hbad
    cases hbad
  apply List.eq_nil_of_length_eq_zero
  rw [CoReader.length_unread delivery hsettled, hsize, hrest, List.length_nil]

theorem finishes_iff_scan (delimiter : Delimiter) (hsettled : reader.buffers.Settled) :
    delimiter.Finishes flags allocator delivery limit reader ↔
      (∃ stop ≤ flags.bound limit,
          Search.scan delimiter.bytes (delivery.unread reader) 0 0 = some stop ∧
          ∃ last, CoReader.Fetches flags allocator source (flags.bound limit) reader stop last) ∨
        delivery.unread reader = [] ∧ 0 < flags.bound limit ∧
          source.good reader.source = false := by
  rw [Delimiter.Finishes, Delimiter.readUntil_eq]
  constructor
  · rintro ⟨bytes, final, hexec, hwithin, -⟩
    by_cases hnone : bytes = []
    · rw [hnone] at hwithin
      obtain ⟨hsize, hbad, -⟩ := CoReader.end_of_scanLoop_within (Nat.zero_le _) hwithin
      refine Or.inr ⟨unread_eq_nil delivery hsettled hsize hbad, ?_, hbad⟩
      by_contra hzero
      rw [Nat.eq_zero_of_not_pos hzero] at hexec
      cases hexec
    · obtain ⟨stop, hstop, hscan, hfetches, -⟩ := CoReader.scan_of_scanLoop delivery hsettled
        (Nat.zero_add _) (Nat.zero_le _) hexec hnone
      exact Or.inl ⟨stop, hstop, hscan, hfetches⟩
  · rintro (⟨stop, hstop, hscan, last, hfetches⟩ | ⟨hunread, hbound, hbad⟩)
    · obtain ⟨final, -, hexec⟩ := CoReader.scanLoop_of_scan delivery hsettled (Nat.zero_add _)
        (Nat.zero_le _) hstop hscan hfetches
      refine ⟨_, final, CoReader.scanLoop_of_within hexec, hexec, fun hnowhere => ?_⟩
      exact absurd (Search.endsAt_of_scan delimiter.bytes_ne_nil hscan) (hnowhere stop hstop)
    · have hlength := CoReader.length_unread delivery hsettled
      rw [hunread, List.length_nil] at hlength
      have hsize : reader.buffers.read.size = 0 := by omega
      have hend : reader.buffers.read.size ≤ 0 ∧ ¬ reader.good source := by
        rw [CoReader.good, hsize, hbad]
        exact ⟨le_refl 0, Bool.false_ne_true⟩
      obtain ⟨rounds, hrounds⟩ := Nat.exists_eq_add_one_of_ne_zero hbound.ne'
      rw [Delimiter.readUntilWithin, hrounds]
      exact ⟨[], reader, CoReader.exec_scanLoop_end hend, CoReader.exec_scanLoop_end hend,
        fun _ => ⟨rfl, rfl⟩⟩

end Search

/-! ### The first occurrence -/

/-- **When `read_until` finds its delimiter.** After any completed calls on a reader over a source
that delivers a text in any cuts, `read_until` of a string that ends within the limit returns the
unread bytes up to its first end exactly when an attempt of the search begins with that occurrence
and its bytes can be fetched. -/
theorem readUntil_first_iff (flags : ReadFlags) (allocator : Allocator) {source : Source σ}
    (delivery : Delivery source) (state : σ) (calls : List ReaderCall) (str : List UInt8)
    (limit stop : Nat) {start reader : CoReader σ} {outs : List (List UInt8)}
    (hmake : CoReader.make flags allocator state = .ok start)
    (hrun : (performAll flags allocator source calls).exec start = (.ok outs, reader))
    (hstr : str ≠ [])
    (hfirst : Search.EndsFirstAt str ((delivery.rest state).drop outs.flatten.length) stop)
    (hlimit : stop ≤ flags.bound limit) :
    let unread := (delivery.rest state).drop outs.flatten.length
    (∃ final, (CoReader.readUntilString flags allocator source str limit).exec reader =
        (.ok (unread.take stop), final)) ↔
      Search.Attempt str unread (stop - str.length) ∧
        ∃ last, CoReader.Fetches flags allocator source (flags.bound limit) reader stop last := by
  obtain ⟨hsettled, hunread⟩ := unread_of_performAll delivery hmake hrun
  rw [hunread] at hfirst ⊢
  exact readUntilString_eq_take_iff delivery hsettled hstr hfirst hlimit

/-- A line feed behind a carriage return, in a text of which the first byte has been read. -/
theorem readUntil_first_iff_line :
    let flags : ReadFlags := ⟨4, 16, 8⟩
    let stream : Stream := ⟨[7, 8, 13, 10, 9], fun _ => 2, 0⟩
    let start : CoReader Stream := ⟨stream, ⟨zeroAllocator.allocate 0 4, .null, .null, 1⟩⟩
    let run := (performAll flags zeroAllocator Stream.asSource [.readUntilChar 7 0]).exec start
    (∃ final, (CoReader.readUntilString flags zeroAllocator Stream.asSource [13, 10] 0).exec run.2 =
        (.ok [8, 13, 10], final)) ↔
      Search.Attempt ([13, 10] : List UInt8) [8, 13, 10, 9] 1 ∧
        ∃ last, CoReader.Fetches flags zeroAllocator Stream.asSource 8 run.2 3 last := by
  intro flags stream start run
  have hmake : CoReader.make flags zeroAllocator stream = .ok start := rfl
  have hreturns : run.1 = .ok [[7]] := by decide
  have hrun : run = (.ok [[7]], run.2) := by rw [← hreturns]
  exact readUntil_first_iff flags zeroAllocator Stream.delivery stream
    [.readUntilChar 7 0] [13, 10] 0 3 hmake hrun (by decide) ⟨by decide, by decide⟩ (by decide)

/-- A carriage return too many: the search gives up the second carriage return, at which the first
occurrence begins, looks past the read window at the end of the stream and runs into the limit. -/
theorem not_readUntil_first :
    let flags : ReadFlags := ⟨8, 16, 8⟩
    let reader : CoReader Stream :=
      ⟨⟨[13, 13, 10, 13, 10], fun _ => 2, 0⟩, ⟨zeroAllocator.allocate 0 8, .null, .null, 1⟩⟩
    CoReader.make flags zeroAllocator reader.source = .ok reader ∧
      Search.EndsFirstAt [13, 10, 13, 10] (Stream.delivery.unread reader) 5 ∧
      5 ≤ flags.bound 0 ∧
      ¬ ∃ final, (CoReader.readUntilString flags zeroAllocator Stream.asSource
        [13, 10, 13, 10] 0).exec reader =
          (.ok ((Stream.delivery.unread reader).take 5), final) := by
  intro flags reader
  have hruns : ((CoReader.readUntilString flags zeroAllocator Stream.asSource
      [13, 10, 13, 10] 0).exec reader).1 = .error (.undefined .missingReturn) := by decide
  refine ⟨rfl, ⟨by decide, by decide⟩, by decide, ?_⟩
  rintro ⟨final, hexec⟩
  rw [hexec] at hruns
  cases hruns

/-! ### Whether `read_until` finishes -/

/-- **When `read_until` finishes.** After any completed calls on a reader over a source that
delivers a text in any cuts, a call of either overload finishes as it should exactly when the search
finds the delimiter within the limit in bytes that can be fetched, or when nothing is unread, the
source says that it has no more, and there is a round to notice it. -/
theorem finishes_iff (flags : ReadFlags) (allocator : Allocator) {source : Source σ}
    (delivery : Delivery source) (state : σ) (calls : List ReaderCall) (delimiter : Delimiter)
    (limit : Nat) {start reader : CoReader σ} {outs : List (List UInt8)}
    (hmake : CoReader.make flags allocator state = .ok start)
    (hrun : (performAll flags allocator source calls).exec start = (.ok outs, reader)) :
    let unread := (delivery.rest state).drop outs.flatten.length
    delimiter.Finishes flags allocator delivery limit reader ↔
      (∃ begins, Search.Attempt delimiter.bytes unread begins ∧
          delimiter.bytes <+: unread.drop begins ∧
          begins + delimiter.bytes.length ≤ flags.bound limit ∧
          ∃ last, CoReader.Fetches flags allocator source (flags.bound limit) reader
            (begins + delimiter.bytes.length) last) ∨
        unread = [] ∧ 0 < flags.bound limit ∧ source.good reader.source = false := by
  obtain ⟨hsettled, hunread⟩ := unread_of_performAll delivery hmake hrun
  rw [hunread, finishes_iff_scan delivery delimiter hsettled]
  apply or_congr_left
  constructor
  · rintro ⟨stop, hstop, hscan, hfetches⟩
    obtain ⟨begins, hattempt, hbegins, rfl⟩ :=
      (Search.scan_eq_some_iff delimiter.bytes_ne_nil).1 hscan
    exact ⟨begins, hattempt, hbegins, hstop, hfetches⟩
  · rintro ⟨begins, hattempt, hbegins, hstop, hfetches⟩
    exact ⟨_, hstop, (Search.scan_eq_some_iff delimiter.bytes_ne_nil).2
      ⟨begins, hattempt, hbegins, rfl⟩, hfetches⟩

/-- A line of two bytes has been read and the stream is at its end. -/
theorem finishes_iff_line :
    let flags : ReadFlags := ⟨4, 16, 8⟩
    let stream : Stream := ⟨[7, 10], fun _ => 1, 0⟩
    let start : CoReader Stream := ⟨stream, ⟨zeroAllocator.allocate 0 4, .null, .null, 1⟩⟩
    let run := (performAll flags zeroAllocator Stream.asSource [.readUntilChar 10 0]).exec start
    (Delimiter.byte 10).Finishes flags zeroAllocator Stream.delivery 0 run.2 ↔
      (∃ begins, Search.Attempt ([10] : List UInt8) [] begins ∧
          ([10] : List UInt8) <+: ([] : List UInt8).drop begins ∧ begins + 1 ≤ 8 ∧
          ∃ last, CoReader.Fetches flags zeroAllocator Stream.asSource 8 run.2 (begins + 1)
            last) ∨
        ([] : List UInt8) = [] ∧ 0 < 8 ∧ Stream.asSource.good run.2.source = false := by
  intro flags stream start run
  have hmake : CoReader.make flags zeroAllocator stream = .ok start := rfl
  have hreturns : run.1 = .ok [[7, 10]] := by decide
  have hrun : run = (.ok [[7, 10]], run.2) := by rw [← hreturns]
  exact finishes_iff flags zeroAllocator Stream.delivery stream [.readUntilChar 10 0]
    (.byte 10) 0 hmake hrun

/-- Two calls that look for a line feed. The limit ends before the line: there is no `co_return`
behind the loop. The peer closes at once: the read brings no bytes, and the byte that is looked at
is past the read window. -/
theorem not_finishes :
    (let flags : ReadFlags := ⟨4, 16, 8⟩
      let reader : CoReader Stream :=
        ⟨⟨[7, 10], fun _ => 2, 0⟩, ⟨zeroAllocator.allocate 0 4, .null, .null, 1⟩⟩
      CoReader.make flags zeroAllocator reader.source = .ok reader ∧
        ¬ (Delimiter.byte 10).Finishes flags zeroAllocator Stream.delivery 1 reader) ∧
      (let flags : ReadFlags := ⟨4, 16, 8⟩
        let reader : CoReader SocketStream :=
          ⟨⟨⟨[], fun _ => 1, 0⟩, true⟩, ⟨zeroAllocator.allocate 0 4, .null, .null, 1⟩⟩
        CoReader.make flags zeroAllocator reader.source = .ok reader ∧
          ¬ (Delimiter.byte 10).Finishes flags zeroAllocator SocketStream.delivery 0 reader) := by
  constructor
  · intro flags reader
    have hruns : (((Delimiter.byte 10).readUntil flags zeroAllocator Stream.asSource 1).exec
        reader).1 = .error (.undefined .missingReturn) := by decide
    refine ⟨rfl, ?_⟩
    rintro ⟨bytes, final, hexec, -⟩
    rw [hexec] at hruns
    cases hruns
  · intro flags reader
    have hruns : (((Delimiter.byte 10).readUntilWithin flags zeroAllocator SocketStream.asSource
        0).exec reader).1 = .error (.undefined .readPastBuffer) := by decide
    refine ⟨rfl, ?_⟩
    rintro ⟨bytes, final, -, hexec, -⟩
    rw [hexec] at hruns
    cases hruns

end Liblw.Io
