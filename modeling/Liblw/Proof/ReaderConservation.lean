import Liblw.Io.Delivery
import Liblw.Proof.ReaderWindows

/-!
# A reader neither loses nor invents bytes

Over any source, what the completed calls have returned and what still waits in the read window are
together the bytes that the source has delivered, in order.
-/

namespace Liblw.Io

open Liblw.Lib

variable {σ : Type} {flags : ReadFlags} {allocator : Allocator} {source : Source σ}

namespace CoReader

theorem onlyIf_eq_ok {ε τ : Type} {condition : Prop} [Decidable condition] {call : Call ε τ Unit}
    {state final : τ} {value : Unit}
    (hexec : (Call.onlyIf condition call).exec state = (.ok value, final)) :
    (condition ∧ call.exec state = (.ok (), final)) ∨ (¬ condition ∧ state = final) := by
  unfold Call.onlyIf at hexec
  split_ifs at hexec with hcondition
  · exact Or.inl ⟨hcondition, hexec⟩
  · rw [Call.exec_pure, Prod.mk.injEq] at hexec
    exact Or.inr ⟨hcondition, hexec.2⟩

/-- **One load.** The bytes of one source read are put behind those that wait. -/
theorem loadBuffer_eq_ok {reader final : CoReader σ} {limit : Nat}
    (hsettled : reader.buffers.Settled) (hlimit : 0 < limit)
    (hexec : (loadBuffer flags allocator source limit).exec reader = (.ok (), final)) :
    ∃ bytes, (source.read limit).exec reader.source = (.ok bytes, final.source) ∧
      Grown flags reader.buffers final.buffers ∧
      final.buffers.Layout ∧ final.buffers.waiting = reader.buffers.waiting ++ bytes := by
  unfold loadBuffer at hexec
  rw [Call.exec_get_bind] at hexec
  obtain ⟨_, adjusted, hadjust, hadjusted⟩ := Call.exec_bind_eq_ok hexec
  obtain ⟨bytes, loaded, hread, hloaded⟩ := Call.exec_bind_eq_ok hadjusted
  obtain ⟨next, hnext, rfl⟩ := Call.exec_within_eq_ok hread
  obtain ⟨accepted, haccept, rfl⟩ := Call.exec_within_eq_ok hloaded
  -- with room enough the windows stay, without it they are laid out anew
  have hready : adjusted.source = reader.source ∧ Grown flags reader.buffers adjusted.buffers ∧
      adjusted.buffers.Layout ∧ adjusted.buffers.waiting = reader.buffers.waiting := by
    rcases onlyIf_eq_ok hadjust with ⟨hshort, hbuffers⟩ | ⟨hroom, rfl⟩
    · obtain ⟨buffers, hlaid, rfl⟩ := Call.exec_within_eq_ok hbuffers
      exact ⟨rfl, adjustBuffers_eq_ok hsettled hshort hlaid⟩
    · rcases hsettled with ⟨-, hwrite⟩ | hlayout
      · rw [hwrite] at hroom
        exact absurd hlimit hroom
      · exact ⟨rfl, Or.inl rfl, hlayout, rfl⟩
  obtain ⟨hsource, hgrown, hlayout, hwaiting⟩ := hready
  obtain ⟨hlength, haccepted, hbytes⟩ := accept_eq_ok hlayout haccept
  refine ⟨bytes, ?_, ?_, haccepted, ?_⟩
  · rw [← hsource]
    exact hnext
  · unfold Grown at hgrown ⊢
    rwa [hlength]
  · rw [← hwaiting]
    exact hbytes

theorem byteAt_eq_ok {reader final : CoReader σ} {i : Nat} {byte : UInt8}
    (hexec : (byteAt i).exec reader = (.ok byte, final)) : reader = final := by
  unfold byteAt at hexec
  rw [Call.exec_get_bind] at hexec
  split at hexec
  · rw [Call.exec_pure, Prod.mk.injEq] at hexec
    exact hexec.2
  · cases hexec

end CoReader

/-! ### Calls are made of loads and takes -/

/-- A property of a reader and of what it has returned so far that survives every completed load and
every completed take. -/
structure Invariant (flags : ReadFlags) (allocator : Allocator) (source : Source σ)
    (holds : List UInt8 → CoReader σ → Prop) : Prop where
  load : ∀ {returned : List UInt8} {reader final : CoReader σ} {limit : Nat}, 0 < limit →
    holds returned reader →
    (CoReader.loadBuffer flags allocator source limit).exec reader = (.ok (), final) →
    holds returned final
  take : ∀ {returned bytes : List UInt8} {reader final : CoReader σ} {n : Nat},
    holds returned reader →
    (CoReader.onBuffers (CoReader.takeFront n)).exec reader = (.ok bytes, final) →
    holds (returned ++ bytes) final

namespace Invariant

variable {holds : List UInt8 → CoReader σ → Prop}
  {returned bytes : List UInt8} {reader final : CoReader σ}

theorem onlyIf_load (hinvariant : Invariant flags allocator source holds) {condition : Prop}
    [Decidable condition] {limit : Nat} (hlimit : condition → 0 < limit)
    (hreader : holds returned reader)
    (hexec : (Call.onlyIf condition (CoReader.loadBuffer flags allocator source limit)).exec
      reader = (.ok (), final)) :
    holds returned final := by
  rcases CoReader.onlyIf_eq_ok hexec with ⟨hcondition, hload⟩ | ⟨-, rfl⟩
  · exact hinvariant.load (hlimit hcondition) hreader hload
  · exact hreader

theorem read (hinvariant : Invariant flags allocator source holds) {n : Nat}
    (hreader : holds returned reader)
    (hexec : (CoReader.read flags allocator source n).exec reader = (.ok bytes, final)) :
    holds (returned ++ bytes) final := by
  unfold CoReader.read at hexec
  rw [Call.exec_get_bind] at hexec
  obtain ⟨_, loaded, hload, hloaded⟩ := Call.exec_bind_eq_ok hexec
  rw [Call.exec_get_bind] at hloaded
  have hmiddle := hinvariant.onlyIf_load (fun hshort => by omega) hreader hload
  exact hinvariant.take hmiddle hloaded

theorem readUntilCharLoop (hinvariant : Invariant flags allocator source holds) {c : UInt8}
    {limit i rounds : Nat} (hrounds : i + rounds = limit) (hreader : holds returned reader)
    (hexec : (CoReader.readUntilCharLoop flags allocator source c limit i rounds).exec reader =
      (.ok bytes, final)) :
    holds (returned ++ bytes) final := by
  induction rounds generalizing i reader with
  | zero => cases hexec
  | succ rounds ih =>
      unfold CoReader.readUntilCharLoop at hexec
      rw [Call.exec_get_bind] at hexec
      by_cases hend : reader.buffers.read.size ≤ i ∧ ¬ reader.good source
      · rw [if_pos hend, Call.exec_pure, Prod.mk.injEq, Except.ok.injEq] at hexec
        obtain ⟨rfl, rfl⟩ := hexec
        rwa [List.append_nil]
      · rw [if_neg hend] at hexec
        obtain ⟨_, loaded, hload, hloaded⟩ := Call.exec_bind_eq_ok hexec
        have hmiddle := hinvariant.onlyIf_load (fun _ => by omega) hreader hload
        obtain ⟨byte, _, hbyte, hrest⟩ := Call.exec_bind_eq_ok hloaded
        obtain rfl := CoReader.byteAt_eq_ok hbyte
        split_ifs at hrest with hmatch
        · exact hinvariant.take hmiddle hrest
        · exact ih (by omega) hmiddle hrest

theorem readUntilStringLoop (hinvariant : Invariant flags allocator source holds)
    {str : List UInt8} {limit pos i rounds : Nat} (hrounds : i + rounds = limit)
    (hreader : holds returned reader)
    (hexec : (CoReader.readUntilStringLoop flags allocator source str limit pos i rounds).exec
      reader = (.ok bytes, final)) :
    holds (returned ++ bytes) final := by
  induction rounds generalizing pos i reader with
  | zero => cases hexec
  | succ rounds ih =>
      unfold CoReader.readUntilStringLoop at hexec
      rw [Call.exec_get_bind] at hexec
      by_cases hend : reader.buffers.read.size ≤ i ∧ ¬ reader.good source
      · rw [if_pos hend, Call.exec_pure, Prod.mk.injEq, Except.ok.injEq] at hexec
        obtain ⟨rfl, rfl⟩ := hexec
        rwa [List.append_nil]
      · rw [if_neg hend] at hexec
        obtain ⟨_, loaded, hload, hloaded⟩ := Call.exec_bind_eq_ok hexec
        have hmiddle := hinvariant.onlyIf_load (fun _ => by omega) hreader hload
        obtain ⟨byte, _, hbyte, hrest⟩ := Call.exec_bind_eq_ok hloaded
        obtain rfl := CoReader.byteAt_eq_ok hbyte
        cases hpos : str[pos]? with
        | none =>
            rw [hpos] at hrest
            cases hrest
        | some c =>
            rw [hpos] at hrest
            dsimp only at hrest
            split_ifs at hrest with hmatch hlast
            · exact hinvariant.take hmiddle hrest
            · exact ih (by omega) hmiddle hrest
            · exact ih (by omega) hmiddle hrest

theorem perform (hinvariant : Invariant flags allocator source holds) {call : ReaderCall}
    (hreader : holds returned reader)
    (hexec : (call.perform flags allocator source).exec reader = (.ok bytes, final)) :
    holds (returned ++ bytes) final := by
  cases call with
  | read n => exact hinvariant.read hreader hexec
  | readUntilChar c limit => exact hinvariant.readUntilCharLoop (Nat.zero_add _) hreader hexec
  | readUntilString str limit =>
      exact hinvariant.readUntilStringLoop (Nat.zero_add _) hreader hexec

/-- An invariant holds after every sequence of completed calls. -/
theorem performAll (hinvariant : Invariant flags allocator source holds) {calls : List ReaderCall}
    {outs : List (List UInt8)} (hreader : holds returned reader)
    (hexec : (performAll flags allocator source calls).exec reader = (.ok outs, final)) :
    holds (returned ++ outs.flatten) final := by
  induction calls generalizing returned reader outs with
  | nil =>
      rw [Io.performAll, Call.exec_pure, Prod.mk.injEq, Except.ok.injEq] at hexec
      obtain ⟨rfl, rfl⟩ := hexec
      rwa [List.flatten_nil, List.append_nil]
  | cons call calls ih =>
      obtain ⟨bytes, middle, hcall, hcalls⟩ := Call.exec_bind_eq_ok hexec
      obtain ⟨rest, last, hrest, hreturn⟩ := Call.exec_bind_eq_ok hcalls
      rw [Call.exec_pure, Prod.mk.injEq, Except.ok.injEq] at hreturn
      obtain ⟨rfl, rfl⟩ := hreturn
      rw [List.flatten_cons, ← List.append_assoc]
      exact ih (hinvariant.perform hreader hcall) hrest

end Invariant

/-! ### Conservation -/

/-- `returned` has been handed out, and with what waits it is all that has been delivered. Before
the first load the source is in a state that has been `untouched`. -/
structure Conserved (untouched : σ → Prop) (delivered : List UInt8 → σ → Prop)
    (returned : List UInt8) (reader : CoReader σ) : Prop where
  windows : (reader.buffers.Unloaded ∧ untouched reader.source) ∨ reader.buffers.Layout
  bytes : delivered (returned ++ reader.buffers.waiting) reader.source

/-- A record of what a source delivers that every read carries on. -/
def Records (source : Source σ) (delivered : List UInt8 → σ → Prop) : Prop :=
  ∀ ⦃total bytes : List UInt8⦄ ⦃size : Nat⦄ ⦃state next : σ⦄, delivered total state →
    (source.read size).exec state = (.ok bytes, next) → delivered (total ++ bytes) next

variable {untouched : σ → Prop} {delivered : List UInt8 → σ → Prop}

theorem Conserved.settled {returned : List UInt8} {reader : CoReader σ}
    (hconserved : Conserved untouched delivered returned reader) : reader.buffers.Settled :=
  hconserved.windows.imp And.left id

theorem invariant_conserved (hrecords : Records source delivered) :
    Invariant flags allocator source (Conserved untouched delivered) where
  load := by
    intro returned reader final limit hlimit hconserved hexec
    obtain ⟨bytes, hread, -, hlayout, hwaiting⟩ :=
      CoReader.loadBuffer_eq_ok hconserved.settled hlimit hexec
    refine ⟨Or.inr hlayout, ?_⟩
    rw [hwaiting, ← List.append_assoc]
    exact hrecords hconserved.bytes hread
  take := by
    intro returned bytes reader final n hconserved hexec
    obtain ⟨buffers, htake, rfl⟩ := Call.exec_within_eq_ok hexec
    refine ⟨?_, ?_⟩
    · rcases hconserved.windows with ⟨hunloaded, huntouched⟩ | hlayout
      · exact Or.inl ⟨CoReader.unloaded_takeFront hunloaded htake, huntouched⟩
      · exact Or.inr (CoReader.layout_takeFront hlayout htake)
    · have hbytes := hconserved.bytes
      rw [CoReader.waiting_takeFront hconserved.settled htake, ← List.append_assoc] at hbytes
      exact hbytes

theorem conserved_make {start : σ} {reader : CoReader σ}
    (hmake : CoReader.make flags allocator start = .ok reader)
    (huntouched : untouched start) (hstart : delivered [] start) :
    Conserved untouched delivered [] reader := by
  unfold CoReader.make at hmake
  split_ifs at hmake with hsize
  obtain rfl := Except.ok.inj hmake
  exact ⟨Or.inl ⟨⟨rfl, rfl⟩, huntouched⟩, hstart⟩

theorem records_delivery (delivery : Delivery source) (whole : List UInt8) :
    Records source fun total state => total ++ delivery.rest state = whole := by
  intro total bytes size state next htotal hread
  rw [← htotal, List.append_assoc, delivery.conserves hread]

/-- What the calls have not returned is unread. -/
theorem unread_of_performAll (delivery : Delivery source) {state : σ} {calls : List ReaderCall}
    {start reader : CoReader σ} {outs : List (List UInt8)}
    (hmake : CoReader.make flags allocator state = .ok start)
    (hrun : (performAll flags allocator source calls).exec start = (.ok outs, reader)) :
    reader.buffers.Settled ∧
      (delivery.rest state).drop outs.flatten.length = delivery.unread reader := by
  have hstart : Conserved (fun _ => True)
      (fun total next => total ++ delivery.rest next = delivery.rest state) [] start :=
    conserved_make hmake trivial rfl
  have hreader := (invariant_conserved (records_delivery delivery _)).performAll hstart hrun
  have hbytes := hreader.bytes
  rw [List.nil_append, List.append_assoc] at hbytes
  refine ⟨hreader.settled, ?_⟩
  rw [← hbytes, List.drop_left]
  rfl

/-- **No byte is lost, doubled or moved.** After any sequence of completed calls on a reader over
any source, the returned buffers followed by the read window are what the source has delivered, and
from the first load on the windows are laid out one behind the other up to the end of the block. -/
theorem performAll_conserves (flags : ReadFlags) (allocator : Allocator) (source : Source σ)
    (start : σ) (calls : List ReaderCall) {reader final : CoReader (σ × List (List UInt8))}
    {outs : List (List UInt8)}
    (hmake : CoReader.make flags allocator (start, []) = .ok reader)
    (hrun : (performAll flags allocator source.recorded calls).exec reader = (.ok outs, final)) :
    outs.flatten ++ final.buffers.waiting = final.source.2.flatten ∧
      (final.source.2 ≠ [] → final.buffers.Layout) := by
  let untouched : σ × List (List UInt8) → Prop := fun recorded => recorded.2 = []
  let delivered : List UInt8 → σ × List (List UInt8) → Prop :=
    fun total recorded => total = recorded.2.flatten
  have hrecords : Records source.recorded delivered := by
    rintro total bytes size ⟨state, log⟩ ⟨next, log'⟩ htotal hread
    obtain ⟨-, rfl⟩ := source.recordedRead_eq_ok hread
    simp only [delivered] at htotal ⊢
    rw [htotal, List.flatten_append, List.flatten_singleton]
  have hinitial : Conserved untouched delivered [] reader := conserved_make hmake rfl rfl
  have hfinal := (invariant_conserved hrecords).performAll hinitial hrun
  refine ⟨hfinal.bytes, ?_⟩
  intro hloaded
  rcases hfinal.windows with ⟨-, hnone⟩ | hlayout
  · exact absurd hnone hloaded
  · exact hlayout

/-- A reader that starts with one byte of buffer, over a transport that delivers two bytes at a
time: its four calls reallocate the block, slide the window and return a short read. -/
theorem performAll_conserves_pairs :
    let flags : ReadFlags := ⟨1, 16, 4⟩
    let stream : Stream := ⟨[1, 2, 3, 4, 5, 6, 7, 8, 9], fun _ => 2, 0⟩
    let calls : List ReaderCall :=
      [.read 2, .readUntilChar 4 0, .readUntilString [5, 6] 5, .read 9]
    let reader : CoReader (Stream × List (List UInt8)) :=
      ⟨(stream, []), ⟨zeroAllocator.allocate 0 1, .null, .null, 1⟩⟩
    let run := (performAll flags zeroAllocator Stream.asSource.recorded calls).exec reader
    run.1 = .ok [[1, 2], [3, 4], [5, 6], [7, 8]] ∧
      [[1, 2], [3, 4], [5, 6], [7, 8]].flatten ++ run.2.buffers.waiting =
        run.2.source.2.flatten ∧
      (run.2.source.2 ≠ [] → run.2.buffers.Layout) := by
  intro flags stream calls reader run
  have hmake : CoReader.make flags zeroAllocator (stream, []) = .ok reader := rfl
  have hreturns : run.1 = .ok [[1, 2], [3, 4], [5, 6], [7, 8]] := by decide +kernel
  have hrun : run = (.ok [[1, 2], [3, 4], [5, 6], [7, 8]], run.2) := by rw [← hreturns]
  exact ⟨hreturns,
    performAll_conserves flags zeroAllocator Stream.asSource stream calls hmake hrun⟩

end Liblw.Io
