import Liblw.Io.Delimiters
import Liblw.Proof.ReaderProgress

/-!
# The loop of `read_until`

As long as each load brings bytes, the loop searches the unread bytes, wherever they are cut. The
first load that brings none is at the end of the source; from there on the loop looks past the read
window and returns nothing but an empty `Buffer`, if it returns at all.
-/

namespace Liblw.Io

open Liblw.Lib

variable {σ : Type} {flags : ReadFlags} {allocator : Allocator} {source : Source σ}

namespace CoReader

/-! ### One round -/

section Round

variable {look : Nat → Call Fault (CoReader σ) UInt8} {str : List UInt8} {limit pos i rounds : Nat}
  {reader loaded final : CoReader σ} {byte : UInt8} {bytes : List UInt8}

/-- How a round goes on after its look at a byte, when `next` are the rounds after it. -/
def afterLook (str : List UInt8) (pos i : Nat)
    (next : (pos : Nat) → Call Fault (CoReader σ) (List UInt8)) (byte : UInt8) :
    Call Fault (CoReader σ) (List UInt8) :=
  match str[pos]? with
  | none => throw (.undefined .readPastView)
  | some c =>
      if byte = c then
        if pos + 1 = str.length then onBuffers (takeFront (i + 1)) else next (pos + 1)
      else next 0

/-- The look at a byte is a step of the search, which fails, or finds the string, or goes on. -/
theorem afterLook_cases (σ : Type) (str : List UInt8) (pos i : Nat) (byte : UInt8) :
    ((∀ rest, Search.scan str (byte :: rest) pos i = none) ∧
        ∀ next : Nat → Call Fault (CoReader σ) (List UInt8),
          afterLook str pos i next byte = throw (.undefined .readPastView)) ∨
      ((∀ rest, Search.scan str (byte :: rest) pos i = some (i + 1)) ∧
        ∀ next : Nat → Call Fault (CoReader σ) (List UInt8),
          afterLook str pos i next byte = onBuffers (takeFront (i + 1))) ∨
      ∃ pos', (∀ rest, Search.scan str (byte :: rest) pos i = Search.scan str rest pos' (i + 1)) ∧
        ∀ next : Nat → Call Fault (CoReader σ) (List UInt8),
          afterLook str pos i next byte = next pos' := by
  simp only [Search.scan, afterLook]
  cases str[pos]? with
  | none => exact Or.inl ⟨fun _ => rfl, fun _ => rfl⟩
  | some c =>
    by_cases hfits : byte = c
    · by_cases hlast : pos + 1 = str.length
      · refine Or.inr (Or.inl ⟨fun rest => ?_, fun next => ?_⟩)
        · simp only [hfits, hlast, if_true]
        · simp only [hfits, hlast, if_true]
      · refine Or.inr (Or.inr ⟨pos + 1, fun rest => ?_, fun next => ?_⟩)
        · simp only [hfits, hlast, if_true, if_false]
        · simp only [hfits, hlast, if_true, if_false]
    · refine Or.inr (Or.inr ⟨0, fun rest => ?_, fun next => ?_⟩)
      · simp only [hfits, if_false]
      · simp only [hfits, if_false]

/-- At the end the loop returns an empty `Buffer`. -/
theorem exec_scanLoop_end (hend : reader.buffers.read.size ≤ i ∧ ¬ reader.good source) :
    (scanLoop flags allocator source look str limit pos i (rounds + 1)).exec reader =
      (.ok [], reader) := by
  rw [scanLoop, Call.exec_get_bind, if_pos hend, Call.exec_pure]

theorem exec_scanLoop_more (hmore : ¬ (reader.buffers.read.size ≤ i ∧ ¬ reader.good source))
    (hload : (Call.onlyIf (reader.buffers.read.size ≤ i)
      (loadBuffer flags allocator source (limit - i))).exec reader = (.ok (), loaded))
    (hlook : (look i).exec loaded = (.ok byte, loaded)) :
    (scanLoop flags allocator source look str limit pos i (rounds + 1)).exec reader =
      (afterLook str pos i (fun pos => scanLoop flags allocator source look str limit pos (i + 1)
        rounds) byte).exec loaded := by
  rw [scanLoop, Call.exec_get_bind, if_neg hmore, Call.exec_bind_ok hload, Call.exec_bind_ok hlook]
  rfl

/-- A round that returns: at the end, or after a look at a byte. -/
theorem scanLoop_succ_eq_ok
    (hexec : (scanLoop flags allocator source look str limit pos i (rounds + 1)).exec reader =
      (.ok bytes, final)) :
    ((reader.buffers.read.size ≤ i ∧ ¬ reader.good source) ∧ bytes = [] ∧ final = reader) ∨
      ¬ (reader.buffers.read.size ≤ i ∧ ¬ reader.good source) ∧
        ∃ loaded looked byte,
          (Call.onlyIf (reader.buffers.read.size ≤ i)
            (loadBuffer flags allocator source (limit - i))).exec reader = (.ok (), loaded) ∧
          (look i).exec loaded = (.ok byte, looked) ∧
          (afterLook str pos i (fun pos => scanLoop flags allocator source look str limit pos
            (i + 1) rounds) byte).exec looked = (.ok bytes, final) := by
  by_cases hend : reader.buffers.read.size ≤ i ∧ ¬ reader.good source
  · rw [exec_scanLoop_end hend, Prod.mk.injEq, Except.ok.injEq] at hexec
    exact Or.inl ⟨hend, hexec.1.symm, hexec.2.symm⟩
  · rw [scanLoop, Call.exec_get_bind, if_neg hend] at hexec
    obtain ⟨_, loaded, hload, hloaded⟩ := Call.exec_bind_eq_ok hexec
    obtain ⟨byte, looked, hlook, hrest⟩ := Call.exec_bind_eq_ok hloaded
    exact Or.inr ⟨hend, loaded, looked, byte, hload, hlook, hrest⟩

end Round

/-! ### Looks -/

theorem byteWithin_eq_ok {reader final : CoReader σ} {i : Nat} {byte : UInt8}
    (hexec : (byteWithin i).exec reader = (.ok byte, final)) :
    i < reader.buffers.read.size ∧ (byteAt i).exec reader = (.ok byte, final) := by
  rw [byteWithin, Call.exec_get_bind] at hexec
  split_ifs at hexec with hi
  · exact ⟨hi, hexec⟩
  · cases hexec

theorem exec_byteWithin {reader : CoReader σ} {i : Nat} (hi : i < reader.buffers.read.size) :
    (byteWithin i).exec reader = (byteAt i).exec reader := by
  rw [byteWithin, Call.exec_get_bind, if_pos hi]

/-- A byte of the read window is one of the unread bytes. -/
theorem exec_byteAt (delivery : Delivery source) {reader : CoReader σ} {i : Nat}
    (hsettled : reader.buffers.Settled) (hi : i < reader.buffers.read.size) :
    ∃ byte, (byteAt i).exec reader = (.ok byte, reader) ∧
      (delivery.unread reader).drop i = byte :: (delivery.unread reader).drop (i + 1) := by
  rcases hsettled with ⟨hnull, -⟩ | hlayout
  · rw [hnull] at hi
    exact absurd hi (Nat.not_lt_zero i)
  · have hwindow := hlayout.contains_read
    obtain ⟨hstart, hfinish⟩ := id hwindow
    have hcell : reader.buffers.buffer.Contains (reader.buffers.read.data + i) 1 :=
      ⟨by omega, by omega⟩
    have hwaiting := Buffers.waiting_of_load (Block.load_of_contains hwindow)
    have hlength : i < reader.buffers.waiting.length := by
      rwa [Buffers.length_waiting (Or.inr hlayout)]
    have hunread : i < (delivery.unread reader).length := by
      rw [Delivery.unread, List.length_append]
      omega
    have hload : reader.buffers.buffer.load (reader.buffers.read.data + i) 1 =
        some [(delivery.unread reader)[i]] := by
      have hoffset : reader.buffers.read.data + i - reader.buffers.buffer.address =
          reader.buffers.read.data - reader.buffers.buffer.address + i := by
        omega
      have hinside : reader.buffers.read.data - reader.buffers.buffer.address + i <
          reader.buffers.buffer.cells.length := by
        omega
      have hbyte : (delivery.unread reader)[i] = reader.buffers.buffer.cells[
          reader.buffers.read.data - reader.buffers.buffer.address + i] := by
        rw [← Option.some_inj, ← List.getElem?_eq_getElem, ← List.getElem?_eq_getElem,
          Delivery.unread, List.getElem?_append_left hlength, hwaiting,
          List.getElem?_take_of_lt hi, List.getElem?_drop]
      rw [Block.load_of_contains hcell, hoffset, List.take_one_drop_eq_of_lt_length hinside, hbyte]
      rfl
    refine ⟨(delivery.unread reader)[i], ?_, List.drop_eq_getElem_cons hunread⟩
    rw [byteAt, Call.exec_get_bind, hload]
    rfl

/-! ### Loads -/

section Loads

variable (delivery : Delivery source) {reader loaded : CoReader σ} {limit : Nat}

theorem length_unread (hsettled : reader.buffers.Settled) :
    (delivery.unread reader).length =
      reader.buffers.read.size + (delivery.rest reader.source).length := by
  rw [Delivery.unread, List.length_append, Buffers.length_waiting hsettled]

/-- A load moves bytes from the source to the window. One that brings none is at the end. -/
theorem unread_loadBuffer (hsettled : reader.buffers.Settled) (hlimit : 0 < limit)
    (hexec : (loadBuffer flags allocator source limit).exec reader = (.ok (), loaded)) :
    loaded.buffers.Settled ∧ delivery.unread loaded = delivery.unread reader ∧
      (reader.buffers.read.size < loaded.buffers.read.size ∨
        reader.buffers.read.size = loaded.buffers.read.size ∧
          delivery.rest loaded.source = []) := by
  obtain ⟨bytes, hread, -, hlayout, hwaiting⟩ := loadBuffer_eq_ok hsettled hlimit hexec
  have hrest := delivery.conserves hread
  have hbefore := Buffers.length_waiting hsettled
  have hafter := Buffers.length_waiting (Or.inr hlayout)
  rw [hwaiting, List.length_append, hbefore] at hafter
  refine ⟨Or.inr hlayout, ?_, ?_⟩
  · rw [Delivery.unread, Delivery.unread, hwaiting, hrest, List.append_assoc]
  · by_cases hnone : bytes = []
    · refine Or.inr ⟨by rw [← hafter, hnone, List.length_nil, Nat.add_zero], ?_⟩
      by_contra hmore
      rw [hnone, List.nil_append] at hrest
      rw [← hrest] at hmore
      obtain ⟨bytes', next, hread', hsome⟩ := delivery.delivers hlimit hmore
      rw [hread, Prod.mk.injEq, Except.ok.injEq] at hread'
      exact hsome (hread'.1.symm.trans hnone)
    · have hsome := List.length_pos_iff.2 hnone
      exact Or.inl (by omega)

end Loads

/-! ### Runs that return -/

section Runs

variable (delivery : Delivery source) {str : List UInt8} {limit pos i rounds : Nat}
  {reader final : CoReader σ} {bytes : List UInt8}

/-- Where each look is at a byte of the window, it does not matter that it is checked. -/
theorem scanLoop_of_within
    (hexec : (scanLoop flags allocator source byteWithin str limit pos i rounds).exec reader =
      (.ok bytes, final)) :
    (scanLoop flags allocator source byteAt str limit pos i rounds).exec reader =
      (.ok bytes, final) := by
  induction rounds generalizing pos i reader with
  | zero => cases hexec
  | succ rounds ih =>
    rcases scanLoop_succ_eq_ok hexec with
      ⟨hend, rfl, rfl⟩ | ⟨hmore, loaded, looked, byte, hload, hlook, hrest⟩
    · exact exec_scanLoop_end hend
    obtain ⟨-, hbyte⟩ := byteWithin_eq_ok hlook
    obtain rfl := byteAt_eq_ok hbyte
    rw [exec_scanLoop_more hmore hload hbyte]
    rcases afterLook_cases σ str pos i byte with
      ⟨-, hfails⟩ | ⟨-, hfound⟩ | ⟨pos', -, hgoes⟩
    · rw [hfails] at hrest
      cases hrest
    · rw [hfound] at hrest ⊢
      exact hrest
    · rw [hgoes] at hrest ⊢
      exact ih hrest

/-- Behind the end of the source the loop returns no bytes. -/
theorem eq_nil_of_past_end (hsettled : reader.buffers.Settled) (hrounds : i + rounds = limit)
    (hend : delivery.rest reader.source = []) (hi : reader.buffers.read.size ≤ i)
    (hexec : (scanLoop flags allocator source byteAt str limit pos i rounds).exec reader =
      (.ok bytes, final)) :
    bytes = [] := by
  induction rounds generalizing pos i reader with
  | zero => cases hexec
  | succ rounds ih =>
    rcases scanLoop_succ_eq_ok hexec with
      ⟨-, hnone, -⟩ | ⟨-, loaded, looked, byte, hload, hlook, hrest⟩
    · exact hnone
    obtain rfl := byteAt_eq_ok hlook
    obtain ⟨-, hload⟩ := (onlyIf_eq_ok hload).resolve_right fun hother => hother.1 hi
    obtain ⟨hafter, hunread, hplace⟩ := unread_loadBuffer delivery hsettled (by omega) hload
    have hlength := length_unread delivery hsettled
    have hlength' := length_unread delivery hafter
    rw [hunread, hlength, hend, List.length_nil, Nat.add_zero] at hlength'
    have hend' : delivery.rest loaded.source = [] := by
      apply List.eq_nil_of_length_eq_zero
      rcases hplace with hgrown | ⟨-, hnone⟩
      · omega
      · rw [hnone, List.length_nil]
    rcases afterLook_cases σ str pos i byte with ⟨-, hfails⟩ | ⟨-, hfound⟩ | ⟨pos', -, hgoes⟩
    · rw [hfails] at hrest
      cases hrest
    · rw [hfound] at hrest
      obtain ⟨buffers, htake, -⟩ := Call.exec_within_eq_ok hrest
      have hroom := (takeFront_eq_ok htake).1
      omega
    · rw [hgoes] at hrest
      exact ih hafter (by omega) hend' (by omega) hrest

/-- What the front of the unread bytes is when they are taken. -/
theorem take_unread {n : Nat} (hsettled : reader.buffers.Settled)
    (hexec : (onBuffers (takeFront n)).exec reader = (.ok bytes, final)) :
    bytes = (delivery.unread reader).take n ∧
      delivery.unread final = (delivery.unread reader).drop n := by
  obtain ⟨buffers, htake, rfl⟩ := Call.exec_within_eq_ok hexec
  have hsplit := waiting_takeFront hsettled htake
  have hlength := Block.length_of_load (takeFront_eq_ok htake).2.1
  have hunread : delivery.unread reader =
      bytes ++ delivery.unread { reader with buffers } := by
    rw [Delivery.unread, hsplit, List.append_assoc]
    rfl
  rw [hunread, List.take_left' hlength, List.drop_left' hlength]
  exact ⟨rfl, rfl⟩

theorem exists_take_unread {n : Nat} (hsettled : reader.buffers.Settled)
    (hn : n ≤ reader.buffers.read.size) :
    ∃ final, (onBuffers (takeFront n)).exec reader =
      (.ok ((delivery.unread reader).take n), final) := by
  obtain ⟨bytes, buffers, htake⟩ := exists_takeFront hsettled hn
  have hexec : (onBuffers (takeFront n)).exec reader = (.ok bytes, { reader with buffers }) := by
    rw [onBuffers, Call.exec_within, htake]
  rw [← (take_unread delivery hsettled hexec).1]
  exact ⟨_, hexec⟩

/-- Before the look a round has brought the byte that it looks at, or it is past the end. -/
theorem fetches_onlyIf {loaded : CoReader σ} (hsettled : reader.buffers.Settled)
    (hlimit : i < limit) (hi : i ≤ reader.buffers.read.size)
    (hload : (Call.onlyIf (reader.buffers.read.size ≤ i)
      (loadBuffer flags allocator source (limit - i))).exec reader = (.ok (), loaded)) :
    loaded.buffers.Settled ∧ delivery.unread loaded = delivery.unread reader ∧
      (i < loaded.buffers.read.size ∧
          (∀ n last, i < n → Fetches flags allocator source limit loaded n last →
            Fetches flags allocator source limit reader n last) ∨
        loaded.buffers.read.size ≤ i ∧ reader.buffers.read.size ≤ i ∧
          delivery.rest reader.source = []) := by
  rcases onlyIf_eq_ok hload with ⟨hwindow, hload⟩ | ⟨hwindow, rfl⟩
  · obtain rfl : i = reader.buffers.read.size := by omega
    obtain ⟨hafter, hunread, hplace⟩ := unread_loadBuffer delivery hsettled (by omega) hload
    refine ⟨hafter, hunread, ?_⟩
    rcases hplace with hgrown | ⟨hsame, hnone⟩
    · exact Or.inl ⟨hgrown, fun n last hn hfetches => Fetches.load hn hload hgrown hfetches⟩
    · refine Or.inr ⟨hsame.ge, hwindow, List.eq_nil_of_length_eq_zero ?_⟩
      have hlength := length_unread delivery hsettled
      have hlength' := length_unread delivery hafter
      rw [hunread, hnone, List.length_nil] at hlength'
      omega
  · exact ⟨hsettled, rfl, Or.inl ⟨by omega, fun _ _ _ hfetches => hfetches⟩⟩

/-- **What the loop returns is what the search finds.** Bytes that it returns go up to where the
search of the unread bytes finds the string, within the limit and after loads that have brought
them. -/
theorem scan_of_scanLoop (hsettled : reader.buffers.Settled) (hrounds : i + rounds = limit)
    (hi : i ≤ reader.buffers.read.size)
    (hexec : (scanLoop flags allocator source byteAt str limit pos i rounds).exec reader =
      (.ok bytes, final)) (hbytes : bytes ≠ []) :
    ∃ stop ≤ limit, Search.scan str ((delivery.unread reader).drop i) pos i = some stop ∧
      (∃ last, Fetches flags allocator source limit reader stop last) ∧
      bytes = (delivery.unread reader).take stop := by
  induction rounds generalizing pos i reader with
  | zero => cases hexec
  | succ rounds ih =>
    rcases scanLoop_succ_eq_ok hexec with
      ⟨-, hnone, -⟩ | ⟨-, loaded, looked, byte, hload, hlook, hrest⟩
    · exact absurd hnone hbytes
    obtain rfl := byteAt_eq_ok hlook
    obtain ⟨hafter, hunread, hplace⟩ := fetches_onlyIf delivery hsettled (by omega) hi hload
    rcases hplace with ⟨hlt, hfetches⟩ | ⟨-, hwindow, hend⟩
    · obtain ⟨byte', hbyte, hdrop⟩ := exec_byteAt delivery hafter hlt
      rw [hlook, Prod.mk.injEq, Except.ok.injEq] at hbyte
      obtain rfl := hbyte.1
      rw [← hunread, hdrop]
      rcases afterLook_cases σ str pos i byte with
        ⟨-, hfails⟩ | ⟨hscan, hfound⟩ | ⟨pos', hscan, hgoes⟩
      · rw [hfails] at hrest
        cases hrest
      · rw [hfound] at hrest
        exact ⟨i + 1, by omega, hscan _,
          ⟨_, hfetches _ _ (Nat.lt_succ_self i) (Fetches.waiting hlt)⟩,
          (take_unread delivery hafter hrest).1⟩
      · rw [hgoes] at hrest
        obtain ⟨stop, hstop, hfinds, ⟨last, hbrings⟩, htake⟩ := ih hafter (by omega) hlt hrest
        have hless := (Search.lt_of_scan hfinds).1
        exact ⟨stop, hstop, by rw [hscan, hfinds], ⟨last, hfetches _ _ (by omega) hbrings⟩, htake⟩
    · exact absurd (eq_nil_of_past_end delivery hsettled hrounds hend hwindow hexec) hbytes

/-- The load that a round makes when the bytes that the search needs can be fetched. -/
theorem exists_onlyIf {stop : Nat} {last : CoReader σ} (hsettled : reader.buffers.Settled)
    (hlimit : i < limit) (hi : i ≤ reader.buffers.read.size) (hstop : i < stop)
    (hfetches : Fetches flags allocator source limit reader stop last) :
    ∃ loaded, (Call.onlyIf (reader.buffers.read.size ≤ i)
        (loadBuffer flags allocator source (limit - i))).exec reader = (.ok (), loaded) ∧
      loaded.buffers.Settled ∧ delivery.unread loaded = delivery.unread reader ∧
      i < loaded.buffers.read.size ∧ Fetches flags allocator source limit loaded stop last := by
  by_cases hwindow : reader.buffers.read.size ≤ i
  · obtain rfl : i = reader.buffers.read.size := by omega
    cases hfetches with
    | waiting hwaiting => omega
    | @load _ loaded _ _ _ hload hgrown hrest =>
      obtain ⟨hafter, hunread, -⟩ := unread_loadBuffer delivery hsettled (by omega) hload
      exact ⟨loaded, (exec_onlyIf_pos hwindow _ _).trans hload, hafter, hunread, hgrown, hrest⟩
  · exact ⟨reader, exec_onlyIf_neg hwindow _ _, hsettled, rfl, by omega, hfetches⟩

/-- **What the search finds the loop returns**, each look being at a byte of the window: once the
bytes are there it takes them. -/
theorem scanLoop_of_scan {stop : Nat} {last : CoReader σ} (hsettled : reader.buffers.Settled)
    (hrounds : i + rounds = limit) (hi : i ≤ reader.buffers.read.size) (hstop : stop ≤ limit)
    (hscan : Search.scan str ((delivery.unread reader).drop i) pos i = some stop)
    (hfetches : Fetches flags allocator source limit reader stop last) :
    ∃ final, (onBuffers (takeFront stop)).exec last =
        (.ok ((delivery.unread reader).take stop), final) ∧
      (scanLoop flags allocator source byteWithin str limit pos i rounds).exec reader =
        (.ok ((delivery.unread reader).take stop), final) := by
  induction rounds generalizing pos i reader with
  | zero =>
    have hless := (Search.lt_of_scan hscan).1
    omega
  | succ rounds ih =>
    have hless := Search.lt_of_scan hscan
    obtain ⟨loaded, hload, hafter, hunread, hlt, hbrings⟩ :=
      exists_onlyIf delivery hsettled (by omega) hi hless.1 hfetches
    have hmore : ¬ (reader.buffers.read.size ≤ i ∧ ¬ reader.good source) := by
      rintro ⟨hwindow, hbad⟩
      rw [List.length_drop, length_unread delivery hsettled] at hless
      have hrest : delivery.rest reader.source ≠ [] := by
        apply List.ne_nil_of_length_pos
        omega
      exact hbad (by rw [good, delivery.good hrest, Bool.or_true])
    obtain ⟨byte, hbyte, hdrop⟩ := exec_byteAt delivery hafter hlt
    rw [exec_scanLoop_more hmore hload ((exec_byteWithin hlt).trans hbyte), ← hunread]
    rw [← hunread, hdrop] at hscan
    rcases afterLook_cases σ str pos i byte with
      ⟨hnone, -⟩ | ⟨hfinds, hfound⟩ | ⟨pos', hcarries, hgoes⟩
    · rw [hnone] at hscan
      cases hscan
    · rw [hfinds] at hscan
      obtain rfl := Option.some.inj hscan
      obtain rfl : last = loaded := by
        cases hbrings with
        | waiting => rfl
        | load hshort => omega
      obtain ⟨final, htake⟩ := exists_take_unread delivery hafter hlt
      rw [hfound]
      exact ⟨final, htake, htake⟩
    · rw [hcarries] at hscan
      rw [hgoes]
      exact ih hafter (by omega) hlt hscan hbrings

/-- Where each look is at a byte of the window, an empty `Buffer` is returned at the end only. -/
theorem end_of_scanLoop_within (hi : i ≤ reader.buffers.read.size)
    (hexec : (scanLoop flags allocator source byteWithin str limit pos i rounds).exec reader =
      (.ok [], final)) :
    reader.buffers.read.size = 0 ∧ source.good reader.source = false ∧ final = reader := by
  induction rounds generalizing pos i reader with
  | zero => cases hexec
  | succ rounds ih =>
    rcases scanLoop_succ_eq_ok hexec with
      ⟨⟨-, hbad⟩, -, rfl⟩ | ⟨-, loaded, looked, byte, hload, hlook, hrest⟩
    · rw [good, Bool.or_eq_true, not_or, bne_iff_ne, not_not] at hbad
      exact ⟨hbad.1, eq_false_of_ne_true hbad.2, rfl⟩
    obtain ⟨hlt, hbyte⟩ := byteWithin_eq_ok hlook
    obtain rfl := byteAt_eq_ok hbyte
    rcases afterLook_cases σ str pos i byte with ⟨-, hfails⟩ | ⟨-, hfound⟩ | ⟨pos', -, hgoes⟩
    · rw [hfails] at hrest
      cases hrest
    · rw [hfound] at hrest
      obtain ⟨buffers, htake, -⟩ := Call.exec_within_eq_ok hrest
      have hlength := Block.length_of_load (takeFront_eq_ok htake).2.1
      cases hlength
    · rw [hgoes] at hrest
      have hnone := (ih hlt hrest).1
      omega

end Runs

end CoReader

end Liblw.Io
