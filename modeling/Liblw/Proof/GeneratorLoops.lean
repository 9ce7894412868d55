import Mathlib.Data.List.ReduceOption
import Liblw.Co.GeneratorLoops
import Liblw.Proof.RangeSteps

/-!
# What loops over a generator visit

A loop that is broken off leaves the generator at the value it had last, and the next one begins
there. A generator that is done gives nothing any more, but where there never was a value, `begin`
resumes it once more.
-/

namespace Liblw.Co

open Liblw.Lib
open Mime (IntegralType)

namespace Generator

variable {ε σ T : Type} {body : Body ε σ T} {sequence : Nat → Except ε (Option T)}
  {generator : Generator σ T} {frame : σ} {place : Nat}

/-! ### The sequence of a body -/

theorem nth_succ_of_error {fault : ε} (hbody : body frame = .error fault) (count : Nat) :
    nth body count frame = .error fault := by
  cases count <;> rw [nth, hbody] <;> rfl

theorem nth_of_none (hbody : body frame = .ok none) (count : Nat) :
    nth body count frame = .ok none := by
  cases count <;> rw [nth, hbody] <;> rfl

theorem nth_zero_of_some {value : T} {later : σ} (hbody : body frame = .ok (some (value, later))) :
    nth body 0 frame = .ok (some value) := by
  rw [nth, hbody]
  rfl

theorem nth_succ_of_some {value : T} {later : σ} (hbody : body frame = .ok (some (value, later)))
    (count : Nat) : nth body (count + 1) frame = nth body count later := by
  rw [nth, hbody]
  rfl

/-! ### What is visited of a sequence -/

theorem visited_zero (sequence : Nat → Except ε (Option T)) (first : Nat) :
    visited sequence first 0 = (sequence first).map Option.toList := by
  rw [visited, List.range'_one, List.mapM_cons, List.mapM_nil]
  cases sequence first with
  | error => rfl
  | ok value => cases value <;> rfl

theorem visited_succ_of_some {value : T} (hvalue : sequence place = .ok (some value))
    (rounds : Nat) :
    visited sequence place (rounds + 1) =
      (visited sequence (place + 1) rounds).map (value :: ·) := by
  rw [visited, List.range'_succ, List.mapM_cons, hvalue, visited]
  cases (List.range' (place + 1) (rounds + 1)).mapM sequence <;> rfl

theorem visited_of_error {fault : ε} (hfault : sequence place = .error fault) (rounds : Nat) :
    visited sequence place rounds = .error fault := by
  rw [visited, List.range'_succ, List.mapM_cons, hfault]
  rfl

theorem visited_of_end (hend : ∀ count, sequence (place + count) = .ok none) (rounds : Nat) :
    visited sequence place rounds = .ok [] := by
  have hplace : sequence place = .ok none := hend 0
  induction rounds generalizing place with
  | zero => rw [visited_zero, hplace]; rfl
  | succ rounds ih =>
      have hnext : ∀ count, sequence (place + 1 + count) = .ok none := fun count => by
        rw [Nat.add_assoc]
        exact hend (1 + count)
      have hrest := ih hnext (hnext 0)
      rw [visited] at hrest ⊢
      rw [List.range'_succ, List.mapM_cons, hplace]
      revert hrest
      cases (List.range' (place + 1) (rounds + 1)).mapM sequence with
      | error => exact id
      | ok values => exact id

/-! ### Where a generator stands -/

/-- The generator has the value of a place of the sequence, or is done, and has had a value. -/
inductive Stands (body : Body ε σ T) (sequence : Nat → Except ε (Option T)) :
    Generator σ T → Nat → Prop where
  | yielded {value : T} {frame : σ} {place : Nat} (hvalue : sequence place = .ok (some value))
      (hlater : ∀ count, sequence (place + 1 + count) = nth body count frame) :
      Stands body sequence ⟨some frame, some value⟩ place
  | done (value : T) {place : Nat} (hend : ∀ count, sequence (place + count) = .ok none) :
      Stands body sequence ⟨none, some value⟩ place

theorem Stands.done_add (value : T) (hend : ∀ count, sequence (place + count) = .ok none)
    (rounds : Nat) :
    Stands body sequence (⟨none, some value⟩ : Generator σ T) (place + rounds) :=
  .done value fun count => by
    rw [Nat.add_assoc]
    exact hend (rounds + count)

/-- What `next` does where the body goes on from the frame as the sequence does from the place. -/
theorem exec_next (current : Option T)
    (hlater : ∀ count, sequence (place + count) = nth body count frame) :
    (∃ fault, sequence place = .error fault ∧
      (next body).exec ⟨some frame, current⟩ = (.error (.body fault), ⟨some frame, current⟩)) ∨
    ((∀ count, sequence (place + count) = .ok none) ∧
      (next body).exec ⟨some frame, current⟩ = (.ok false, ⟨none, current⟩)) ∨
    ∃ value later, Stands body sequence ⟨some later, some value⟩ place ∧
      (next body).exec ⟨some frame, current⟩ = (.ok true, ⟨some later, some value⟩) := by
  cases hbody : body frame with
  | error fault =>
      refine Or.inl ⟨fault, (hlater 0).trans (nth_succ_of_error hbody 0), ?_⟩
      simp [next, hbody]
  | ok result =>
      cases result with
      | none =>
          refine Or.inr (Or.inl ⟨fun count => ?_, ?_⟩)
          · rw [hlater, nth_of_none hbody]
          · simp only [next, Call.exec_get_bind, hbody]
            rfl
      | some yielded =>
          obtain ⟨value, later⟩ := yielded
          refine Or.inr (Or.inr ⟨value, later, .yielded ?_ fun count => ?_, ?_⟩)
          · exact (hlater 0).trans (nth_zero_of_some hbody)
          · rw [Nat.add_assoc, Nat.add_comm 1, hlater, nth_succ_of_some hbody]
          · simp only [next, Call.exec_get_bind, hbody]
            rfl

/-- The same where there is a value already. -/
theorem exec_increment (value : T)
    (hlater : ∀ count, sequence (place + count) = nth body count frame) :
    (∃ fault, sequence place = .error fault ∧
      (next body).exec ⟨some frame, some value⟩ =
        (.error (.body fault), ⟨some frame, some value⟩)) ∨
    ∃ generator, Stands body sequence generator place ∧
      (next body).exec ⟨some frame, some value⟩ = (.ok generator.frame.isSome, generator) := by
  rcases exec_next (some value) hlater with
    hfault | ⟨hend, hnext⟩ | ⟨following, later, hstands, hnext⟩
  · exact Or.inl hfault
  · exact Or.inr ⟨⟨none, some value⟩, .done value hend, hnext⟩
  · exact Or.inr ⟨⟨some later, some following⟩, hstands, hnext⟩

theorem exec_value (value : T) (frame : Option σ) :
    (Generator.value : Call (GeneratorFault ε) (Generator σ T) T).exec ⟨frame, some value⟩ =
      (.ok value, ⟨frame, some value⟩) := by
  rfl

/-! ### Loops -/

/-- A call that does to the generator what is to be expected of the sequence. -/
structure Answers (body : Body ε σ T) (sequence : Nat → Except ε (Option T)) {α : Type}
    (outcome : Except (GeneratorFault ε) α × Generator σ T) (expected : Except ε α)
    (place : Nat) : Prop where
  result : outcome.1 = expected.mapError .body
  stands : ∀ value, expected = .ok value → Stands body sequence outcome.2 place

theorem Answers.of_ok {α : Type} {value : α} {expected : Except ε α}
    {outcome : Except (GeneratorFault ε) α × Generator σ T}
    (hexpected : expected = .ok value) (houtcome : outcome = (.ok value, generator))
    (hstands : Stands body sequence generator place) :
    Answers body sequence outcome expected place := by
  subst houtcome hexpected
  exact ⟨rfl, fun _ _ => hstands⟩

theorem Answers.of_error {α : Type} {fault : ε} {expected : Except ε α}
    {outcome : Except (GeneratorFault ε) α × Generator σ T}
    (hexpected : expected = .error fault) (houtcome : outcome.1 = .error (.body fault)) :
    Answers body sequence outcome expected place := by
  subst hexpected
  exact ⟨houtcome, nofun⟩

/-- The value that a loop has visited comes in front of those behind it. -/
theorem Answers.cons {call : Call (GeneratorFault ε) (Generator σ T) (List T)}
    {expected : Except ε (List T)}
    (hanswers : Answers body sequence (call.exec generator) expected place) (value : T) :
    Answers body sequence ((call >>= fun later => pure (value :: later)).exec generator)
      (expected.map (value :: ·)) place := by
  obtain ⟨hresult, hstands⟩ := hanswers
  rw [Call.exec_bind_pure, hresult]
  cases expected with
  | error fault => exact .of_error rfl rfl
  | ok values => exact .of_ok rfl rfl (hstands values rfl)

theorem answers_of_done (value : T) (hend : ∀ count, sequence (place + count) = .ok none)
    (rounds : Nat) :
    Answers body sequence ((visitFrom body rounds false).exec ⟨none, some value⟩)
      (visited sequence place rounds) (place + rounds) := by
  refine .of_ok (visited_of_end hend rounds) ?_ (.done_add value hend rounds)
  cases rounds <;> rfl

/-- A loop, by induction on its rounds. -/
theorem answers_visitFrom (hstands : Stands body sequence generator place) (rounds : Nat) :
    Answers body sequence ((visitFrom body rounds generator.frame.isSome).exec generator)
      (visited sequence place rounds) (place + rounds) := by
  induction rounds generalizing generator place with
  | zero =>
      cases hstands with
      | @yielded value frame _ hvalue hlater =>
          have hvisited : visited sequence place 0 = .ok [value] := by
            rw [visited_zero, hvalue]
            rfl
          refine .of_ok hvisited ?_ (.yielded hvalue hlater)
          rw [Option.isSome_some, visitFrom, if_pos rfl, Call.exec_bind_ok (exec_value _ _)]
          rfl
      | done value hend => exact answers_of_done value hend 0
  | succ rounds ih =>
      cases hstands with
      | @yielded value frame _ hvalue hlater =>
          rw [show place + (rounds + 1) = place + 1 + rounds by omega, Option.isSome_some,
            visitFrom, if_pos rfl, Call.exec_bind_ok (exec_value _ _), increment, if_pos rfl,
            visited_succ_of_some hvalue]
          rcases exec_increment value hlater with ⟨fault, hfault, hnext⟩ | ⟨later, hlater, hnext⟩
          · rw [visited_of_error hfault]
            exact .of_error rfl (by rw [Call.exec_bind_error hnext])
          · rw [Call.exec_bind_ok hnext]
            exact (ih hlater).cons value
      | done value hend => exact answers_of_done value hend (rounds + 1)

theorem answers_forLoop (hstands : Stands body sequence generator place) (rounds : Nat) :
    Answers body sequence ((forLoop body rounds).exec generator) (visited sequence place rounds)
      (place + rounds) := by
  have hbeginning : (beginning body).exec generator = (.ok generator.frame.isSome, generator) := by
    cases hstands <;> rfl
  rw [forLoop, Call.exec_bind_ok hbeginning]
  exact answers_visitFrom hstands rounds

/-- A loop and the ones behind it. -/
theorem result_cons {rounds : Nat} {others : List Nat}
    (hloop : Answers body sequence ((forLoop body rounds).exec generator)
      (visited sequence place rounds) (place + rounds))
    (hothers : ∀ {middle : Generator σ T}, Stands body sequence middle (place + rounds) →
      ((forLoops body others).exec middle).1 =
        (visits sequence (place + rounds) others).mapError .body) :
    ((forLoops body (rounds :: others)).exec generator).1 =
      (visits sequence place (rounds :: others)).mapError .body := by
  obtain ⟨hresult, hafter⟩ := hloop
  rw [forLoops, visits, Call.exec_bind]
  rcases hexec : (forLoop body rounds).exec generator with ⟨result, middle⟩
  rw [hexec] at hresult hafter
  dsimp only at hresult
  subst hresult
  cases hvisited : visited sequence place rounds with
  | error fault => rfl
  | ok values =>
      change ((forLoops body others >>= fun later => pure (values :: later)).exec middle).1 = _
      rw [Call.exec_bind_pure, hothers (hafter values hvisited)]
      change _ = (visits sequence (place + rounds) others >>= fun later =>
        pure (values :: later)).mapError _
      cases visits sequence (place + rounds) others <;> rfl

theorem result_forLoops (hstands : Stands body sequence generator place) (rounds : List Nat) :
    ((forLoops body rounds).exec generator).1 =
      (visits sequence place rounds).mapError .body := by
  induction rounds generalizing generator place with
  | nil => rfl
  | cons rounds others ih => exact result_cons (answers_forLoop hstands rounds) ih

/-- `begin` where there is no value yet. -/
theorem exec_beginning (body : Body ε σ T) (frame : Option σ) :
    (beginning body).exec ⟨frame, none⟩ =
      (next body >>= fun _ => get >>= fun generator => pure generator.frame.isSome).exec
        ⟨frame, none⟩ := rfl

theorem exec_beginning_of_ok {more : Bool} {middle : Generator σ T}
    (hnext : (next body).exec (make frame) = (.ok more, middle)) :
    (beginning body).exec (make frame) = (.ok middle.frame.isSome, middle) := by
  rw [make, exec_beginning, ← make, Call.exec_bind_ok hnext]
  rfl

theorem exec_beginning_of_error {fault : GeneratorFault ε} {frame : Option σ}
    {middle : Generator σ T} (hnext : (next body).exec ⟨frame, none⟩ = (.error fault, middle)) :
    (beginning body).exec ⟨frame, none⟩ = (.error fault, middle) := by
  rw [exec_beginning, Call.exec_bind_error hnext]

/-- The first loop, where the body comes to nothing at all and where it does not. -/
theorem forLoop_make (body : Body ε σ T) (frame : σ) (rounds : Nat) :
    ((∀ count, nth body (0 + count) frame = .ok none) ∧
      (forLoop body rounds).exec (make frame) = (.ok [], ⟨none, none⟩)) ∨
    nth body 0 frame ≠ .ok none ∧
      Answers body (nth body · frame) ((forLoop body rounds).exec (make frame))
        (visited (nth body · frame) 0 rounds) (0 + rounds) := by
  have hlater : ∀ count, nth body (0 + count) frame = nth body count frame := fun count => by
    rw [Nat.zero_add]
  rw [forLoop]
  rcases @exec_next _ _ _ body (nth body · frame) frame 0 none hlater with
    ⟨fault, hfault, hnext⟩ | ⟨hend, hnext⟩ | ⟨value, later, hstands, hnext⟩
  · refine Or.inr ⟨by simp [hfault], ?_⟩
    rw [visited_of_error hfault]
    exact .of_error rfl (by rw [make, Call.exec_bind_error (exec_beginning_of_error hnext)])
  · refine Or.inl ⟨hend, ?_⟩
    rw [Call.exec_bind_ok (exec_beginning_of_ok hnext)]
    cases rounds <;> rfl
  · cases hstands with
    | yielded hvalue hlater =>
        refine Or.inr ⟨by simp [hvalue], ?_⟩
        rw [Call.exec_bind_ok (exec_beginning_of_ok hnext)]
        exact answers_visitFrom (.yielded hvalue hlater) rounds

/-- **Loops over one generator.** Each of them visits the sequence of the body from where the one
before it was broken off, that value once more, until the body has a fault. Only if the body yields
no value at all is it resumed when it is done, by the second loop. -/
theorem forLoops_visit (body : Body ε σ T) (frame : σ) (rounds : List Nat) :
    (nth body 0 frame = .ok none ∧ 2 ≤ rounds.length →
      ((forLoops body rounds).exec (make frame)).1 = .error .resumedDone) ∧
    (¬ (nth body 0 frame = .ok none ∧ 2 ≤ rounds.length) →
      ((forLoops body rounds).exec (make frame)).1 =
        (visits (nth body · frame) 0 rounds).mapError .body) := by
  cases rounds with
  | nil => exact ⟨fun ⟨_, hlength⟩ => absurd hlength (by simp), fun _ => rfl⟩
  | cons first others =>
      rcases forLoop_make body frame first with ⟨hempty, hloop⟩ | ⟨hsome, hloop⟩
      · rw [forLoops, Call.exec_bind_ok hloop]
        cases others with
        | nil =>
            refine ⟨fun ⟨_, hlength⟩ => absurd hlength (by simp), fun _ => ?_⟩
            rw [visits, visited_of_end hempty]
            rfl
        | cons second others =>
            have hresumed : (next body).exec (⟨none, none⟩ : Generator σ T) =
                (.error .resumedDone, ⟨none, none⟩) := rfl
            refine ⟨fun _ => ?_, fun hnot => absurd ⟨hempty 0, by simp⟩ hnot⟩
            rw [Call.exec_bind_pure, forLoops, forLoop, bind_assoc,
              Call.exec_bind_error (exec_beginning_of_error hresumed)]
            rfl
      · refine ⟨fun ⟨hempty, _⟩ => absurd hempty hsome, fun _ => ?_⟩
        exact result_cons hloop fun hstands => result_forLoops hstands others

/-! ### A sequence that is known -/

/-- A body that goes from place to place, by induction on the count. -/
theorem nth_eq {places : Nat → σ} {values : Nat → T} {size : Nat}
    (hstep : ∀ count < size,
      body (places count) = .ok (some (values count, places (count + 1))))
    (hend : body (places size) = .ok none) (count first : Nat) (hfirst : first ≤ size) :
    nth body count (places first) =
      .ok (if first + count < size then some (values (first + count)) else none) := by
  rcases Nat.eq_or_lt_of_le hfirst with rfl | hless
  · rw [nth_of_none hend, if_neg (by omega)]
  · induction count generalizing first with
    | zero => rw [nth_zero_of_some (hstep first hless), Nat.add_zero, if_pos hless]
    | succ count ih =>
        rw [nth_succ_of_some (hstep first hless)]
        rcases Nat.eq_or_lt_of_le (Nat.succ_le_of_lt hless) with hlast | hmore
        · rw [show first + 1 = size from hlast, nth_of_none hend, if_neg (by omega)]
        · rw [ih (first + 1) hless hmore, Nat.add_assoc, Nat.add_comm 1]

theorem visited_of_ok {values : Nat → T} {size : Nat}
    (hsequence : ∀ count, sequence count = .ok (if count < size then some (values count) else none))
    (first rounds : Nat) :
    visited sequence first rounds =
      .ok (((List.range' first (rounds + 1)).filter (· < size)).map values) := by
  have hvalues : sequence =
      fun count => pure (if count < size then some (values count) else none) := funext hsequence
  rw [visited, hvalues, List.mapM_pure, pure_bind]
  refine congrArg Except.ok ?_
  induction List.range' first (rounds + 1) with
  | nil => rfl
  | cons count counts ih =>
      by_cases hcount : count < size
      · simpa [hcount, List.reduceOption_cons_of_some] using ih
      · simpa [hcount, List.reduceOption_cons_of_none] using ih

end Generator

namespace UnitRange

variable {T : IntegralType} (range : UnitRange T)

def placeAfter : Nat → RangePlace
  | 0 => .initial
  | count + 1 => .yielded (range.nthStep count)

theorem holds_nthStep {count : Nat} (hcount : count ≤ range.size) :
    T.Holds (range.nthStep count) := by
  have hbeginning := range.beginning_holds
  have hending := range.ending_holds
  rw [IntegralType.holds_iff_least] at *
  simp only [size, nthStep] at *
  split_ifs <;> omega

theorem next_placeAfter {count : Nat} (hcount : count ≤ range.size) :
    range.next (range.placeAfter count) = .ok (range.test (range.nthStep count)) := by
  cases count with
  | zero =>
      simp [placeAfter, next, nthStep]
  | succ last =>
      have hadvance : range.advance (range.nthStep last) = .ok (range.nthStep (last + 1)) := by
        rw [← IntegralType.assign_of_holds (range.holds_nthStep hcount)]
        simp only [advance, nthStep, Nat.cast_add_one]
        split_ifs
        · rw [Int.sub_sub]
        · rw [Int.add_assoc]
      rw [placeAfter, next, hadvance]
      rfl

theorem test_nthStep {count : Nat} (hcount : count ≤ range.size) :
    range.test (range.nthStep count) =
      if count < range.size then some (range.nthStep count) else none := by
  have hend : range.nthStep count ≠ range.ending ↔ count < range.size := by
    simp only [size, nthStep] at *
    split_ifs <;> omega
  simp only [test, hend]

theorem nth_rangeBody (count : Nat) :
    Generator.nth (rangeBody range.next) count .initial =
      .ok (if count < range.size then some (range.nthStep count) else none) := by
  have hnth := @Generator.nth_eq _ _ _ (rangeBody range.next) range.placeAfter range.nthStep
    range.size ?_ ?_ count 0 (Nat.zero_le _)
  · rwa [Nat.zero_add] at hnth
  · intro count hcount
    rw [rangeBody, next_placeAfter range hcount.le, test_nthStep range hcount.le, if_pos hcount]
    rfl
  · rw [rangeBody, next_placeAfter range (Nat.le_refl _), test_nthStep range (Nat.le_refl _),
      if_neg (Nat.lt_irrefl _)]
    rfl

theorem visits_rangeBody (first : Nat) (rounds : List Nat) :
    Generator.visits (Generator.nth (rangeBody range.next) · .initial) first rounds =
      .ok (range.visits first rounds) := by
  induction rounds generalizing first with
  | nil => rfl
  | cons rounds others ih =>
      rw [Generator.visits, Generator.visited_of_ok range.nth_rangeBody, visits]
      change (Generator.visits _ (first + rounds) others).bind _ = _
      rw [ih]
      rfl

end UnitRange

/-! ### An increment of one -/

namespace Range

variable {T : IntegralType} (range : Range T)

/-- The call without the increment. -/
def unit : UnitRange T :=
  ⟨range.beginning, range.ending, range.beginning_holds, range.ending_holds⟩

variable {range} (hone : range.increment = 1)
include hone

theorem nthStep_unit (count : Nat) : range.nthStep count = range.unit.nthStep count := by
  simp only [nthStep, hone, Int.mul_one]
  rfl

theorem stepCount_unit : range.stepCount = range.unit.size := by
  simp only [stepCount, UnitRange.size, unit, hone]
  omega

theorem nth_rangeBody (count : Nat) :
    Generator.nth (rangeBody range.next) count .initial =
      Generator.nth (rangeBody range.unit.next) count .initial := by
  have hpos : 0 < range.increment := by omega
  have hlast : T.Holds (range.nthStep range.stepCount) := by
    rw [nthStep_unit hone, stepCount_unit hone]
    exact range.unit.holds_nthStep (Nat.le_refl _)
  have hnth := @Generator.nth_eq _ _ _ (rangeBody range.next) range.placeAfter range.nthStep
    range.stepCount ?_ ?_ count 0 (Nat.zero_le _)
  · rw [Nat.zero_add, stepCount_unit hone, nthStep_unit hone] at hnth
    exact hnth.trans (range.unit.nth_rangeBody count).symm
  · intro count hcount
    rw [rangeBody, next_placeAfter_of_lt hpos hcount]
    rfl
  · rw [rangeBody, next_placeAfter_of_holds range hlast,
      if_neg fun hbefore => Nat.lt_irrefl _ ((isBefore_nthStep_iff hpos _).mp hbefore)]
    rfl

end Range

/-- The loops over a range without an increment, none of which overflows. -/
theorem UnitRange.result_forLoops {T : IntegralType} (range : UnitRange T) (rounds : List Nat) :
    ((Generator.forLoops (rangeBody range.next) rounds).exec (.make .initial)).1 =
      if range.beginning = range.ending ∧ 2 ≤ rounds.length then .error .resumedDone
      else .ok (range.visits 0 rounds) := by
  have hempty : Generator.nth (rangeBody range.next) 0 .initial = .ok none ↔
      range.beginning = range.ending := by
    rw [range.nth_rangeBody, size]
    split_ifs <;> simp <;> omega
  obtain ⟨hresumed, hvisits⟩ :=
    Generator.forLoops_visit (rangeBody range.next) .initial rounds
  rw [hempty] at hresumed hvisits
  split_ifs with hrange
  · exact hresumed hrange
  · rw [hvisits hrange, range.visits_rangeBody]
    rfl

/-- **Ranges with and without an increment.** With an increment of one both overloads give any loops
over them the same, the numbers from the beginning to the end with nothing left out, and no addition
overflows. -/
theorem Range.forLoops_unit {T : IntegralType} (range : Range T) (hone : range.increment = 1)
    (rounds : List Nat) :
    ((Generator.forLoops (rangeBody range.next) rounds).exec (.make .initial)).1 =
        ((Generator.forLoops (rangeBody range.unit.next) rounds).exec (.make .initial)).1 ∧
      ((Generator.forLoops (rangeBody range.unit.next) rounds).exec (.make .initial)).1 =
        if range.beginning = range.ending ∧ 2 ≤ rounds.length then .error .resumedDone
        else .ok (range.unit.visits 0 rounds) := by
  refine ⟨?_, range.unit.result_forLoops rounds⟩
  have hsequence : (Generator.nth (rangeBody range.next) · .initial) =
      (Generator.nth (rangeBody range.unit.next) · .initial) := funext (nth_rangeBody hone)
  have hplain := Generator.forLoops_visit (rangeBody range.next) .initial rounds
  have hunit := Generator.forLoops_visit (rangeBody range.unit.next) .initial rounds
  rw [hsequence, nth_rangeBody hone] at hplain
  by_cases hempty : Generator.nth (rangeBody range.unit.next) 0 .initial = .ok none ∧
      2 ≤ rounds.length
  · rw [hplain.1 hempty, hunit.1 hempty]
  · rw [hplain.2 hempty, hunit.2 hempty]

/-- From 3 to 6: two values, then a loop that begins with the second of them, then one that finds
the range at its end. -/
theorem Range.forLoops_unit_threeToSix :
    let range : Range uint8 := ⟨3, 6, 1, by decide, by decide, by decide⟩
    range.increment = 1 ∧
      ((Generator.forLoops (rangeBody range.next) [1, 5, 0]).exec (.make .initial)).1 =
        .ok [[3, 4], [4, 5], []] := by
  intro range
  obtain ⟨hsame, hvisits⟩ := Range.forLoops_unit range rfl [1, 5, 0]
  exact ⟨rfl, hsame.trans hvisits⟩

end Liblw.Co
