import Liblw.Co.Range
import Liblw.Proof.IntegerReads

/-!
# The steps of a range

The steps before the end are numbers of the type like the two ends. The loop is left by one step
more, and where the type does not have that number it becomes one on the other side, from where the
loop goes on.
-/

namespace Liblw.Mime.IntegralType

variable {T : IntegralType} {number increment : Int}

/-- The least number of a type. -/
def least (T : IntegralType) : Int := if T.signed then -2 ^ (T.width - 1) else 0

theorem least_nonpos (T : IntegralType) : T.least ≤ 0 := by
  rw [least]
  split_ifs
  · exact Int.neg_nonpos_of_nonneg (Int.pow_nonneg (by decide))
  · exact le_rfl

theorem holds_iff_least : T.Holds number ↔ T.least ≤ number ∧ number < T.least + 2 ^ T.width := by
  cases hsigned : T.signed with
  | true =>
      have hdouble : (2 : Int) ^ T.width = 2 * 2 ^ (T.width - 1) := by
        rw [← pow_succ', Nat.sub_add_cancel T.width_pos]
      rw [holds_signed hsigned, least, if_pos hsigned, hdouble]
      omega
  | false => rw [holds_unsigned hsigned, least, hsigned, if_neg Bool.false_ne_true, Int.zero_add]

theorem convert_add_two_pow (T : IntegralType) (number : Int) :
    T.convert (number + 2 ^ T.width) = T.convert number := by
  rw [convert, convert]
  split_ifs
  · have hcast : (2 : Int) ^ T.width = ((2 ^ T.width : Nat) : Int) := (Nat.cast_pow 2 _).symm
    rw [hcast, Int.add_bmod_right]
  · exact Int.add_emod_right _ _

/-- A sum that is too large for the type comes out below both summands. -/
theorem convert_add_of_not_holds (hnumber : T.Holds number) (hincrement : T.Holds increment)
    (hpos : 0 < increment) (hnot : ¬ T.Holds (number + increment)) :
    T.convert (number + increment) < number := by
  have hleast := T.least_nonpos
  rw [holds_iff_least] at hnumber hincrement hnot
  have hholds : T.Holds (number + increment - 2 ^ T.width) := by
    rw [holds_iff_least]
    omega
  calc
    T.convert (number + increment) = T.convert (number + increment - 2 ^ T.width) := by
      rw [← convert_add_two_pow T (_ - _), Int.sub_add_cancel]
    _ = number + increment - 2 ^ T.width := (convert_eq_self_iff T _).mpr hholds
    _ < number := by omega

/-- A difference that is too small for the type comes out above the number. -/
theorem convert_sub_of_not_holds (hnumber : T.Holds number) (hincrement : T.Holds increment)
    (hpos : 0 < increment) (hnot : ¬ T.Holds (number - increment)) :
    number < T.convert (number - increment) := by
  have hleast := T.least_nonpos
  rw [holds_iff_least] at hnumber hincrement hnot
  have hholds : T.Holds (number - increment + 2 ^ T.width) := by
    rw [holds_iff_least]
    omega
  calc
    number < number - increment + 2 ^ T.width := by omega
    _ = T.convert (number - increment + 2 ^ T.width) := ((convert_eq_self_iff T _).mpr hholds).symm
    _ = T.convert (number - increment) := convert_add_two_pow T _

theorem assign_of_holds (hholds : T.Holds number) : T.assign number = .ok number := by
  rw [assign, if_neg fun hall => hall.2.2 hholds, (convert_eq_self_iff T number).mpr hholds]

/-- An assignment that comes back gives the converted number. -/
theorem eq_convert_of_assign {value : Int} (hassign : T.assign number = .ok value) :
    value = T.convert number := by
  rw [assign] at hassign
  split_ifs at hassign
  exact (Except.ok.inj hassign).symm

end Liblw.Mime.IntegralType

namespace Liblw.Co.Range

open Mime (IntegralType)

variable {T : IntegralType} (range : Range T)

theorem nthStep_zero : range.nthStep 0 = range.beginning := by
  rw [nthStep]
  split_ifs <;> simp

theorem test_eq (i : Int) : range.test i = if range.IsBefore i then some i else none := by
  rw [test]
  simp only [IsBefore]
  split_ifs <;> rfl

theorem nthStep_succ (count : Nat) :
    range.nthStep (count + 1) =
      if range.ending < range.beginning then range.nthStep count - range.increment
      else range.nthStep count + range.increment := by
  have hmul : ((count + 1 : Nat) : Int) * range.increment =
      count * range.increment + range.increment := by
    rw [Nat.cast_add_one, Int.add_mul, Int.one_mul]
  rw [nthStep, nthStep, hmul]
  split_ifs
  · rw [Int.sub_sub]
  · rw [Int.add_assoc]

theorem advance_nthStep (count : Nat) :
    range.advance (range.nthStep count) = T.assign (range.nthStep (count + 1)) := by
  rw [advance, nthStep_succ]
  split_ifs <;> rfl

/-- Where the coroutine is after so many values. -/
def placeAfter : Nat → RangePlace
  | 0 => .initial
  | count + 1 => .yielded (range.nthStep count)

/-- The beginning is assigned like the steps behind it. -/
theorem next_placeAfter (count : Nat) :
    range.next (range.placeAfter count) = (T.assign (range.nthStep count)).map range.test := by
  cases count with
  | zero =>
      rw [placeAfter, next, nthStep_zero, IntegralType.assign_of_holds range.beginning_holds]
      rfl
  | succ last =>
      rw [placeAfter, next, advance_nthStep]
      cases T.assign (range.nthStep (last + 1)) <;> rfl

theorem next_placeAfter_of_holds {count : Nat} (hholds : T.Holds (range.nthStep count)) :
    range.next (range.placeAfter count) =
      .ok (if range.IsBefore (range.nthStep count) then some (range.nthStep count) else none) := by
  rw [next_placeAfter, IntegralType.assign_of_holds hholds, ← test_eq]
  rfl

variable {range}

theorem collect_of_none {place : RangePlace} (hnext : range.next place = .ok none) (fuel : Nat) :
    range.collect (fuel + 1) place = .ok [] := by
  rw [collect, hnext]
  rfl

theorem collect_of_some {place : RangePlace} {i : Int} (hnext : range.next place = .ok (some i))
    (fuel : Nat) :
    range.collect (fuel + 1) place = (range.collect fuel (.yielded i)).map (i :: ·) := by
  rw [collect, hnext]
  change (range.collect fuel (.yielded i) >>= fun values => .ok (i :: values)) = _
  cases range.collect fuel (.yielded i) <;> rfl

/-- The first value of a run that ends, and the run behind it. -/
theorem exists_of_collect {place : RangePlace} {i : Int} {fuel : Nat} {values : List Int}
    (hnext : range.next place = .ok (some i)) (hcollect : range.collect fuel place = .ok values) :
    ∃ fuel' rest, range.collect fuel' (.yielded i) = .ok rest ∧ values = i :: rest := by
  cases fuel with
  | zero => cases hcollect
  | succ fuel =>
      rw [collect_of_some hnext] at hcollect
      obtain ⟨rest, hrest, hvalues⟩ := eq_ok_of_map hcollect
      exact ⟨fuel, rest, hrest, hvalues.symm⟩

theorem exists_next_of_collect {place : RangePlace} {fuel : Nat} {values : List Int}
    (hcollect : range.collect fuel place = .ok values) : ∃ value, range.next place = .ok value := by
  cases fuel with
  | zero => cases hcollect
  | succ fuel =>
      cases hnext : range.next place with
      | error fault =>
          rw [collect, hnext] at hcollect
          cases hcollect
      | ok value => exact ⟨value, rfl⟩

section Positive

variable (hpos : 0 < range.increment)
include hpos

theorem isBefore_nthStep_iff (count : Nat) :
    range.IsBefore (range.nthStep count) ↔ count < range.stepCount := by
  have hcount : count < range.stepCount ↔
      count * range.increment < (range.ending - range.beginning).natAbs := by
    rw [stepCount, Int.lt_toNat, Int.lt_iff_add_one_le, Int.le_ediv_iff_mul_le hpos, Int.add_mul,
      Int.one_mul]
    omega
  rw [hcount]
  simp only [IsBefore, nthStep]
  split_ifs <;> omega

theorem holds_nthStep {count : Nat} (hcount : count < range.stepCount) :
    T.Holds (range.nthStep count) := by
  have hbefore := (isBefore_nthStep_iff hpos count).mpr hcount
  have hbeginning := range.beginning_holds
  have hending := range.ending_holds
  have hsteps : 0 ≤ count * range.increment := Int.mul_nonneg (Int.natCast_nonneg _) hpos.le
  rw [IntegralType.holds_iff_least] at *
  simp only [IsBefore, nthStep] at *
  split_ifs at * <;> omega

theorem stepsExactly_iff : range.StepsExactly ↔ T.Holds (range.nthStep range.stepCount) := by
  constructor
  · intro hexact
    cases hlast : range.stepCount with
    | zero =>
        rw [nthStep_zero]
        exact range.beginning_holds
    | succ last =>
        have hbefore := (isBefore_nthStep_iff hpos last).mpr (by omega)
        have hassign := (advance_nthStep range last).symm.trans (hexact last hbefore)
        rw [← IntegralType.convert_eq_self_iff]
        exact (IntegralType.eq_convert_of_assign hassign).symm
  · intro hholds count hbefore
    rw [isBefore_nthStep_iff hpos] at hbefore
    rw [advance_nthStep]
    apply IntegralType.assign_of_holds
    rcases Nat.lt_or_eq_of_le (Nat.succ_le_of_lt hbefore) with hinner | hlast
    · exact holds_nthStep hpos hinner
    · rw [show count + 1 = range.stepCount from hlast]
      exact hholds

/-- What a step outside the type becomes is before the end again. -/
theorem isBefore_of_assign (hnot : ¬ T.Holds (range.nthStep range.stepCount)) {i : Int}
    (hassign : T.assign (range.nthStep range.stepCount) = .ok i) : range.IsBefore i := by
  cases hcount : range.stepCount with
  | zero =>
      rw [hcount, nthStep_zero] at hnot
      exact absurd range.beginning_holds hnot
  | succ last =>
      have hlast : last < range.stepCount := hcount ▸ Nat.lt_succ_self last
      have hbefore := (isBefore_nthStep_iff hpos last).mpr hlast
      have hholds := holds_nthStep hpos hlast
      rw [hcount, nthStep_succ] at hnot hassign
      rw [IntegralType.eq_convert_of_assign hassign]
      rw [IsBefore] at hbefore ⊢
      split_ifs at *
      · exact hbefore.trans
          (IntegralType.convert_sub_of_not_holds hholds range.increment_holds hpos hnot)
      · exact (IntegralType.convert_add_of_not_holds hholds range.increment_holds hpos hnot).trans
          hbefore

/-! ### Runs -/

theorem next_placeAfter_of_lt {count : Nat} (hcount : count < range.stepCount) :
    range.next (range.placeAfter count) = .ok (some (range.nthStep count)) := by
  rw [next_placeAfter_of_holds range (holds_nthStep hpos hcount),
    if_pos ((isBefore_nthStep_iff hpos count).mpr hcount)]

theorem collect_placeAfter (hholds : T.Holds (range.nthStep range.stepCount)) {count rounds : Nat}
    (hrounds : count + rounds = range.stepCount) :
    range.collect (rounds + 1) (range.placeAfter count) =
      .ok ((List.range' count rounds).map range.nthStep) := by
  induction rounds generalizing count with
  | zero =>
      have hnext := next_placeAfter_of_holds range hholds
      rw [if_neg fun hbefore => Nat.lt_irrefl _ ((isBefore_nthStep_iff hpos _).mp hbefore)] at hnext
      rw [show count = range.stepCount from hrounds]
      exact collect_of_none hnext 0
  | succ rounds ih =>
      have hrest := @ih (count + 1) (by omega)
      rw [placeAfter] at hrest
      rw [collect_of_some (next_placeAfter_of_lt hpos (by omega)), hrest, List.range'_succ]
      rfl

/-- Without that step in the type more values come than there are steps. -/
theorem lt_length_of_collect (hnot : ¬ T.Holds (range.nthStep range.stepCount))
    {fuel count rounds : Nat} {values : List Int} (hrounds : count + rounds = range.stepCount)
    (hcollect : range.collect fuel (range.placeAfter count) = .ok values) :
    rounds < values.length := by
  induction rounds generalizing fuel count values with
  | zero =>
      rw [show count = range.stepCount from hrounds] at hcollect
      obtain ⟨value, hvalue⟩ := exists_next_of_collect hcollect
      have hassign := hvalue
      rw [next_placeAfter] at hassign
      obtain ⟨i, hi, htest⟩ := eq_ok_of_map hassign
      rw [test_eq, if_pos (isBefore_of_assign hpos hnot hi)] at htest
      obtain ⟨fuel', rest, _, rfl⟩ := exists_of_collect (htest ▸ hvalue) hcollect
      exact Nat.succ_pos _
  | succ rounds ih =>
      have hnext := next_placeAfter_of_lt hpos (show count < range.stepCount by omega)
      obtain ⟨fuel', rest, hrest, rfl⟩ := exists_of_collect hnext hcollect
      exact Nat.succ_lt_succ (@ih fuel' (count + 1) rest (by omega) hrest)

theorem yieldsSteps_iff : range.YieldsSteps ↔ T.Holds (range.nthStep range.stepCount) := by
  constructor
  · rintro ⟨fuel, values, hcollect, hvalues⟩
    by_contra hnot
    have hlonger : range.stepCount < values.length :=
      lt_length_of_collect hpos hnot (Nat.zero_add _) hcollect
    have hnone := hvalues range.stepCount
    rw [if_neg fun hbefore => Nat.lt_irrefl _ ((isBefore_nthStep_iff hpos _).mp hbefore)] at hnone
    exact absurd (List.getElem?_eq_none_iff.mp hnone) (Nat.not_le_of_lt hlonger)
  · intro hholds
    refine ⟨range.stepCount + 1, _, collect_placeAfter hpos hholds (Nat.zero_add _), ?_⟩
    intro count
    simp only [isBefore_nthStep_iff hpos]
    split_ifs with hcount
    · simp [hcount]
    · simpa using hcount

end Positive

/-- **Ranges with an increment.** The steps strictly before the end come out and every step is
exact, if and only if the type has the first step that is not before the end. -/
theorem range_steps_iff (range : Range T) (hpos : 0 < range.increment) :
    range.YieldsSteps ∧ range.StepsExactly ↔ T.Holds (range.nthStep range.stepCount) := by
  rw [yieldsSteps_iff hpos, stepsExactly_iff hpos, and_self_iff]

def uint8 : IntegralType := ⟨false, 8, by decide⟩

/-- From 0 to 10 by threes the loop is left at 12. -/
theorem range_steps_threes :
    let range : Range uint8 := ⟨0, 10, 3, by decide, by decide, by decide⟩
    0 < range.increment ∧ (range.YieldsSteps ∧ range.StepsExactly ↔ uint8.Holds 12) := by
  intro range
  have hpast : range.nthStep range.stepCount = 12 := by decide
  refine ⟨by decide, ?_⟩
  rw [← hpast]
  exact range_steps_iff range (by decide)

/-- From 250 to 255 by tens the loop goes on with 4. -/
theorem not_yieldsSteps_wrapped :
    let range : Range uint8 := ⟨250, 255, 10, by decide, by decide, by decide⟩
    range.next (.yielded 250) = .ok (some 4) ∧ ¬ range.YieldsSteps ∧ ¬ range.StepsExactly := by
  intro range
  have hnot : ¬ uint8.Holds (range.nthStep range.stepCount) := by decide
  refine ⟨by decide, ?_, ?_⟩
  · exact mt (yieldsSteps_iff (by decide)).mp hnot
  · exact mt (stepsExactly_iff (by decide)).mp hnot

end Liblw.Co.Range
