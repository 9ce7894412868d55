import Liblw.Proof.DurationSums

/-!
# Flag values there and back

What `format` writes, `parse` reads back. A duration is written in the coarsest unit that divides
it, so scaling it back up stays in the range that it came from.
-/

namespace Liblw.Cli

open Mime (integerText)

/-! ### Numbers and strings -/

theorem fromChars_formatInteger {type : IntegerType} (number : type.Value) :
    type.fromChars (formatInteger number) = ⟨[], .none, some number.1⟩ := by
  obtain ⟨number, hlower, hupper⟩ := number
  unfold IntegerType.fromChars formatInteger
  rw [← List.append_nil (integerText _)]
  cases hsigned : type.isSigned with
  | true => exact fromCharsSigned_integerText hlower hupper nofun
  | false =>
      have hzero : type.lower = 0 := by
        unfold IntegerType.lower
        rw [hsigned]
        rfl
      rw [hzero] at hlower
      lift number to Nat using hlower
      exact fromCharsUnsigned_integerText hupper nofun

theorem parseInteger_formatInteger {type : IntegerType} (number : type.Value) :
    parseInteger type (formatInteger number) = .ok number.1 := by
  unfold parseInteger
  rw [fromChars_formatInteger]
  rfl

theorem parseStringFrom_formatChar (c : Char) (rest : Text) :
    parseStringFrom false (formatChar c ++ rest) = c :: parseStringFrom false rest := by
  unfold formatChar
  split_ifs with hspecial
  · rfl
  · have hslash : c ≠ '\\' := fun heq => hspecial (Or.inl heq)
    change (if !false ∧ c = '\\' then _ else c :: parseStringFrom false rest) = _
    rw [if_neg fun hescape => hslash hescape.2]

theorem parseString_formatString (value : Text) : parseString (formatString value) = value := by
  unfold parseString formatString
  induction value with
  | nil => rfl
  | cons c value ih => rw [List.flatMap_cons, parseStringFrom_formatChar, ih]

/-! ### Durations -/

/-- A whole number of units that is cut off towards zero stays between zero and the duration. -/
theorem fromUnit_toUnit {unit count : Int} (hunit : 0 < unit) (hlower : -2 ^ 63 ≤ count)
    (hupper : count ≤ 2 ^ 63 - 1) :
    fromUnit unit (toUnit unit count) = .ok (toUnit unit count * unit) := by
  unfold fromUnit atInt64
  rw [if_pos]
  unfold toUnit
  rcases Int.le_total 0 count with hpos | hneg
  · rw [Int.tdiv_eq_ediv_of_nonneg hpos]
    have hle := Int.ediv_mul_le count (Int.ne_of_gt hunit)
    have hnonneg : 0 ≤ count / unit * unit :=
      Int.mul_nonneg (Int.ediv_nonneg hpos hunit.le) hunit.le
    omega
  · obtain ⟨magnitude, rfl⟩ : ∃ magnitude, count = -magnitude := ⟨-count, by omega⟩
    have hpos : 0 ≤ magnitude := by omega
    rw [Int.neg_tdiv, Int.tdiv_eq_ediv_of_nonneg hpos, Int.neg_mul]
    have hle := Int.ediv_mul_le magnitude (Int.ne_of_gt hunit)
    have hnonneg : 0 ≤ magnitude / unit * unit :=
      Int.mul_nonneg (Int.ediv_nonneg hpos hunit.le) hunit.le
    omega

/-- What `format` makes of a duration: a whole number of one of the units. -/
theorem formatDurationAs_eq {units : List (Text × Int)} {count : Int}
    (hunits : ∀ entry ∈ units, 0 < entry.2) (hlower : -2 ^ 63 ≤ count)
    (hupper : count ≤ 2 ^ 63 - 1) :
    ∃ entry ∈ units ++ [("ns".toList, 1)], ∃ number, number * entry.2 = count ∧
      formatDurationAs units count = .ok (integerText number ++ entry.1) := by
  induction units with
  | nil => exact ⟨("ns".toList, 1), List.mem_cons_self, count, Int.mul_one count, rfl⟩
  | cons entry units ih =>
      rw [List.forall_mem_cons] at hunits
      have hconvert : canConvertDuration entry.2 count =
          .ok (decide (toUnit entry.2 count * entry.2 = count)) := by
        unfold canConvertDuration
        rw [fromUnit_toUnit hunits.1 hlower hupper]
        rfl
      unfold formatDurationAs
      rw [hconvert]
      by_cases hdivides : toUnit entry.2 count * entry.2 = count
      · refine ⟨entry, List.mem_cons_self, toUnit entry.2 count, hdivides, ?_⟩
        rw [decide_eq_true hdivides]
        rfl
      · obtain ⟨other, hmem, number, hnumber, hformat⟩ := ih hunits.2
        refine ⟨other, List.mem_cons_of_mem entry hmem, number, hnumber, ?_⟩
        rw [decide_eq_false hdivides]
        exact hformat

/-- A number with a unit reads as the duration it stands for. -/
theorem parseDuration_unit {name : Text} {unit number : Int} (hunit : (name, unit) ∈ durationUnits)
    (hnumber : InInt64 number) (hcount : InInt64 (number * unit)) :
    parseDuration withEnUs (integerText number ++ name) = .ok (number * unit) := by
  obtain ⟨hnumeral, hvalue⟩ := integerText_numeral number
  have hround := @parseDurationFrom_of_fits (integerText number) name [] unit 0 hnumeral hunit nofun
  rw [hvalue, Int.zero_add, List.append_nil] at hround
  obtain ⟨first, tail, htext⟩ := List.exists_cons_of_ne_nil hnumeral.ne_nil
  rw [parseDuration, hround hnumber hcount hcount, htext]
  rfl

theorem bounded_of_mul {number unit : Int} (hunit : 0 < unit) (hcount : InInt64 (number * unit)) :
    InInt64 number := by
  rw [InInt64] at *
  rcases Int.le_total 0 number with hpos | hneg
  · have hle : number * 1 ≤ number * unit := Int.mul_le_mul_of_nonneg_left hunit hpos
    omega
  · have hle : number * unit ≤ number * 1 := Int.mul_le_mul_of_nonpos_left hneg hunit
    omega

theorem parseDuration_formatDuration (count : Int64) :
    ∃ text, formatDuration count = .ok text ∧ parseDuration withEnUs text = .ok count.toInt := by
  have hlower : -2 ^ 63 ≤ count.toInt := Int64.le_toInt count
  have hupper : count.toInt ≤ 2 ^ 63 - 1 := Int.le_sub_one_of_lt (Int64.toInt_lt count)
  have hunits : ∀ entry ∈ formatUnits, 0 < entry.2 := by decide
  obtain ⟨⟨name, unit⟩, hmem, number, hnumber, hformat⟩ :=
    formatDurationAs_eq hunits hlower hupper
  have hread : (name, unit) ∈ durationUnits ∧ 0 < unit := by
    have hall : ∀ entry ∈ formatUnits ++ [("ns".toList, 1)],
        entry ∈ durationUnits ∧ 0 < entry.2 := by decide
    exact hall _ hmem
  have hcount : InInt64 (number * unit) := by
    rw [hnumber]
    exact ⟨hlower, hupper⟩
  refine ⟨_, hformat, ?_⟩
  rw [← hnumber]
  exact parseDuration_unit hread.1 (bounded_of_mul hread.2 hcount) hcount

/-- Every flag value comes back from its text. A duration is read with a locale that the host has
to have. -/
theorem parse_format {locales : Locales} (hfound : locales.hasEnUs = true) :
    (∀ (type : IntegerType) (number : type.Value),
        parseInteger type (formatInteger number) = .ok number.1) ∧
      (∀ value : Text, parseString (formatString value) = value) ∧
      ∀ count : Int64, ∃ text, formatDuration count = .ok text ∧
        parseDuration locales text = .ok count.toInt := by
  obtain rfl : locales = withEnUs := congrArg Locales.mk hfound
  exact ⟨fun _ => parseInteger_formatInteger, parseString_formatString,
    parseDuration_formatDuration⟩

theorem parse_format_withEnUs :
    (∀ (type : IntegerType) (number : type.Value),
        parseInteger type (formatInteger number) = .ok number.1) ∧
      (∀ value : Text, parseString (formatString value) = value) ∧
      ∀ count : Int64, ∃ text, formatDuration count = .ok text ∧
        parseDuration withEnUs text = .ok count.toInt :=
  parse_format rfl

end Liblw.Cli
