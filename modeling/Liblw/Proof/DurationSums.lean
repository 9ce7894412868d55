import Liblw.Cli.Durations
import Liblw.Proof.Numerals

/-!
# The sum of a duration

A round of the loop refuses the text or takes a component off it. The number is held against the
range, but what it is in nanoseconds is not, and neither is the sum.
-/

namespace Liblw.Cli

/-! ### Rounds -/

/-- The names of the units can be told from the digits in front of them and from each other. -/
theorem unitName_of_mem : ∀ entry ∈ durationUnits,
    entry.1 ≠ [] ∧ (∀ c ∈ entry.1.head?, isDigit c = false) ∧ unitName entry.1 = entry.1 ∧
      durationUnits.lookup entry.1 = some entry.2 := by
  decide

theorem unitName_append {name rest : Text} {unit : Int} (hunit : (name, unit) ∈ durationUnits)
    (hend : ∀ c ∈ rest.head?, isDigit c = true) : unitName (name ++ rest) = name := by
  obtain ⟨hne, _, hname, _⟩ := unitName_of_mem _ hunit
  obtain ⟨first, others, rfl⟩ := List.exists_cons_of_ne_nil hne
  have hothers : ∀ c ∈ others, (!isDigit c) = true := by
    have hrun := (List.cons.inj hname).2
    exact List.takeWhile_eq_self_iff.mp hrun
  have hrest : rest.takeWhile (fun c => !isDigit c) = [] := by
    cases rest with
    | nil => rfl
    | cons c rest => simp [hend c rfl]
  calc
    unitName (first :: others ++ rest) =
        first :: (others ++ rest).takeWhile fun c => !isDigit c := rfl
    _ = first :: (others ++ rest.takeWhile fun c => !isDigit c) := by
      rw [List.takeWhile_append_of_pos hothers]
    _ = first :: others := by rw [hrest, List.append_nil]

theorem exists_append_unitName (text : Text) :
    ∃ rest, text = unitName text ++ rest ∧ ∀ c ∈ rest.head?, isDigit c = true := by
  refine ⟨(text.drop 1).dropWhile fun c => !isDigit c, ?_, ?_⟩
  · rw [unitName, List.append_assoc, List.takeWhile_append_dropWhile, List.take_append_drop]
  · intro c hc
    have hstop := List.head?_dropWhile_not (fun c => !isDigit c) (text.drop 1)
    rw [Option.mem_def.mp hc] at hstop
    simpa using hstop

section Round

variable {numeral rest : Text} (hnumeral : IsNumeral numeral)
  (hrest : ∀ c ∈ rest.head?, isDigit c = false)
include hnumeral hrest

theorem fromCharsInt64_append :
    fromCharsInt64 (numeral ++ rest) =
      if InInt64 (numeralValue numeral) then ⟨rest, .none, some (numeralValue numeral)⟩
      else ⟨rest, .resultOutOfRange, none⟩ :=
  fromCharsSigned_append hnumeral hrest

/-- A number without a unit and one that is out of the range are refused. -/
theorem refused_of_numeral (hbad : rest = [] ∨ ¬ InInt64 (numeralValue numeral))
    (locales : Locales) (value : Text) (rounds : Nat) (sum : Int) :
    Refused (parseDurationFrom locales value (rounds + 1) (numeral ++ rest) sum) := by
  have hread := fromCharsInt64_append hnumeral hrest
  rw [parseDurationFrom, if_neg (List.append_ne_nil_of_left_ne_nil hnumeral.ne_nil _), hread]
  rcases hbad with hnil | hcount
  · rw [if_pos (by split_ifs <;> exact hnil)]
    exact ⟨_, rfl⟩
  · simp only [if_neg hcount]
    split_ifs <;> exact ⟨_, rfl⟩

section Units

variable (hne : rest ≠ []) (hcount : InInt64 (numeralValue numeral))
include hne hcount

omit hne in
theorem tests_pass :
    (numeral ++ rest) ≠ [] ∧ rest.length ≠ (numeral ++ rest).length ∧
      fromCharsInt64 (numeral ++ rest) = ⟨rest, .none, some (numeralValue numeral)⟩ := by
  have hread := fromCharsInt64_append hnumeral hrest
  rw [if_pos hcount] at hread
  have hpos := List.length_pos_iff.mpr hnumeral.ne_nil
  refine ⟨List.append_ne_nil_of_left_ne_nil hnumeral.ne_nil _, ?_, hread⟩
  rw [List.length_append]
  omega

/-- The text from the number to the next digit has to be the name of a unit. -/
theorem refused_of_lookup (hlookup : durationUnits.lookup (unitName rest) = none) (value : Text)
    (rounds : Nat) (sum : Int) :
    Refused (parseDurationFrom withEnUs value (rounds + 1) (numeral ++ rest) sum) := by
  obtain ⟨hnonempty, hlength, hread⟩ := tests_pass hnumeral hrest hcount
  rw [parseDurationFrom]
  simp only [withEnUs, if_neg hnonempty, hread, if_neg hne, hlength, reduceCtorEq, or_self,
    and_false, if_false, hlookup]
  exact ⟨_, rfl⟩

theorem parseDurationFrom_of_lookup {unit : Int}
    (hlookup : durationUnits.lookup (unitName rest) = some unit) (value : Text) (rounds : Nat)
    (sum : Int) :
    parseDurationFrom withEnUs value (rounds + 1) (numeral ++ rest) sum = (do
      let added ← fromUnit unit (numeralValue numeral)
      let sum ← atInt64 (sum + added)
      parseDurationFrom withEnUs value rounds (rest.drop (unitName rest).length) sum) := by
  obtain ⟨hnonempty, hlength, hread⟩ := tests_pass hnumeral hrest hcount
  rw [parseDurationFrom]
  simp only [withEnUs, if_neg hnonempty, hread, if_neg hne, hlength, reduceCtorEq, or_self,
    and_false, if_false, hlookup, Option.getD_some]

end Units

end Round

theorem head?_append_unit {name rest : Text} {unit : Int} (hunit : (name, unit) ∈ durationUnits) :
    name ++ rest ≠ [] ∧ ∀ c ∈ (name ++ rest).head?, isDigit c = false := by
  obtain ⟨hne, hhead, _, _⟩ := unitName_of_mem _ hunit
  refine ⟨List.append_ne_nil_of_left_ne_nil hne _, ?_⟩
  rw [List.head?_append_of_ne_nil _ hne]
  exact hhead

/-- A round with a component in front of the text. -/
theorem parseDurationFrom_append {numeral name rest : Text} {unit : Int}
    (hnumeral : IsNumeral numeral) (hunit : (name, unit) ∈ durationUnits)
    (hend : ∀ c ∈ rest.head?, isDigit c = true) (hcount : InInt64 (numeralValue numeral))
    (value : Text) (rounds : Nat) (sum : Int) :
    parseDurationFrom withEnUs value (rounds + 1) (numeral ++ (name ++ rest)) sum = (do
      let added ← fromUnit unit (numeralValue numeral)
      let sum ← atInt64 (sum + added)
      parseDurationFrom withEnUs value rounds rest sum) := by
  obtain ⟨_, _, _, hlookup⟩ := unitName_of_mem _ hunit
  obtain ⟨hne, hhead⟩ := @head?_append_unit name rest unit hunit
  have hname := unitName_append hunit hend
  rw [← hname] at hlookup
  rw [parseDurationFrom_of_lookup hnumeral hhead hne hcount hlookup, hname, List.drop_left]

/-- Unless a text is refused, it begins with a component. -/
theorem refused_or_component {v : Text} (hne : v ≠ []) (value : Text) (rounds : Nat) (sum : Int) :
    Refused (parseDurationFrom withEnUs value (rounds + 1) v sum) ∨
      ∃ numeral name rest unit, v = numeral ++ (name ++ rest) ∧ IsNumeral numeral ∧
        (name, unit) ∈ durationUnits ∧ (∀ c ∈ rest.head?, isDigit c = true) ∧
        InInt64 (numeralValue numeral) := by
  rcases fromCharsSigned_cases (-2 ^ 63) (2 ^ 63 - 1) v with
    ⟨numeral, rest, rfl, hnumeral, hrest⟩ | hinvalid
  · by_cases hbad : rest = [] ∨ ¬ InInt64 (numeralValue numeral)
    · exact Or.inl (refused_of_numeral hnumeral hrest hbad _ value rounds sum)
    · obtain ⟨hrestNe, hcount⟩ := not_or.mp hbad
      rw [not_not] at hcount
      cases hlookup : durationUnits.lookup (unitName rest) with
      | none =>
          exact Or.inl (refused_of_lookup hnumeral hrest hrestNe hcount hlookup value rounds sum)
      | some unit =>
          obtain ⟨left, hleft, hend⟩ := exists_append_unitName rest
          have hunit : (unitName rest, unit) ∈ durationUnits := by
            obtain ⟨before, behind, hunits, _⟩ := List.lookup_eq_some_iff.mp hlookup
            rw [hunits]
            exact List.mem_append_right before List.mem_cons_self
          refine Or.inr ⟨numeral, unitName rest, left, unit, ?_, hnumeral, hunit, hend, hcount⟩
          rw [← hleft]
  · left
    rw [← fromCharsInt64_eq] at hinvalid
    rw [parseDurationFrom, if_neg hne]
    simp only [hinvalid, or_true, if_true]
    split_ifs <;> exact ⟨_, rfl⟩

/-! ### Runs -/

theorem atInt64_of_in {number : Int} (hfits : InInt64 number) : atInt64 number = .ok number :=
  if_pos hfits

theorem atInt64_of_not_in {number : Int} (hfits : ¬ InInt64 number) :
    atInt64 number = .error (.undefined .signedOverflow) :=
  if_neg hfits

section Component

variable {numeral name rest : Text} {unit sum : Int} (hnumeral : IsNumeral numeral)
  (hunit : (name, unit) ∈ durationUnits) (hend : ∀ c ∈ rest.head?, isDigit c = true)
  (hcount : InInt64 (numeralValue numeral))
include hnumeral hunit hend hcount

/-- A component that fits is added. -/
theorem parseDurationFrom_of_fits (hamount : InInt64 (numeralValue numeral * unit))
    (hsum : InInt64 (sum + numeralValue numeral * unit)) (value : Text) (rounds : Nat) :
    parseDurationFrom withEnUs value (rounds + 1) (numeral ++ (name ++ rest)) sum =
      parseDurationFrom withEnUs value rounds rest (sum + numeralValue numeral * unit) := by
  rw [parseDurationFrom_append hnumeral hunit hend hcount, fromUnit, atInt64_of_in hamount]
  change (do
    let sum ← atInt64 (sum + numeralValue numeral * unit)
    parseDurationFrom withEnUs value rounds rest sum) = _
  rw [atInt64_of_in hsum]
  rfl

theorem parseDurationFrom_of_not_fits (hfits : ¬ (InInt64 (numeralValue numeral * unit) ∧
      InInt64 (sum + numeralValue numeral * unit))) (value : Text) (rounds : Nat) :
    parseDurationFrom withEnUs value (rounds + 1) (numeral ++ (name ++ rest)) sum =
      .error (.undefined .signedOverflow) := by
  rw [parseDurationFrom_append hnumeral hunit hend hcount, fromUnit]
  by_cases hamount : InInt64 (numeralValue numeral * unit)
  · rw [atInt64_of_in hamount]
    change (do
      let sum ← atInt64 (sum + numeralValue numeral * unit)
      parseDurationFrom withEnUs value rounds rest sum) = _
    rw [atInt64_of_not_in fun hsum => hfits ⟨hamount, hsum⟩]
    rfl
  · rw [atInt64_of_not_in hamount]
    rfl

theorem SumFits.cons (hfits : SumFits sum (numeral ++ (name ++ rest))) :
    InInt64 (numeralValue numeral * unit) ∧ InInt64 (sum + numeralValue numeral * unit) ∧
      SumFits (sum + numeralValue numeral * unit) rest := by
  have hfirst : ∀ components left, Reads rest components left →
      (∀ component ∈ components, InInt64 component.count) →
        FitsFrom sum (⟨numeralValue numeral, unit⟩ :: components) := by
    intro components left hreads hcounts
    exact hfits _ left (.cons hnumeral hunit hend hreads)
      (List.forall_mem_cons.mpr ⟨hcount, hcounts⟩)
  obtain ⟨hamount, hsum, _⟩ := hfirst [] rest (.nil rest) nofun
  refine ⟨hamount, hsum, fun components left hreads hcounts => ?_⟩
  exact (hfirst components left hreads hcounts).2.2

end Component

theorem length_lt_of_component {numeral name rest : Text} {rounds : Nat}
    (hnumeral : IsNumeral numeral) (hrounds : (numeral ++ (name ++ rest)).length < rounds + 1) :
    rest.length < rounds := by
  have hpos := List.length_pos_iff.mpr hnumeral.ne_nil
  rw [List.length_append, List.length_append] at hrounds
  omega

/-- As long as everything fits, the text is refused or comes to its sum. -/
theorem parseDurationFrom_outcome (value : Text) {rounds : Nat} {v : Text} {sum : Int}
    (hrounds : v.length < rounds) (hfits : SumFits sum v) :
    Refused (parseDurationFrom withEnUs value rounds v sum) ∨ ∃ components, Reads v components [] ∧
      parseDurationFrom withEnUs value rounds v sum =
        .ok (sum + (components.map Component.amount).sum) := by
  induction rounds generalizing v sum with
  | zero => exact absurd hrounds (Nat.not_lt_zero _)
  | succ rounds ih =>
      by_cases hempty : v = []
      · subst hempty
        refine Or.inr ⟨[], .nil [], ?_⟩
        rw [parseDurationFrom, if_pos rfl, List.map_nil, List.sum_nil, Int.add_zero]
      · rcases refused_or_component hempty value rounds sum with
          hrefused | ⟨numeral, name, rest, unit, rfl, hnumeral, hunit, hend, hcount⟩
        · exact Or.inl hrefused
        · obtain ⟨hamount, hsum, hrest⟩ := hfits.cons hnumeral hunit hend hcount
          rw [parseDurationFrom_of_fits hnumeral hunit hend hcount hamount hsum]
          apply (ih (length_lt_of_component hnumeral hrounds) hrest).imp_right
          rintro ⟨components, hreads, hparse⟩
          refine ⟨_, .cons hnumeral hunit hend hreads, ?_⟩
          rw [hparse, List.map_cons, List.sum_cons, Int.add_assoc]
          rfl

/-- A component that does not fit is refused only where its number does not fit either. -/
theorem refused_of_reads (value : Text) {rounds : Nat} {v left : Text} {sum : Int}
    {components : List Component} (hreads : Reads v components left) (hrounds : v.length < rounds)
    (hfits : SumFits sum v) (hnot : ¬ FitsFrom sum components) :
    Refused (parseDurationFrom withEnUs value rounds v sum) := by
  induction hreads generalizing rounds sum with
  | nil => exact absurd trivial hnot
  | @cons numeral name rest left unit components hnumeral hunit hend _ ih =>
      cases rounds with
      | zero => exact absurd hrounds (Nat.not_lt_zero _)
      | succ rounds =>
          by_cases hcount : InInt64 (numeralValue numeral)
          · obtain ⟨hamount, hsum, hrest⟩ := hfits.cons hnumeral hunit hend hcount
            rw [parseDurationFrom_of_fits hnumeral hunit hend hcount hamount hsum]
            apply ih (length_lt_of_component hnumeral hrounds) hrest
            exact fun hbehind => hnot ⟨hamount, hsum, hbehind⟩
          · have hhead := (@head?_append_unit name rest unit hunit).2
            exact refused_of_numeral hnumeral hhead (Or.inr hcount) _ value rounds sum

/-- Numbers that fit and components that do not overflow. -/
theorem overflow_of_reads (value : Text) {rounds : Nat} {v left : Text} {sum : Int}
    {components : List Component} (hreads : Reads v components left) (hrounds : v.length < rounds)
    (hcounts : ∀ component ∈ components, InInt64 component.count)
    (hnot : ¬ FitsFrom sum components) :
    parseDurationFrom withEnUs value rounds v sum = .error (.undefined .signedOverflow) := by
  induction hreads generalizing rounds sum with
  | nil => exact absurd trivial hnot
  | @cons numeral name rest left unit components hnumeral hunit hend _ ih =>
      obtain ⟨hcount, hothers⟩ := List.forall_mem_cons.mp hcounts
      cases rounds with
      | zero => exact absurd hrounds (Nat.not_lt_zero _)
      | succ rounds =>
          by_cases hfits : InInt64 (numeralValue numeral * unit) ∧
              InInt64 (sum + numeralValue numeral * unit)
          · rw [parseDurationFrom_of_fits hnumeral hunit hend hcount hfits.1 hfits.2]
            apply ih (length_lt_of_component hnumeral hrounds) hothers
            exact fun hbehind => hnot ⟨hfits.1, hfits.2, hbehind⟩
          · exact parseDurationFrom_of_not_fits hnumeral hunit hend hcount hfits value rounds

/-! ### Whole texts -/

theorem parsesExactly_of_sumFits {value : Text} (hfits : SumFits 0 value) :
    ParsesExactly withEnUs value := by
  have hrounds : value.length < value.length + 1 := Nat.lt_succ_self _
  constructor
  · have houtcome := parseDurationFrom_outcome value hrounds hfits
    simp only [Int.zero_add] at houtcome
    exact houtcome
  · intro components left hreads hnot
    exact refused_of_reads value hreads hrounds hfits hnot

theorem overflow_of_not_sumFits {value : Text} (hnot : ¬ SumFits 0 value) :
    parseDuration withEnUs value = .error (.undefined .signedOverflow) := by
  simp only [SumFits, not_forall] at hnot
  obtain ⟨components, left, hreads, hcounts, hfits⟩ := hnot
  exact overflow_of_reads value hreads (Nat.lt_succ_self _) hcounts hfits

theorem not_parsesExactly_of_overflow {value : Text}
    (hoverflow : parseDuration withEnUs value = .error (.undefined .signedOverflow)) :
    ¬ ParsesExactly withEnUs value := by
  intro hexact
  rcases hexact.outcome with ⟨message, hrefused⟩ | ⟨components, _, hsum⟩
  · cases hoverflow.symm.trans hrefused
  · cases hoverflow.symm.trans hsum

/-! ### Without the locale -/

section Missing

variable {locales : Locales} {value : Text}

theorem parseDuration_of_needsLocale (hmissing : locales.hasEnUs = false)
    (hneeds : NeedsLocale value) :
    parseDuration locales value = .error (.standard .runtimeError) := by
  obtain ⟨numeral, rest, rfl, hnumeral, hrest, hcount, hlong⟩ := hneeds
  obtain ⟨hnonempty, hlength, hread⟩ := tests_pass hnumeral hrest hcount
  have hne : rest ≠ [] := by
    rintro rfl
    exact absurd hlong (Nat.not_lt_zero 1)
  rw [parseDuration, parseDurationFrom]
  simp only [if_neg hnonempty, hread, if_neg hne, hlength, reduceCtorEq, or_self, if_false]
  rw [if_pos ⟨hlong, hmissing⟩]

theorem drop_unitName_of_short {rest : Text} (hshort : ¬ 1 < rest.length) :
    rest.drop (unitName rest).length = [] := by
  match rest with
  | [] => rfl
  | [c] => rfl
  | _ :: _ :: rest => exact absurd (by simp) hshort

theorem parseDurationFrom_nil (locales other : Locales) (rounds : Nat) (sum : Int) :
    parseDurationFrom locales value rounds [] sum =
      parseDurationFrom other value rounds [] sum := by
  cases rounds with
  | zero => rfl
  | succ rounds => rfl

/-- Where no character stands behind the first one of the unit, the text ends with it, and nobody
asks for the locale. -/
theorem parseDuration_of_not_needsLocale (hneeds : ¬ NeedsLocale value) :
    parseDuration locales value = parseDuration withEnUs value := by
  rw [parseDuration, parseDuration, parseDurationFrom, parseDurationFrom]
  by_cases hlong : 1 < (fromCharsInt64 value).rest.length
  · rcases fromCharsSigned_cases (-2 ^ 63) (2 ^ 63 - 1) value with
      ⟨numeral, rest, rfl, hnumeral, hrest⟩ | hinvalid
    · have hread := fromCharsInt64_append hnumeral hrest
      by_cases hcount : InInt64 (numeralValue numeral)
      · rw [hread, if_pos hcount] at hlong
        exact absurd ⟨numeral, rest, rfl, hnumeral, hrest, hcount, hlong⟩ hneeds
      · simp only [hread, if_neg hcount, if_true]
    · rw [← fromCharsInt64_eq] at hinvalid
      simp only [hinvalid, or_true, if_true]
  · simp only [hlong, false_and, if_false, drop_unitName_of_short hlong,
      parseDurationFrom_nil locales withEnUs]

end Missing

theorem parsesExactly_congr {locales other : Locales} {value : Text}
    (hparse : parseDuration locales value = parseDuration other value)
    (hexact : ParsesExactly other value) : ParsesExactly locales value := by
  obtain ⟨houtcome, hrefuses⟩ := hexact
  rw [← hparse] at houtcome hrefuses
  exact ⟨houtcome, hrefuses⟩

/-- With the locale, the sum is exact if everything fits. -/
theorem parseDuration_exact_iff_of_found (value : Text) :
    parseDuration withEnUs value ≠ .error .diverged ∧
      (ParsesExactly withEnUs value ↔ SumFits 0 value) := by
  by_cases hfits : SumFits 0 value
  · have hexact := parsesExactly_of_sumFits hfits
    refine ⟨?_, iff_of_true hexact hfits⟩
    rcases hexact.outcome with ⟨message, hrefused⟩ | ⟨components, _, hsum⟩
    · rw [hrefused]
      nofun
    · rw [hsum]
      nofun
  · have hoverflow := overflow_of_not_sumFits hfits
    refine ⟨?_, iff_of_false (not_parsesExactly_of_overflow hoverflow) hfits⟩
    rw [hoverflow]
    nofun

/-- **The sum of a duration.** The loop ends on every text. It refuses the text or comes to the
exact sum, and refuses what does not fit, if and only if everything that the text begins with fits
as long as its numbers do, and the locale is there or is not asked for. -/
theorem parseDuration_exact_iff (locales : Locales) (value : Text) :
    parseDuration locales value ≠ .error .diverged ∧
      (ParsesExactly locales value ↔
        SumFits 0 value ∧ (locales.hasEnUs = true ∨ ¬ NeedsLocale value)) := by
  obtain ⟨hends, hiff⟩ := parseDuration_exact_iff_of_found value
  by_cases hasked : locales.hasEnUs = false ∧ NeedsLocale value
  · have hfails := parseDuration_of_needsLocale hasked.1 hasked.2
    rw [hfails]
    refine ⟨nofun, iff_of_false ?_ ?_⟩
    · rintro ⟨⟨message, hrefused⟩ | ⟨components, -, hsum⟩, -⟩
      · cases hfails.symm.trans hrefused
      · cases hfails.symm.trans hsum
    · rintro ⟨-, hfound | hnot⟩
      · exact Bool.noConfusion (hasked.1.symm.trans hfound)
      · exact hnot hasked.2
  · have hready : locales.hasEnUs = true ∨ ¬ NeedsLocale value := by
      rcases Bool.eq_false_or_eq_true locales.hasEnUs with hfound | hmissing
      · exact Or.inl hfound
      · exact Or.inr fun hneeds => hasked ⟨hmissing, hneeds⟩
    have hparse : parseDuration locales value = parseDuration withEnUs value := by
      rcases hready with hfound | hneeds
      · rw [show locales = withEnUs from congrArg Locales.mk hfound]
      · exact parseDuration_of_not_needsLocale hneeds
    rw [hparse]
    refine ⟨hends, fun hexact => ?_, fun hfits => ?_⟩
    · exact ⟨hiff.mp (parsesExactly_congr hparse.symm hexact), hready⟩
    · exact parsesExactly_congr hparse (hiff.mpr hfits.1)

/-- 293 years are more nanoseconds than there is room for. -/
theorem not_parsesExactly_years :
    parseDuration withEnUs "293y".toList = .error (.undefined .signedOverflow) ∧
      ¬ ParsesExactly withEnUs "293y".toList := by
  have hoverflow : parseDuration withEnUs "293y".toList =
      .error (.undefined .signedOverflow) := by decide
  exact ⟨hoverflow, not_parsesExactly_of_overflow hoverflow⟩

end Liblw.Cli
