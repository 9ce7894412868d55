import Mathlib.Data.List.TakeWhile
import Liblw.CharConv
import Liblw.Mime.Render

/-!
# Numerals there and back

`std::from_chars` reads the decimal text of a number that is in the range of the type, and stops in
front of the first character that is no digit.
-/

namespace Liblw

open Mime (integerText integerText_ofNat integerText_negSucc)

variable {lower upper : Int} {rest : Text}

theorem isDigit_of_mem_toDigits {number : Nat} {c : Char} (hmem : c ∈ Nat.toDigits 10 number) :
    isDigit c = true :=
  Nat.isDigit_of_mem_toDigits (by decide) (by decide) hmem

theorem isDigits_toDigits (number : Nat) : IsDigits (Nat.toDigits 10 number) :=
  ⟨Nat.toDigits_ne_nil, fun _ hmem => isDigit_of_mem_toDigits hmem⟩

theorem IsDigits.exists_cons {digits : Text} (hdigits : IsDigits digits) :
    ∃ c tail, digits = c :: tail ∧ c ≠ '+' ∧ c ≠ '-' := by
  obtain ⟨c, tail, rfl⟩ := List.exists_cons_of_ne_nil hdigits.1
  have hdigit := hdigits.2 c List.mem_cons_self
  refine ⟨c, tail, rfl, ?_, ?_⟩ <;> (rintro rfl; exact absurd hdigit (by decide))

theorem IsNumeral.ne_nil {numeral : Text} (hnumeral : IsNumeral numeral) : numeral ≠ [] := by
  rcases hnumeral with hdigits | ⟨digits, rfl, _⟩
  · exact hdigits.1
  · exact List.cons_ne_nil _ _

theorem toDigits_head_ne {number : Nat} {c : Char} {tail : Text}
    (hdigits : Nat.toDigits 10 number = c :: tail) : c ≠ '+' ∧ c ≠ '-' := by
  obtain ⟨first, rest, hsame, hfirst⟩ := (isDigits_toDigits number).exists_cons
  rw [hdigits] at hsame
  exact (List.cons.inj hsame).1 ▸ hfirst

theorem numeralValue_of_isDigits {digits : Text} (hdigits : IsDigits digits) :
    numeralValue digits = (Nat.ofDigitChars 10 digits 0 : Int) := by
  obtain ⟨c, tail, rfl, -, hminus⟩ := hdigits.exists_cons
  rw [numeralValue]
  rintro rest hsame
  exact hminus (List.cons.inj hsame).1

/-! ### A numeral in front of other text -/

theorem takeWhile_isDigit_append {digits : Text} (hdigits : IsDigits digits)
    (hrest : ∀ c ∈ rest.head?, isDigit c = false) :
    (digits ++ rest).takeWhile isDigit = digits := by
  rw [List.takeWhile_append_of_pos hdigits.2]
  cases rest with
  | nil => exact List.append_nil _
  | cons c rest =>
      rw [List.takeWhile_cons_of_neg (Bool.eq_false_iff.mp (hrest c rfl))]
      exact List.append_nil _

theorem fromDigits_append {digits : Text} (hdigits : IsDigits digits)
    (hrest : ∀ c ∈ rest.head?, isDigit c = false) (negative : Bool) (text : Text) :
    fromDigits lower upper negative text (digits ++ rest) =
      if lower ≤ (if negative then -(Nat.ofDigitChars 10 digits 0 : Int)
            else (Nat.ofDigitChars 10 digits 0 : Int)) ∧
          (if negative then -(Nat.ofDigitChars 10 digits 0 : Int)
            else (Nat.ofDigitChars 10 digits 0 : Int)) ≤ upper then
        ⟨rest, .none, some (if negative then -(Nat.ofDigitChars 10 digits 0 : Int)
          else (Nat.ofDigitChars 10 digits 0 : Int))⟩
      else ⟨rest, .resultOutOfRange, none⟩ := by
  simp only [fromDigits, takeWhile_isDigit_append hdigits hrest, if_neg hdigits.1, List.drop_left]

theorem fromCharsInt64_eq (text : Text) :
    fromCharsInt64 text = fromCharsSigned (-2 ^ 63) (2 ^ 63 - 1) text := rfl

theorem fromCharsSigned_of_ne {c : Char} (hminus : c ≠ '-') (tail : Text) :
    fromCharsSigned lower upper (c :: tail) =
      fromDigits lower upper false (c :: tail) (c :: tail) := by
  unfold fromCharsSigned
  split
  · rename_i heq
    exact absurd (List.cons.inj heq).1 hminus
  · rfl

/-- A numeral is taken up as a whole, with its value if this is in the range. -/
theorem fromCharsSigned_append {numeral : Text} (hnumeral : IsNumeral numeral)
    (hrest : ∀ c ∈ rest.head?, isDigit c = false) :
    fromCharsSigned lower upper (numeral ++ rest) =
      if lower ≤ numeralValue numeral ∧ numeralValue numeral ≤ upper then
        ⟨rest, .none, some (numeralValue numeral)⟩
      else ⟨rest, .resultOutOfRange, none⟩ := by
  rcases hnumeral with hdigits | ⟨digits, rfl, hdigits⟩
  · have hvalue := numeralValue_of_isDigits hdigits
    have hread := @fromDigits_append lower upper rest numeral hdigits hrest false (numeral ++ rest)
    obtain ⟨c, tail, rfl, -, hminus⟩ := hdigits.exists_cons
    rw [List.cons_append] at hread ⊢
    rw [fromCharsSigned_of_ne hminus, hread, hvalue]
    rfl
  · exact fromDigits_append hdigits hrest true _

theorem integerText_numeral (number : Int) :
    IsNumeral (integerText number) ∧ numeralValue (integerText number) = number := by
  cases number with
  | ofNat magnitude =>
      have hdigits := isDigits_toDigits magnitude
      rw [Int.ofNat_eq_natCast, integerText_ofNat]
      refine ⟨Or.inl hdigits, ?_⟩
      rw [numeralValue_of_isDigits hdigits, Nat.ofDigitChars_ten_toDigits]
  | negSucc magnitude =>
      rw [integerText_negSucc]
      refine ⟨Or.inr ⟨_, rfl, isDigits_toDigits (magnitude + 1)⟩, ?_⟩
      rw [numeralValue, Nat.ofDigitChars_ten_toDigits]
      rfl

theorem fromCharsSigned_integerText {number : Int} (hlower : lower ≤ number)
    (hupper : number ≤ upper) (hrest : ∀ c ∈ rest.head?, isDigit c = false) :
    fromCharsSigned lower upper (integerText number ++ rest) = ⟨rest, .none, some number⟩ := by
  obtain ⟨hnumeral, hvalue⟩ := integerText_numeral number
  rw [fromCharsSigned_append hnumeral hrest, hvalue, if_pos ⟨hlower, hupper⟩]

theorem fromCharsUnsigned_integerText {number : Nat} (hupper : (number : Int) ≤ upper)
    (hrest : ∀ c ∈ rest.head?, isDigit c = false) :
    fromCharsUnsigned upper (integerText number ++ rest) = ⟨rest, .none, some (number : Int)⟩ := by
  rw [integerText_ofNat, fromCharsUnsigned, fromDigits_append (isDigits_toDigits number) hrest,
    Nat.ofDigitChars_ten_toDigits]
  exact if_pos ⟨Int.natCast_nonneg number, hupper⟩

theorem exists_digits_append (text : Text) :
    (∃ digits rest, text = digits ++ rest ∧ IsDigits digits ∧
      ∀ c ∈ rest.head?, isDigit c = false) ∨ text.takeWhile isDigit = [] := by
  by_cases hrun : text.takeWhile isDigit = []
  · exact Or.inr hrun
  · refine Or.inl ⟨text.takeWhile isDigit, text.dropWhile isDigit,
      List.takeWhile_append_dropWhile.symm, ⟨hrun, fun c => List.mem_takeWhile_imp⟩, ?_⟩
    intro c hc
    have hstop := List.head?_dropWhile_not isDigit text
    rw [Option.mem_def.mp hc] at hstop
    exact hstop

/-- A text begins with a numeral that is not cut off in front of a digit, or none is found. -/
theorem fromCharsSigned_cases (lower upper : Int) (text : Text) :
    (∃ numeral rest, text = numeral ++ rest ∧ IsNumeral numeral ∧
      ∀ c ∈ rest.head?, isDigit c = false) ∨
    (fromCharsSigned lower upper text).errc = .invalidArgument := by
  cases text with
  | nil => exact Or.inr rfl
  | cons c tail =>
      by_cases hminus : c = '-'
      · subst hminus
        rcases exists_digits_append tail with ⟨digits, rest, rfl, hdigits, hrest⟩ | hnone
        · exact Or.inl ⟨'-' :: digits, rest, rfl, Or.inr ⟨digits, rfl, hdigits⟩, hrest⟩
        · right
          rw [fromCharsSigned, fromDigits, if_pos hnone]
      · rcases exists_digits_append (c :: tail) with ⟨digits, rest, hsame, hdigits, hrest⟩ | hnone
        · exact Or.inl ⟨digits, rest, hsame, Or.inl hdigits, hrest⟩
        · right
          rw [fromCharsSigned_of_ne hminus, fromDigits, if_pos hnone]

/-! ### Whole texts -/

theorem fromDigits_of_isDigits {digits : Text} (hdigits : IsDigits digits) (negative : Bool)
    (text : Text) :
    fromDigits lower upper negative text digits =
      if lower ≤ (if negative then -(Nat.ofDigitChars 10 digits 0 : Int)
            else (Nat.ofDigitChars 10 digits 0 : Int)) ∧
          (if negative then -(Nat.ofDigitChars 10 digits 0 : Int)
            else (Nat.ofDigitChars 10 digits 0 : Int)) ≤ upper then
        ⟨[], .none, some (if negative then -(Nat.ofDigitChars 10 digits 0 : Int)
          else (Nat.ofDigitChars 10 digits 0 : Int))⟩
      else ⟨[], .resultOutOfRange, none⟩ := by
  have hread := @fromDigits_append lower upper [] digits hdigits nofun negative text
  rwa [List.append_nil] at hread

/-- What is no run of digits is not taken up, or nothing of it is. -/
theorem fromDigits_of_not_isDigits {digits : Text} (hdigits : ¬ IsDigits digits) (negative : Bool)
    (text : Text) :
    (fromDigits lower upper negative text digits).rest ≠ [] ∨
      (fromDigits lower upper negative text digits).value = none := by
  by_cases hrun : digits.takeWhile isDigit = []
  · exact Or.inr (by simp only [fromDigits, if_pos hrun])
  · have hrest : digits.drop (digits.takeWhile isDigit).length ≠ [] := by
      intro hdrop
      apply hdigits
      have hwhole : digits.takeWhile isDigit = digits := by
        apply (List.takeWhile_prefix isDigit).eq_of_length
        apply le_antisymm (List.takeWhile_prefix isDigit).length_le
        exact List.drop_eq_nil_iff.mp hdrop
      rw [hwhole] at hrun
      exact ⟨hrun, List.takeWhile_eq_self_iff.mp hwhole⟩
    refine Or.inl ?_
    simp only [fromDigits, if_neg hrun]
    split_ifs <;> exact hrest

theorem fromCharsSigned_of_isNumeral {text : Text} (hnumeral : IsNumeral text) :
    fromCharsSigned lower upper text =
      if lower ≤ numeralValue text ∧ numeralValue text ≤ upper then
        ⟨[], .none, some (numeralValue text)⟩
      else ⟨[], .resultOutOfRange, none⟩ := by
  have hread := @fromCharsSigned_append lower upper [] text hnumeral nofun
  rwa [List.append_nil] at hread

theorem fromCharsSigned_of_not_isNumeral {text : Text} (hnumeral : ¬ IsNumeral text) :
    (fromCharsSigned lower upper text).rest ≠ [] ∨
      (fromCharsSigned lower upper text).value = none := by
  rw [IsNumeral, not_or] at hnumeral
  cases text with
  | nil => exact Or.inr rfl
  | cons c tail =>
      by_cases hminus : c = '-'
      · subst hminus
        apply fromDigits_of_not_isDigits
        exact fun hdigits => hnumeral.2 ⟨tail, rfl, hdigits⟩
      · rw [fromCharsSigned_of_ne hminus]
        exact fromDigits_of_not_isDigits hnumeral.1 false _

end Liblw
