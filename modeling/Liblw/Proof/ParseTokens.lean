import Liblw.Mime.Parse
import Liblw.Proof.Numerals

/-!
# One token of the input

How the loop of `update` passes over the characters of one token, and what the scanners make of a
string literal and of a numeral that stand in front of other text.
-/

namespace Liblw.Mime

theorem lookup_isSome_iff (elements : List (Text × DeserializationToken)) (key : Text) :
    (elements.lookup key).isSome = true ↔ key ∈ elements.map Prod.fst := by
  rw [List.lookup_isSome_iff, List.mem_map]
  simp only [beq_iff_eq, @eq_comm _ key]

namespace JSONParse

/-! ### The loop -/

theorem updateLoop_skip (passed rest : Text) (i : Nat) (parse : JSONParse) :
    updateLoop i passed.length (passed ++ rest) parse =
      updateLoop (i + passed.length) 0 rest parse := by
  induction passed generalizing i with
  | nil => rfl
  | cons c passed ih =>
      rw [List.length_cons, List.cons_append, updateLoop, ih]
      congr 1
      omega

/-- A round that leaves `i` on the last character of the token goes on right behind it. -/
theorem updateLoop_token {c : Char} {tail rest : Text} {i : Nat} {parse next : JSONParse}
    (hspace : isSpace c = false) (hfinal : parse.finalValue = none)
    (hchar : parse.updateChar c (c :: (tail ++ rest)) i = .ok (next, i + tail.length)) :
    updateLoop i 0 (c :: (tail ++ rest)) parse =
      updateLoop (i + tail.length + 1) 0 rest next := by
  rw [updateLoop]
  simp only [hspace, hfinal, hchar, Bool.false_eq_true, ↓reduceIte, Option.isSome_none,
    Nat.add_sub_cancel_left]
  rw [updateLoop_skip]
  congr 1
  omega

theorem updateLoop_single {c : Char} {rest : Text} {i : Nat} {parse next : JSONParse}
    (hspace : isSpace c = false) (hfinal : parse.finalValue = none)
    (hchar : parse.updateChar c (c :: rest) i = .ok (next, i)) :
    updateLoop i 0 (c :: rest) parse = updateLoop (i + 1) 0 rest next :=
  @updateLoop_token c [] rest i parse next hspace hfinal hchar

/-- A scalar whose scanner pushes its token is read by pushing the token and popping it. -/
theorem updateLoop_scalar {c : Char} {tail rest : Text} {i : Nat} {parse next : JSONParse}
    {token : DeserializationToken} (hspace : isSpace c = false)
    (hfinal : parse.finalValue = none)
    (hnext : ∀ last, (parse.push token).popTop last = .ok next)
    (hchar : parse.updateChar c (c :: (tail ++ rest)) i =
      popScanned (.ok (parse.push token, i + tail.length))) :
    updateLoop i 0 (c :: tail ++ rest) parse = updateLoop (i + tail.length + 1) 0 rest next := by
  refine updateLoop_token hspace hfinal ?_
  rw [hchar, popScanned, hnext]
  rfl

/-- Once the document is complete, only blanks may follow. -/
theorem updateLoop_of_final {text : Text} {c : Char} (hmem : c ∈ text) (hspace : isSpace c = false)
    (i : Nat) {parse : JSONParse} (hfinal : parse.finalValue.isSome = true) :
    ∃ message, updateLoop i 0 text parse = .error (.thrown ⟨.invalidArgument, message⟩) := by
  induction text generalizing i with
  | nil => cases hmem
  | cons d text ih =>
      rw [updateLoop]
      by_cases hd : isSpace d = true
      · rw [if_pos hd]
        have hne : c ≠ d := by
          rintro rfl
          rw [hd] at hspace
          cases hspace
        exact ih ((List.mem_cons.mp hmem).resolve_left hne) (i + 1)
      · rw [if_neg hd, if_pos hfinal]
        exact ⟨_, rfl⟩

/-! ### String literals -/

/-- The scanner takes a backslash like any other character, so it always stops at the first
quotation mark. -/
theorem closingQuote_append {before : Text} (hbefore : '"' ∉ before) (i : Nat) (rest : Text) :
    closingQuote i (before ++ '"' :: rest) = some (i + before.length) := by
  induction before generalizing i with
  | nil => simp [closingQuote]
  | cons c before ih =>
      simp only [List.mem_cons, not_or] at hbefore
      have hc : c ≠ '"' := fun heq => hbefore.1 heq.symm
      have htail := ih hbefore.2 (i + 1)
      simp only [List.cons_append, closingQuote, hc, ↓reduceIte, htail, ite_self,
        List.length_cons, Option.some.injEq]
      omega

theorem parseString_append {before : Text} (hbefore : '"' ∉ before) (i : Nat) (rest : Text)
    (parse : JSONParse) :
    parse.parseString ('"' :: (before ++ '"' :: rest)) i =
      .ok (parse.push (.scalar (.make .string ('"' :: (before ++ ['"'])))),
        i + 1 + before.length) := by
  have htake : ('"' :: (before ++ '"' :: rest)).take (i + 1 + before.length - i + 1) =
      '"' :: (before ++ ['"']) := by
    have hlength : i + 1 + before.length - i + 1 = (before.length + 1) + 1 := by omega
    rw [hlength, List.take_succ_cons]
    congr 1
    rw [List.take_append, List.take_of_length_le (by omega)]
    simp
  simp only [parseString, List.tail_cons, closingQuote_append hbefore, htake]

theorem updateLoop_string {before : Text} (hbefore : '"' ∉ before) (i : Nat) (rest : Text)
    {parse next : JSONParse} (hfinal : parse.finalValue = none)
    (hnext : ∀ last, (parse.push (.scalar (.make .string ('"' :: (before ++ ['"']))))).popTop last =
      .ok next) :
    updateLoop i 0 ('"' :: (before ++ '"' :: rest)) parse =
      updateLoop (i + before.length + 2) 0 rest next := by
  have hscan := parseString_append hbefore i rest parse
  have htoken : updateLoop i 0 ('"' :: (before ++ ['"']) ++ rest) parse =
      updateLoop (i + (before ++ ['"']).length + 1) 0 rest next := by
    refine updateLoop_scalar (by decide) hfinal hnext ?_
    rw [List.append_assoc, List.singleton_append]
    simp only [updateChar, Char.reduceEq, ↓reduceIte, hscan]
    rw [List.length_append, List.length_singleton]
    congr 3
    omega
  simp only [List.cons_append, List.append_assoc, List.nil_append, List.length_append,
    List.length_singleton] at htoken
  rw [htoken]
  congr 1

theorem quote_notMem_escape {c : Char} (hc : c ≠ '"') : '"' ∉ escape c := by
  unfold escape
  split <;> simp_all [Ne.symm hc]

theorem quote_notMem_flatMap_escape {str : Text} (hstr : '"' ∉ str) :
    '"' ∉ str.flatMap escape := by
  rw [List.mem_flatMap]
  rintro ⟨c, hmem, hquote⟩
  have hc : c ≠ '"' := by
    rintro rfl
    exact hstr hmem
  exact quote_notMem_escape hc hquote

/-- Decoding undoes one escaped character. -/
theorem decodeLoop_escape (c d : Char) (rest : Text) :
    decodeLoop (escape c ++ d :: rest) = c :: decodeLoop (d :: rest) := by
  unfold escape
  split <;> try rfl
  rename_i hbackslash _ _ _ _ _ _
  simp only [List.cons_append, List.nil_append]
  rw [decodeLoop]
  simpa using hbackslash

theorem decodeLoop_flatMap_escape (str : Text) :
    decodeLoop (str.flatMap escape ++ ['"']) = str := by
  induction str with
  | nil => rfl
  | cons c str ih =>
      rw [List.flatMap_cons, List.append_assoc]
      cases hrest : str.flatMap escape ++ ['"'] with
      | nil => simp at hrest
      | cons d rest => rw [decodeLoop_escape, ← hrest, ih]

theorem decodeString_stringLiteral (str : Text) : decodeString (stringLiteral str) = str :=
  decodeLoop_flatMap_escape str

/-! ### Numerals -/

/-- A decimal numeral starts with a zero only when it is `0`. -/
theorem toDigits_cons {number : Nat} {c : Char} {tail : Text}
    (hdigits : Nat.toDigits 10 number = c :: tail) (hzero : c = '0') : tail = [] := by
  induction number using Nat.strongRecOn generalizing c tail with
  | _ number ih =>
      by_cases hsmall : number < 10
      · rw [Nat.toDigits_of_lt_base hsmall] at hdigits
        exact ((List.cons.injEq _ _ _ _).mp hdigits).2.symm
      · rw [Nat.toDigits_of_base_le (by decide) (by omega)] at hdigits
        exfalso
        cases hfront : Nat.toDigits 10 (number / 10) with
        | nil => exact Nat.toDigits_ne_nil hfront
        | cons d rest =>
            rw [hfront, List.cons_append, List.cons.injEq] at hdigits
            -- the leading digit is that of `number / 10`, which is then `0` as well
            have hrest := ih (number / 10) (by omega) hfront (hdigits.1.trans hzero)
            have hvalue : Nat.ofDigitChars 10 (Nat.toDigits 10 (number / 10)) 0 = 0 := by
              rw [hfront, hrest, hdigits.1, hzero]
              rfl
            rw [Nat.ofDigitChars_ten_toDigits] at hvalue
            omega

theorem scanNumber_digits {digits rest : Text} (hdigits : ∀ c ∈ digits, isDigit c = true)
    (hrest : ∀ c, rest.head? = some c → c ≠ '.' ∧ isDigit c = false) (pos : Nat) (float : Bool) :
    scanNumber pos float (digits ++ rest) = .ok (pos + digits.length, float) := by
  induction digits generalizing pos with
  | nil =>
      cases rest with
      | nil => rfl
      | cons c rest =>
          obtain ⟨hdot, hdigit⟩ := hrest c rfl
          simp [scanNumber, hdot, hdigit]
  | cons c digits ih =>
      have hc := hdigits c (by simp)
      have hdot : c ≠ '.' := by
        rintro rfl
        revert hc
        decide
      have htail := ih (fun d hd => hdigits d (by simp [hd])) (pos + 1)
      simp only [List.cons_append, scanNumber, hdot, hc, ↓reduceIte, htail, List.length_cons]
      congr 2
      omega

/-- The digits of a number behind its sign, if it has one, up to the token. -/
theorem parseNumber_digits {sign : Text} (hsign : sign = [] ∨ sign = ['-']) (number : Nat)
    {rest : Text} (hrest : ∀ c, rest.head? = some c → c ≠ '.' ∧ isDigit c = false)
    (parse : JSONParse) (start : Nat) :
    parse.parseNumber (sign ++ Nat.toDigits 10 number ++ rest) start =
      .ok (parse.push (.scalar (.make .integer (sign ++ Nat.toDigits 10 number))),
        start + (sign ++ Nat.toDigits 10 number).length - 1) := by
  cases hdigits : Nat.toDigits 10 number with
  | nil => exact absurd hdigits Nat.toDigits_ne_nil
  | cons c tail =>
      have hall : ∀ d ∈ c :: tail, isDigit d = true := by
        intro d hd
        rw [← hdigits] at hd
        exact isDigit_of_mem_toDigits hd
      have hc : isDigit c = true := hall c (by simp)
      have hplus : c ≠ '+' := by rintro rfl; revert hc; decide
      have hminus : c ≠ '-' := by rintro rfl; revert hc; decide
      -- the loop stops right behind the digits, whether or not it starts behind a zero
      have hend : ∀ pos, numberEnd pos (c :: (tail ++ rest)) =
          .ok (pos + (c :: tail).length, false) := by
        intro pos
        by_cases hzero : c = '0'
        · have hnext : (tail ++ rest).head?.any isDigit = false := by
            rw [toDigits_cons hdigits hzero, List.nil_append]
            cases hhead : rest.head? with
            | none => rfl
            | some d => exact (hrest d hhead).2
          simp only [numberEnd, hzero, ↓reduceIte, hnext, Bool.false_eq_true]
          rw [scanNumber_digits (fun d hd => hall d (by simp [hd])) hrest, List.length_cons]
          congr 2
          omega
        · simp only [numberEnd, hzero, hc, ↓reduceIte]
          exact scanNumber_digits hall hrest pos false
      have hlast : ∀ k, k = (sign ++ c :: tail).length - 1 →
          ¬ (sign ++ c :: tail ++ rest)[k]? = some '.' := by
        rintro k rfl hdot
        have hindex : (sign ++ c :: tail).length - 1 < (sign ++ c :: tail).length := by simp
        rw [List.getElem?_append_left hindex, ← List.getLast?_eq_getElem?,
          List.getLast?_append_of_ne_nil _ (by simp)] at hdot
        have hdigit := hall '.' (List.mem_of_getLast? hdot)
        revert hdigit
        decide
      have htake : ∀ k, k = (sign ++ c :: tail).length →
          (sign ++ c :: tail ++ rest).take k = sign ++ c :: tail := by
        rintro k rfl
        exact List.take_left
      rcases hsign with rfl | rfl
      · have hdot := hlast (start + (c :: tail).length - 1 - start) (by simp)
        have htoken := htake (start + (c :: tail).length - start) (by simp)
        simp only [List.nil_append, List.cons_append] at hdot htoken ⊢
        simp only [parseNumber, List.head?_cons, Option.some.injEq, hplus, hminus, or_self,
          ↓reduceIte, Nat.sub_self, List.drop_zero, hend, hdot, htoken, Bool.false_eq_true]
      · have hdot := hlast (start + 1 + (c :: tail).length - 1 - start) (by simp; omega)
        have htoken := htake (start + 1 + (c :: tail).length - start) (by simp; omega)
        simp only [List.nil_append, List.cons_append] at hdot htoken ⊢
        simp only [parseNumber, List.head?_cons, or_true, ↓reduceIte, Nat.add_sub_cancel_left,
          List.drop_succ_cons, List.drop_zero, hend, hdot, htoken, Bool.false_eq_true]
        congr 2
        simp only [List.length_cons]
        omega

/-- The numeral of an integer, in front of anything that cannot go on with it, is one token. -/
theorem parseNumber_integer (number : Int) {rest : Text}
    (hrest : ∀ c, rest.head? = some c → c ≠ '.' ∧ isDigit c = false) (parse : JSONParse)
    (start : Nat) :
    parse.parseNumber (integerText number ++ rest) start =
      .ok (parse.push (.scalar (.make .integer (integerText number))),
        start + (integerText number).length - 1) := by
  cases number with
  | ofNat magnitude =>
      rw [Int.ofNat_eq_natCast, integerText_ofNat]
      exact parseNumber_digits (Or.inl rfl) magnitude hrest parse start
  | negSucc magnitude =>
      rw [integerText_negSucc]
      have hsign : ['-'] = [] ∨ ['-'] = ['-'] := Or.inr rfl
      exact parseNumber_digits hsign (magnitude + 1) hrest parse start

end JSONParse

end Liblw.Mime
