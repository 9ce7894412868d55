import Liblw.Mime.Grammar
import Mathlib.Data.List.TakeWhile

/-!
# What a number takes

The scanner of a number looks at its characters one after the other, but what it takes is told at
once: the sign, and the longest run of digits and dots behind it. The run has to be a numeral as a
whole; the scanner never takes a part of it.
-/

namespace Liblw.Mime

open JSONParse

def isNumeric (c : Char) : Bool := isDigit c || c = '.'

/-- The run is a numeral: digits that start with a zero only if it is their only one, and behind
them at most one dot with digits. -/
structure Numeral (run : Text) : Prop where
  dots : run.count '.' ≤ 1
  digit : run.head?.any isDigit = true
  zero : run.head? = some '0' → run.tail.head?.any isDigit = false
  last : run.getLast? ≠ some '.'

theorem isDigit_dot : isDigit '.' = false := by decide

theorem scanNumber_eq_ok_iff (text : Text) (pos : Nat) (float : Bool) (result : Nat × Bool) :
    scanNumber pos float text = .ok result ↔
      (text.takeWhile isNumeric).count '.' + float.toNat ≤ 1 ∧
        result = (pos + (text.takeWhile isNumeric).length,
          float || decide ('.' ∈ text.takeWhile isNumeric)) := by
  induction text generalizing pos float with
  | nil =>
      have hbound : float.toNat ≤ 1 := Bool.toNat_le float
      simp [scanNumber, hbound, eq_comm]
  | cons c text ih =>
      rw [scanNumber]
      by_cases hdot : c = '.'
      · subst hdot
        have htake : ('.' :: text).takeWhile isNumeric = '.' :: text.takeWhile isNumeric :=
          List.takeWhile_cons_of_pos (by decide)
        rw [if_pos rfl, htake, List.count_cons_self]
        cases float with
        | true =>
            rw [if_pos rfl]
            refine iff_of_false (by simp) ?_
            simp
        | false =>
            rw [if_neg Bool.false_ne_true, ih]
            simp [Nat.add_assoc, Nat.add_comm 1]
      · rw [if_neg hdot]
        by_cases hdigit : isDigit c = true
        · have htake : (c :: text).takeWhile isNumeric = c :: text.takeWhile isNumeric :=
            List.takeWhile_cons_of_pos (by simp [isNumeric, hdigit])
          have hne : '.' ≠ c := Ne.symm hdot
          rw [if_pos hdigit, ih, htake, List.count_cons_of_ne hdot]
          simp [hne, Nat.add_assoc, Nat.add_comm 1]
        · have htake : (c :: text).takeWhile isNumeric = [] :=
            List.takeWhile_cons_of_neg (by simp [isNumeric, hdigit, hdot])
          have hbound : float.toNat ≤ 1 := Bool.toNat_le float
          rw [if_neg hdigit, htake]
          simp [hbound, eq_comm]

theorem takeWhile_isNumeric_cons {c : Char} (hdigit : isDigit c = true) (text : Text) :
    (c :: text).takeWhile isNumeric = c :: text.takeWhile isNumeric :=
  List.takeWhile_cons_of_pos (by simp [isNumeric, hdigit])

/-- The first character of the run decides with the second whether the run is scanned at all. -/
theorem numberEnd_eq_ok_iff (text : Text) (pos : Nat) (result : Nat × Bool) :
    numberEnd pos text = .ok result ↔
      ((text.takeWhile isNumeric).count '.' ≤ 1 ∧
        (text.takeWhile isNumeric).head?.any isDigit = true ∧
        ((text.takeWhile isNumeric).head? = some '0' →
          (text.takeWhile isNumeric).tail.head?.any isDigit = false)) ∧
        result = (pos + (text.takeWhile isNumeric).length,
          decide ('.' ∈ text.takeWhile isNumeric)) := by
  cases text with
  | nil => simp [numberEnd]
  | cons c rest =>
      rw [numberEnd]
      by_cases hzero : c = '0'
      · subst hzero
        have hhead : (rest.takeWhile isNumeric).head?.any isDigit = rest.head?.any isDigit := by
          cases rest with
          | nil => rfl
          | cons d rest =>
              by_cases hd : isDigit d = true
              · rw [takeWhile_isNumeric_cons hd]
                rfl
              · cases hnumeric : isNumeric d with
                | true => rw [List.takeWhile_cons_of_pos hnumeric]; rfl
                | false =>
                    rw [List.takeWhile_cons_of_neg (by simp [hnumeric])]
                    simpa using hd
        rw [takeWhile_isNumeric_cons (by decide), if_pos rfl]
        by_cases hnext : rest.head?.any isDigit = true
        · rw [if_pos hnext]
          refine iff_of_false (by simp) ?_
          rintro ⟨⟨-, -, hfalse⟩, -⟩
          have := hfalse rfl
          rw [List.tail_cons, hhead, hnext] at this
          cases this
        · have hnone : rest.head?.any isDigit = false := by simpa using hnext
          have hdigit : isDigit '0' = true := by decide
          rw [if_neg hnext, scanNumber_eq_ok_iff]
          simp [hhead, hnone, hdigit, Nat.add_assoc, Nat.add_comm 1]
      · rw [if_neg hzero]
        by_cases hdigit : isDigit c = true
        · rw [if_pos hdigit, scanNumber_eq_ok_iff, takeWhile_isNumeric_cons hdigit]
          simp [hdigit, hzero]
        · rw [if_neg hdigit]
          refine iff_of_false (by simp) ?_
          rintro ⟨⟨-, hany, -⟩, -⟩
          cases hnumeric : isNumeric c with
          | true =>
              rw [List.takeWhile_cons_of_pos hnumeric] at hany
              exact hdigit (by simpa using hany)
          | false =>
              rw [List.takeWhile_cons_of_neg (by simp [hnumeric])] at hany
              cases hany

/-- The sign in front of a number, if it has one. -/
def signOf (str : Text) : Text :=
  if str.head? = some '+' ∨ str.head? = some '-' then str.take 1 else []

/-- The run of digits and dots behind the sign. -/
def runOf (str : Text) : Text := (str.drop (signOf str).length).takeWhile isNumeric

theorem signOf_append (str : Text) : signOf str ++ str.drop (signOf str).length = str := by
  unfold signOf
  split
  · cases str with
    | nil => rfl
    | cons c rest => rfl
  · rfl

theorem take_signOf_runOf (str : Text) :
    str.take ((signOf str).length + (runOf str).length) = signOf str ++ runOf str := by
  have hrun : runOf str <+: str.drop (signOf str).length := List.takeWhile_prefix _
  obtain ⟨rest, hrest⟩ := hrun
  have hstr : str = signOf str ++ runOf str ++ rest := by
    rw [List.append_assoc, hrest, signOf_append]
  calc
    str.take ((signOf str).length + (runOf str).length) =
        (signOf str ++ runOf str ++ rest).take ((signOf str).length + (runOf str).length) :=
      congrArg (List.take _) hstr
    _ = signOf str ++ runOf str := by rw [← List.length_append, List.take_left]

theorem length_signOf (str : Text) :
    (signOf str).length = if str.head? = some '+' ∨ str.head? = some '-' then 1 else 0 := by
  unfold signOf
  split
  · cases str with
    | nil => simp at *
    | cons c rest => rfl
  · rfl

/-- The character that the scanner looks at last is that of the run. -/
theorem getElem?_last_runOf {str : Text} (hrun : runOf str ≠ []) :
    str[(signOf str).length + (runOf str).length - 1]? = (runOf str).getLast? := by
  have hpos : 0 < (runOf str).length := List.length_pos_iff.mpr hrun
  have htake : (str.take ((signOf str).length + (runOf str).length))[(signOf str).length +
      (runOf str).length - 1]? = str[(signOf str).length + (runOf str).length - 1]? := by
    rw [List.getElem?_take_of_lt (by omega)]
  rw [← htake, take_signOf_runOf, List.getElem?_append_right (by omega),
    List.getLast?_eq_getElem?]
  congr 1
  omega

/-- **What a number takes.** The scanner succeeds exactly on the runs that are numerals, takes the
sign and the run, and tells a float by its dot. -/
theorem parseNumber_eq_ok_iff (parse : JSONParse) (str : Text) (start : Nat)
    (result : JSONParse × Nat) :
    parse.parseNumber str start = .ok result ↔
      Numeral (runOf str) ∧ result =
        (parse.push (.scalar (.make (if '.' ∈ runOf str then .float else .integer)
          (signOf str ++ runOf str))), start + ((signOf str ++ runOf str).length - 1)) := by
  have hpos : (if str.head? = some '+' ∨ str.head? = some '-' then start + 1 else start) =
      start + (signOf str).length := by
    rw [length_signOf]
    split
    · rfl
    · rfl
  unfold parseNumber
  simp only [hpos, Nat.add_sub_cancel_left]
  cases hend : numberEnd (start + (signOf str).length) (str.drop (signOf str).length) with
  | error fault =>
      refine iff_of_false (by simp) ?_
      rintro ⟨hnumeral, -⟩
      have hok := (numberEnd_eq_ok_iff (str.drop (signOf str).length)
        (start + (signOf str).length) _).mpr
        ⟨⟨hnumeral.dots, hnumeral.digit, hnumeral.zero⟩, rfl⟩
      rw [hend] at hok
      cases hok
  | ok found =>
      obtain ⟨⟨hdots, hdigit, hzero⟩, rfl⟩ := (numberEnd_eq_ok_iff _ _ _).mp hend
      change (runOf str).count '.' ≤ 1 at hdots
      change (runOf str).head?.any isDigit = true at hdigit
      change (runOf str).head? = some '0' → (runOf str).tail.head?.any isDigit = false at hzero
      have hrun : runOf str ≠ [] := by
        intro hnil
        rw [hnil] at hdigit
        cases hdigit
      have hlength : 0 < (runOf str).length := List.length_pos_iff.mpr hrun
      have hindex : start + (signOf str).length + (runOf str).length - 1 - start =
          (signOf str).length + (runOf str).length - 1 := by omega
      have htake : start + (signOf str).length + (runOf str).length - start =
          (signOf str).length + (runOf str).length := by omega
      have hlast : start + (signOf str).length + (runOf str).length - 1 =
          start + ((signOf str ++ runOf str).length - 1) := by
        rw [List.length_append]
        omega
      change (if str[start + (signOf str).length + (runOf str).length - 1 - start]? = some '.' then
          _ else Except.ok (parse.push (.scalar (.make
            (if decide ('.' ∈ runOf str) then JSONType.float else JSONType.integer)
            (str.take (start + (signOf str).length + (runOf str).length - start)))),
            start + (signOf str).length + (runOf str).length - 1)) = _ ↔ _
      rw [hindex, htake, hlast, getElem?_last_runOf hrun, take_signOf_runOf]
      by_cases hdot : (runOf str).getLast? = some '.'
      · rw [if_pos hdot]
        exact iff_of_false (by simp) fun hnumeral => hnumeral.1.last hdot
      · rw [if_neg hdot]
        simp only [decide_eq_true_eq, Except.ok.injEq]
        constructor
        · intro hresult
          exact ⟨⟨hdots, hdigit, hzero, hdot⟩, hresult.symm⟩
        · rintro ⟨-, hresult⟩
          exact hresult.symm

/-! ### Numerals of the grammar -/

theorem dot_notMem_of_digits {digits : Text} (hdigits : ∀ c ∈ digits, isDigit c = true) :
    '.' ∉ digits := by
  intro hmem
  have hdot := hdigits '.' hmem
  rw [isDigit_dot] at hdot
  cases hdot

/-- A text splits behind the digits it starts with. -/
theorem exists_digits_append (text : Text) :
    ∃ digits rest, text = digits ++ rest ∧ (∀ c ∈ digits, isDigit c = true) ∧
      ∀ c ∈ rest.head?, isDigit c = false := by
  refine ⟨text.takeWhile isDigit, text.dropWhile isDigit,
    List.takeWhile_append_dropWhile.symm, fun c hc => List.mem_takeWhile_imp hc, ?_⟩
  intro c hc
  have hhead := List.head?_dropWhile_not isDigit text
  rw [Option.mem_def.mp hc] at hhead
  exact hhead

/-- The run splits at its dot. -/
theorem exists_parts_of_numeral {run : Text} (hnumeric : ∀ c ∈ run, isNumeric c = true)
    (hnumeral : Numeral run) :
    ∃ whole fraction, WholePart whole ∧ FractionPart fraction ∧ run = whole ++ fraction := by
  obtain ⟨whole, fraction, rfl, hwhole, hnext⟩ := exists_digits_append run
  refine ⟨whole, fraction, ?_, ?_, rfl⟩
  · cases whole with
    | nil =>
        -- a run that starts with no digit is no numeral
        have hdigit := hnumeral.digit
        rw [List.nil_append] at hdigit
        cases hhead : fraction.head? with
        | none => simp [hhead] at hdigit
        | some c => simp [hhead, hnext c hhead] at hdigit
    | cons c tail =>
        by_cases hzero : c = '0'
        · left
          subst hzero
          have hsecond := hnumeral.zero rfl
          cases tail with
          | nil => rfl
          | cons d tail => simp [hwhole d (by simp)] at hsecond
        · exact Or.inr ⟨⟨by simp, hwhole⟩, by simpa using hzero⟩
  · cases fraction with
    | nil => exact Or.inl rfl
    | cons c digits =>
        right
        have hmem : ∀ d ∈ c :: digits, isNumeric d = true :=
          fun d hd => hnumeric d (List.mem_append_right _ hd)
        have hc : isDigit c = false := hnext c rfl
        have hdot : c = '.' := by simpa [isNumeric, hc] using hmem c List.mem_cons_self
        subst hdot
        refine ⟨digits, ⟨?_, ?_⟩, rfl⟩
        · rintro rfl
          apply hnumeral.last
          rw [List.getLast?_append_of_ne_nil _ (by simp)]
          rfl
        · intro d hd
          have hnum := hmem d (List.mem_cons_of_mem _ hd)
          by_contra hdigit
          have hsecond : d = '.' := by simpa [isNumeric, hdigit] using hnum
          subst hsecond
          have hpos : 0 < digits.count '.' := List.count_pos_iff.mpr hd
          have hcount := hnumeral.dots
          rw [List.count_append, List.count_cons_self] at hcount
          omega

theorem numeral_of_parts {whole fraction : Text} (hwhole : WholePart whole)
    (hfraction : FractionPart fraction) : Numeral (whole ++ fraction) := by
  have hdigits : Digits whole := by
    rcases hwhole with rfl | ⟨hdigits, -⟩
    · exact ⟨by simp, by simp [isDigit]⟩
    · exact hdigits
  have hnodot := dot_notMem_of_digits hdigits.2
  obtain ⟨c, tail, hcons⟩ := List.exists_cons_of_ne_nil hdigits.1
  refine ⟨?_, ?_, ?_, ?_⟩
  · rw [List.count_append, List.count_eq_zero.mpr hnodot]
    rcases hfraction with rfl | ⟨digits, hfraction, rfl⟩
    · simp
    · rw [List.count_cons_self, List.count_eq_zero.mpr (dot_notMem_of_digits hfraction.2)]
  · rw [hcons]
    simpa using hdigits.2 c (by rw [hcons]; simp)
  · intro hzero
    rcases hwhole with rfl | ⟨-, hhead⟩
    · rcases hfraction with rfl | ⟨digits, hfraction, rfl⟩
      · rfl
      · simp [isDigit_dot]
    · rw [hcons] at hzero hhead
      exact absurd hzero hhead
  · rcases hfraction with rfl | ⟨digits, hfraction, rfl⟩
    · rw [List.append_nil]
      intro hlast
      exact hnodot (List.mem_of_getLast? hlast)
    · rw [List.getLast?_append_of_ne_nil _ (by simp)]
      obtain ⟨d, rest, hdigits⟩ := List.exists_cons_of_ne_nil hfraction.1
      rw [hdigits, List.getLast?_cons_cons, ← hdigits]
      intro hlast
      exact dot_notMem_of_digits hfraction.2 (List.mem_of_getLast? hlast)

theorem numeric_of_parts {whole fraction : Text} (hwhole : WholePart whole)
    (hfraction : FractionPart fraction) : ∀ c ∈ whole ++ fraction, isNumeric c = true := by
  intro c hc
  rcases List.mem_append.mp hc with hc | hc
  · rcases hwhole with rfl | ⟨hdigits, -⟩
    · obtain rfl := List.mem_singleton.mp hc
      decide
    · simp [isNumeric, hdigits.2 c hc]
  · rcases hfraction with rfl | ⟨digits, hfraction, rfl⟩
    · cases hc
    · rcases List.mem_cons.mp hc with rfl | hc
      · decide
      · simp [isNumeric, hfraction.2 c hc]

end Liblw.Mime
