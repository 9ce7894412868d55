import Liblw.Proof.IntegerReads

/-!
# The token of a number

What the scanner of a number makes of a text from a position on, and what the getters make of its
token. The scanner never stops inside a run of digits and dots, so it is the run that decides, and a
getter that reads the token once more comes to the same digits.
-/

namespace Liblw.Mime

/-- The run is a numeral: a zero or digits that start with another one, and behind them nothing or a
dot and digits. -/
def NumberRun (run : Text) : Prop :=
  ∃ whole fraction, WholePart whole ∧ FractionPart fraction ∧ run = whole ++ fraction

/-- The number that a run of digits is with the sign. -/
def signedNumber (sign run : Text) : Int :=
  if sign = ['-'] then -(Nat.ofDigitChars 10 run 0 : Int) else (Nat.ofDigitChars 10 run 0 : Int)

def Throws {α : Type} (result : Result α) : Prop := ∃ error, result = .error (.thrown error)

/-- The getters return the number if 64 bits are enough for it, and throw otherwise. One without a
sign is not got from a token with a minus sign. -/
structure GetsNumber (token : DeserializationToken) (sign : Text) (number : Int) : Prop where
  signed : -2 ^ 63 ≤ number → number < 2 ^ 63 → token.getSignedInteger = .ok number
  signed_throws : ¬ (-2 ^ 63 ≤ number ∧ number < 2 ^ 63) → Throws token.getSignedInteger
  unsigned : sign ≠ ['-'] → number < 2 ^ 64 → token.getUnsignedInteger = .ok number
  unsigned_throws : ¬ (sign ≠ ['-'] ∧ number < 2 ^ 64) → Throws token.getUnsignedInteger

theorem numberRun_iff {run : Text} (hnumeric : ∀ c ∈ run, isNumeric c = true) :
    NumberRun run ↔ Numeral run := by
  constructor
  · rintro ⟨whole, fraction, hwhole, hfraction, rfl⟩
    exact numeral_of_parts hwhole hfraction
  · exact exists_parts_of_numeral hnumeric

/-! ### Errors of the scanner -/

def IsMalformed (fault : Fault) : Prop := ∃ message, fault = .thrown ⟨.invalidArgument, message⟩

theorem isMalformed_scanNumber {pos : Nat} {float : Bool} {text : Text} {fault : Fault}
    (hscan : JSONParse.scanNumber pos float text = .error fault) : IsMalformed fault := by
  induction text generalizing pos float with
  | nil => cases hscan
  | cons c text ih =>
      rw [JSONParse.scanNumber] at hscan
      split_ifs at hscan
      · exact ⟨_, (Except.error.inj hscan).symm⟩
      · exact ih hscan
      · exact ih hscan

theorem isMalformed_numberEnd {pos : Nat} {text : Text} {fault : Fault}
    (hend : JSONParse.numberEnd pos text = .error fault) : IsMalformed fault := by
  cases text with
  | nil => exact ⟨_, (Except.error.inj hend).symm⟩
  | cons c text =>
      rw [JSONParse.numberEnd] at hend
      split_ifs at hend
      · exact ⟨_, (Except.error.inj hend).symm⟩
      · exact isMalformed_scanNumber hend
      · exact isMalformed_scanNumber hend
      · exact ⟨_, (Except.error.inj hend).symm⟩

theorem isMalformed_parseNumber {parse : JSONParse} {str : Text} {start : Nat} {fault : Fault}
    (hparse : parse.parseNumber str start = .error fault) : IsMalformed fault := by
  unfold JSONParse.parseNumber at hparse
  simp only at hparse
  split at hparse
  · rename_i hend
    rw [← Except.error.inj hparse]
    exact isMalformed_numberEnd hend
  · split_ifs at hparse
    exact ⟨_, (Except.error.inj hparse).symm⟩

/-! ### The getters -/

section Getters

variable {sign run : Text}

theorem numeralValue_signed (hsign : SignPart sign) (hdigits : IsDigits run) :
    numeralValue (DeserializationToken.skipPlus (sign ++ run)) = signedNumber sign run := by
  obtain ⟨c, tail, rfl, hplus, hminus⟩ := hdigits.exists_cons
  rcases hsign with rfl | rfl | rfl
  · have hskip : DeserializationToken.skipPlus (c :: tail) = c :: tail := by
      rw [DeserializationToken.skipPlus]
      rintro rest hsame
      exact hplus (List.cons.inj hsame).1
    rw [List.nil_append, hskip, numeralValue_of_isDigits hdigits]
    rfl
  · rfl
  · exact numeralValue_of_isDigits hdigits

theorem head?_sign_append (hsign : SignPart sign) (hdigits : IsDigits run) :
    (sign ++ run).head? = some '-' ↔ sign = ['-'] := by
  obtain ⟨c, tail, rfl, -, hminus⟩ := hdigits.exists_cons
  rcases hsign with rfl | rfl | rfl
  · simp [hminus]
  · simp
  · simp

theorem signedNumber_nonneg (hsign : sign ≠ ['-']) : 0 ≤ signedNumber sign run := by
  rw [signedNumber, if_neg hsign]
  exact Int.natCast_nonneg _

/-- The token of digits behind a sign gives its number or throws. -/
theorem getsNumber (hsign : SignPart sign) (hdigits : IsDigits run) :
    GetsNumber (.scalar (.make .integer (sign ++ run))) sign (signedNumber sign run) := by
  have htoken : IntegerToken (.make .integer (sign ++ run)) := ⟨rfl, sign, run, hsign, hdigits, rfl⟩
  have hnumber : (JSONScalarToken.make .integer (sign ++ run)).number = signedNumber sign run :=
    numeralValue_signed hsign hdigits
  have hhead := head?_sign_append hsign hdigits
  let int64 : IntegralType := ⟨true, 64, by decide⟩
  let uint64 : IntegralType := ⟨false, 64, by decide⟩
  have hsigned := @IntegerToken.getSignedInteger int64 _ htoken rfl
  rw [hnumber] at hsigned
  refine ⟨?_, ?_, ?_, ?_⟩
  · intro hlower hupper
    rw [hsigned, if_pos ⟨hlower, hupper⟩]
  · intro hrange
    have hholds : ¬ int64.widest.Holds (signedNumber sign run) := hrange
    rw [hsigned, if_neg hholds]
    exact ⟨_, rfl⟩
  · intro hpositive hupper
    have hholds : uint64.widest.Holds (signedNumber sign run) :=
      ⟨signedNumber_nonneg hpositive, hupper⟩
    rcases htoken.numeral.2 with ⟨hnegative, -⟩ | ⟨hfree, hrest⟩
    · exact absurd (hhead.mp hnegative) hpositive
    · rw [@IntegerToken.getUnsignedInteger uint64 _ htoken rfl hfree hrest, hnumber, if_pos hholds]
  · intro hrange
    rcases htoken.numeral.2 with ⟨hnegative, -⟩ | ⟨hfree, hrest⟩
    · rw [getUnsignedInteger_of_minus hnegative]
      exact ⟨_, rfl⟩
    · have hpositive : sign ≠ ['-'] := mt hhead.mpr hfree
      have hholds : ¬ uint64.widest.Holds (signedNumber sign run) :=
        fun hholds => hrange ⟨hpositive, hholds.2⟩
      rw [@IntegerToken.getUnsignedInteger uint64 _ htoken rfl hfree hrest, hnumber, if_neg hholds]
      exact ⟨_, rfl⟩

end Getters

/-! ### The scanner -/

/-- The token that the scanner makes of a number, and the index that it returns. -/
structure NumberToken (text : Text) (pos : Nat) (sign run : Text) (token : JSONScalarToken)
    (last : Nat) : Prop where
  spelled : token.token = sign ++ run
  float : token.type = .float ↔ '.' ∈ run
  integer : token.type = .integer ↔ '.' ∉ run
  last_eq : last + 1 = pos + (sign.length + run.length)
  last_char : text[last]? = run.getLast?
  gets : token.type = .integer → GetsNumber (.scalar token) sign (signedNumber sign run)

theorem numberToken_of_numeral {text : Text} {pos : Nat}
    (hnumeral : Numeral (runOf (text.drop pos))) :
    let sign := signOf (text.drop pos)
    let run := runOf (text.drop pos)
    NumberToken text pos sign run (.make (if '.' ∈ run then .float else .integer) (sign ++ run))
      (pos + ((sign ++ run).length - 1)) := by
  intro sign run
  obtain ⟨c, tail, hcons, -⟩ := hnumeral.exists_cons
  have hpositive : 0 < run.length := by
    rw [show run = c :: tail from hcons]
    exact Nat.succ_pos _
  refine ⟨rfl, ?_, ?_, ?_, ?_, ?_⟩
  · change (if '.' ∈ run then JSONType.float else .integer) = .float ↔ _
    split_ifs with hdot
    · exact iff_of_true rfl hdot
    · exact iff_of_false nofun hdot
  · change (if '.' ∈ run then JSONType.float else .integer) = .integer ↔ _
    split_ifs with hdot
    · exact iff_of_false nofun (not_not.mpr hdot)
    · exact iff_of_true rfl hdot
  · rw [List.length_append]
    omega
  · have hchar := @getElem?_last_runOf (text.drop pos) (List.ne_nil_of_length_pos hpositive)
    rw [List.getElem?_drop] at hchar
    rw [List.length_append]
    exact hchar
  · intro htype
    have hdot : '.' ∉ run := by
      intro hdot
      rw [if_pos hdot] at htype
      cases htype
    rw [if_neg hdot]
    exact getsNumber (signPart_signOf _)
      (isDigits_of_numeral hnumeral (numeric_runOf (text.drop pos)) hdot)

/-- **The token of a number.** The scanner succeeds exactly if the run of digits and dots behind the
sign is a numeral, and throws otherwise. It makes a token of the sign and the run, which is a float
exactly if the run has a dot, and returns the index of the last character of the run. From an
integer token the getters read its number wherever 64 bits are enough for it. -/
theorem parseNumber_token (parse : JSONParse) (text : Text) (pos : Nat) :
    let sign := signOf (text.drop pos)
    let run := runOf (text.drop pos)
    let result := parse.parseNumber (text.drop pos) pos
    ((∃ after last, result = .ok (after, last)) ↔ NumberRun run) ∧
      (¬ NumberRun run → Throws result) ∧
      ∀ after last, result = .ok (after, last) →
        ∃ token, after = parse.push (.scalar token) ∧ NumberToken text pos sign run token last := by
  intro sign run result
  have hrun : NumberRun run ↔ Numeral run := numberRun_iff (numeric_runOf _)
  have hok := parseNumber_eq_ok_iff parse (text.drop pos) pos
  refine ⟨?_, ?_, ?_⟩
  · rw [hrun]
    constructor
    · rintro ⟨after, last, hresult⟩
      exact ((hok _).mp hresult).1
    · intro hnumeral
      exact ⟨_, _, (hok _).mpr ⟨hnumeral, rfl⟩⟩
  · intro hmalformed
    cases hresult : result with
    | ok found => exact absurd (hrun.mpr ((hok found).mp hresult).1) hmalformed
    | error fault =>
        obtain ⟨message, rfl⟩ := isMalformed_parseNumber hresult
        exact ⟨_, rfl⟩
  · intro after last hresult
    obtain ⟨hnumeral, hfound⟩ := (hok _).mp hresult
    rw [Prod.mk.injEq] at hfound
    obtain ⟨rfl, rfl⟩ := hfound
    exact ⟨_, rfl, numberToken_of_numeral hnumeral⟩

end Liblw.Mime
