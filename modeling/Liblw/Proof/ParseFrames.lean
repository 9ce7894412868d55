import Liblw.Mime.Frames
import Liblw.Proof.ParseTokens

/-!
# The parser follows the frames

The stack of tokens is always a sequence of frames: a list, an object, an object under a string
key, or an object under a string key and a colon. Every round of the loop does to the stack what the
machine does to the frames, and throws `InvalidArgument` exactly where the machine refuses.
-/

namespace Liblw.Mime

open JSONParse

/-- The stack holds these frames. -/
inductive Holds : List Frame → List JSONToken → Prop where
  | empty : Holds [] []
  | list {frames : List Frame} {stack : List JSONToken} (elements : List DeserializationToken)
      (hbelow : Holds frames stack) : Holds (.list :: frames) (.value (.list elements) :: stack)
  | object {frames : List Frame} {stack : List JSONToken}
      (elements : List (Text × DeserializationToken)) (hbelow : Holds frames stack) :
      Holds (.object (elements.map Prod.fst) :: frames) (.value (.object elements) :: stack)
  | key {frames : List Frame} {stack : List JSONToken}
      (elements : List (Text × DeserializationToken)) {token : JSONScalarToken}
      (htype : token.type = .string) (hbelow : Holds frames stack) :
      Holds (.key (elements.map Prod.fst) token.token.tail.dropLast :: frames)
        (.value (.scalar token) :: .value (.object elements) :: stack)
  | member {frames : List Frame} {stack : List JSONToken}
      (elements : List (Text × DeserializationToken)) {token : JSONScalarToken}
      (htype : token.type = .string) (hbelow : Holds frames stack) :
      Holds (.member (elements.map Prod.fst) token.token.tail.dropLast :: frames)
        (.char ':' :: .value (.scalar token) :: .value (.object elements) :: stack)

/-- The call returns a value or throws `InvalidArgument`, and does nothing else. -/
def WellBehaved {α : Type} (result : Result α) : Prop :=
  (∃ value, result = .ok value) ∨
    ∃ message, result = .error (.thrown ⟨.invalidArgument, message⟩)

/-- A result of the parser answers to a verdict of the machine. -/
def Answers (result : Result JSONParse) : Verdict → Prop
  | .next frames => ∃ stack, result = .ok ⟨stack, none⟩ ∧ Holds frames stack
  | .complete => ∃ token, result = .ok ⟨[], some (.value token)⟩
  | .refused => ∃ message, result = .error (.thrown ⟨.invalidArgument, message⟩)
  | .defect => ¬ WellBehaved result

theorem not_wellBehaved_error {α : Type} {fault : Fault}
    (hfault : ∀ message, fault ≠ .thrown ⟨.invalidArgument, message⟩) :
    ¬ WellBehaved (.error fault : Result α) := by
  rintro (⟨value, hvalue⟩ | ⟨message, hmessage⟩)
  · cases hvalue
  · exact hfault message (by simpa using hmessage)

/-- A token and the raw text by which the machine knows it, if it is a string. -/
def HasRaw (token : DeserializationToken) (raw : Option Text) : Prop :=
  match raw with
  | some key => ∃ scalar, token = .scalar scalar ∧ scalar.type = .string ∧
      scalar.token.tail.dropLast = key
  | none => token.isString = false

/-- Popping a complete value does to the stack what `finishValue` does to the frames. -/
theorem answers_popTop {frames : List Frame} {stack : List JSONToken} (hholds : Holds frames stack)
    {token : DeserializationToken} {raw : Option Text} (hraw : HasRaw token raw) (i : Nat) :
    Answers ((JSONParse.push ⟨stack, none⟩ token).popTop i) (finishValue raw frames) := by
  cases hholds with
  | empty => exact ⟨token, rfl⟩
  | list elements hbelow => exact ⟨_, rfl, .list _ hbelow⟩
  | object elements hbelow =>
      cases raw with
      | none =>
          have hstring : token.isString = false := hraw
          simp only [popTop, JSONParse.push, hstring, Bool.false_eq_true, ↓reduceIte]
          exact ⟨_, rfl⟩
      | some key =>
          obtain ⟨scalar, rfl, htype, rfl⟩ := hraw
          have hstring : (DeserializationToken.scalar scalar).isString = true := by
            simp [DeserializationToken.isString, DeserializationToken.type, htype]
          refine ⟨_, ?_, .key elements htype hbelow⟩
          simp only [popTop, JSONParse.push, hstring, ↓reduceIte]
  | key elements htype hbelow => exact not_wellBehaved_error (by simp)
  | member elements htype hbelow =>
      rename_i frames stack scalar
      by_cases hmem : scalar.token.tail.dropLast ∈ elements.map Prod.fst
      · have hlookup := (lookup_isSome_iff elements _).mpr hmem
        have hdefect : finishValue raw (.member (elements.map Prod.fst)
            scalar.token.tail.dropLast :: frames) = .defect := if_pos hmem
        rw [hdefect]
        have hthrows : ∃ message, (JSONParse.push ⟨.char ':' :: .value (.scalar scalar) ::
            .value (.object elements) :: stack, none⟩ token).popTop i =
              .error (.thrown ⟨.failedPrecondition, message⟩) := by
          simp only [popTop, JSONParse.push, ↓reduceIte, popPair, JSONParse.insert, hlookup]
          exact ⟨_, rfl⟩
        obtain ⟨message, hthrows⟩ := hthrows
        rw [hthrows]
        exact not_wellBehaved_error (by simp)
      · have hlookup : ¬ (elements.lookup scalar.token.tail.dropLast).isSome = true :=
          fun hsome => hmem ((lookup_isSome_iff elements _).mp hsome)
        have hnext : finishValue raw (.member (elements.map Prod.fst)
            scalar.token.tail.dropLast :: frames) =
              .next (.object (elements.map Prod.fst ++ [scalar.token.tail.dropLast]) :: frames) :=
          if_neg hmem
        rw [hnext]
        have hholds := Holds.object (elements ++ [(scalar.token.tail.dropLast, token)]) hbelow
        rw [List.map_append, List.map_singleton] at hholds
        refine ⟨_, ?_, hholds⟩
        simp only [popTop, JSONParse.push, ↓reduceIte, popPair, JSONParse.insert, hlookup]
        rfl

/-! ### The scanners do not care where they start -/

theorem closingQuote_shift (text : Text) (i : Nat) :
    closingQuote (i + 1) text = (closingQuote 1 text).map (i + ·) := by
  have hgen : ∀ j, closingQuote (i + j) text = (closingQuote j text).map (i + ·) := by
    induction text with
    | nil => intro j; rfl
    | cons c text ih =>
        intro j
        simp only [closingQuote]
        split_ifs
        · exact ih (j + 1)
        · rfl
        · exact ih (j + 1)
  exact hgen 1

/-- A scan succeeds from every start position, with one length and type, or from none. -/
theorem scanNumber_dichotomy (text : Text) (float : Bool) :
    (∃ length type, ∀ pos, scanNumber pos float text = .ok (pos + length, type)) ∨
      ∀ pos, ∃ message, scanNumber pos float text =
        .error (.thrown ⟨.invalidArgument, message⟩) := by
  induction text generalizing float with
  | nil => exact Or.inl ⟨0, float, fun pos => rfl⟩
  | cons c text ih =>
      have hlift : ∀ next, (∃ length type, ∀ pos,
            scanNumber (pos + 1) next text = .ok (pos + length, type)) ∨
          ∀ pos, ∃ message, scanNumber (pos + 1) next text =
            .error (.thrown ⟨.invalidArgument, message⟩) := by
        intro next
        rcases ih next with ⟨length, type, hok⟩ | herror
        · exact Or.inl ⟨length + 1, type, fun pos => by rw [hok]; congr 2; omega⟩
        · exact Or.inr fun pos => herror (pos + 1)
      simp only [scanNumber]
      split_ifs
      · exact Or.inr fun pos => ⟨_, rfl⟩
      · exact hlift true
      · exact hlift float
      · exact Or.inl ⟨0, float, fun pos => rfl⟩

/-- Past its sign a number has at least one character, wherever it starts. -/
theorem numberEnd_dichotomy (text : Text) :
    (∃ length float, ∀ pos, numberEnd pos text = .ok (pos + (length + 1), float)) ∨
      ∀ pos, ∃ message, numberEnd pos text = .error (.thrown ⟨.invalidArgument, message⟩) := by
  cases text with
  | nil => exact Or.inr fun pos => ⟨_, rfl⟩
  | cons c rest =>
      have hscan : (∃ length float, ∀ pos, scanNumber (pos + 1) false rest =
            .ok (pos + (length + 1), float)) ∨
          ∀ pos, ∃ message, scanNumber (pos + 1) false rest =
            .error (.thrown ⟨.invalidArgument, message⟩) := by
        rcases scanNumber_dichotomy rest false with ⟨length, float, hok⟩ | herror
        · exact Or.inl ⟨length, float, fun pos => by rw [hok]; congr 2; omega⟩
        · exact Or.inr fun pos => herror (pos + 1)
      simp only [numberEnd]
      by_cases hzero : c = '0'
      · simp only [hzero, ↓reduceIte]
        by_cases hnext : rest.head?.any isDigit = true
        · simp only [hnext, ↓reduceIte]
          exact Or.inr fun pos => ⟨_, rfl⟩
        · simpa only [hnext, Bool.false_eq_true, ↓reduceIte] using hscan
      · simp only [hzero, ↓reduceIte]
        by_cases hdigit : isDigit c = true
        · have hdot : c ≠ '.' := by
            rintro rfl
            revert hdigit
            decide
          simpa only [hdigit, ↓reduceIte, scanNumber, hdot] using hscan
        · simp only [hdigit, Bool.false_eq_true, ↓reduceIte]
          exact Or.inr fun pos => ⟨_, rfl⟩

/-- A number is scanned to one token from every start and on top of every stack, or nowhere. -/
theorem parseNumber_dichotomy (str : Text) :
    (∃ length token, JSONScalarToken.type token ≠ .string ∧ ∀ parse start,
        parseNumber parse str start = .ok (parse.push (.scalar token), start + length)) ∨
      ∀ parse start, ∃ message,
        parseNumber parse str start = .error (.thrown ⟨.invalidArgument, message⟩) := by
  let sign : Nat := if str.head? = some '+' ∨ str.head? = some '-' then 1 else 0
  have hpos : ∀ start, (if str.head? = some '+' ∨ str.head? = some '-' then start + 1 else start) =
      start + sign := by
    intro start
    show _ = start + if _ then 1 else 0
    split_ifs <;> rfl
  rcases numberEnd_dichotomy (str.drop sign) with ⟨length, float, hok⟩ | herror
  · by_cases hdot : str[sign + length]? = some '.'
    · refine Or.inr fun parse start => ?_
      have hindex : start + sign + (length + 1) - 1 - start = sign + length := by omega
      simp only [parseNumber, hpos, Nat.add_sub_cancel_left, hok, hindex, hdot, ↓reduceIte]
      exact ⟨_, rfl⟩
    · refine Or.inl ⟨sign + length, .make (if float then .float else .integer)
        (str.take (sign + length + 1)), ?_, fun parse start => ?_⟩
      · cases float <;> simp [JSONScalarToken.make]
      · have htake : start + sign + (length + 1) - start = sign + length + 1 := by omega
        have hlast : start + sign + (length + 1) - 1 = start + (sign + length) := by omega
        simp only [parseNumber, hpos, Nat.add_sub_cancel_left, hok, hlast, hdot, ↓reduceIte, htake]
  · refine Or.inr fun parse start => ?_
    obtain ⟨message, hmessage⟩ := herror (start + sign)
    refine ⟨message, ?_⟩
    simp only [parseNumber, hpos, Nat.add_sub_cancel_left, hmessage]

/-! ### One round -/

/-- A round answers to a verdict and leaves `i` on the character `last`. -/
def RoundAnswers (result : Result (JSONParse × Nat)) (last : Nat) (verdict : Verdict) : Prop :=
  ∃ state, result = state.map (·, last) ∧ Answers state verdict

theorem roundAnswers_refused {result : Result (JSONParse × Nat)} {last : Nat} {message : String}
    (hresult : result = .error (.thrown ⟨.invalidArgument, message⟩)) :
    RoundAnswers result last .refused :=
  ⟨.error (.thrown ⟨.invalidArgument, message⟩), hresult, message, rfl⟩

theorem roundAnswers_emptyStackTop {result : Result (JSONParse × Nat)} {last : Nat}
    (hresult : result = .error (.undefined .emptyStackTop)) :
    RoundAnswers result last .defect :=
  ⟨.error (.undefined .emptyStackTop), hresult, not_wellBehaved_error (by simp)⟩

/-- A scalar that its scanner has pushed. -/
theorem roundAnswers_popScanned {frames : List Frame} {stack : List JSONToken}
    (hholds : Holds frames stack) {token : DeserializationToken} {raw : Option Text}
    (hraw : HasRaw token raw) (last : Nat) :
    RoundAnswers (popScanned (.ok (JSONParse.push ⟨stack, none⟩ token, last))) last
      (finishValue raw frames) :=
  ⟨_, rfl, answers_popTop hholds hraw last⟩

theorem roundAnswers_closeObject {frames : List Frame} {stack : List JSONToken}
    (hholds : Holds frames stack) (c : Char) (i : Nat) :
    RoundAnswers (close ⟨stack, none⟩ isObjectToken c i) i (advance frames .closeObject) := by
  cases hholds with
  | empty => exact roundAnswers_emptyStackTop rfl
  | list elements hbelow => exact roundAnswers_refused rfl
  | object elements hbelow =>
      have hraw : HasRaw (.object elements) none := rfl
      exact ⟨_, rfl, answers_popTop hbelow hraw i⟩
  | key elements htype hbelow => exact roundAnswers_refused rfl
  | member elements htype hbelow => exact roundAnswers_refused rfl

theorem roundAnswers_closeList {frames : List Frame} {stack : List JSONToken}
    (hholds : Holds frames stack) (c : Char) (i : Nat) :
    RoundAnswers (close ⟨stack, none⟩ isListToken c i) i (advance frames .closeList) := by
  cases hholds with
  | empty => exact roundAnswers_emptyStackTop rfl
  | list elements hbelow =>
      have hraw : HasRaw (.list elements) none := rfl
      exact ⟨_, rfl, answers_popTop hbelow hraw i⟩
  | object elements hbelow => exact roundAnswers_refused rfl
  | key elements htype hbelow => exact roundAnswers_refused rfl
  | member elements htype hbelow => exact roundAnswers_refused rfl

theorem roundAnswers_colon {frames : List Frame} {stack : List JSONToken}
    (hholds : Holds frames stack) (rest : Text) (i : Nat) :
    RoundAnswers (updateChar ⟨stack, none⟩ ':' (':' :: rest) i) i (advance frames .colon) := by
  cases hholds with
  | empty => exact roundAnswers_refused rfl
  | list elements hbelow => exact roundAnswers_refused rfl
  | object elements hbelow => exact roundAnswers_refused rfl
  | key elements htype hbelow =>
      exact ⟨.ok ⟨_, none⟩, rfl, _, rfl, .member elements htype hbelow⟩
  | member elements htype hbelow => exact roundAnswers_refused rfl

theorem roundAnswers_comma {frames : List Frame} {stack : List JSONToken}
    (hholds : Holds frames stack) (rest : Text) (i : Nat) :
    RoundAnswers (updateChar ⟨stack, none⟩ ',' (',' :: rest) i) i (advance frames .comma) := by
  cases hholds with
  | empty => exact roundAnswers_emptyStackTop rfl
  | list elements hbelow => exact ⟨.ok ⟨_, none⟩, rfl, _, rfl, .list elements hbelow⟩
  | object elements hbelow => exact ⟨.ok ⟨_, none⟩, rfl, _, rfl, .object elements hbelow⟩
  | key elements htype hbelow => exact roundAnswers_refused rfl
  | member elements htype hbelow => exact roundAnswers_refused rfl

theorem roundAnswers_string {frames : List Frame} {stack : List JSONToken}
    (hholds : Holds frames stack) (rest : Text) (i : Nat) :
    RoundAnswers (popScanned (parseString ⟨stack, none⟩ ('"' :: rest) i))
      (i + ((lexeme ('"' :: rest)).2 - 1)) (advance frames (lexeme ('"' :: rest)).1) := by
  have hshift := closingQuote_shift rest i
  simp only [lexeme, Char.reduceEq, ↓reduceIte]
  cases hquote : closingQuote 1 rest with
  | none =>
      rw [hquote, Option.map_none] at hshift
      simp only [parseString, List.tail_cons, hshift]
      exact roundAnswers_refused rfl
  | some last =>
      rw [hquote, Option.map_some] at hshift
      have hlength : i + last - i + 1 = last + 1 := by omega
      simp only [parseString, List.tail_cons, hshift, hlength, Nat.add_sub_cancel]
      have hraw : HasRaw (.scalar (.make .string (('"' :: rest).take (last + 1))))
          (some (('"' :: rest).take (last + 1)).tail.dropLast) := ⟨_, rfl, rfl, rfl⟩
      exact roundAnswers_popScanned hholds hraw (i + last)

theorem hasRaw_of_type {token : JSONScalarToken} (htype : token.type ≠ .string) :
    HasRaw (.scalar token) none := by
  simp [HasRaw, DeserializationToken.isString, DeserializationToken.type, htype]

theorem keyword_spec {str rest : Text} {token : JSONScalarToken}
    (hkeyword : keyword str = some (token, rest)) :
    token.type ≠ .string ∧ rest.length < str.length := by
  unfold keyword at hkeyword
  split_ifs at hkeyword with htrue hfalse hnull
  · obtain ⟨rfl, rfl⟩ := Prod.mk.inj (Option.some.inj hkeyword)
    have hlength : 4 ≤ str.length := (List.isPrefixOf_iff_prefix.mp htrue).length_le
    exact ⟨by simp [JSONScalarToken.make], by rw [List.length_drop]; omega⟩
  · obtain ⟨rfl, rfl⟩ := Prod.mk.inj (Option.some.inj hkeyword)
    have hlength : 5 ≤ str.length := (List.isPrefixOf_iff_prefix.mp hfalse).length_le
    exact ⟨by simp [JSONScalarToken.make], by rw [List.length_drop]; omega⟩
  · obtain ⟨rfl, rfl⟩ := Prod.mk.inj (Option.some.inj hkeyword)
    have hlength : 4 ≤ str.length := (List.isPrefixOf_iff_prefix.mp hnull).length_le
    exact ⟨by simp [JSONScalarToken.make], by rw [List.length_drop]; omega⟩

theorem roundAnswers_keyword {frames : List Frame} {stack : List JSONToken}
    (hholds : Holds frames stack) (str : Text) (i : Nat) :
    RoundAnswers (popScanned (parseKeyword ⟨stack, none⟩ str i))
      (i + ((keywordLexeme str).2 - 1)) (advance frames (keywordLexeme str).1) := by
  cases hkeyword : keyword str with
  | none =>
      simp only [parseKeyword, keywordLexeme, hkeyword]
      exact roundAnswers_refused rfl
  | some found =>
      obtain ⟨token, rest⟩ := found
      obtain ⟨htype, hlength⟩ := keyword_spec hkeyword
      cases rest with
      | nil =>
          simp only [parseKeyword, keywordLexeme, hkeyword]
          exact ⟨.error (.undefined .readPastView), rfl, not_wellBehaved_error (by simp)⟩
      | cons d tail =>
          simp only [parseKeyword, keywordLexeme, hkeyword]
          by_cases hmore : (isAlnum d || d = '_') = true
          · simp only [hmore, ↓reduceIte]
            exact roundAnswers_refused rfl
          · have hlast : i + (str.length - (tail.length + 1)) - 1 =
                i + (str.length - (tail.length + 1) - 1) := by
              rw [List.length_cons] at hlength
              omega
            simp only [hmore, Bool.false_eq_true, ↓reduceIte, hlast]
            exact roundAnswers_popScanned hholds (hasRaw_of_type htype) _

theorem roundAnswers_number {frames : List Frame} {stack : List JSONToken}
    (hholds : Holds frames stack) (str : Text) (i : Nat) :
    RoundAnswers (popScanned (parseNumber ⟨stack, none⟩ str i))
      (i + ((numberLexeme str).2 - 1)) (advance frames (numberLexeme str).1) := by
  rcases parseNumber_dichotomy str with ⟨length, token, htype, hok⟩ | herror
  · simp only [numberLexeme, hok, Nat.zero_add, Nat.add_sub_cancel]
    exact roundAnswers_popScanned hholds (hasRaw_of_type htype) _
  · obtain ⟨message, hmessage⟩ := herror ⟨stack, none⟩ i
    obtain ⟨_, hmake⟩ := herror JSONParse.make 0
    simp only [numberLexeme, hmessage, hmake]
    exact roundAnswers_refused rfl

/-- **One round of the loop.** On every stack of frames the round does what the machine does, and it
leaves `i` on the last character of the lexeme. -/
theorem roundAnswers_updateChar {frames : List Frame} {stack : List JSONToken}
    (hholds : Holds frames stack) (c : Char) (rest : Text) (i : Nat) :
    RoundAnswers (updateChar ⟨stack, none⟩ c (c :: rest) i)
      (i + ((lexeme (c :: rest)).2 - 1)) (advance frames (lexeme (c :: rest)).1) := by
  by_cases hopenObject : c = '{'
  · subst hopenObject
    exact ⟨.ok _, rfl, _, rfl, .object [] hholds⟩
  by_cases hcloseObject : c = '}'
  · subst hcloseObject
    exact roundAnswers_closeObject hholds '}' i
  by_cases hopenList : c = '['
  · subst hopenList
    exact ⟨.ok _, rfl, _, rfl, .list [] hholds⟩
  by_cases hcloseList : c = ']'
  · subst hcloseList
    exact roundAnswers_closeList hholds ']' i
  by_cases hcolon : c = ':'
  · subst hcolon
    exact roundAnswers_colon hholds rest i
  by_cases hcomma : c = ','
  · subst hcomma
    exact roundAnswers_comma hholds rest i
  by_cases hquote : c = '"'
  · subst hquote
    exact roundAnswers_string hholds rest i
  by_cases hkeyword : c = 't' ∨ c = 'f' ∨ c = 'n'
  · have hround := roundAnswers_keyword hholds (c :: rest) i
    simpa only [updateChar, lexeme, hopenObject, hcloseObject, hopenList, hcloseList, hcolon,
      hcomma, hquote, hkeyword, ↓reduceIte] using hround
  by_cases hnumber : c = '+' ∨ c = '-' ∨ isDigit c
  · have hround := roundAnswers_number hholds (c :: rest) i
    simpa only [updateChar, lexeme, hopenObject, hcloseObject, hopenList, hcloseList, hcolon,
      hcomma, hquote, hkeyword, hnumber, ↓reduceIte] using hround
  · simp only [updateChar, lexeme, hopenObject, hcloseObject, hopenList, hcloseList, hcolon, hcomma,
      hquote, hkeyword, hnumber, ↓reduceIte]
    exact roundAnswers_refused rfl

end Liblw.Mime
