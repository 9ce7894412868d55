import Mathlib.Data.UInt
import Liblw.Proof.FormatterNesting
import Liblw.Proof.Numerals
import Liblw.Proof.ParseTokens

/-!
# Lists there and back

A tree of lists and scalars comes out of the parser as it went into the serializer. The parser side
is a statement about a value in front of other text: whatever the stack holds, reading the text of
the value is pushing its token and popping it to its place.
-/

namespace Liblw.Mime

open Lib JSONParse

mutual

/-- No object in the tree and no quotation mark in its strings. -/
def Value.listTree : Value → Bool
  | .string str => !str.contains '"'
  | .list elements => listTreeElements elements
  | .object _ => false
  | _ => true

def listTreeElements : List Value → Bool
  | [] => true
  | value :: rest => value.listTree && listTreeElements rest

end

mutual

/-- The token has the shape and the values of the tree, as its accessors tell. -/
def Represents : DeserializationToken → Value → Prop
  | token, .null => token.isNull = true
  | token, .boolean value => token.isBoolean = true ∧ token.getBoolean = .ok value
  | token, .signed number =>
      token.isSignedInteger = true ∧ token.getSignedInteger = .ok number.toInt
  | token, .unsigned number =>
      token.isUnsignedInteger = true ∧ token.getUnsignedInteger = .ok number.toNat
  | token, .string str => token.isString = true ∧ token.getString = .ok str
  | token, .list elements =>
      token.isList = true ∧ token.size = .ok elements.length ∧ RepresentsFrom token 0 elements
  | _, .object _ => False

/-- The elements of a list token from the given index on. -/
def RepresentsFrom : DeserializationToken → Nat → List Value → Prop
  | token, index, [] => token.hasIndex index = false
  | token, index, value :: rest =>
      (∃ element, token.getIndex index = .ok element ∧ Represents element value) ∧
        RepresentsFrom token (index + 1) rest

end

mutual

/-- The token the parser makes of a tree without objects. -/
def tokenOf : Value → DeserializationToken
  | .list elements => .list (tokensOf elements)
  | .null => .scalar (.make .nul (render .null))
  | .boolean value => .scalar (.make .boolean (render (.boolean value)))
  | .signed number => .scalar (.make .integer (render (.signed number)))
  | .unsigned number => .scalar (.make .integer (render (.unsigned number)))
  | .string str => .scalar (.make .string (render (.string str)))
  | .object _ => .object []

def tokensOf : List Value → List DeserializationToken
  | [] => []
  | value :: rest => tokenOf value :: tokensOf rest

end

theorem length_tokensOf (elements : List Value) : (tokensOf elements).length = elements.length := by
  induction elements with
  | nil => rfl
  | cons value elements ih => simp [tokensOf, ih]

/-! ### The accessors answer with the values -/

theorem skipPlus_integerText (number : Int) :
    DeserializationToken.skipPlus (integerText number) = integerText number := by
  cases number with
  | ofNat magnitude =>
      rw [Int.ofNat_eq_natCast, integerText_ofNat]
      unfold DeserializationToken.skipPlus
      split
      · rename_i hdigits
        exact absurd rfl (toDigits_head_ne hdigits).1
      · rfl
  | negSucc magnitude =>
      rw [integerText_negSucc]
      rfl

theorem fromCharsInt64_integerText {number : Int} (hlower : -2 ^ 63 ≤ number)
    (hupper : number ≤ 2 ^ 63 - 1) :
    fromCharsInt64 (integerText number) = ⟨[], .none, some number⟩ := by
  rw [← List.append_nil (integerText number)]
  exact fromCharsSigned_integerText hlower hupper nofun

theorem fromCharsUInt64_integerText {number : Nat} (hupper : number < 2 ^ 64) :
    fromCharsUInt64 (integerText number) = ⟨[], .none, some (number : Int)⟩ := by
  rw [← List.append_nil (integerText number)]
  exact fromCharsUnsigned_integerText (by omega) nofun

theorem integerText_ofNat_head (number : Nat) : (integerText number).head? ≠ some '-' := by
  rw [integerText_ofNat]
  cases hdigits : Nat.toDigits 10 number with
  | nil => simp
  | cons c tail => simpa using (toDigits_head_ne hdigits).2

mutual

theorem represents_tokenOf (value : Value) (htree : value.listTree = true) :
    Represents (tokenOf value) value := by
  cases value with
  | null => rfl
  | boolean value => cases value <;> exact ⟨rfl, rfl⟩
  | signed number =>
      refine ⟨rfl, ?_⟩
      have hvalue := fromCharsInt64_integerText number.le_toInt
        (by have := number.toInt_lt; omega)
      simp [tokenOf, renderIn, DeserializationToken.getSignedInteger, JSONScalarToken.make,
        skipPlus_integerText, hvalue]
  | unsigned number =>
      have hvalue := fromCharsUInt64_integerText number.toNat_lt
      have hsign := integerText_ofNat_head number.toNat
      constructor
      · simp [tokenOf, renderIn, DeserializationToken.isUnsignedInteger, JSONScalarToken.make,
          hsign]
      · simp [tokenOf, renderIn, DeserializationToken.getUnsignedInteger,
          DeserializationToken.isUnsignedInteger, JSONScalarToken.make, skipPlus_integerText,
          hvalue, hsign]
  | string str =>
      refine ⟨rfl, ?_⟩
      change Except.ok (decodeString (stringLiteral str)) = _
      rw [decodeString_stringLiteral]
  | list elements =>
      have hfrom := representsFrom_tokensOf elements htree []
      exact ⟨rfl, by simp [tokenOf, DeserializationToken.size, length_tokensOf],
        by simpa [tokenOf] using hfrom⟩
  | object members => cases htree

theorem representsFrom_tokensOf (elements : List Value) (htree : listTreeElements elements = true)
    (before : List DeserializationToken) :
    RepresentsFrom (.list (before ++ tokensOf elements)) before.length elements := by
  cases elements with
  | nil => simp [RepresentsFrom, tokensOf, DeserializationToken.hasIndex]
  | cons value elements =>
      simp only [listTreeElements, Bool.and_eq_true] at htree
      refine ⟨⟨tokenOf value, ?_, represents_tokenOf value htree.1⟩, ?_⟩
      · simp [DeserializationToken.getIndex, tokensOf]
      · have hrest := representsFrom_tokensOf elements htree.2 (before ++ [tokenOf value])
        simpa [tokensOf] using hrest

end

/-! ### Reading the text of a value -/

/-- What can follow a value inside a list. -/
def Delimited (rest : Text) : Prop := ∃ c tail, rest = c :: tail ∧ (c = ',' ∨ c = ']')

theorem delimited_elements (elements : List Value) (rest : Text) :
    Delimited ((renderElements elements).flatMap (',' :: ·) ++ ']' :: rest) := by
  cases elements with
  | nil => exact ⟨_, _, rfl, Or.inr rfl⟩
  | cons value elements => exact ⟨_, _, rfl, Or.inl rfl⟩

theorem Delimited.head {rest : Text} (hrest : Delimited rest) :
    ∀ c, rest.head? = some c → c ≠ '.' ∧ isDigit c = false := by
  obtain ⟨d, tail, rfl, rfl | rfl⟩ := hrest <;>
  · rintro c hc
    cases hc
    decide

section Scalars

variable {parse next : JSONParse} {rest : Text} {token : DeserializationToken}

/-- A keyword in front of a delimiter, with the type the scanner gives it. -/
theorem parseKeyword_append {str : Text} {type : JSONType}
    (hstr : (str, type) ∈ [("null".toList, JSONType.nul), ("true".toList, .boolean),
      ("false".toList, .boolean)])
    (hrest : Delimited rest) (i : Nat) :
    parse.parseKeyword (str ++ rest) i =
      .ok (parse.push (.scalar (.make type str)), i + str.length - 1) := by
  obtain ⟨d, tail, rfl, hd⟩ := hrest
  have hnext : (isAlnum d || decide (d = '_')) = false := by
    rcases hd with rfl | rfl <;> decide
  simp only [List.mem_cons, Prod.mk.injEq, List.not_mem_nil, or_false] at hstr
  rcases hstr with ⟨rfl, rfl⟩ | ⟨rfl, rfl⟩ | ⟨rfl, rfl⟩ <;>
    simp [parseKeyword, keyword, hnext]

theorem updateLoop_keyword {str : Text} {type : JSONType}
    (hstr : (str, type) ∈ [("null".toList, JSONType.nul), ("true".toList, .boolean),
      ("false".toList, .boolean)])
    (hrest : Delimited rest) (i : Nat) (hfinal : parse.finalValue = none)
    (hnext : ∀ last, (parse.push (.scalar (.make type str))).popTop last = .ok next) :
    ∃ j, updateLoop i 0 (str ++ rest) parse = updateLoop j 0 rest next := by
  have hscan : parse.parseKeyword (str ++ rest) i =
      .ok (parse.push (.scalar (.make type str)), i + str.length - 1) :=
    parseKeyword_append hstr hrest i
  obtain ⟨c, tail, rfl, hspace, hchar⟩ : ∃ c tail, str = c :: tail ∧ isSpace c = false ∧
      parse.updateChar c (str ++ rest) i = popScanned (parse.parseKeyword (str ++ rest) i) := by
    simp only [List.mem_cons, Prod.mk.injEq, List.not_mem_nil, or_false] at hstr
    rcases hstr with ⟨rfl, rfl⟩ | ⟨rfl, rfl⟩ | ⟨rfl, rfl⟩ <;>
      exact ⟨_, _, rfl, by decide, rfl⟩
  refine ⟨_, updateLoop_scalar hspace hfinal hnext ?_⟩
  rw [hscan] at hchar
  exact hchar

/-- Every numeral starts with a character that sends the loop to the number scanner. -/
theorem integerText_cons (number : Int) :
    ∃ c tail, integerText number = c :: tail ∧ (c = '-' ∨ isDigit c = true) := by
  cases number with
  | ofNat magnitude =>
      rw [Int.ofNat_eq_natCast, integerText_ofNat]
      cases hdigits : Nat.toDigits 10 magnitude with
      | nil => exact absurd hdigits Nat.toDigits_ne_nil
      | cons c tail =>
          have hmem : c ∈ Nat.toDigits 10 magnitude := by simp [hdigits]
          exact ⟨c, tail, rfl, Or.inr (isDigit_of_mem_toDigits hmem)⟩
  | negSucc magnitude => exact ⟨_, _, integerText_negSucc magnitude, Or.inl rfl⟩

theorem updateChar_number {c : Char} (hc : c = '-' ∨ isDigit c = true) (str : Text) (i : Nat) :
    isSpace c = false ∧
      parse.updateChar c str i = popScanned (parse.parseNumber str i) := by
  rcases hc with rfl | hdigit
  · exact ⟨by decide, rfl⟩
  · have hne : ∀ d, isDigit d = false → c ≠ d := by
      rintro d hd rfl
      rw [hdigit] at hd
      cases hd
    have hrange : 48 ≤ c.toNat := by
      have := hdigit
      simp only [isDigit, Char.isDigit, Bool.and_eq_true, decide_eq_true_eq] at this
      exact this.1
    constructor
    · simp [isSpace, hne ' ' (by decide)]
      omega
    · simp [updateChar, hne _ (show isDigit '\x7b' = false by decide),
        hne _ (show isDigit '\x7d' = false by decide), hne '[' (by decide), hne ']' (by decide),
        hne ':' (by decide), hne ',' (by decide), hne '"' (by decide), hne 't' (by decide),
        hne 'f' (by decide), hne 'n' (by decide), hdigit]

theorem updateLoop_integer (number : Int) (hrest : Delimited rest) (i : Nat)
    (hfinal : parse.finalValue = none)
    (hnext : ∀ last, (parse.push (.scalar (.make .integer (integerText number)))).popTop last =
      .ok next) :
    ∃ j, updateLoop i 0 (integerText number ++ rest) parse = updateLoop j 0 rest next := by
  have hscan := parseNumber_integer number hrest.head parse i
  obtain ⟨c, tail, htext, hc⟩ := integerText_cons number
  rw [htext] at hscan hnext ⊢
  obtain ⟨hspace, hchar⟩ : isSpace c = false ∧ parse.updateChar c (c :: tail ++ rest) i =
      popScanned (parse.parseNumber (c :: tail ++ rest) i) := updateChar_number hc _ i
  refine ⟨_, updateLoop_scalar hspace hfinal hnext ?_⟩
  rw [hscan] at hchar
  exact hchar

end Scalars

theorem popTop_push_list (token : DeserializationToken) (elements : List DeserializationToken)
    (below : List JSONToken) (last : Nat) :
    (JSONParse.push ⟨.value (.list elements) :: below, none⟩ token).popTop last =
      .ok ⟨.value (.list (elements ++ [token])) :: below, none⟩ := by
  cases token <;> rfl

/-- The two rounds that stand around the elements of a list. -/
theorem updateLoop_brackets {body rest : Text} {tokens : List DeserializationToken}
    {stack : List JSONToken} {next : JSONParse} (i j : Nat)
    (hbody : updateLoop (i + 1) 0 (body ++ ']' :: rest) ⟨.value (.list []) :: stack, none⟩ =
      updateLoop j 0 (']' :: rest) ⟨.value (.list tokens) :: stack, none⟩)
    (hnext : ∀ last, (JSONParse.push ⟨stack, none⟩ (.list tokens)).popTop last = .ok next) :
    updateLoop i 0 ('[' :: (body ++ ']' :: rest)) ⟨stack, none⟩ =
      updateLoop (j + 1) 0 rest next := by
  have hopen : updateLoop i 0 ('[' :: (body ++ ']' :: rest)) ⟨stack, none⟩ =
      updateLoop (i + 1) 0 (body ++ ']' :: rest) ⟨.value (.list []) :: stack, none⟩ :=
    updateLoop_single (by decide) rfl rfl
  have hclose : updateLoop j 0 (']' :: rest) ⟨.value (.list tokens) :: stack, none⟩ =
      updateLoop (j + 1) 0 rest next := by
    refine updateLoop_single (by decide) rfl ?_
    change Except.map _ ((JSONParse.push ⟨stack, none⟩ (.list tokens)).popTop j) = _
    rw [hnext]
    rfl
  rw [hopen, hbody, hclose]

mutual

/-- Reading the text of a tree is pushing its token and popping it, whatever the stack holds. -/
theorem updateLoop_value (value : Value) (htree : value.listTree = true) {rest : Text}
    (hrest : Delimited rest) (i : Nat) {stack : List JSONToken} {next : JSONParse}
    (hnext : ∀ last, (JSONParse.push ⟨stack, none⟩ (tokenOf value)).popTop last = .ok next) :
    ∃ j, updateLoop i 0 (render value ++ rest) ⟨stack, none⟩ = updateLoop j 0 rest next := by
  cases value with
  | null => exact updateLoop_keyword (by simp [renderIn]) hrest i rfl hnext
  | boolean value =>
      cases value
      · exact updateLoop_keyword (by decide) hrest i rfl hnext
      · exact updateLoop_keyword (by decide) hrest i rfl hnext
  | signed number => exact updateLoop_integer number.toInt hrest i rfl hnext
  | unsigned number => exact updateLoop_integer number.toNat hrest i rfl hnext
  | string str =>
      have hstr : '"' ∉ str := by simpa [Value.listTree] using htree
      refine ⟨i + (str.flatMap escape).length + 2, ?_⟩
      rw [render, renderIn, literalIn, List.cons_append, List.cons_append, List.append_assoc]
      exact updateLoop_string (quote_notMem_flatMap_escape hstr) i rest rfl hnext
  | list elements =>
      obtain ⟨j, hbody⟩ := updateLoop_elements elements htree stack rest (i + 1)
      refine ⟨j + 1, ?_⟩
      rw [render_list, List.cons_append, List.cons_append, List.append_assoc]
      exact updateLoop_brackets i j hbody hnext
  | object members => cases htree

theorem updateLoop_elements (elements : List Value) (htree : listTreeElements elements = true)
    (below : List JSONToken) (rest : Text) (i : Nat) :
    ∃ j, updateLoop i 0 (commaSeparated (renderElements elements) ++ ']' :: rest)
        ⟨.value (.list []) :: below, none⟩ =
      updateLoop j 0 (']' :: rest) ⟨.value (.list (tokensOf elements)) :: below, none⟩ := by
  cases elements with
  | nil => exact ⟨i, rfl⟩
  | cons value elements =>
      simp only [listTreeElements, Bool.and_eq_true] at htree
      rw [renderElements_cons, commaSeparated_cons, List.append_assoc]
      obtain ⟨j, hhead⟩ := updateLoop_value value htree.1 (delimited_elements elements rest) i
        (popTop_push_list (tokenOf value) [] below)
      obtain ⟨k, htail⟩ := updateLoop_later elements htree.2 [tokenOf value] below rest j
      exact ⟨k, hhead.trans htail⟩

/-- The elements after the first, each behind its comma. -/
theorem updateLoop_later (elements : List Value) (htree : listTreeElements elements = true)
    (before : List DeserializationToken) (below : List JSONToken) (rest : Text) (i : Nat) :
    ∃ j, updateLoop i 0 ((renderElements elements).flatMap (',' :: ·) ++ ']' :: rest)
        ⟨.value (.list before) :: below, none⟩ =
      updateLoop j 0 (']' :: rest)
        ⟨.value (.list (before ++ tokensOf elements)) :: below, none⟩ := by
  cases elements with
  | nil => exact ⟨i, by simp [renderElementsIn, tokensOf]⟩
  | cons value elements =>
      simp only [listTreeElements, Bool.and_eq_true] at htree
      rw [renderElements_cons, List.flatMap_cons, List.cons_append, List.cons_append,
        List.append_assoc]
      have hcomma : ∀ text, updateLoop i 0 (',' :: text) ⟨.value (.list before) :: below, none⟩ =
          updateLoop (i + 1) 0 text ⟨.value (.list before) :: below, none⟩ :=
        fun text => updateLoop_single (by decide) rfl rfl
      obtain ⟨j, hhead⟩ := updateLoop_value value htree.1 (delimited_elements elements rest) (i + 1)
        (popTop_push_list (tokenOf value) before below)
      obtain ⟨k, htail⟩ :=
        updateLoop_later elements htree.2 (before ++ [tokenOf value]) below rest j
      refine ⟨k, ?_⟩
      rw [hcomma, hhead, htail, tokensOf, List.append_assoc, List.singleton_append]

end

/-! ### The round trip -/

mutual

theorem Value.unmixed_of_listTree (value : Value) (htree : value.listTree = true) :
    value.unmixed = true := by
  cases value with
  | list elements => exact unmixedElements_of_listTree elements htree
  | object members => cases htree
  | _ => rfl

theorem unmixedElements_of_listTree (elements : List Value)
    (htree : listTreeElements elements = true) : unmixedElements elements = true := by
  cases elements with
  | nil => rfl
  | cons value elements =>
      simp only [listTreeElements, Bool.and_eq_true] at htree
      have hobject : value.isObject = false := by
        cases value with
        | object members => cases htree.1
        | _ => rfl
      simp [unmixedElements, hobject, Value.unmixed_of_listTree value htree.1,
        unmixedElements_of_listTree elements htree.2]

end

theorem parse_render_list {elements : List Value} (htree : listTreeElements elements = true) :
    parse (render (.list elements)) = .ok (tokenOf (.list elements)) := by
  obtain ⟨j, hbody⟩ := updateLoop_elements elements htree [] [] 1
  have hnext : ∀ last, (JSONParse.push ⟨[], none⟩ (.list (tokensOf elements))).popTop last =
      .ok ⟨[], some (.value (.list (tokensOf elements)))⟩ := fun _ => rfl
  have hloop := updateLoop_brackets 0 j hbody hnext
  rw [parse, JSONParse.update, JSONParse.make, render_list, List.cons_append, hloop]
  rfl

/-- **A tree of lists survives the round trip.** The serializer writes it without throwing, and the
parser reads the text back as a token of the same shape and values. -/
theorem listRoundTrip (elements : List Value) (htree : listTreeElements elements = true) :
    ∃ final token,
      (Serializer.write (.list elements)).exec JSONSerializationFormatter.make = (.ok (), final) ∧
      parse final.output = .ok token ∧ Represents token (.list elements) := by
  have hunmixed : (Value.list elements).unmixed = true :=
    Value.unmixed_of_listTree (.list elements) htree
  obtain ⟨stack, hexec, -⟩ := write_unmixed (.list elements) hunmixed .value [] [] rfl
  refine ⟨_, tokenOf (.list elements), hexec, ?_, represents_tokenOf (.list elements) htree⟩
  simpa [JSONSerializationFormatter.State.separator] using parse_render_list htree

/-- The extreme numbers, a backslash and nested lists, empty ones included. -/
theorem listRoundTrip_extremes :
    ∃ final token,
      (Serializer.write (.list [.signed (-2 ^ 63), .unsigned (2 ^ 64 - 1), .list [.list [], .null],
        .string ['\\', '/'], .boolean true])).exec JSONSerializationFormatter.make =
          (.ok (), final) ∧
      parse final.output = .ok token ∧
      Represents token (.list [.signed (-2 ^ 63), .unsigned (2 ^ 64 - 1), .list [.list [], .null],
        .string ['\\', '/'], .boolean true]) :=
  listRoundTrip _ (by decide)

end Liblw.Mime
