import Liblw.Proof.NumberScan
import Liblw.Proof.ParseTokens

/-!
# The item at the front of a text

Where the parser cuts a text into lexemes. A scalar is at the front of a text when its scanner takes
exactly that much; the scanners, the lexemes and the grammar are all compared through this.
-/

namespace Liblw.Mime

open JSONParse

/-- The scanner of a scalar takes this text where that one follows. -/
inductive ScalarAt : (text after : Text) → Prop where
  | string {before after : Text} (hbefore : '"' ∉ before) :
      ScalarAt ('"' :: (before ++ ['"'])) after
  | keyword {word after : Text} {c : Char} (hword : KeywordText word)
      (hnext : (isAlnum c || c = '_') = false) : ScalarAt word (c :: after)
  | number {sign run after : Text} (hsign : SignPart sign) (hnumeral : Numeral run)
      (hrun : ∀ c ∈ run, isNumeric c = true) (hafter : ∀ c ∈ after.head?, isNumeric c = false) :
      ScalarAt (sign ++ run) after

def ItemAt : Item → Text → Prop
  | .scalar text, after => ScalarAt text after
  | _, _ => True

theorem ne_of_isDigit {c d : Char} (hc : isDigit c = true) (hd : isDigit d = false) : c ≠ d := by
  rintro rfl
  rw [hc] at hd
  cases hd

/-- The character starts a number. -/
def StartsNumber (c : Char) : Prop := c = '+' ∨ c = '-' ∨ isDigit c = true

theorem StartsNumber.ne {c d : Char} (hc : StartsNumber c) (hd : isDigit d = false)
    (hplus : d ≠ '+') (hminus : d ≠ '-') : c ≠ d := by
  rcases hc with rfl | rfl | hdigit
  · exact Ne.symm hplus
  · exact Ne.symm hminus
  · exact ne_of_isDigit hdigit hd

theorem StartsNumber.not_space {c : Char} (hc : StartsNumber c) : isSpace c = false := by
  rcases hc with rfl | rfl | hdigit
  · decide
  · decide
  · have hrange : 48 ≤ c.toNat := by
      simp only [isDigit, Char.isDigit, Bool.and_eq_true, decide_eq_true_eq] at hdigit
      exact hdigit.1
    have hblank : c ≠ ' ' := ne_of_isDigit hdigit (by decide)
    simp [isSpace, hblank]
    omega

/-! ### Reading off what the scanners take -/

theorem closingQuote_eq_some {text : Text} {i last : Nat}
    (hquote : closingQuote i text = some last) :
    ∃ before after, text = before ++ '"' :: after ∧ '"' ∉ before ∧ last = i + before.length := by
  induction text generalizing i with
  | nil => cases hquote
  | cons c text ih =>
      rw [closingQuote] at hquote
      by_cases hc : c = '"'
      · subst hc
        rw [if_neg (by decide), if_pos rfl, Option.some.injEq] at hquote
        exact ⟨[], text, rfl, by simp, by simp [hquote]⟩
      · have htail : closingQuote (i + 1) text = some last := by
          split_ifs at hquote <;> exact hquote
        obtain ⟨before, after, rfl, hbefore, rfl⟩ := ih htail
        refine ⟨c :: before, after, rfl, ?_, ?_⟩
        · rw [List.mem_cons, not_or]
          exact ⟨Ne.symm hc, hbefore⟩
        · rw [List.length_cons]
          omega

theorem keyword_eq_some {str after : Text} {token : JSONScalarToken}
    (hkeyword : keyword str = some (token, after)) :
    ∃ word, KeywordText word ∧ str = word ++ after ∧ token = scalarToken word := by
  have hcut : ∀ {word : Text}, word.isPrefixOf str = true →
      str.take word.length = word ∧ str = word ++ str.drop word.length := by
    intro word hword
    obtain ⟨rest, rfl⟩ := List.isPrefixOf_iff_prefix.mp hword
    exact ⟨List.take_left, by rw [List.drop_left]⟩
  unfold keyword at hkeyword
  split_ifs at hkeyword with htrue hfalse hnull
  · obtain ⟨htoken, rfl⟩ := Prod.mk.inj (Option.some.inj hkeyword)
    obtain ⟨htake, hstr⟩ := hcut htrue
    exact ⟨_, Or.inl rfl, hstr, by rw [← htoken]; exact congrArg _ htake⟩
  · obtain ⟨htoken, rfl⟩ := Prod.mk.inj (Option.some.inj hkeyword)
    obtain ⟨htake, hstr⟩ := hcut hfalse
    exact ⟨_, Or.inr (Or.inl rfl), hstr, by rw [← htoken]; exact congrArg _ htake⟩
  · obtain ⟨htoken, rfl⟩ := Prod.mk.inj (Option.some.inj hkeyword)
    obtain ⟨htake, hstr⟩ := hcut hnull
    exact ⟨_, Or.inr (Or.inr rfl), hstr, by rw [← htoken]; exact congrArg _ htake⟩

theorem keyword_append {word : Text} (hword : KeywordText word) (after : Text) :
    keyword (word ++ after) = some (scalarToken word, after) := by
  rcases hword with rfl | rfl | rfl
  · rfl
  · rfl
  · rfl

theorem signPart_signOf (str : Text) : SignPart (signOf str) := by
  unfold signOf
  split_ifs with hsigned
  · cases str with
    | nil => exact Or.inl rfl
    | cons c rest =>
        rcases hsigned with hplus | hminus
        · exact Or.inr (Or.inr (by simpa using hplus))
        · exact Or.inr (Or.inl (by simpa using hminus))
  · exact Or.inl rfl

theorem head?_dropWhile {p : Char → Bool} (text : Text) :
    ∀ c ∈ (text.dropWhile p).head?, p c = false := by
  intro c hc
  have hhead := List.head?_dropWhile_not p text
  rw [Option.mem_def.mp hc] at hhead
  exact hhead

/-- The rest behind the sign and the run. -/
theorem exists_append_runOf (str : Text) :
    ∃ after, str = signOf str ++ runOf str ++ after ∧ ∀ c ∈ after.head?, isNumeric c = false := by
  refine ⟨(str.drop (signOf str).length).dropWhile isNumeric, ?_, head?_dropWhile _⟩
  rw [runOf, List.append_assoc, List.takeWhile_append_dropWhile, signOf_append]

theorem numeric_runOf (str : Text) : ∀ c ∈ runOf str, isNumeric c = true :=
  fun _ hc => List.mem_takeWhile_imp hc

theorem Numeral.exists_cons {run : Text} (hnumeral : Numeral run) :
    ∃ c tail, run = c :: tail ∧ isDigit c = true := by
  have hdigit := hnumeral.digit
  cases run with
  | nil => cases hdigit
  | cons c tail => exact ⟨c, tail, rfl, by simpa using hdigit⟩

section Number

variable {sign run after : Text}

theorem signOf_append_run (hsign : SignPart sign) (hnumeral : Numeral run) :
    signOf (sign ++ run ++ after) = sign := by
  obtain ⟨c, tail, rfl, hdigit⟩ := hnumeral.exists_cons
  have hplus : c ≠ '+' := ne_of_isDigit hdigit (by decide)
  have hminus : c ≠ '-' := ne_of_isDigit hdigit (by decide)
  rcases hsign with rfl | rfl | rfl
  · simp [signOf, hplus, hminus]
  · simp [signOf]
  · simp [signOf]

theorem runOf_append_run (hsign : SignPart sign) (hnumeral : Numeral run)
    (hrun : ∀ c ∈ run, isNumeric c = true) (hafter : ∀ c ∈ after.head?, isNumeric c = false) :
    runOf (sign ++ run ++ after) = run := by
  rw [runOf, signOf_append_run hsign hnumeral, List.append_assoc, List.drop_left,
    List.takeWhile_append_of_pos hrun]
  cases after with
  | nil => exact List.append_nil run
  | cons c after =>
      have hc := hafter c rfl
      rw [List.takeWhile_cons_of_neg (by simp [hc]), List.append_nil]

theorem startsNumber_head (hsign : SignPart sign) (hnumeral : Numeral run) :
    ∃ c tail, sign ++ run = c :: tail ∧ StartsNumber c := by
  obtain ⟨c, tail, rfl, hdigit⟩ := hnumeral.exists_cons
  rcases hsign with rfl | rfl | rfl
  · exact ⟨c, tail, rfl, Or.inr (Or.inr hdigit)⟩
  · exact ⟨'-', c :: tail, rfl, Or.inr (Or.inl rfl)⟩
  · exact ⟨'+', c :: tail, rfl, Or.inl rfl⟩

theorem scalarType_number (hsign : SignPart sign) (hnumeral : Numeral run) :
    scalarType (sign ++ run) = if '.' ∈ run then .float else .integer := by
  obtain ⟨c, tail, htext, hstart⟩ := startsNumber_head hsign hnumeral
  have hdot : '.' ∈ c :: tail ↔ '.' ∈ run := by
    rw [← htext, List.mem_append, or_iff_right]
    rcases hsign with rfl | rfl | rfl
    · simp
    · simp
    · simp
  have hquote : c ≠ '"' := hstart.ne (by decide) (by decide) (by decide)
  have ht : c ≠ 't' := hstart.ne (by decide) (by decide) (by decide)
  have hf : c ≠ 'f' := hstart.ne (by decide) (by decide) (by decide)
  have hn : c ≠ 'n' := hstart.ne (by decide) (by decide) (by decide)
  rw [htext, scalarType]
  · simp only [hdot]
  all_goals simpa using by assumption

end Number

/-! ### The lexeme of an item -/

theorem lexeme_string {before : Text} (hbefore : '"' ∉ before) (after : Text) :
    lexeme ('"' :: (before ++ ['"']) ++ after) =
      (.string (unquoted ('"' :: (before ++ ['"']))), ('"' :: (before ++ ['"'])).length) := by
  have htext : '"' :: (before ++ ['"']) ++ after = '"' :: (before ++ '"' :: after) := by simp
  have hlength : ('"' :: (before ++ ['"'])).length = 1 + before.length + 1 := by
    simp only [List.length_cons, List.length_append, List.length_nil]
    omega
  have htake : ('"' :: (before ++ '"' :: after)).take (1 + before.length + 1) =
      '"' :: (before ++ ['"']) := by
    rw [← hlength, ← htext, List.take_left]
  rw [htext, lexeme]
  simp only [Char.reduceEq, ↓reduceIte, closingQuote_append hbefore, htake, hlength, unquoted]

theorem lexeme_keyword {word after : Text} {c : Char} (hword : KeywordText word)
    (hnext : (isAlnum c || c = '_') = false) :
    lexeme (word ++ c :: after) = (.scalar, word.length) := by
  have hkeyword := keyword_append hword (c :: after)
  have hlexeme : lexeme (word ++ c :: after) = keywordLexeme (word ++ c :: after) := by
    rcases hword with rfl | rfl | rfl
    · rfl
    · rfl
    · rfl
  have hlength : (word ++ c :: after).length - (after.length + 1) = word.length := by
    rw [List.length_append, List.length_cons]
    omega
  simp only [hlexeme, keywordLexeme, hkeyword, hnext, Bool.false_eq_true, ↓reduceIte, hlength]

theorem lexeme_of_startsNumber {c : Char} (hc : StartsNumber c) (rest : Text) :
    lexeme (c :: rest) = numberLexeme (c :: rest) := by
  have hnumber : c = '+' ∨ c = '-' ∨ isDigit c = true := hc
  have hopenObject : c ≠ '\x7b' := hc.ne (by decide) (by decide) (by decide)
  have hcloseObject : c ≠ '\x7d' := hc.ne (by decide) (by decide) (by decide)
  have hopenList : c ≠ '[' := hc.ne (by decide) (by decide) (by decide)
  have hcloseList : c ≠ ']' := hc.ne (by decide) (by decide) (by decide)
  have hcolon : c ≠ ':' := hc.ne (by decide) (by decide) (by decide)
  have hcomma : c ≠ ',' := hc.ne (by decide) (by decide) (by decide)
  have hquote : c ≠ '"' := hc.ne (by decide) (by decide) (by decide)
  have ht : c ≠ 't' := hc.ne (by decide) (by decide) (by decide)
  have hf : c ≠ 'f' := hc.ne (by decide) (by decide) (by decide)
  have hn : c ≠ 'n' := hc.ne (by decide) (by decide) (by decide)
  rw [lexeme]
  simp only [hopenObject, hcloseObject, hopenList, hcloseList, hcolon, hcomma, hquote, ht, hf, hn,
    hnumber, or_self, ↓reduceIte]

theorem lexeme_number {sign run after : Text} (hsign : SignPart sign) (hnumeral : Numeral run)
    (hrun : ∀ c ∈ run, isNumeric c = true) (hafter : ∀ c ∈ after.head?, isNumeric c = false) :
    lexeme (sign ++ run ++ after) = (.scalar, (sign ++ run).length) := by
  obtain ⟨c, tail, htext, hstart⟩ := startsNumber_head hsign hnumeral
  have hscan := (parseNumber_eq_ok_iff JSONParse.make (sign ++ run ++ after) 0 _).mpr
    ⟨by rwa [runOf_append_run hsign hnumeral hrun hafter], rfl⟩
  rw [signOf_append_run hsign hnumeral, runOf_append_run hsign hnumeral hrun hafter, htext] at hscan
  rw [htext, List.cons_append, lexeme_of_startsNumber hstart, numberLexeme]
  rw [List.cons_append] at hscan
  rw [hscan]
  simp

theorem lexeme_scalarAt {text after : Text} (hscalar : ScalarAt text after) :
    ((lexeme (text ++ after)).1 = .string (unquoted text) ∨
      (lexeme (text ++ after)).1 = .scalar) ∧ (lexeme (text ++ after)).2 = text.length := by
  cases hscalar with
  | string hbefore =>
      rw [lexeme_string hbefore]
      exact ⟨Or.inl rfl, rfl⟩
  | keyword hword hnext =>
      rw [lexeme_keyword hword hnext]
      exact ⟨Or.inr rfl, rfl⟩
  | number hsign hnumeral hrun hafter =>
      rw [lexeme_number hsign hnumeral hrun hafter]
      exact ⟨Or.inr rfl, rfl⟩

/-- The lexer cuts a text behind the item at its front. -/
theorem lexeme_item {item : Item} {after : Text} (hitem : ItemAt item after) :
    Item.of (lexeme (item.text ++ after)).1
        ((item.text ++ after).take (lexeme (item.text ++ after)).2) = item ∧
      (lexeme (item.text ++ after)).2 = item.text.length := by
  cases item with
  | scalar text =>
      obtain ⟨hkind, hlength⟩ := lexeme_scalarAt hitem
      rw [Item.text, hlength, List.take_left]
      refine ⟨?_, rfl⟩
      rcases hkind with hkind | hkind
      · rw [hkind]; rfl
      · rw [hkind]; rfl
  | _ => exact ⟨rfl, rfl⟩

theorem lexeme_ne_cut {item : Item} {after : Text} (hitem : ItemAt item after) :
    (lexeme (item.text ++ after)).1 ≠ .cut := by
  cases item with
  | scalar text =>
      obtain ⟨hkind, -⟩ := lexeme_scalarAt hitem
      rw [Item.text]
      rcases hkind with hkind | hkind
      · rw [hkind]; simp
      · rw [hkind]; simp
  | _ => exact Lexeme.noConfusion

theorem item_text_cons {item : Item} {after : Text} (hitem : ItemAt item after) :
    ∃ c tail, item.text = c :: tail ∧ isSpace c = false := by
  cases item with
  | scalar text =>
      cases hitem with
      | string hbefore => exact ⟨'"', _, rfl, by decide⟩
      | keyword hword hnext =>
          rcases hword with rfl | rfl | rfl
          · exact ⟨'t', _, rfl, by decide⟩
          · exact ⟨'f', _, rfl, by decide⟩
          · exact ⟨'n', _, rfl, by decide⟩
      | number hsign hnumeral hrun hafter =>
          obtain ⟨c, tail, htext, hstart⟩ := startsNumber_head hsign hnumeral
          exact ⟨c, tail, htext, hstart.not_space⟩
  | _ => exact ⟨_, [], rfl, by decide⟩

theorem items_skip (passed rest : Text) : items passed.length (passed ++ rest) = items 0 rest := by
  induction passed with
  | nil => rfl
  | cons c passed ih => rw [List.length_cons, List.cons_append, items, ih]

theorem blanks_skip (passed rest : Text) :
    blanks passed.length (passed ++ rest) = blanks 0 rest := by
  induction passed with
  | nil => rfl
  | cons c passed ih => rw [List.length_cons, List.cons_append, blanks, ih]

/-- Behind an item the cut goes on as if the text began there. -/
theorem cut_item {item : Item} {after : Text} (hitem : ItemAt item after) :
    items 0 (item.text ++ after) = item :: items 0 after ∧
      blanks 0 (item.text ++ after) = blanks 0 after := by
  obtain ⟨hof, hlength⟩ := lexeme_item hitem
  obtain ⟨c, tail, htext, hspace⟩ := item_text_cons hitem
  rw [htext, List.cons_append] at hof hlength ⊢
  have htail : (lexeme (c :: (tail ++ after))).2 - 1 = tail.length := by
    rw [hlength, List.length_cons]
    omega
  constructor
  · rw [items, if_neg (by simp [hspace]), hof, htail, items_skip]
  · rw [blanks, if_neg (by simp [hspace]), htail, blanks_skip]

theorem cut_blank {before : Text} (hbefore : ∀ c ∈ before, isSpace c = true) (rest : Text) :
    items 0 (before ++ rest) = items 0 rest ∧
      blanks 0 (before ++ rest) = before ++ blanks 0 rest := by
  induction before with
  | nil => exact ⟨rfl, rfl⟩
  | cons c before ih =>
      have hc := hbefore c List.mem_cons_self
      obtain ⟨hitems, hblanks⟩ := ih fun d hd => hbefore d (List.mem_cons_of_mem _ hd)
      constructor
      · rw [List.cons_append, items, if_pos hc, hitems]
      · rw [List.cons_append, blanks, if_pos hc, hblanks, List.cons_append]

/-! ### One round of the loop -/

/-- What the parser does with an item. Where a value is complete, it is popped to its place. -/
def Takes (parse : JSONParse) (item : Item) (next : JSONParse) : Prop :=
  match item with
  | .openObject => next = parse.push (.object [])
  | .closeObject => parse.tokenStack.head?.any isObjectToken = true ∧ ∃ i, parse.popTop i = .ok next
  | .openList => next = parse.push (.list [])
  | .closeList => parse.tokenStack.head?.any isListToken = true ∧ ∃ i, parse.popTop i = .ok next
  | .colon => parse.tokenStack.head?.any isScalar = true ∧
      next = { parse with tokenStack := .char ':' :: parse.tokenStack }
  | .comma =>
      parse.tokenStack.head?.any (fun top => isListToken top || isObjectToken top) = true ∧
        next = parse
  | .scalar text => ∃ i, (parse.push (.scalar (scalarToken text))).popTop i = .ok next

section Rounds

variable {parse next : JSONParse} {rest : Text} {i last : Nat}

theorem checkTop_eq_ok {wanted : JSONToken → Bool} {c : Char}
    (hcheck : parse.checkTop wanted c i = .ok ()) : parse.tokenStack.head?.any wanted = true := by
  unfold checkTop at hcheck
  cases hstack : parse.tokenStack with
  | nil => simp [hstack] at hcheck
  | cons top below =>
      rw [hstack] at hcheck
      by_cases hwanted : wanted top = true
      · simpa using hwanted
      · simp [hwanted] at hcheck

theorem map_eq_ok {α β : Type} {result : Result α} {f : α → β} {value : β}
    (hmap : result.map f = .ok value) : ∃ first, result = .ok first ∧ f first = value := by
  cases result with
  | error fault => cases hmap
  | ok first => exact ⟨first, rfl, by simpa [Except.map] using hmap⟩

theorem close_eq_ok {wanted : JSONToken → Bool} {c : Char}
    (hclose : parse.close wanted c i = .ok (next, last)) :
    parse.tokenStack.head?.any wanted = true ∧ parse.popTop i = .ok next ∧ last = i := by
  unfold close at hclose
  cases hcheck : parse.checkTop wanted c i with
  | error fault => simp [hcheck] at hclose
  | ok checked =>
      rw [hcheck] at hclose
      obtain ⟨popped, hpop, hpair⟩ := map_eq_ok hclose
      obtain ⟨rfl, rfl⟩ := Prod.mk.inj hpair
      exact ⟨checkTop_eq_ok hcheck, hpop, rfl⟩

theorem popScanned_eq_ok {scanned : Result (JSONParse × Nat)}
    (hpop : popScanned scanned = .ok (next, last)) :
    ∃ pushed, scanned = .ok (pushed, last) ∧ pushed.popTop last = .ok next := by
  cases scanned with
  | error fault => cases hpop
  | ok found =>
      obtain ⟨pushed, stop⟩ := found
      obtain ⟨popped, hpopped, hpair⟩ := map_eq_ok hpop
      obtain ⟨rfl, rfl⟩ := Prod.mk.inj hpair
      exact ⟨pushed, rfl, hpopped⟩

theorem parseString_eq_ok {pushed : JSONParse}
    (hscan : parse.parseString ('"' :: rest) i = .ok (pushed, last)) :
    ∃ text after, '"' :: rest = text ++ after ∧ ScalarAt text after ∧
      last + 1 = i + text.length ∧ pushed = parse.push (.scalar (scalarToken text)) := by
  unfold parseString at hscan
  rw [List.tail_cons] at hscan
  cases hquote : closingQuote (i + 1) rest with
  | none => simp [hquote] at hscan
  | some stop =>
      rw [hquote] at hscan
      obtain ⟨before, after, rfl, hbefore, rfl⟩ := closingQuote_eq_some hquote
      obtain ⟨hpushed, hlast⟩ := Prod.mk.inj (Except.ok.inj hscan)
      refine ⟨'"' :: (before ++ ['"']), after, by simp, .string hbefore, ?_, ?_⟩
      · simp only [List.length_cons, List.length_append, List.length_nil]
        omega
      · have hlength : i + 1 + before.length - i + 1 = ('"' :: (before ++ ['"'])).length := by
          simp only [List.length_cons, List.length_append, List.length_nil]
          omega
        have htext : '"' :: (before ++ '"' :: after) = '"' :: (before ++ ['"']) ++ after := by simp
        rw [hlength, htext, List.take_left] at hpushed
        exact hpushed.symm

theorem parseKeyword_eq_ok {str : Text} {pushed : JSONParse}
    (hscan : parse.parseKeyword str i = .ok (pushed, last)) :
    ∃ text after, str = text ++ after ∧ ScalarAt text after ∧
      last + 1 = i + text.length ∧ pushed = parse.push (.scalar (scalarToken text)) := by
  unfold parseKeyword at hscan
  cases hkeyword : keyword str with
  | none => simp [hkeyword] at hscan
  | some found =>
      obtain ⟨token, behind⟩ := found
      obtain ⟨word, hword, rfl, rfl⟩ := keyword_eq_some hkeyword
      rw [hkeyword] at hscan
      cases behind with
      | nil => cases hscan
      | cons c after =>
          dsimp only at hscan
          by_cases hmore : (isAlnum c || decide (c = '_')) = true
          · rw [if_pos hmore] at hscan
            cases hscan
          · rw [if_neg hmore] at hscan
            obtain ⟨hpushed, hlast⟩ := Prod.mk.inj (Except.ok.inj hscan)
            refine ⟨word, c :: after, rfl, .keyword hword (by simpa using hmore), ?_, hpushed.symm⟩
            have hlength : 0 < word.length := by
              rcases hword with rfl | rfl | rfl
              · decide
              · decide
              · decide
            rw [List.length_append, List.length_cons] at hlast
            omega

theorem parseNumber_eq_ok {str : Text} {pushed : JSONParse}
    (hscan : parse.parseNumber str i = .ok (pushed, last)) :
    ∃ text after, str = text ++ after ∧ ScalarAt text after ∧
      last + 1 = i + text.length ∧ pushed = parse.push (.scalar (scalarToken text)) := by
  obtain ⟨hnumeral, hresult⟩ := (parseNumber_eq_ok_iff parse str i _).mp hscan
  obtain ⟨hpushed, hlast⟩ := Prod.mk.inj hresult
  obtain ⟨after, hstr, hafter⟩ := exists_append_runOf str
  obtain ⟨c, tail, hrun, -⟩ := hnumeral.exists_cons
  refine ⟨signOf str ++ runOf str, after, hstr,
    .number (signPart_signOf str) hnumeral (numeric_runOf str) hafter, ?_, ?_⟩
  · have hlength : 0 < (signOf str ++ runOf str).length := by
      rw [List.length_append, hrun, List.length_cons]
      omega
    omega
  · rw [hpushed, scalarToken, scalarType_number (signPart_signOf str) hnumeral]

/-- **One round.** A round that goes well takes the item at the front of the text and leaves `i` on
its last character. -/
theorem updateChar_eq_ok {c : Char} (hround : parse.updateChar c (c :: rest) i = .ok (next, last)) :
    ∃ item after, c :: rest = item.text ++ after ∧ ItemAt item after ∧
      last + 1 = i + item.text.length ∧ Takes parse item next := by
  -- a scalar, whichever scanner has read it
  have hscalar : ∀ {scanned : Result (JSONParse × Nat)}, popScanned scanned = .ok (next, last) →
      (∀ pushed, scanned = .ok (pushed, last) → ∃ text after, c :: rest = text ++ after ∧
        ScalarAt text after ∧ last + 1 = i + text.length ∧
          pushed = parse.push (.scalar (scalarToken text))) →
      ∃ item after, c :: rest = item.text ++ after ∧ ItemAt item after ∧
        last + 1 = i + item.text.length ∧ Takes parse item next := by
    intro scanned hpop hscan
    obtain ⟨pushed, hscanned, hpopped⟩ := popScanned_eq_ok hpop
    obtain ⟨text, after, hstr, hat, hlast, rfl⟩ := hscan pushed hscanned
    exact ⟨.scalar text, after, hstr, hat, hlast, last, hpopped⟩
  unfold updateChar at hround
  split_ifs at hround with hopenObject hcloseObject hopenList hcloseList hcolon htop hcomma hquote
    hkeyword hnumber
  · obtain ⟨rfl, rfl⟩ := Prod.mk.inj (Except.ok.inj hround)
    exact ⟨.openObject, rest, by rw [hopenObject]; rfl, trivial, rfl, rfl⟩
  · obtain ⟨hwanted, hpop, rfl⟩ := close_eq_ok hround
    exact ⟨.closeObject, rest, by rw [hcloseObject]; rfl, trivial, rfl, hwanted, _, hpop⟩
  · obtain ⟨rfl, rfl⟩ := Prod.mk.inj (Except.ok.inj hround)
    exact ⟨.openList, rest, by rw [hopenList]; rfl, trivial, rfl, rfl⟩
  · obtain ⟨hwanted, hpop, rfl⟩ := close_eq_ok hround
    exact ⟨.closeList, rest, by rw [hcloseList]; rfl, trivial, rfl, hwanted, _, hpop⟩
  · obtain ⟨rfl, rfl⟩ := Prod.mk.inj (Except.ok.inj hround)
    exact ⟨.colon, rest, by rw [hcolon]; rfl, trivial, rfl, htop, rfl⟩
  · cases hround
  · obtain ⟨checked, hcheck, hpair⟩ := map_eq_ok hround
    obtain ⟨rfl, rfl⟩ := Prod.mk.inj hpair
    exact ⟨.comma, rest, by rw [hcomma]; rfl, trivial, rfl, checkTop_eq_ok hcheck, rfl⟩
  · subst hquote
    exact hscalar hround fun pushed hscan => parseString_eq_ok hscan
  · exact hscalar hround fun pushed hscan => parseKeyword_eq_ok hscan
  · exact hscalar hround fun pushed hscan => parseNumber_eq_ok hscan
  · cases hround

end Rounds

end Liblw.Mime
