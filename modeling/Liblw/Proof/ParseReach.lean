import Liblw.Proof.ParseDocuments
import Liblw.Proof.ParseFrames
import Mathlib.Logic.Relation

/-!
# The stack on the way

What holds after every round of the loop and not only at its end: the stack of tokens is a sequence
of frames, whatever the text, so that `_pop_top` meets neither a character to be popped nor a pair
outside of an object. In the end the brackets of an accepted text are those of the token.
-/

namespace Liblw.Mime

open JSONParse Relation

/-! ### The loop round by round -/

/-- Where the loop of `update` stands: the index, the text from there on, and the two members. -/
structure Reading where
  index : Nat
  rest : Text
  parse : JSONParse

def Reading.start (text : Text) : Reading := ⟨0, text, make⟩

/-- One round of the loop that throws nothing. -/
inductive Round : Reading → Reading → Prop where
  | blank {i : Nat} {c : Char} {rest : Text} {parse : JSONParse} (hspace : isSpace c = true) :
      Round ⟨i, c :: rest, parse⟩ ⟨i + 1, rest, parse⟩
  | token {i last : Nat} {c : Char} {rest : Text} {parse next : JSONParse}
      (hspace : isSpace c = false) (hfinal : parse.finalValue.isSome = false)
      (hround : parse.updateChar c (c :: rest) i = .ok (next, last)) :
      Round ⟨i, c :: rest, parse⟩ ⟨last + 1, rest.drop (last - i), next⟩

/-- The loop gets here on its way through the text. -/
def Reached (text : Text) (reading : Reading) : Prop :=
  ReflTransGen Round (.start text) reading

theorem last_ge_of_updateChar {parse next : JSONParse} {c : Char} {rest : Text} {i last : Nat}
    (hround : parse.updateChar c (c :: rest) i = .ok (next, last)) :
    i ≤ last ∧ last - i ≤ rest.length := by
  obtain ⟨item, after, htext, hitem, hlast, -⟩ := updateChar_eq_ok hround
  obtain ⟨d, tail, hspelled, -⟩ := item_text_cons hitem
  have hlength := congrArg List.length htext
  rw [hspelled, List.length_append, List.length_cons, List.length_cons] at hlength
  rw [hspelled, List.length_cons] at hlast
  omega

theorem updateLoop_drop (rest : Text) {i skip : Nat} (parse : JSONParse)
    (hskip : skip ≤ rest.length) :
    updateLoop i skip rest parse = updateLoop (i + skip) 0 (rest.drop skip) parse := by
  have hlength : (rest.take skip).length = skip := List.length_take_of_le hskip
  calc
    updateLoop i skip rest parse =
        updateLoop i (rest.take skip).length (rest.take skip ++ rest.drop skip) parse := by
      rw [hlength, List.take_append_drop]
    _ = updateLoop (i + skip) 0 (rest.drop skip) parse := by rw [updateLoop_skip, hlength]

/-- The loop goes on behind a round as if it had begun there. -/
theorem updateLoop_round {reading next : Reading} (hround : Round reading next) :
    updateLoop reading.index 0 reading.rest reading.parse =
      updateLoop next.index 0 next.rest next.parse := by
  cases hround with
  | blank hspace => rw [updateLoop, if_pos hspace]
  | @token i last c rest parse next hspace hfinal hround =>
      obtain ⟨hle, hlast⟩ := last_ge_of_updateChar hround
      have hindex : i + 1 + (last - i) = last + 1 := by omega
      rw [updateLoop, if_neg (by simp [hspace]), if_neg (by simp [hfinal]), hround]
      dsimp only
      rw [updateLoop_drop rest next hlast, hindex]

/-- The rounds are those of the loop: it ends well in a state exactly when they lead there. -/
theorem updateLoop_eq_ok_iff (reading : Reading) (final : JSONParse) :
    updateLoop reading.index 0 reading.rest reading.parse = .ok final ↔
      ∃ i, ReflTransGen Round reading ⟨i, [], final⟩ := by
  constructor
  · intro hloop
    induction hn : reading.rest.length using Nat.strongRecOn generalizing reading with
    | _ n ih =>
        subst hn
        obtain ⟨i, rest, parse⟩ := reading
        cases rest with
        | nil =>
            obtain rfl := Except.ok.inj hloop
            exact ⟨i, .refl⟩
        | cons c rest =>
            have hstep : ∃ next, Round ⟨i, c :: rest, parse⟩ next ∧
                next.rest.length ≤ rest.length := by
              rw [updateLoop] at hloop
              by_cases hspace : isSpace c = true
              · exact ⟨_, .blank hspace, le_rfl⟩
              · rw [if_neg hspace] at hloop
                by_cases hfinal : parse.finalValue.isSome = true
                · rw [if_pos hfinal] at hloop
                  cases hloop
                · rw [if_neg hfinal] at hloop
                  cases hround : parse.updateChar c (c :: rest) i with
                  | error fault =>
                      rw [hround] at hloop
                      cases hloop
                  | ok found =>
                      refine ⟨_, .token (by simpa using hspace) (by simpa using hfinal) hround, ?_⟩
                      rw [List.length_drop]
                      exact Nat.sub_le ..
            obtain ⟨next, hround, hlength⟩ := hstep
            obtain ⟨last, hreach⟩ := ih next.rest.length (Nat.lt_succ_of_le hlength) next
              (by rw [← updateLoop_round hround]; exact hloop) rfl
            exact ⟨last, .head hround hreach⟩
  · rintro ⟨i, hreach⟩
    induction hreach using ReflTransGen.head_induction_on with
    | refl => rfl
    | head hround _ ih => rw [updateLoop_round hround, ih]

/-! ### Frames on the way -/

/-- The stack is a sequence of frames. -/
def Framed (parse : JSONParse) : Prop := ∃ frames, Holds frames parse.tokenStack

theorem framed_of_round {reading next : Reading} (hround : Round reading next)
    (hframed : Framed reading.parse) : Framed next.parse := by
  cases hround with
  | blank hspace => exact hframed
  | @token i last c rest parse next hspace hfinal hround =>
      obtain ⟨frames, hholds⟩ := hframed
      obtain ⟨stack, final⟩ := parse
      obtain rfl : final = none := by simpa using hfinal
      obtain ⟨state, hstate, hanswers⟩ := roundAnswers_updateChar hholds c rest i
      rw [hround] at hstate
      obtain ⟨reached, rfl, hpair⟩ := map_eq_ok hstate.symm
      obtain ⟨rfl, -⟩ := Prod.mk.inj hpair
      cases hverdict : advance frames (lexeme (c :: rest)).1 with
      | next frames =>
          rw [hverdict] at hanswers
          obtain ⟨stack, hstack, hholds⟩ := hanswers
          obtain rfl := Except.ok.inj hstack
          exact ⟨frames, hholds⟩
      | complete =>
          rw [hverdict] at hanswers
          obtain ⟨token, hstack⟩ := hanswers
          obtain rfl := Except.ok.inj hstack
          exact ⟨[], .empty⟩
      | refused =>
          rw [hverdict] at hanswers
          obtain ⟨message, herror⟩ := hanswers
          cases herror
      | defect =>
          rw [hverdict] at hanswers
          exact absurd (Or.inl ⟨_, rfl⟩) hanswers

/-- Whatever the text, the stack is a sequence of frames after every round. -/
theorem framed_of_reached {text : Text} {reading : Reading} (hreached : Reached text reading) :
    Framed reading.parse := by
  induction hreached with
  | refl => exact ⟨[], .empty⟩
  | tail _ hround ih => exact framed_of_round hround ih

/-! ### What `_pop_top` is called on -/

/-- The state on which the round calls `_pop_top`, and the index it passes. -/
def popCall (parse : JSONParse) (c : Char) (str : Text) (i : Nat) : Option (JSONParse × Nat) :=
  if c = '\x7d' then if parse.tokenStack.head?.any isObjectToken then some (parse, i) else none
  else if c = ']' then if parse.tokenStack.head?.any isListToken then some (parse, i) else none
  else if c = '"' then (parse.parseString str i).toOption
  else if c = 't' ∨ c = 'f' ∨ c = 'n' then (parse.parseKeyword str i).toOption
  else if c = '+' ∨ c = '-' ∨ isDigit c then (parse.parseNumber str i).toOption
  else none

/-- The token to be popped is a character. -/
def CharOperand (parse : JSONParse) : Prop := ∃ c below, parse.tokenStack = .char c :: below

/-- The value to be popped has a colon under it, but no key in an object under that. -/
def PairOutside (parse : JSONParse) : Prop :=
  ∃ rhs below, parse.tokenStack = rhs :: .char ':' :: below ∧
    ∀ lhs elements rest, below ≠ lhs :: .value (.object elements) :: rest

theorem close_eq_popTop {parse : JSONParse} {wanted : JSONToken → Bool} {c : Char} {i : Nat}
    (htop : parse.tokenStack.head?.any wanted = true) :
    parse.close wanted c i = (parse.popTop i).map (·, i) := by
  cases hstack : parse.tokenStack with
  | nil => simp [hstack] at htop
  | cons top below =>
      have hwanted : wanted top = true := by simpa [hstack] using htop
      simp only [close, checkTop, hstack, hwanted, ↓reduceIte]

theorem popScanned_eq_popTop {scanned : Result (JSONParse × Nat)} {popped : JSONParse}
    {last : Nat} (hscan : scanned.toOption = some (popped, last)) :
    popScanned scanned = (popped.popTop last).map (·, last) := by
  cases scanned with
  | error fault => cases hscan
  | ok found =>
      obtain rfl := Option.some.inj hscan
      rfl

/-- The call is the last thing that the round does. -/
theorem updateChar_eq_popTop {parse popped : JSONParse} {c : Char} {str : Text} {i last : Nat}
    (hcall : popCall parse c str i = some (popped, last)) :
    parse.updateChar c str i = (popped.popTop last).map (·, last) := by
  unfold popCall at hcall
  split_ifs at hcall with hcloseObject htop hcloseList htop hquote hkeyword hnumber
  · obtain ⟨rfl, rfl⟩ := Prod.mk.inj (Option.some.inj hcall)
    subst hcloseObject
    exact close_eq_popTop htop
  · obtain ⟨rfl, rfl⟩ := Prod.mk.inj (Option.some.inj hcall)
    subst hcloseList
    exact close_eq_popTop htop
  · subst hquote
    exact popScanned_eq_popTop hcall
  · have hround : parse.updateChar c str i = popScanned (parse.parseKeyword str i) := by
      rcases hkeyword with rfl | rfl | rfl <;> rfl
    rw [hround]
    exact popScanned_eq_popTop hcall
  · have hstart : StartsNumber c := hnumber
    have hround : parse.updateChar c str i = popScanned (parse.parseNumber str i) := by
      have hopenObject : c ≠ '\x7b' := hstart.ne (by decide) (by decide) (by decide)
      have hopenList : c ≠ '[' := hstart.ne (by decide) (by decide) (by decide)
      have hcolon : c ≠ ':' := hstart.ne (by decide) (by decide) (by decide)
      have hcomma : c ≠ ',' := hstart.ne (by decide) (by decide) (by decide)
      simp only [updateChar, hopenObject, hcloseObject, hopenList, hcloseList, hcolon, hcomma,
        hquote, hkeyword, hnumber, ↓reduceIte]
    rw [hround]
    exact popScanned_eq_popTop hcall

/-- The token that a scanner has pushed is a scalar. -/
theorem tokenStack_of_popCall {parse popped : JSONParse} {c : Char} {rest : Text} {i last : Nat}
    (hcall : popCall parse c (c :: rest) i = some (popped, last)) :
    (∃ token below, parse.tokenStack = .value token :: below ∧ popped = parse) ∨
      ∃ token, popped.tokenStack = .value token :: parse.tokenStack := by
  have htop : ∀ {wanted : JSONToken → Bool}, (∀ c, wanted (.char c) = false) →
      parse.tokenStack.head?.any wanted = true →
      ∃ token below, parse.tokenStack = .value token :: below := by
    intro wanted hchar hany
    cases hstack : parse.tokenStack with
    | nil => simp [hstack] at hany
    | cons top below =>
        cases top with
        | char c => simp [hstack, hchar] at hany
        | value token => exact ⟨token, below, rfl⟩
  have hscan : ∀ {scanned : Result (JSONParse × Nat)}, scanned.toOption = some (popped, last) →
      scanned = .ok (popped, last) := by
    intro scanned hsome
    cases scanned with
    | error fault => cases hsome
    | ok found => rw [Option.some.inj hsome]
  unfold popCall at hcall
  split_ifs at hcall with hcloseObject hany hcloseList hany hquote hkeyword hnumber
  · obtain ⟨rfl, rfl⟩ := Prod.mk.inj (Option.some.inj hcall)
    obtain ⟨token, below, hstack⟩ := htop (fun _ => rfl) hany
    exact Or.inl ⟨token, below, hstack, rfl⟩
  · obtain ⟨rfl, rfl⟩ := Prod.mk.inj (Option.some.inj hcall)
    obtain ⟨token, below, hstack⟩ := htop (fun _ => rfl) hany
    exact Or.inl ⟨token, below, hstack, rfl⟩
  · subst hquote
    obtain ⟨text, -, -, -, -, rfl⟩ := parseString_eq_ok (hscan hcall)
    exact Or.inr ⟨_, rfl⟩
  · obtain ⟨text, -, -, -, -, rfl⟩ := parseKeyword_eq_ok (hscan hcall)
    exact Or.inr ⟨_, rfl⟩
  · obtain ⟨text, -, -, -, -, rfl⟩ := parseNumber_eq_ok (hscan hcall)
    exact Or.inr ⟨_, rfl⟩

/-- A colon on top of the frames has its key and its object under it. -/
theorem holds_colon {frames : List Frame} {c : Char} {below : List JSONToken}
    (hholds : Holds frames (.char c :: below)) :
    ∃ lhs elements rest, below = lhs :: .value (.object elements) :: rest := by
  cases hholds with
  | member elements htype hbelow => exact ⟨_, elements, _, rfl⟩

theorem popCall_framed {parse popped : JSONParse} {c : Char} {rest : Text} {i last : Nat}
    (hframed : Framed parse) (hcall : popCall parse c (c :: rest) i = some (popped, last)) :
    ¬ CharOperand popped ∧ ¬ PairOutside popped := by
  obtain ⟨frames, hholds⟩ := hframed
  rcases tokenStack_of_popCall hcall with ⟨token, below, hstack, rfl⟩ | ⟨token, hstack⟩
  · constructor
    · rintro ⟨d, tail, htail⟩
      rw [hstack] at htail
      cases htail
    · rintro ⟨rhs, tail, htail, hnone⟩
      rw [htail] at hholds
      generalize hstack : rhs :: .char ':' :: tail = stack at hholds
      cases hholds with
      | empty => cases hstack
      | list elements hbelow =>
          obtain ⟨-, rfl⟩ := List.cons.inj hstack
          obtain ⟨lhs, elements, rest, hbelow⟩ := holds_colon hbelow
          exact hnone lhs elements rest hbelow
      | object elements hbelow =>
          obtain ⟨-, rfl⟩ := List.cons.inj hstack
          obtain ⟨lhs, elements, rest, hbelow⟩ := holds_colon hbelow
          exact hnone lhs elements rest hbelow
      | key elements htype hbelow => cases hstack
      | member elements htype hbelow => cases hstack
  · constructor
    · rintro ⟨d, tail, htail⟩
      rw [hstack] at htail
      cases htail
    · rintro ⟨rhs, tail, htail, hnone⟩
      rw [hstack] at htail
      obtain ⟨-, hbelow⟩ := List.cons.inj htail
      rw [hbelow] at hholds
      obtain ⟨lhs, elements, rest, hobject⟩ := holds_colon hholds
      exact hnone lhs elements rest hobject

/-! ### Brackets -/

theorem Nested.append {first second : List Bracket} (hfirst : Nested first)
    (hsecond : Nested second) : Nested (first ++ second) := by
  induction hfirst with
  | nil => exact hsecond
  | list hinner hrest _ ih =>
      have hnested := Nested.list hinner ih
      simpa using hnested
  | object hinner hrest _ ih =>
      have hnested := Nested.object hinner ih
      simpa using hnested

open DeserializationToken

mutual

theorem nested_shape (token : DeserializationToken) : Nested token.shape := by
  cases token with
  | scalar scalar => exact .nil
  | list elements => exact .list (nested_shapeElements elements) .nil
  | object elements => exact .object (nested_shapeMembers elements) .nil

theorem nested_shapeElements (elements : List DeserializationToken) :
    Nested (shapeElements elements) := by
  cases elements with
  | nil => exact .nil
  | cons token rest => exact (nested_shape token).append (nested_shapeElements rest)

theorem nested_shapeMembers (elements : List (Text × DeserializationToken)) :
    Nested (shapeMembers elements) := by
  cases elements with
  | nil => exact .nil
  | cons element rest =>
      obtain ⟨key, token⟩ := element
      exact (nested_shape token).append (nested_shapeMembers rest)

end

mutual

theorem brackets_bare (document : Document) :
    document.bare.filterMap Item.bracket = document.token.shape := by
  cases document with
  | scalar text => rfl
  | list elements =>
      have hinner := brackets_elements elements
      simp only [Document.bare, Document.spell, Document.token, shape, List.cons_append,
        List.filterMap_cons, List.filterMap_append, Item.bracket, hinner, List.filterMap_nil]
  | object members =>
      have hinner := brackets_members members
      simp only [Document.bare, Document.spell, Document.token, shape, List.cons_append,
        List.filterMap_cons, List.filterMap_append, Item.bracket, hinner, List.filterMap_nil]

theorem brackets_elements (elements : List Document) :
    (Document.spellElements List.flatten elements).flatten.filterMap Item.bracket =
      shapeElements (Document.tokens elements) := by
  cases elements with
  | nil => rfl
  | cons document rest =>
      have hhead := brackets_bare document
      have htail := brackets_elements rest
      rw [Document.spellElements, List.flatten_cons, List.filterMap_append, htail]
      exact congrArg (· ++ _) hhead

theorem brackets_members (members : List (Text × Document)) :
    (Document.spellMembers List.flatten members).flatten.filterMap Item.bracket =
      shapeMembers (Document.memberTokens members) := by
  cases members with
  | nil => rfl
  | cons member rest =>
      obtain ⟨key, document⟩ := member
      have hhead := brackets_bare document
      have htail := brackets_members rest
      rw [Document.spellMembers, List.flatten_cons, List.filterMap_append, htail]
      exact congrArg (· ++ _) hhead

end

/-- The brackets of an accepted text are those of its token. -/
theorem brackets_eq_shape {text : Text} {token : DeserializationToken}
    (hparse : parse text = .ok token) : brackets text = token.shape := by
  obtain ⟨-, document, hreads, rfl, -⟩ := exists_document hparse
  have hcommas : brackets text = ((items 0 text).filter (· ≠ .comma)).filterMap Item.bracket := by
    rw [brackets, List.filterMap_filter]
    congr 1
    funext item
    cases item <;> rfl
  rw [hcommas, hreads, brackets_bare]

/-- **The stack and the brackets.** Whatever the text, after every round of the loop the stack is a
sequence of frames, and no call of `_pop_top`, with which a round ends, finds a character to be
popped or a pair outside of an object; if the text is accepted, its brackets are nested as the token
is. -/
theorem frames_and_brackets (text : Text) :
    (∀ final, updateLoop 0 0 text make = .ok final ↔ ∃ i, Reached text ⟨i, [], final⟩) ∧
      (∀ reading, Reached text reading → Framed reading.parse ∧
        ∀ c rest popped last, reading.rest = c :: rest →
          popCall reading.parse c (c :: rest) reading.index = some (popped, last) →
            reading.parse.updateChar c (c :: rest) reading.index =
                (popped.popTop last).map (·, last) ∧
              ¬ CharOperand popped ∧ ¬ PairOutside popped) ∧
      ∀ token, parse text = .ok token →
        brackets text = token.shape ∧ Nested (brackets text) := by
  refine ⟨updateLoop_eq_ok_iff (.start text), ?_, ?_⟩
  · intro reading hreached
    have hframed := framed_of_reached hreached
    refine ⟨hframed, ?_⟩
    intro c rest popped last _ hcall
    exact ⟨updateChar_eq_popTop hcall, popCall_framed hframed hcall⟩
  · intro token hparse
    have hbrackets := brackets_eq_shape hparse
    exact ⟨hbrackets, hbrackets ▸ nested_shape token⟩

end Liblw.Mime
