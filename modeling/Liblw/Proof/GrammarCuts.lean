import Liblw.Proof.GrammarItems
import Liblw.Proof.ParseDocuments

/-!
# Two cuts of one text

The grammar knows escaped quotation marks, the parser ends a string at the first one. Yet a text
that has both cuts has them alike: once the two disagree on a string, the one is inside of a string
exactly where the other is outside, up to the end of the text.
-/

namespace Liblw.Mime

open Lib

/-! ### Inside and outside of strings -/

/-- No quotation mark is left open and no backslash stands outside of them. -/
def tidy : (inside : Bool) → Text → Bool
  | inside, [] => !inside
  | inside, c :: rest =>
      if c = '"' then tidy (!inside) rest
      else if c = '\\' then inside && tidy inside rest
      else tidy inside rest

/-- The text looks the same from inside and from outside. -/
def Plain (text : Text) : Prop := ∀ c ∈ text, c ≠ '"' ∧ c ≠ '\\'

theorem Plain.append {first second : Text} (hfirst : Plain first) (hsecond : Plain second) :
    Plain (first ++ second) := by
  intro c hc
  rcases List.mem_append.mp hc with hc | hc
  · exact hfirst c hc
  · exact hsecond c hc

theorem tidy_plain_append {text : Text} (hplain : Plain text) (inside : Bool) (rest : Text) :
    tidy inside (text ++ rest) = tidy inside rest := by
  induction text with
  | nil => rfl
  | cons c text ih =>
      obtain ⟨hquote, hbackslash⟩ := hplain c List.mem_cons_self
      rw [List.cons_append, tidy, if_neg hquote, if_neg hbackslash,
        ih fun d hd => hplain d (List.mem_cons_of_mem _ hd)]

theorem tidy_body_append {body : Text} (hbody : '"' ∉ body) (rest : Text) :
    tidy true (body ++ rest) = tidy true rest := by
  induction body with
  | nil => rfl
  | cons c body ih =>
      rw [List.mem_cons, not_or] at hbody
      rw [List.cons_append, tidy, if_neg (Ne.symm hbody.1), ih hbody.2]
      split
      · rfl
      · rfl

theorem plain_space {text : Text} (hspace : ∀ c ∈ text, isSpace c = true) : Plain text := by
  intro c hc
  have hc := hspace c hc
  constructor
  · rintro rfl
    exact absurd hc (by decide)
  · rintro rfl
    exact absurd hc (by decide)

theorem isSpace_of_isBlank {c : Char} (hblank : isBlank c = true) : isSpace c = true := by
  simp only [isBlank, Bool.or_eq_true, decide_eq_true_eq] at hblank
  rcases hblank with ((rfl | rfl) | rfl) | rfl
  · decide
  · decide
  · decide
  · decide

theorem Blank.space {text : Text} (hblank : Blank text) : ∀ c ∈ text, isSpace c = true :=
  fun c hc => isSpace_of_isBlank (hblank c hc)

theorem plain_numeric {text : Text} (hnumeric : ∀ c ∈ text, isNumeric c = true) : Plain text := by
  intro c hc
  have hc := hnumeric c hc
  constructor
  · rintro rfl
    exact absurd hc (by decide)
  · rintro rfl
    exact absurd hc (by decide)

theorem numeric_of_digits {digits : Text} (hdigits : Digits digits) :
    ∀ c ∈ digits, isNumeric c = true := fun c hc => by simp [isNumeric, hdigits.2 c hc]

theorem plain_sign {sign : Text} (hsign : SignPart sign) : Plain sign := by
  rcases hsign with rfl | rfl | rfl
  · simp [Plain]
  · simp [Plain]
  · simp [Plain]

theorem plain_keyword {word : Text} (hword : KeywordText word) : Plain word := by
  rcases hword with rfl | rfl | rfl
  · simp [Plain]
  · simp [Plain]
  · simp [Plain]

theorem plain_number {text : Text} (hnumber : NumberText text) : Plain text := by
  obtain ⟨sign, whole, fraction, exponent, hsign, hwhole, hfraction, hexponent, rfl⟩ := hnumber
  have hrun := plain_numeric (numeric_of_parts hwhole hfraction)
  have hpower : Plain exponent := by
    rcases hexponent with rfl | ⟨e, sign, digits, he, hsign, hdigits, rfl⟩
    · simp [Plain]
    · have hletter : Plain [e] := by
        rcases he with rfl | rfl
        · simp [Plain]
        · simp [Plain]
      exact (hletter.append (plain_sign hsign)).append (plain_numeric (numeric_of_digits hdigits))
  rw [List.append_assoc sign]
  exact ((plain_sign hsign).append hrun).append hpower

/-- An item of the grammar is a string, or has no quotation marks and no backslashes. -/
theorem plain_or_string {item : Item} (hitem : item.Proper) :
    Plain item.text ∨ ∃ body, StringBody body ∧ item = .scalar ('"' :: body ++ ['"']) := by
  cases item with
  | scalar text =>
      rcases hitem with hkeyword | hnumber | ⟨body, hbody, rfl⟩
      · exact Or.inl (plain_keyword hkeyword)
      · exact Or.inl (plain_number hnumber)
      · exact Or.inr ⟨body, hbody, rfl⟩
  | _ => exact Or.inl (by simp [Item.text, Plain])

theorem tidy_of_cut {list : List Item} {text : Text} (hcut : Cut list text) :
    tidy false text = true := by
  induction hcut with
  | nil hblank =>
      have htidy := tidy_plain_append (plain_space hblank) false []
      rwa [List.append_nil] at htidy
  | @cons before after item list hbefore hitem hafter ih =>
      rw [List.append_assoc, tidy_plain_append (plain_space hbefore)]
      cases item with
      | scalar text =>
          rw [Item.text]
          cases hitem with
          | string hquote =>
              rw [List.cons_append, tidy, if_pos rfl, List.append_assoc, Bool.not_false,
                tidy_body_append hquote]
              exact ih
          | keyword hword hnext => rwa [tidy_plain_append (plain_keyword hword)]
          | number hsign hnumeral hrun hnext =>
              rwa [tidy_plain_append ((plain_sign hsign).append (plain_numeric hrun))]
      | _ => exact ih

/-- Seen from the wrong side, a string without escapes is left on the wrong side again, and one
with escapes is not tidy. -/
theorem tidy_of_body {body rest : Text} (hbody : StringBody body)
    (htidy : tidy false (body ++ '"' :: rest) = true) : tidy true rest = true := by
  induction hbody with
  | nil => exact htidy
  | plain hquote hbackslash hcontrol hrest ih =>
      rw [List.cons_append, tidy, if_neg hquote, if_neg hbackslash] at htidy
      exact ih htidy
  | escape hrest ih =>
      rw [List.cons_append, tidy, if_neg (by decide), if_pos rfl] at htidy
      cases htidy

theorem not_tidy_of_spelling {list : List Item} {text : Text} (hspelling : Spelling list text) :
    tidy true text = false := by
  induction hspelling with
  | nil hblank =>
      have htidy := tidy_plain_append (plain_space hblank.space) true []
      rwa [List.append_nil] at htidy
  | @cons before after item list hbefore hitem hafter ih =>
      rw [List.append_assoc, tidy_plain_append (plain_space hbefore.space)]
      rcases plain_or_string hitem with hplain | ⟨body, hbody, rfl⟩
      · rwa [tidy_plain_append hplain]
      · apply Bool.eq_false_iff.mpr
        intro htidy
        rw [Item.text, List.cons_append, List.cons_append, tidy, if_pos rfl, List.append_assoc,
          Bool.not_true] at htidy
        have hrest : tidy true after = true := tidy_of_body hbody htidy
        rw [ih] at hrest
        cases hrest

/-- Seen from the right side, no escape of a string stands before a quotation mark. -/
theorem quote_notMem_of_tidy {body rest : Text} (hbody : StringBody body)
    (hrest : tidy true rest = false) (htidy : tidy true (body ++ '"' :: rest) = true) :
    '"' ∉ body := by
  induction hbody with
  | nil => simp
  | plain hquote hbackslash hcontrol hbody ih =>
      rw [List.cons_append, tidy, if_neg hquote, if_neg hbackslash] at htidy
      rw [List.mem_cons, not_or]
      exact ⟨Ne.symm hquote, ih htidy⟩
  | @escape c body hbody ih =>
      rw [List.cons_append, tidy, if_neg (by decide), if_pos rfl, Bool.true_and, List.cons_append,
        tidy] at htidy
      have hc : c ≠ '"' := by
        rintro rfl
        rw [if_pos rfl] at htidy
        rw [tidy_of_body hbody htidy] at hrest
        cases hrest
      rw [if_neg hc] at htidy
      have hbody : tidy true (body ++ '"' :: rest) = true := by
        split at htidy
        · exact htidy
        · exact htidy
      rw [List.mem_cons, List.mem_cons, not_or, not_or]
      exact ⟨by decide, Ne.symm hc, ih hbody⟩

/-! ### What follows an item -/

/-- No number and no word goes on with this character. -/
def Ends (c : Char) : Prop := isNumeric c = false ∧ (isAlnum c || c = '_') = false

theorem Item.Proper.exists_cons {item : Item} (hitem : item.Proper) :
    ∃ c tail, item.text = c :: tail ∧ isSpace c = false ∧
      (item.beginsValue = false → Ends c) := by
  cases item with
  | scalar text =>
      rcases hitem with hkeyword | hnumber | ⟨body, -, rfl⟩
      · rcases hkeyword with rfl | rfl | rfl
        · exact ⟨'t', _, rfl, by decide, by simp [Item.beginsValue]⟩
        · exact ⟨'f', _, rfl, by decide, by simp [Item.beginsValue]⟩
        · exact ⟨'n', _, rfl, by decide, by simp [Item.beginsValue]⟩
      · obtain ⟨sign, whole, fraction, exponent, hsign, hwhole, hfraction, -, rfl⟩ := hnumber
        obtain ⟨c, tail, hcons, hstart⟩ :=
          startsNumber_head hsign (numeral_of_parts hwhole hfraction)
        refine ⟨c, tail ++ exponent, ?_, hstart.not_space, by simp [Item.beginsValue]⟩
        rw [Item.text, List.append_assoc sign, hcons, List.cons_append]
      · exact ⟨'"', _, rfl, by decide, by simp [Item.beginsValue]⟩
  | openObject => exact ⟨_, _, rfl, by decide, by simp [Item.beginsValue]⟩
  | openList => exact ⟨_, _, rfl, by decide, by simp [Item.beginsValue]⟩
  | _ => exact ⟨_, _, rfl, by decide, fun _ => ⟨by decide, by decide⟩⟩

theorem ends_of_isBlank {c : Char} (hblank : isBlank c = true) : Ends c := by
  simp only [isBlank, Bool.or_eq_true, decide_eq_true_eq] at hblank
  rcases hblank with ((rfl | rfl) | rfl) | rfl
  · exact ⟨by decide, by decide⟩
  · exact ⟨by decide, by decide⟩
  · exact ⟨by decide, by decide⟩
  · exact ⟨by decide, by decide⟩

/-- Behind an item that asks for no comma, neither a number nor a word goes on. -/
theorem Spelling.ends {list : List Item} {text : Text} (hspelling : Spelling list text)
    (hnext : ∀ next ∈ list.head?, next.beginsValue = false) : ∀ c ∈ text.head?, Ends c := by
  intro c hc
  cases hspelling with
  | nil hblank => exact ends_of_isBlank (hblank c (List.mem_of_mem_head? hc))
  | @cons before after item list hbefore hitem hafter =>
      cases before with
      | cons d before =>
          obtain rfl := Option.some.inj hc
          exact ends_of_isBlank (hbefore d List.mem_cons_self)
      | nil =>
          obtain ⟨d, tail, htext, -, hends⟩ := hitem.exists_cons
          rw [List.nil_append, htext] at hc
          obtain rfl := Option.some.inj hc
          exact hends (hnext item rfl)

/-! ### The two cuts agree -/

/-- What starts behind the blanks starts at one place. -/
theorem append_inj_space {before first after second : Text} {c d : Char}
    (hbefore : ∀ e ∈ before, isSpace e = true) (hfirst : ∀ e ∈ first, isSpace e = true)
    (hc : isSpace c = false) (hd : isSpace d = false)
    (htext : before ++ c :: after = first ++ d :: second) :
    before = first ∧ c :: after = d :: second := by
  induction before generalizing first with
  | nil =>
      cases first with
      | nil => exact ⟨rfl, htext⟩
      | cons e first =>
          obtain ⟨rfl, -⟩ := List.cons.inj htext
          rw [hfirst c List.mem_cons_self] at hc
          cases hc
  | cons e before ih =>
      cases first with
      | nil =>
          obtain ⟨rfl, -⟩ := List.cons.inj htext
          rw [hbefore e List.mem_cons_self] at hd
          cases hd
      | cons f first =>
          obtain ⟨rfl, htail⟩ := List.cons.inj htext
          obtain ⟨rfl, hrest⟩ := ih (fun g hg => hbefore g (List.mem_cons_of_mem _ hg))
            (fun g hg => hfirst g (List.mem_cons_of_mem _ hg)) htail
          exact ⟨rfl, hrest⟩

/-- One text has one item at its front. -/
theorem item_unique {item other : Item} {after rest : Text} (hitem : ItemAt item after)
    (hother : ItemAt other rest) (htext : item.text ++ after = other.text ++ rest) :
    item = other ∧ after = rest := by
  have hitems := (cut_item hitem).1
  rw [htext, (cut_item hother).1] at hitems
  obtain ⟨rfl, -⟩ := List.cons.inj hitems
  exact ⟨rfl, List.append_cancel_left htext⟩

/-- The character at the front of an item is no letter but that of a keyword. -/
theorem ItemAt.head_ne {item : Item} {after : Text} (hitem : ItemAt item after) :
    item.text.head? ≠ some 'e' ∧ item.text.head? ≠ some 'E' := by
  cases item with
  | scalar text =>
      cases hitem with
      | string hquote => exact ⟨by simp [Item.text], by simp [Item.text]⟩
      | keyword hword hnext =>
          rcases hword with rfl | rfl | rfl
          · exact ⟨by simp [Item.text], by simp [Item.text]⟩
          · exact ⟨by simp [Item.text], by simp [Item.text]⟩
          · exact ⟨by simp [Item.text], by simp [Item.text]⟩
      | number hsign hnumeral hrun hnext =>
          obtain ⟨c, tail, htext, hstart⟩ := startsNumber_head hsign hnumeral
          have he : c ≠ 'e' := hstart.ne (by decide) (by decide) (by decide)
          have hE : c ≠ 'E' := hstart.ne (by decide) (by decide) (by decide)
          rw [Item.text, htext]
          exact ⟨by simpa using he, by simpa using hE⟩
  | _ => exact ⟨by simp [Item.text], by simp [Item.text]⟩

/-- The parser knows no exponents. -/
theorem Cut.head_ne {list : List Item} {c : Char} {text : Text} (hcut : Cut list (c :: text)) :
    c ≠ 'e' ∧ c ≠ 'E' := by
  have hletters : isSpace 'e' = false ∧ isSpace 'E' = false := ⟨by decide, by decide⟩
  have hspace : isSpace c = true → c ≠ 'e' ∧ c ≠ 'E' := by
    intro hc
    constructor
    · rintro rfl
      rw [hletters.1] at hc
      cases hc
    · rintro rfl
      rw [hletters.2] at hc
      cases hc
  generalize hwhole : c :: text = whole at hcut
  cases hcut with
  | nil hblank =>
      subst hwhole
      exact hspace (hblank c List.mem_cons_self)
  | @cons before after item list hbefore hitem hafter =>
      cases before with
      | cons d before =>
          obtain ⟨rfl, -⟩ := List.cons.inj hwhole
          exact hspace (hbefore c List.mem_cons_self)
      | nil =>
          obtain ⟨d, tail, htext, -⟩ := item_text_cons hitem
          have hne := hitem.head_ne
          rw [List.nil_append, htext, List.cons_append] at hwhole
          obtain ⟨rfl, -⟩ := List.cons.inj hwhole
          rw [htext] at hne
          exact ⟨by simpa using hne.1, by simpa using hne.2⟩

/-- A keyword at the end of the text is at the front of no item. -/
theorem not_itemAt_keyword {item : Item} {word after : Text} (hword : KeywordText word)
    (hitem : ItemAt item after) : item.text ++ after ≠ word := by
  intro htext
  apply lexeme_ne_cut hitem
  rw [htext]
  rcases hword with rfl | rfl | rfl
  · rfl
  · rfl
  · rfl

/-- An item of the grammar, with something behind it that does not go on with it, is where the
parser has it, if the parser has anything there. -/
theorem itemAt_of_proper {item other : Item} {after rest : Text} {list : List Item}
    (hitem : item.Proper) (hends : item.endsValue = true → ∀ c ∈ after.head?, Ends c)
    (houtside : tidy true after = false) (hother : ItemAt other rest) (hcut : Cut list rest)
    (htext : item.text ++ after = other.text ++ rest) : ItemAt item after := by
  cases item with
  | scalar text =>
      have hnext := hends rfl
      rcases hitem with hkeyword | hnumber | ⟨body, hbody, rfl⟩
      · cases after with
        | nil =>
            rw [Item.text, List.append_nil] at htext
            exact absurd htext.symm (not_itemAt_keyword hkeyword hother)
        | cons c after => exact .keyword hkeyword (hnext c rfl).2
      · obtain ⟨sign, whole, fraction, exponent, hsign, hwhole, hfraction, hexponent, rfl⟩ :=
          hnumber
        have hnumeral := numeral_of_parts hwhole hfraction
        have hnumeric := numeric_of_parts hwhole hfraction
        rcases hexponent with rfl | ⟨e, power, digits, he, -, -, rfl⟩
        · rw [List.append_nil, List.append_assoc]
          exact .number hsign hnumeral hnumeric fun c hc => (hnext c hc).1
        · -- the parser would have taken the number without its exponent, and nothing behind it
          have hletter : isNumeric e = false := by
            rcases he with rfl | rfl
            · decide
            · decide
          have hnumber : ItemAt (.scalar (sign ++ (whole ++ fraction)))
              (e :: (power ++ digits ++ after)) :=
            .number hsign hnumeral hnumeric fun c hc => Option.some.inj hc ▸ hletter
          have hwhole : (Item.scalar (sign ++ (whole ++ fraction))).text ++
              e :: (power ++ digits ++ after) = other.text ++ rest := by
            rw [← htext]
            simp [Item.text]
          obtain ⟨-, rfl⟩ := item_unique hnumber hother hwhole
          rcases he with rfl | rfl
          · exact absurd rfl hcut.head_ne.1
          · exact absurd rfl hcut.head_ne.2
      · have htidy := tidy_of_cut (hcut.front hother)
        rw [← htext, Item.text, List.cons_append, List.cons_append, tidy, if_pos rfl,
          List.append_assoc, Bool.not_false] at htidy
        exact .string (quote_notMem_of_tidy hbody houtside htidy)
  | _ => exact trivial

/-- **The two cuts.** Where the parser cuts a text at all and the grammar has its commas in place,
both find the same items, and the same blanks. -/
theorem cut_of_spelling {list other : List Item} {text : Text} (hspelling : Spelling list text)
    (hcommas : list.IsChain fun first second => Item.needsComma first second = false)
    (hcut : Cut other text) : other = list ∧ Blank (blanks 0 text) := by
  induction hspelling generalizing other with
  | @nil text hblank =>
      cases hcut with
      | nil hspace =>
          have hblanks := (cut_blank hspace []).2
          rw [List.append_nil, blanks, List.append_nil] at hblanks
          rw [hblanks]
          exact ⟨rfl, hblank⟩
      | @cons before after item other hspace hitem hafter =>
          obtain ⟨c, tail, htext, hc⟩ := item_text_cons hitem
          have hspaced := hblank.space c (by simp [htext])
          rw [hc] at hspaced
          cases hspaced
  | @cons before after item list hbefore hitem hafter ih =>
      obtain ⟨c, tail, htext, hc, -⟩ := hitem.exists_cons
      generalize hwhole : before ++ item.text ++ after = whole at hcut
      cases hcut with
      | nil hspace =>
          have hspaced := hspace c (by rw [← hwhole, htext]; simp)
          rw [hc] at hspaced
          cases hspaced
      | @cons first rest found other hfirst hfound hrest =>
          obtain ⟨d, back, hspelled, hd⟩ := item_text_cons hfound
          obtain ⟨rfl, hfront⟩ : before = first ∧ item.text ++ after = found.text ++ rest := by
            rw [List.append_assoc, List.append_assoc, htext, hspelled] at hwhole
            rw [htext, hspelled]
            exact append_inj_space hbefore.space hfirst hc hd hwhole
          have hends : item.endsValue = true → ∀ e ∈ after.head?, Ends e := by
            intro hvalue
            refine hafter.ends fun next hnext => ?_
            have hneeds := (List.isChain_cons.mp hcommas).1 next hnext
            rwa [Item.needsComma, hvalue, Bool.true_and] at hneeds
          have hat := itemAt_of_proper hitem hends (not_tidy_of_spelling hafter) hfound hrest hfront
          obtain ⟨rfl, rfl⟩ := item_unique hat hfound hfront
          obtain ⟨rfl, hblanks⟩ := ih (List.isChain_cons.mp hcommas).2 hrest
          refine ⟨rfl, ?_⟩
          rw [List.append_assoc, (cut_blank hbefore.space _).2, (cut_item hat).2]
          exact hbefore.append hblanks

/-! ### What is accepted and what is derivable -/

theorem proper_of_scalarAt {text after : Text} (hscalar : ScalarAt text after)
    (hstring : text.head? = some '"' → StringText text) : ScalarText text := by
  cases hscalar with
  | string hbefore => exact Or.inr (Or.inr (hstring rfl))
  | keyword hword hnext => exact Or.inl hword
  | @number sign run after hsign hnumeral hrun hafter =>
      obtain ⟨whole, fraction, hwhole, hfraction, rfl⟩ := exists_parts_of_numeral hrun hnumeral
      exact Or.inr (Or.inl ⟨sign, whole, fraction, [], hsign, hwhole, hfraction, Or.inl rfl,
        by simp⟩)

theorem spelling_of_cut {list : List Item} {text : Text} (hcut : Cut list text)
    (hblanks : Blank (blanks 0 text))
    (hstrings : ∀ spelled, Item.scalar spelled ∈ list → spelled.head? = some '"' →
      StringText spelled) : Spelling list text := by
  induction hcut with
  | nil hspace =>
      have hall := (cut_blank hspace []).2
      rw [List.append_nil, blanks, List.append_nil] at hall
      rw [hall] at hblanks
      exact .nil hblanks
  | @cons before after item list hspace hitem hafter ih =>
      rw [List.append_assoc, (cut_blank hspace _).2, (cut_item hitem).2] at hblanks
      have hbefore : Blank before := fun c hc => hblanks c (List.mem_append_left _ hc)
      have hbehind : Blank (blanks 0 after) := fun c hc => hblanks c (List.mem_append_right _ hc)
      have hproper : item.Proper := by
        cases item with
        | scalar spelled =>
            exact proper_of_scalarAt hitem (hstrings spelled List.mem_cons_self)
        | _ => exact trivial
      exact .cons hbefore hproper
        (ih hbehind fun spelled hmem => hstrings spelled (List.mem_cons_of_mem _ hmem))

mutual

theorem Document.Every.mono {p q : List Text → Prop} (hmono : ∀ keys, p keys → q keys)
    (document : Document) (hevery : document.Every p) : document.Every q := by
  cases document with
  | scalar text => exact trivial
  | list elements => exact Document.EveryElement.mono hmono elements hevery
  | object members => exact ⟨hmono _ hevery.1, Document.EveryMember.mono hmono members hevery.2⟩

theorem Document.EveryElement.mono {p q : List Text → Prop} (hmono : ∀ keys, p keys → q keys)
    (elements : List Document) (hevery : Document.EveryElement p elements) :
    Document.EveryElement q elements := by
  cases elements with
  | nil => exact trivial
  | cons document rest =>
      exact ⟨Document.Every.mono hmono document hevery.1,
        Document.EveryElement.mono hmono rest hevery.2⟩

theorem Document.EveryMember.mono {p q : List Text → Prop} (hmono : ∀ keys, p keys → q keys)
    (members : List (Text × Document)) (hevery : Document.EveryMember p members) :
    Document.EveryMember q members := by
  cases members with
  | nil => exact trivial
  | cons member rest =>
      obtain ⟨key, document⟩ := member
      exact ⟨Document.Every.mono hmono document hevery.1,
        Document.EveryMember.mono hmono rest hevery.2⟩

end

theorem derivable_of_regular {text : Text} (haccepted : Accepted text) (hregular : Regular text) :
    Derivable text := by
  obtain ⟨token, hparse⟩ := haccepted
  obtain ⟨hcut, document, hreads, -, hkeys⟩ := exists_document hparse
  have hitems : items 0 text = document.separated := by
    rw [separated_eq, ← hreads]
    exact hregular.commas.eq_spaced
  have hspelling := spelling_of_cut hcut hregular.blanks hregular.strings
  rw [hitems] at hspelling
  exact (derivable_iff text).mpr
    ⟨document, Document.Every.mono (fun _ hkeys => hkeys.1) document hkeys, hspelling⟩

theorem regular_of_derivable {text : Text} (haccepted : Accepted text)
    (hderivable : Derivable text) : Regular text := by
  obtain ⟨token, hparse⟩ := haccepted
  obtain ⟨hcut, -⟩ := exists_document hparse
  obtain ⟨document, -, hspelling⟩ := (derivable_iff text).mp hderivable
  have hspaced : WellSpaced .comma Item.needsComma document.separated := by
    rw [separated_eq]
    exact wellSpaced_spaced (comma_notMem_bare document)
  have hchain := hspaced.isChain (by simp [Item.needsComma, Item.beginsValue])
    (by simp [Item.needsComma, Item.endsValue])
  obtain ⟨hitems, hblanks⟩ := cut_of_spelling hspelling hchain hcut
  refine ⟨hblanks, ?_, hitems ▸ hspaced⟩
  intro spelled hmem hhead
  rw [hitems] at hmem
  exact ScalarText.string (hspelling.proper _ hmem) hhead

/-- **Accepted texts and the grammar.** What the parser accepts is derivable exactly when its blanks
are those of the grammar, its strings are strings of the grammar, and one comma stands between any
two neighbours and nowhere else. -/
theorem derivable_iff_regular (text : Text) (haccepted : Accepted text) :
    Derivable text ↔ Regular text :=
  ⟨regular_of_derivable haccepted, derivable_of_regular haccepted⟩

theorem derivable_iff_regular_list :
    Accepted "[1, 2]".toList ∧ (Derivable "[1, 2]".toList ↔ Regular "[1, 2]".toList) :=
  ⟨⟨_, rfl⟩, derivable_iff_regular "[1, 2]".toList ⟨_, rfl⟩⟩

theorem accepted_without_comma :
    ¬ ∀ text, Accepted text → Derivable text := by
  intro hall
  have haccepted : Accepted "[1 2]".toList := ⟨_, rfl⟩
  have hcommas := (regular_of_derivable haccepted (hall _ haccepted)).commas
  have hitems : items 0 "[1 2]".toList =
      [.openList, .scalar ['1'], .scalar ['2'], .closeList] := by decide
  rw [hitems] at hcommas
  cases hcommas with
  | next _ _ hrest =>
      cases hrest with
      | next _ hneeds _ => cases hneeds

end Liblw.Mime
