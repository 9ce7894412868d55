import Liblw.Mime.Readable
import Liblw.Proof.GrammarCuts
import Liblw.Proof.ObjectKeys

/-!
# What the parser accepts of the grammar

The other direction of `exists_document`: where every item stands as its scanner takes it, and the
open containers have a place for each value, no round of the loop fails. A text of the grammar is
accepted exactly if it is readable, and then it is read as the document that it is for.
-/

namespace Liblw.Mime

open Lib JSONParse
open Progress (take takeAll)

/-! ### The scanners -/

section Scanners

variable {parse : JSONParse} {i : Nat}

theorem updateChar_of_startsNumber {c : Char} (hc : StartsNumber c) (str : Text) :
    parse.updateChar c str i = popScanned (parse.parseNumber str i) := by
  have hnumber : c = '+' ∨ c = '-' ∨ isDigit c = true := hc
  have hopenObject : c ≠ '\x7b' := hc.ne (by decide) (by decide) (by decide)
  have hcloseObject : c ≠ '\x7d' := hc.ne (by decide) (by decide) (by decide)
  have hopenList : c ≠ '[' := hc.ne (by decide) (by decide) (by decide)
  have hcloseList : c ≠ ']' := hc.ne (by decide) (by decide) (by decide)
  have hcolon : c ≠ ':' := hc.ne (by decide) (by decide) (by decide)
  have hcomma : c ≠ ',' := hc.ne (by decide) (by decide) (by decide)
  have hquote : c ≠ '"' := hc.ne (by decide) (by decide) (by decide)
  have ht : c ≠ 't' := hc.ne (by decide) (by decide) (by decide)
  have hf : c ≠ 'f' := hc.ne (by decide) (by decide) (by decide)
  have hn : c ≠ 'n' := hc.ne (by decide) (by decide) (by decide)
  rw [updateChar]
  simp only [hopenObject, hcloseObject, hopenList, hcloseList, hcolon, hcomma, hquote, ht, hf, hn,
    hnumber, or_self, ↓reduceIte]

theorem updateChar_keyword {word after : Text} {c : Char} (hword : KeywordText word)
    (hnext : (isAlnum c || c = '_') = false) :
    ∃ d tail, word = d :: tail ∧ parse.updateChar d (word ++ c :: after) i =
      popScanned (.ok (parse.push (.scalar (scalarToken word)), i + tail.length)) := by
  have hkeyword := keyword_append hword (c :: after)
  have hscan : parse.parseKeyword (word ++ c :: after) i =
      .ok (parse.push (.scalar (scalarToken word)), i + word.length - 1) := by
    have hlength : (word ++ c :: after).length - (after.length + 1) = word.length := by
      rw [List.length_append, List.length_cons, Nat.add_sub_cancel]
    simp only [parseKeyword, hkeyword, hnext, Bool.false_eq_true, ↓reduceIte, hlength]
  rcases hword with rfl | rfl | rfl
  · exact ⟨'t', _, rfl, congrArg popScanned hscan⟩
  · exact ⟨'f', _, rfl, congrArg popScanned hscan⟩
  · exact ⟨'n', _, rfl, congrArg popScanned hscan⟩

theorem updateChar_numeral {sign run after : Text} (hsign : SignPart sign) (hnumeral : Numeral run)
    (hrun : ∀ c ∈ run, isNumeric c = true) (hafter : ∀ c ∈ after.head?, isNumeric c = false) :
    ∃ d tail, sign ++ run = d :: tail ∧ parse.updateChar d (sign ++ run ++ after) i =
      popScanned (.ok (parse.push (.scalar (scalarToken (sign ++ run))), i + tail.length)) := by
  obtain ⟨d, tail, htext, hstart⟩ := startsNumber_head hsign hnumeral
  have hscan := (parseNumber_eq_ok_iff parse (sign ++ run ++ after) i _).mpr
    ⟨by rwa [runOf_append_run hsign hnumeral hrun hafter], rfl⟩
  have hlast : (sign ++ run).length - 1 = tail.length := by
    rw [htext, List.length_cons, Nat.add_sub_cancel]
  rw [signOf_append_run hsign hnumeral, runOf_append_run hsign hnumeral hrun hafter,
    ← scalarType_number hsign hnumeral, hlast] at hscan
  refine ⟨d, tail, htext, ?_⟩
  rw [updateChar_of_startsNumber hstart, hscan]
  rfl

theorem updateChar_string {before : Text} (hbefore : '"' ∉ before) (after : Text) :
    parse.updateChar '"' ('"' :: (before ++ ['"']) ++ after) i =
      popScanned (.ok (parse.push (.scalar (scalarToken ('"' :: (before ++ ['"'])))),
        i + (before ++ ['"']).length)) := by
  have hscan := parseString_append hbefore i after parse
  have htext : '"' :: (before ++ ['"']) ++ after = '"' :: (before ++ '"' :: after) := by simp
  have hlast : i + 1 + before.length = i + (before ++ ['"']).length := by
    rw [List.length_append, List.length_singleton]
    omega
  rw [htext, ← hlast]
  exact congrArg popScanned hscan

/-- Where a scalar stands as its scanner takes it, the round pushes its token and pops it. -/
theorem updateChar_scalarAt {text after : Text} (hscalar : ScalarAt text after) :
    ∃ d tail, text = d :: tail ∧ parse.updateChar d (text ++ after) i =
      popScanned (.ok (parse.push (.scalar (scalarToken text)), i + tail.length)) := by
  cases hscalar with
  | string hbefore => exact ⟨'"', _, rfl, updateChar_string hbefore after⟩
  | keyword hword hnext => exact updateChar_keyword hword hnext
  | number hsign hnumeral hrun hafter => exact updateChar_numeral hsign hnumeral hrun hafter

end Scanners

/-! ### One item -/

/-- A value that is complete has its place among the open containers. -/
theorem popTop_of_finish {opened : List Opened} {document : Document} {progress : Progress}
    (hfinish : finish document opened = some progress) (i : Nat) :
    (JSONParse.push (Progress.within opened).state document.token).popTop i =
      .ok progress.state := by
  cases opened with
  | nil =>
      obtain rfl := Option.some.inj hfinish
      rfl
  | cons innermost rest =>
      cases innermost with
      | list elements =>
          obtain rfl := Option.some.inj hfinish
          change Except.ok (JSONParse.mk (.value (.list (Document.tokens elements ++
            [document.token])) :: rest.flatMap Opened.stack) none) = .ok (JSONParse.mk
              (.value (.list (Document.tokens (elements ++ [document]))) ::
                rest.flatMap Opened.stack) none)
          rw [tokens_append]
          rfl
      | object members =>
          cases document with
          | scalar text =>
              obtain ⟨htype, hsome⟩ := Option.ite_none_right_eq_some.mp hfinish
              obtain rfl := Option.some.inj hsome
              have hstring : (Document.scalar text).token.isString = true := decide_eq_true htype
              exact if_pos hstring
          | list elements => cases hfinish
          | object members => cases hfinish
      | key members key => cases hfinish
      | member members key =>
          obtain ⟨hfresh, hsome⟩ := Option.ite_none_left_eq_some.mp hfinish
          obtain rfl := Option.some.inj hsome
          have hlookup :
              ¬ ((Document.memberTokens members).lookup (unquoted key)).isSome = true :=
            fun hpresent => hfresh ((lookup_isSome_iff_key members _).mp hpresent)
          rw [unquoted] at hlookup
          simp only [popTop, JSONParse.push, Progress.state, List.flatMap_cons, Opened.stack,
            List.cons_append, List.nil_append, Document.token, ↓reduceIte, popPair,
            JSONParse.insert, scalarToken, JSONScalarToken.make, hlookup, memberTokens_append]
          rfl

/-- An item that the open containers have a place for is read, and the loop goes on behind it. -/
theorem updateLoop_item {opened : List Opened} {item : Item} {after : Text} {progress : Progress}
    (hitem : ItemAt item after) (htake : take opened item = some progress) (i : Nat) :
    updateLoop i 0 (item.text ++ after) (Progress.within opened).state =
      updateLoop (i + item.text.length) 0 after progress.state := by
  cases item with
  | openObject =>
      obtain rfl := Option.some.inj htake
      exact updateLoop_single (by decide) rfl rfl
  | openList =>
      obtain rfl := Option.some.inj htake
      exact updateLoop_single (by decide) rfl rfl
  | closeObject =>
      cases opened with
      | nil => cases htake
      | cons innermost rest =>
          cases innermost with
          | object members =>
              refine updateLoop_single (by decide) rfl ?_
              have hpop : JSONParse.popTop (Progress.within (.object members :: rest)).state i =
                  .ok progress.state := popTop_of_finish htake i
              change ((JSONParse.popTop (Progress.within (.object members :: rest)).state i).map
                (·, i)) = _
              rw [hpop]
              rfl
          | _ => cases htake
  | closeList =>
      cases opened with
      | nil => cases htake
      | cons innermost rest =>
          cases innermost with
          | list elements =>
              refine updateLoop_single (by decide) rfl ?_
              have hpop : JSONParse.popTop (Progress.within (.list elements :: rest)).state i =
                  .ok progress.state := popTop_of_finish htake i
              change ((JSONParse.popTop (Progress.within (.list elements :: rest)).state i).map
                (·, i)) = _
              rw [hpop]
              rfl
          | _ => cases htake
  | colon =>
      cases opened with
      | nil => cases htake
      | cons innermost rest =>
          cases innermost with
          | key members key =>
              obtain rfl := Option.some.inj htake
              exact updateLoop_single (by decide) rfl rfl
          | _ => cases htake
  | comma =>
      cases opened with
      | nil => cases htake
      | cons innermost rest =>
          cases innermost with
          | list elements =>
              obtain rfl := Option.some.inj htake
              exact updateLoop_single (by decide) rfl rfl
          | object members =>
              obtain rfl := Option.some.inj htake
              exact updateLoop_single (by decide) rfl rfl
          | _ => cases htake
  | scalar text =>
      obtain ⟨d, tail, rfl, hround⟩ :=
        @updateChar_scalarAt (Progress.within opened).state i text after hitem
      obtain ⟨c, rest, hcons, hspace⟩ := item_text_cons hitem
      obtain ⟨rfl, rfl⟩ := List.cons.inj hcons
      exact updateLoop_scalar hspace rfl (popTop_of_finish htake) hround

theorem updateLoop_space {before : Text} (hbefore : ∀ c ∈ before, isSpace c = true) (rest : Text)
    (i : Nat) (parse : JSONParse) :
    updateLoop i 0 (before ++ rest) parse = updateLoop (i + before.length) 0 rest parse := by
  induction before generalizing i with
  | nil => rfl
  | cons c before ih =>
      rw [List.cons_append, updateLoop, if_pos (hbefore c List.mem_cons_self),
        ih fun d hd => hbefore d (List.mem_cons_of_mem _ hd), List.length_cons]
      congr 1
      omega

/-- **The loop.** A text that is cut into items for which there is always a place is read. -/
theorem updateLoop_of_cut {list : List Item} {text : Text} (hcut : Cut list text)
    {progress reached : Progress} (htake : takeAll progress list = some reached) (i : Nat) :
    updateLoop i 0 text progress.state = .ok reached.state := by
  induction hcut generalizing progress i with
  | @nil text hblank =>
      obtain rfl : progress = reached := by
        cases progress with
        | within opened => exact Option.some.inj htake
        | complete document => exact Option.some.inj htake
      have hloop := updateLoop_space hblank [] i progress.state
      rwa [List.append_nil] at hloop
  | @cons before after item list hbefore hitem hafter ih =>
      cases progress with
      | complete document => cases htake
      | within opened =>
          obtain ⟨next, hnext, hrest⟩ := Option.bind_eq_some_iff.mp htake
          rw [List.append_assoc, updateLoop_space hbefore, updateLoop_item hitem hnext]
          exact ih hrest _

/-! ### The items of a document -/

mutual

/-- Reading the items of a document is to finish it. -/
theorem takeAll_document {opened : List Opened} {rest : List Item} (document : Document)
    (hstrings : document.Every StringKeys) (hkeys : document.Every DistinctKeys) :
    takeAll (.within opened) (document.separated ++ rest) =
      (finish document opened).bind fun progress => takeAll progress rest := by
  cases document with
  | scalar text => rfl
  | list elements =>
      have hinner := @takeAll_elements opened (.closeList :: rest) [] elements hstrings hkeys
      rw [List.nil_append] at hinner
      change takeAll (.within (.list [] :: opened)) (listItems elements ++ [.closeList] ++ rest) = _
      rw [List.append_assoc]
      exact hinner
  | object members =>
      have hfresh : DistinctKeys (([] ++ members).map Prod.fst) := hkeys.1
      have hinner := @takeAll_members opened (.closeObject :: rest) [] members hstrings.1
        hstrings.2 hfresh hkeys.2
      rw [List.nil_append] at hinner
      change takeAll (.within (.object [] :: opened))
        (objectItems members ++ [.closeObject] ++ rest) = _
      rw [List.append_assoc]
      exact hinner

theorem takeAll_elements {opened : List Opened} {rest : List Item} (done elements : List Document)
    (hstrings : Document.EveryElement StringKeys elements)
    (hkeys : Document.EveryElement DistinctKeys elements) :
    takeAll (.within (.list done :: opened)) (listItems elements ++ rest) =
      takeAll (.within (.list (done ++ elements) :: opened)) rest := by
  cases elements with
  | nil => rw [List.append_nil]; rfl
  | cons document elements =>
      have hfirst : ∀ behind, takeAll (.within (.list done :: opened))
          (document.separated ++ behind) =
            takeAll (.within (.list (done ++ [document]) :: opened)) behind := fun behind =>
        @takeAll_document (.list done :: opened) behind document hstrings.1 hkeys.1
      have hlater :=
        @takeAll_elements opened rest (done ++ [document]) elements hstrings.2 hkeys.2
      rw [List.append_assoc, List.singleton_append] at hlater
      cases elements with
      | nil => rw [listItems_singleton, hfirst]
      | cons next elements =>
          rw [listItems_cons_cons, List.append_assoc, hfirst, List.cons_append]
          exact hlater

theorem takeAll_members {opened : List Opened} {rest : List Item}
    (done members : List (Text × Document))
    (hnames : StringKeys (members.map Prod.fst))
    (hstrings : Document.EveryMember StringKeys members)
    (hfresh : DistinctKeys ((done ++ members).map Prod.fst))
    (hkeys : Document.EveryMember DistinctKeys members) :
    takeAll (.within (.object done :: opened)) (objectItems members ++ rest) =
      takeAll (.within (.object (done ++ members) :: opened)) rest := by
  cases members with
  | nil => rw [List.append_nil]; rfl
  | cons member members =>
      obtain ⟨key, document⟩ := member
      have hname : scalarType key = .string := hnames key List.mem_cons_self
      have hnew : unquoted key ∉ done.map fun member => unquoted member.1 := by
        intro hmem
        rw [DistinctKeys, List.map_append, List.map_append, List.map_map] at hfresh
        exact (List.nodup_append.mp hfresh).2.2 _ hmem _ List.mem_cons_self rfl
      have hfirst : ∀ behind, takeAll (.within (.object done :: opened))
          (.scalar key :: .colon :: (document.separated ++ behind)) =
            takeAll (.within (.object (done ++ [(key, document)]) :: opened)) behind := by
        intro behind
        have hvalue := @takeAll_document (.member done key :: opened) behind document hstrings.1
          hkeys.1
        have hplace : finish document (.member done key :: opened) =
            some (.within (.object (done ++ [(key, document)]) :: opened)) := if_neg hnew
        rw [hplace] at hvalue
        have hkey : take (.object done :: opened) (.scalar key) =
            some (.within (.key done key :: opened)) := if_pos hname
        rw [takeAll, hkey]
        exact hvalue
      have hlater := @takeAll_members opened rest (done ++ [(key, document)]) members
        (fun name hmem => hnames name (List.mem_cons_of_mem _ hmem)) hstrings.2
        (by rwa [List.append_assoc, List.singleton_append]) hkeys.2
      rw [List.append_assoc, List.singleton_append] at hlater
      cases members with
      | nil =>
          rw [objectItems_singleton]
          exact hfirst rest
      | cons next members =>
          rw [objectItems_cons_cons]
          have hpair := hfirst (.comma :: (objectItems (next :: members) ++ rest))
          simp only [List.cons_append, List.append_assoc]
          rw [hpair]
          exact hlater

end

/-! ### Where the parser cuts -/

theorem Cut.last_ne {list : List Item} {text : Text} (hcut : Cut list text) :
    ∀ c ∈ text.getLast?, c ≠ 'e' ∧ c ≠ 'l' := by
  induction hcut with
  | @nil text hblank =>
      intro c hc
      have hspace := hblank c (List.mem_of_mem_getLast? hc)
      constructor
      · rintro rfl
        cases hspace
      · rintro rfl
        cases hspace
  | @cons before after item list hbefore hitem hafter ih =>
      intro c hc
      cases after with
      | cons d after =>
          rw [List.getLast?_append_of_ne_nil _ (List.cons_ne_nil d after)] at hc
          exact ih c hc
      | nil =>
          obtain ⟨e, tail, htext, -⟩ := item_text_cons hitem
          have hne : item.text ≠ [] := by rw [htext]; exact List.cons_ne_nil e tail
          rw [List.append_nil, List.getLast?_append_of_ne_nil _ hne] at hc
          cases item with
          | scalar text =>
              cases hitem with
              | @string inner _ hquote =>
                  have hlast :
                      (Item.scalar ('"' :: (inner ++ ['"']))).text.getLast? = some '"' := by
                    rw [Item.text, ← List.cons_append, List.getLast?_concat]
                  rw [hlast] at hc
                  obtain rfl := Option.some.inj hc
                  exact ⟨by decide, by decide⟩
              | @number sign run _ hsign hnumeral hrun hnext =>
                  obtain ⟨f, more, hcons, -⟩ := hnumeral.exists_cons
                  have hrunne : run ≠ [] := by rw [hcons]; exact List.cons_ne_nil f more
                  rw [Item.text, List.getLast?_append_of_ne_nil _ hrunne] at hc
                  have hnumeric := hrun c (List.mem_of_mem_getLast? hc)
                  constructor
                  · rintro rfl
                    cases hnumeric
                  · rintro rfl
                    cases hnumeric
          | _ =>
              obtain rfl := Option.some.inj hc
              exact ⟨by decide, by decide⟩

/-- No keyword ends a text that the parser cuts. -/
theorem Cut.goesOn {list : List Item} {text : Text} (hcut : Cut list text) :
    ∀ word, KeywordText word → ¬ word <:+ text := by
  rintro word hword ⟨before, rfl⟩
  rcases hword with rfl | rfl | rfl
  · exact (hcut.last_ne 'e' (by rw [List.getLast?_append]; rfl)).1 rfl
  · exact (hcut.last_ne 'e' (by rw [List.getLast?_append]; rfl)).1 rfl
  · exact (hcut.last_ne 'l' (by rw [List.getLast?_append]; rfl)).2 rfl

theorem scannable_of_scalarAt {text after : Text} (hscalar : ScalarAt text after) :
    Scannable text := by
  cases hscalar with
  | @string before _ hquote =>
      constructor
      · intro htype
        exact (unquoted_quoted before).symm ▸ hquote
      · intro htype
        rcases htype with htype | htype
        · cases htype
        · cases htype
  | keyword hword hnext =>
      constructor
      · intro htype
        rcases hword with rfl | rfl | rfl
        · cases htype
        · cases htype
        · cases htype
      · intro htype
        rcases hword with rfl | rfl | rfl
        · rcases htype with htype | htype <;> cases htype
        · rcases htype with htype | htype <;> cases htype
        · rcases htype with htype | htype <;> cases htype
  | @number sign run _ hsign hnumeral hrun hnext =>
      constructor
      · intro htype
        rw [scalarType_number hsign hnumeral] at htype
        split at htype
        · cases htype
        · cases htype
      · intro htype
        have hplain : ∀ c, isNumeric c = false → c ≠ '-' → c ≠ '+' → c ∉ sign ++ run := by
          intro c hc hminus hplus hmem
          rcases List.mem_append.mp hmem with hmem | hmem
          · rcases hsign with rfl | rfl | rfl
            · cases hmem
            · exact hminus (List.mem_singleton.mp hmem)
            · exact hplus (List.mem_singleton.mp hmem)
          · rw [hrun c hmem] at hc
            cases hc
        exact ⟨hplain 'e' (by decide) (by decide) (by decide),
          hplain 'E' (by decide) (by decide) (by decide)⟩

theorem scannable_of_cut {list : List Item} {text : Text} (hcut : Cut list text) :
    ∀ spelled, Item.scalar spelled ∈ list → Scannable spelled := by
  induction hcut with
  | nil hblank => exact nofun
  | cons hbefore hitem hafter ih =>
      intro spelled hmem
      rcases List.mem_cons.mp hmem with rfl | hmem
      · exact scannable_of_scalarAt hitem
      · exact ih spelled hmem

theorem scalarType_of_startsNumber {c : Char} (hstart : StartsNumber c) (tail : Text) :
    scalarType (c :: tail) = .integer ∨ scalarType (c :: tail) = .float := by
  have hquote : c ≠ '"' := hstart.ne (by decide) (by decide) (by decide)
  have ht : c ≠ 't' := hstart.ne (by decide) (by decide) (by decide)
  have hf : c ≠ 'f' := hstart.ne (by decide) (by decide) (by decide)
  have hn : c ≠ 'n' := hstart.ne (by decide) (by decide) (by decide)
  rw [scalarType]
  · split
    · exact Or.inr rfl
    · exact Or.inl rfl
  all_goals simpa using by assumption

/-- A scalar of the grammar that is scannable stands as its scanner takes it, if what follows does
not go on with it. -/
theorem scalarAt_of_scannable {text after : Text} (hscalar : ScalarText text)
    (hscannable : Scannable text) (hends : ∀ c ∈ after.head?, Ends c)
    (hgoesOn : KeywordText text → after ≠ []) : ScalarAt text after := by
  rcases hscalar with hkeyword | hnumber | ⟨body, hbody, rfl⟩
  · obtain ⟨c, after, rfl⟩ := List.exists_cons_of_ne_nil (hgoesOn hkeyword)
    exact .keyword hkeyword (hends c rfl).2
  · obtain ⟨sign, whole, fraction, exponent, hsign, hwhole, hfraction, hexponent, rfl⟩ := hnumber
    have hnumeral := numeral_of_parts hwhole hfraction
    have hnumeric := numeric_of_parts hwhole hfraction
    rcases hexponent with rfl | ⟨e, power, digits, he, -, -, rfl⟩
    · rw [List.append_nil, List.append_assoc]
      exact .number hsign hnumeral hnumeric fun c hc => (hends c hc).1
    · exfalso
      obtain ⟨d, tail, hcons, hstart⟩ := startsNumber_head hsign hnumeral
      have htype : scalarType (sign ++ whole ++ fraction ++ (e :: power ++ digits)) = .integer ∨
          scalarType (sign ++ whole ++ fraction ++ (e :: power ++ digits)) = .float := by
        rw [List.append_assoc sign, hcons, List.cons_append]
        exact scalarType_of_startsNumber hstart _
      obtain ⟨hlower, hupper⟩ := hscannable.number htype
      rcases he with rfl | rfl
      · exact hlower (by simp)
      · exact hupper (by simp)
  · have hquote := hscannable.string rfl
    rw [List.cons_append, ← quoted, unquoted_quoted] at hquote
    exact .string hquote

theorem cut_of_readable {list : List Item} {text : Text} (hspelling : Spelling list text)
    (hcommas : list.IsChain fun first second => Item.needsComma first second = false)
    (hscalars : ∀ spelled, Item.scalar spelled ∈ list → Scannable spelled)
    (hgoesOn : ∀ word, KeywordText word → ¬ word <:+ text) : Cut list text := by
  induction hspelling with
  | nil hblank => exact .nil hblank.space
  | @cons before after item list hbefore hitem hafter ih =>
      refine .cons hbefore.space ?_ (ih (List.isChain_cons.mp hcommas).2
        (fun spelled hmem => hscalars spelled (List.mem_cons_of_mem _ hmem))
        fun word hword hsuffix => hgoesOn word hword (hsuffix.trans (List.suffix_append _ _)))
      cases item with
      | scalar spelled =>
          have hends : ∀ c ∈ after.head?, Ends c := by
            refine hafter.ends fun next hnext => ?_
            have hneeds := (List.isChain_cons.mp hcommas).1 next hnext
            rwa [Item.needsComma, Item.endsValue, Bool.true_and] at hneeds
          refine scalarAt_of_scannable hitem (hscalars spelled List.mem_cons_self) hends ?_
          rintro hkeyword rfl
          rw [List.append_nil] at hgoesOn
          exact hgoesOn spelled hkeyword (List.suffix_append _ _)
      | _ => exact trivial

/-! ### Texts of the grammar -/

theorem spelling_of_textOf {document : Document} {text : Text} (htext : TextOf document text) :
    document.Every StringKeys ∧ Spelling document.separated text := by
  obtain ⟨before, inner, after, hbefore, hvalue, hafter, rfl⟩ := htext
  obtain ⟨hstrings, hspelling⟩ := spelling_of_valueText hvalue
  exact ⟨hstrings, hspelling.padded hbefore hafter⟩

theorem filter_separated (document : Document) :
    document.separated.filter (· ≠ .comma) = document.bare := by
  rw [separated_eq, filter_spaced (comma_notMem_bare document)]

theorem isChain_separated (document : Document) :
    document.separated.IsChain fun first second => Item.needsComma first second = false := by
  have hspaced : WellSpaced .comma Item.needsComma document.separated := by
    rw [separated_eq]
    exact wellSpaced_spaced (comma_notMem_bare document)
  exact hspaced.isChain (by simp [Item.needsComma, Item.beginsValue])
    (by simp [Item.needsComma, Item.endsValue])

theorem mem_separated {document : Document} {spelled : Text} :
    Item.scalar spelled ∈ document.separated ↔ Item.scalar spelled ∈ document.bare := by
  rw [← filter_separated, List.mem_filter]
  simp

theorem parse_of_updateLoop {text : Text} {token : DeserializationToken}
    (hloop : updateLoop 0 0 text make = .ok ⟨[], some (.value token)⟩) :
    parse text = .ok token := by
  simp only [parse, update, hloop]
  rfl

theorem parse_of_readable {document : Document} {text : Text} (htext : TextOf document text)
    (hreadable : Readable document text) : parse text = .ok document.token := by
  obtain ⟨hstrings, hspelling⟩ := spelling_of_textOf htext
  have hcut := cut_of_readable hspelling (isChain_separated document)
    (fun spelled hmem => hreadable.scalars spelled (mem_separated.mp hmem)) hreadable.goesOn
  have htake := @takeAll_document [] [] document hstrings hreadable.keys
  rw [List.append_nil] at htake
  have hloop : updateLoop 0 0 text (Progress.within []).state =
      .ok (Progress.complete document).state := updateLoop_of_cut hcut htake 0
  exact parse_of_updateLoop hloop

theorem readable_of_parse {document : Document} {text : Text} (htext : TextOf document text)
    {token : DeserializationToken} (hparse : parse text = .ok token) :
    token = document.token ∧ Readable document text := by
  obtain ⟨hcut, found, hreads, rfl, hkeys⟩ := exists_document hparse
  obtain ⟨-, hspelling⟩ := spelling_of_textOf htext
  obtain ⟨hitems, -⟩ := cut_of_spelling hspelling (isChain_separated document) hcut
  have hread : Reads text document := by rw [Reads, hitems, filter_separated]
  obtain rfl := hreads.unique hread
  rw [hitems] at hcut
  refine ⟨rfl, ?_, Document.Every.mono (fun _ hkeys => hkeys.2) found hkeys, hcut.goesOn⟩
  intro spelled hmem
  exact scannable_of_cut hcut spelled (mem_separated.mpr hmem)

/-- **Texts of the grammar.** The parser accepts a JSON text exactly if it is readable, and then it
returns the token of the document that the text is for. -/
theorem parse_eq_ok_iff_readable {document : Document} {text : Text} (htext : TextOf document text)
    (token : DeserializationToken) :
    parse text = .ok token ↔ token = document.token ∧ Readable document text := by
  constructor
  · exact readable_of_parse htext
  · rintro ⟨rfl, hreadable⟩
    exact parse_of_readable htext hreadable

theorem parse_eq_ok_iff_readable_pair :
    TextOf (.object [("\"k\"".toList, .scalar ['0'])]) "\x7b\"k\":0\x7d".toList ∧
      (parse "\x7b\"k\":0\x7d".toList =
          .ok (Document.object [("\"k\"".toList, .scalar ['0'])]).token ↔
        (Document.object [("\"k\"".toList, .scalar ['0'])]).token =
            (Document.object [("\"k\"".toList, .scalar ['0'])]).token ∧
          Readable (.object [("\"k\"".toList, .scalar ['0'])]) "\x7b\"k\":0\x7d".toList) := by
  have hblank : Blank [] := nofun
  have hkey : StringText "\"k\"".toList :=
    ⟨['k'], .plain (by decide) (by decide) (by decide) .nil, rfl⟩
  have hvalue : ValueText (.scalar ['0']) ['0'] :=
    .scalar (Or.inr (Or.inl ⟨[], ['0'], [], [], Or.inl rfl, Or.inl rfl, Or.inl rfl, Or.inl rfl,
      rfl⟩))
  have htext : TextOf (.object [("\"k\"".toList, .scalar ['0'])]) "\x7b\"k\":0\x7d".toList :=
    ⟨[], _, [], hblank, .object (.last hblank hkey hblank hblank hvalue hblank), hblank, rfl⟩
  exact ⟨htext, parse_eq_ok_iff_readable htext _⟩

end Liblw.Mime
