import Liblw.Mime.Grammar

/-!
# The grammar on items

A text derives from the grammar exactly when it spells, with blanks in between, the items of a
document whose scalars are scalars of the grammar. The commas in these items are the ones that the
items themselves ask for.
-/

namespace Liblw.Mime

open Lib

/-! ### Commas -/

/-- The items between the brackets of a list. -/
def listItems (elements : List Document) : List Item :=
  List.intercalate [.comma] (Document.spellElements (List.intercalate [.comma]) elements)

/-- The items between the brackets of an object. -/
def objectItems (members : List (Text × Document)) : List Item :=
  List.intercalate [.comma] (Document.spellMembers (List.intercalate [.comma]) members)

theorem listItems_singleton (value : Document) : listItems [value] = value.separated :=
  List.intercalate_singleton

theorem listItems_cons_cons (value next : Document) (rest : List Document) :
    listItems (value :: next :: rest) = value.separated ++ .comma :: listItems (next :: rest) := by
  simp [listItems, Document.spellElements, List.intercalate_cons_cons, Document.separated]

theorem objectItems_singleton (key : Text) (value : Document) :
    objectItems [(key, value)] = .scalar key :: .colon :: value.separated :=
  List.intercalate_singleton

theorem objectItems_cons_cons (key : Text) (value : Document) (next : Text × Document)
    (rest : List (Text × Document)) :
    objectItems ((key, value) :: next :: rest) =
      .scalar key :: .colon :: value.separated ++ .comma :: objectItems (next :: rest) := by
  obtain ⟨name, document⟩ := next
  simp [objectItems, Document.spellMembers, List.intercalate_cons_cons, Document.separated]

theorem exists_head_bare (document : Document) :
    ∃ item, document.bare.head? = some item ∧ item.beginsValue = true := by
  cases document with
  | scalar text => exact ⟨_, rfl, rfl⟩
  | list elements => exact ⟨_, rfl, rfl⟩
  | object members => exact ⟨_, rfl, rfl⟩

theorem exists_last_bare (document : Document) :
    ∃ item, document.bare.getLast? = some item ∧ item.endsValue = true := by
  cases document with
  | scalar text => exact ⟨_, rfl, rfl⟩
  | list elements => exact ⟨.closeList, List.getLast?_concat .., rfl⟩
  | object members => exact ⟨.closeObject, List.getLast?_concat .., rfl⟩

/-- Brackets ask for no comma. -/
theorem spaced_brackets {first last : Item} (hfirst : first.endsValue = false)
    (hlast : last.beginsValue = false) (inner : List Item) :
    spaced .comma Item.needsComma (first :: inner ++ [last]) =
      first :: spaced .comma Item.needsComma inner ++ [last] := by
  have hfront : ∀ a ∈ [first].getLast?, ∀ b ∈ inner.head?, Item.needsComma a b = false := by
    intro a ha b hb
    obtain rfl : first = a := by simpa using ha
    simp [Item.needsComma, hfirst]
  have hback : ∀ a ∈ (first :: inner).getLast?, ∀ b ∈ [last].head?,
      Item.needsComma a b = false := by
    intro a ha b hb
    obtain rfl : last = b := by simpa using hb
    simp [Item.needsComma, hlast]
  have hinner : spaced .comma Item.needsComma (first :: inner) =
      first :: spaced .comma Item.needsComma inner := spaced_append_next hfront
  rw [spaced_append_next hback, hinner]
  rfl

theorem spaced_pair (key : Text) (document : Document) :
    spaced .comma Item.needsComma (.scalar key :: .colon :: document.bare) =
      .scalar key :: .colon :: spaced .comma Item.needsComma document.bare := by
  obtain ⟨head, tail, hbare⟩ : ∃ head tail, document.bare = head :: tail := by
    obtain ⟨item, hitem, -⟩ := exists_head_bare document
    cases hbare : document.bare with
    | nil => simp [hbare] at hitem
    | cons head tail => exact ⟨head, tail, rfl⟩
  rw [hbare, spaced, if_neg (by simp [Item.needsComma, Item.beginsValue]), spaced,
    if_neg (by simp [Item.needsComma, Item.endsValue])]

mutual

theorem separated_eq (document : Document) :
    document.separated = spaced .comma Item.needsComma document.bare := by
  cases document with
  | scalar text => rfl
  | list elements =>
      have hinner := separatedElements_eq elements
      rw [Document.bare, Document.spell, spaced_brackets rfl rfl, ← hinner]
      rfl
  | object members =>
      have hinner := separatedMembers_eq members
      rw [Document.bare, Document.spell, spaced_brackets rfl rfl, ← hinner]
      rfl

theorem separatedElements_eq (elements : List Document) :
    listItems elements =
      spaced .comma Item.needsComma (Document.spellElements List.flatten elements).flatten := by
  cases elements with
  | nil => rfl
  | cons document rest =>
      have hhead := separated_eq document
      have htail := separatedElements_eq rest
      cases rest with
      | nil =>
          rw [listItems_singleton, Document.spellElements, List.flatten_cons,
            Document.spellElements, List.flatten_nil, List.append_nil]
          exact hhead
      | cons next rest =>
          obtain ⟨last, hlast, hends⟩ := exists_last_bare document
          obtain ⟨first, hfirst, hbegins⟩ := exists_head_bare next
          have hneeds : Item.needsComma last first = true := by
            simp [Item.needsComma, hends, hbegins]
          have hsecond : (Document.spellElements List.flatten (next :: rest)).flatten.head? =
              some first := by
            rw [Document.spellElements, List.flatten_cons, List.head?_append]
            simp [show (Document.spell List.flatten next).head? = some first from hfirst]
          have happend := @spaced_append_apart _ .comma _ _ _ _ _ hlast hsecond hneeds
          rw [← hhead, ← htail] at happend
          rw [listItems_cons_cons]
          exact happend.symm

theorem separatedMembers_eq (members : List (Text × Document)) :
    objectItems members =
      spaced .comma Item.needsComma (Document.spellMembers List.flatten members).flatten := by
  cases members with
  | nil => rfl
  | cons member rest =>
      obtain ⟨key, document⟩ := member
      have hhead := separated_eq document
      have htail := separatedMembers_eq rest
      have hpair := spaced_pair key document
      rw [← hhead] at hpair
      cases rest with
      | nil =>
          rw [objectItems_singleton, Document.spellMembers, List.flatten_cons,
            Document.spellMembers, List.flatten_nil, List.append_nil]
          exact hpair.symm
      | cons next rest =>
          obtain ⟨name, value⟩ := next
          obtain ⟨last, hlast, hends⟩ := exists_last_bare document
          have hneeds : Item.needsComma last (.scalar name) = true := by
            simp [Item.needsComma, hends, Item.beginsValue]
          have hfirst : (Item.scalar key :: .colon :: document.bare).getLast? = some last := by
            rw [List.getLast?_cons, List.getLast?_cons, hlast]
            rfl
          have hsecond :
              (Document.spellMembers List.flatten ((name, value) :: rest)).flatten.head? =
              some (.scalar name) := rfl
          have happend := @spaced_append_apart _ .comma _ _ _ _ _ hfirst hsecond hneeds
          rw [hpair, ← htail] at happend
          rw [objectItems_cons_cons]
          exact happend.symm

end

mutual

theorem comma_notMem_bare (document : Document) : Item.comma ∉ document.bare := by
  cases document with
  | scalar text => simp [Document.bare, Document.spell]
  | list elements =>
      have hinner := comma_notMem_elements elements
      simpa [Document.bare, Document.spell] using hinner
  | object members =>
      have hinner := comma_notMem_members members
      simpa [Document.bare, Document.spell] using hinner

theorem comma_notMem_elements (elements : List Document) :
    Item.comma ∉ (Document.spellElements List.flatten elements).flatten := by
  cases elements with
  | nil => simp [Document.spellElements]
  | cons document rest =>
      have hhead := comma_notMem_bare document
      have htail := comma_notMem_elements rest
      rw [Document.spellElements, List.flatten_cons, List.mem_append, not_or]
      exact ⟨hhead, htail⟩

theorem comma_notMem_members (members : List (Text × Document)) :
    Item.comma ∉ (Document.spellMembers List.flatten members).flatten := by
  cases members with
  | nil => simp [Document.spellMembers]
  | cons member rest =>
      obtain ⟨key, document⟩ := member
      have hhead := comma_notMem_bare document
      have htail := comma_notMem_members rest
      rw [Document.spellMembers, List.flatten_cons, List.mem_append, not_or]
      refine ⟨?_, htail⟩
      rw [List.mem_cons, List.mem_cons, not_or, not_or]
      exact ⟨by simp, by simp, hhead⟩

end

/-! ### Spellings -/

/-- A scalar of the grammar, or any other item. -/
def Item.Proper : Item → Prop
  | .scalar text => ScalarText text
  | _ => True

/-- The text is made of the items, with blanks of the grammar around them. -/
inductive Spelling : List Item → Text → Prop where
  | nil {text : Text} (hblank : Blank text) : Spelling [] text
  | cons {before after : Text} {item : Item} {list : List Item} (hbefore : Blank before)
      (hitem : item.Proper) (hafter : Spelling list after) :
      Spelling (item :: list) (before ++ item.text ++ after)

theorem Blank.append {first second : Text} (hfirst : Blank first) (hsecond : Blank second) :
    Blank (first ++ second) := by
  intro c hc
  rcases List.mem_append.mp hc with hc | hc
  · exact hfirst c hc
  · exact hsecond c hc

namespace Spelling

variable {list first second : List Item} {text before after : Text}

theorem front {item : Item} (hitem : item.Proper) (hafter : Spelling list after) :
    Spelling (item :: list) (item.text ++ after) :=
  @cons [] after item list (by simp [Blank]) hitem hafter

theorem single {item : Item} (hitem : item.Proper) : Spelling [item] item.text := by
  have hspelling := front hitem (@nil [] (by simp [Blank]))
  rwa [List.append_nil] at hspelling

theorem blank_append (hbefore : Blank before) (hspelling : Spelling list text) :
    Spelling list (before ++ text) := by
  cases hspelling with
  | nil hblank => exact nil (hbefore.append hblank)
  | cons hblank hitem hafter =>
      rw [List.append_assoc, ← List.append_assoc, ← List.append_assoc]
      exact cons (hbefore.append hblank) hitem hafter

theorem append (hfirst : Spelling first before) (hsecond : Spelling second after) :
    Spelling (first ++ second) (before ++ after) := by
  induction hfirst with
  | nil hblank => exact hsecond.blank_append hblank
  | cons hblank hitem hafter ih =>
      rw [List.cons_append, List.append_assoc]
      exact cons hblank hitem ih

theorem append_blank (hspelling : Spelling list text) (hafter : Blank after) :
    Spelling list (text ++ after) := by
  have happend := hspelling.append (nil hafter)
  rwa [List.append_nil] at happend

theorem split (hspelling : Spelling (first ++ second) text) :
    ∃ before after, text = before ++ after ∧ Spelling first before ∧ Spelling second after := by
  induction first generalizing text with
  | nil => exact ⟨[], text, rfl, nil (by simp [Blank]), hspelling⟩
  | cons item first ih =>
      cases hspelling with
      | @cons blank rest _ _ hblank hitem hrest =>
          obtain ⟨before, after, rfl, hbefore, hafter⟩ := ih hrest
          exact ⟨blank ++ item.text ++ before, after, (List.append_assoc ..).symm,
            cons hblank hitem hbefore, hafter⟩

theorem exists_cons {item : Item} (hspelling : Spelling (item :: list) text) :
    ∃ before after, text = before ++ item.text ++ after ∧ Blank before ∧ item.Proper ∧
      Spelling list after := by
  cases hspelling with
  | cons hbefore hitem hafter => exact ⟨_, _, rfl, hbefore, hitem, hafter⟩

theorem proper (hspelling : Spelling list text) : ∀ item ∈ list, item.Proper := by
  induction hspelling with
  | nil hblank => simp
  | cons hbefore hitem hafter ih =>
      intro item hmem
      rcases List.mem_cons.mp hmem with rfl | hmem
      · exact hitem
      · exact ih item hmem

end Spelling

theorem isString_iff (text : Text) : scalarType text = .string ↔ text.head? = some '"' := by
  constructor
  · intro htype
    unfold scalarType at htype
    split at htype
    · rfl
    all_goals try cases htype
    split_ifs at htype
  · intro hhead
    cases text with
    | nil => cases hhead
    | cons c text =>
        obtain rfl := Option.some.inj hhead
        rfl

theorem StringText.head? {text : Text} (hstring : StringText text) : text.head? = some '"' := by
  obtain ⟨body, -, rfl⟩ := hstring
  rfl

theorem SignPart.head?_ne {sign rest : Text} (hsign : SignPart sign)
    (hrest : rest.head? ≠ some '"') : (sign ++ rest).head? ≠ some '"' := by
  rcases hsign with rfl | rfl | rfl
  · exact hrest
  · simp
  · simp

theorem WholePart.exists_cons {whole : Text} (hwhole : WholePart whole) :
    ∃ c tail, whole = c :: tail ∧ isDigit c = true := by
  rcases hwhole with rfl | ⟨⟨hne, hdigits⟩, -⟩
  · exact ⟨'0', [], rfl, by decide⟩
  · obtain ⟨c, tail, rfl⟩ := List.exists_cons_of_ne_nil hne
    exact ⟨c, tail, rfl, hdigits c List.mem_cons_self⟩

theorem ScalarText.string {text : Text} (hscalar : ScalarText text)
    (hhead : text.head? = some '"') : StringText text := by
  rcases hscalar with hkeyword | hnumber | hstring
  · rcases hkeyword with rfl | rfl | rfl
    · simp at hhead
    · simp at hhead
    · simp at hhead
  · obtain ⟨sign, whole, fraction, exponent, hsign, hwhole, -, -, rfl⟩ := hnumber
    obtain ⟨c, tail, rfl, hdigit⟩ := hwhole.exists_cons
    have hquote : c ≠ '"' := by
      rintro rfl
      exact absurd hdigit (by decide)
    rw [List.append_assoc, List.append_assoc] at hhead
    exact absurd hhead (hsign.head?_ne (by simpa using hquote))
  · exact hstring

/-! ### Derivations and spellings -/

namespace Spelling

variable {list : List Item} {inner before between behind text after key : Text}

theorem brackets {first last : Item} (hfirst : first.Proper) (hlast : last.Proper)
    (hinner : Spelling list inner) :
    Spelling (first :: list ++ [last]) (first.text ++ inner ++ last.text) :=
  (front hfirst hinner).append (single hlast)

theorem padded (hbefore : Blank before) (hvalue : Spelling list text) (hafter : Blank after) :
    Spelling list (before ++ text ++ after) :=
  (hvalue.blank_append hbefore).append_blank hafter

theorem comma (hfirst : Spelling list text) {rest : List Item} {tail : Text}
    (hrest : Spelling rest tail) : Spelling (list ++ .comma :: rest) (text ++ ',' :: tail) :=
  hfirst.append (@front rest tail .comma trivial hrest)

theorem pair (hbefore : Blank before) (hkey : StringText key) (hbetween : Blank between)
    (hvalue : Spelling list text) :
    Spelling (.scalar key :: .colon :: list) (before ++ key ++ between ++ ':' :: text) := by
  have hcolon : Spelling (.colon :: list) (between ++ ':' :: text) :=
    (@front list text .colon trivial hvalue).blank_append hbetween
  have hpair := @cons before _ (.scalar key) _ hbefore (Or.inr (Or.inr hkey)) hcolon
  rwa [Item.text, ← List.append_assoc] at hpair

end Spelling

mutual

theorem spelling_of_valueText {document : Document} {text : Text}
    (hvalue : ValueText document text) :
    document.Every StringKeys ∧ Spelling document.separated text := by
  cases document with
  | scalar spelled =>
      cases hvalue with
      | scalar hscalar => exact ⟨trivial, @Spelling.single (.scalar text) hscalar⟩
  | list elements =>
      have hbrackets : ∀ inner, Spelling (listItems elements) inner →
          Spelling (Document.list elements).separated ('[' :: inner ++ [']']) := fun inner =>
        @Spelling.brackets _ inner .openList .closeList trivial trivial
      cases hvalue with
      | emptyList hinner => exact ⟨trivial, hbrackets _ (.nil hinner)⟩
      | list hinner =>
          obtain ⟨hkeyed, hspelling⟩ := spelling_of_elementsText hinner
          exact ⟨hkeyed, hbrackets _ hspelling⟩
  | object members =>
      have hbrackets : ∀ inner, Spelling (objectItems members) inner →
          Spelling (Document.object members).separated ('\x7b' :: inner ++ ['\x7d']) := fun inner =>
        @Spelling.brackets _ inner .openObject .closeObject trivial trivial
      cases hvalue with
      | emptyObject hinner => exact ⟨⟨by simp [StringKeys], trivial⟩, hbrackets _ (.nil hinner)⟩
      | object hinner =>
          obtain ⟨hkeyed, hspelling⟩ := spelling_of_membersText hinner
          exact ⟨hkeyed, hbrackets _ hspelling⟩

theorem spelling_of_elementsText {elements : List Document} {text : Text}
    (helements : ElementsText elements text) :
    Document.EveryElement StringKeys elements ∧ Spelling (listItems elements) text := by
  cases elements with
  | nil => cases helements
  | cons value rest =>
      cases helements with
      | last hbefore hvalue hafter =>
          obtain ⟨hkeyed, hspelling⟩ := spelling_of_valueText hvalue
          rw [listItems_singleton]
          exact ⟨⟨hkeyed, trivial⟩, hspelling.padded hbefore hafter⟩
      | more hbefore hvalue hafter hrest =>
          obtain ⟨hkeyed, hspelling⟩ := spelling_of_valueText hvalue
          obtain ⟨hkeys, htail⟩ := spelling_of_elementsText hrest
          cases rest with
          | nil => cases hrest
          | cons next rest =>
              rw [listItems_cons_cons]
              exact ⟨⟨hkeyed, hkeys⟩, (hspelling.padded hbefore hafter).comma htail⟩

theorem spelling_of_membersText {members : List (Text × Document)} {text : Text}
    (hmembers : MembersText members text) :
    (StringKeys (members.map Prod.fst) ∧ Document.EveryMember StringKeys members) ∧
      Spelling (objectItems members) text := by
  cases members with
  | nil => cases hmembers
  | cons member rest =>
      obtain ⟨key, value⟩ := member
      cases hmembers with
      | last hbefore hkey hbetween hbehind hvalue hafter =>
          obtain ⟨hkeyed, hspelling⟩ := spelling_of_valueText hvalue
          rw [objectItems_singleton]
          have hstring := (isString_iff key).mpr hkey.head?
          exact ⟨⟨by simpa [StringKeys] using hstring, hkeyed, trivial⟩,
            .pair hbefore hkey hbetween (hspelling.padded hbehind hafter)⟩
      | @more _ _ _ before between behind inner after tail hbefore hkey hbetween hbehind hvalue
          hafter hrest =>
          obtain ⟨hkeyed, hspelling⟩ := spelling_of_valueText hvalue
          obtain ⟨⟨hstrings, hkeys⟩, htail⟩ := spelling_of_membersText hrest
          have hstring := (isString_iff key).mpr hkey.head?
          cases rest with
          | nil => cases hrest
          | cons next rest =>
              have hpair := Spelling.pair hbefore hkey hbetween
                ((hspelling.padded hbehind hafter).comma htail)
              rw [objectItems_cons_cons]
              exact ⟨⟨List.forall_mem_cons.mpr ⟨hstring, hstrings⟩, hkeyed, hkeys⟩, hpair⟩

end

mutual

theorem valueText_of_spelling {document : Document} {text : Text}
    (hkeyed : document.Every StringKeys)
    (hspelling : Spelling document.separated text) :
    ∃ before inner after, text = before ++ inner ++ after ∧ Blank before ∧
      ValueText document inner ∧ Blank after := by
  cases document with
  | scalar spelled =>
      obtain ⟨before, after, rfl, hbefore, hscalar, hafter⟩ := hspelling.exists_cons
      cases hafter with
      | nil hblank => exact ⟨before, spelled, after, rfl, hbefore, .scalar hscalar, hblank⟩
  | list elements =>
      obtain ⟨before, behind, rfl, hbefore, -, hrest⟩ := hspelling.exists_cons
      obtain ⟨inner, last, rfl, hinner, hlast⟩ := hrest.split
      obtain ⟨blank, after, rfl, hblank, -, hafter⟩ := hlast.exists_cons
      cases hafter with
      | nil hafter =>
          refine ⟨before, '[' :: (inner ++ blank) ++ [']'], after, by simp [Item.text], hbefore, ?_,
            hafter⟩
          rcases elementsText_of_spelling hkeyed (hinner.append_blank hblank) with
            ⟨rfl, hempty⟩ | helements
          · exact .emptyList hempty
          · exact .list helements
  | object members =>
      obtain ⟨before, behind, rfl, hbefore, -, hrest⟩ := hspelling.exists_cons
      obtain ⟨inner, last, rfl, hinner, hlast⟩ := hrest.split
      obtain ⟨blank, after, rfl, hblank, -, hafter⟩ := hlast.exists_cons
      cases hafter with
      | nil hafter =>
          refine ⟨before, '\x7b' :: (inner ++ blank) ++ ['\x7d'], after, by simp [Item.text],
            hbefore,
            ?_, hafter⟩
          rcases membersText_of_spelling hkeyed.1 hkeyed.2 (hinner.append_blank hblank) with
            ⟨rfl, hempty⟩ | hmembers
          · exact .emptyObject hempty
          · exact .object hmembers

theorem elementsText_of_spelling {elements : List Document} {text : Text}
    (hkeyed : Document.EveryElement StringKeys elements)
    (hspelling : Spelling (listItems elements) text) :
    elements = [] ∧ Blank text ∨ ElementsText elements text := by
  cases elements with
  | nil =>
      cases hspelling with
      | nil hblank => exact Or.inl ⟨rfl, hblank⟩
  | cons value rest =>
      right
      have hvalue := @valueText_of_spelling value
      have hrest := @elementsText_of_spelling rest
      cases rest with
      | nil =>
          rw [listItems_singleton] at hspelling
          obtain ⟨before, inner, after, rfl, hbefore, hinner, hafter⟩ := hvalue hkeyed.1 hspelling
          exact .last hbefore hinner hafter
      | cons next rest =>
          rw [listItems_cons_cons] at hspelling
          obtain ⟨first, second, rfl, hfirst, hsecond⟩ := hspelling.split
          obtain ⟨before, inner, after, rfl, hbefore, hinner, hafter⟩ := hvalue hkeyed.1 hfirst
          obtain ⟨blank, tail, rfl, hblank, -, htail⟩ := hsecond.exists_cons
          have hmore := hrest hkeyed.2 htail
          rw [or_iff_right (by simp)] at hmore
          have helements := ElementsText.more hbefore hinner (hafter.append hblank) hmore
          simpa [Item.text] using helements

theorem membersText_of_spelling {members : List (Text × Document)} {text : Text}
    (hstrings : StringKeys (members.map Prod.fst))
    (hkeyed : Document.EveryMember StringKeys members)
    (hspelling : Spelling (objectItems members) text) :
    members = [] ∧ Blank text ∨ MembersText members text := by
  cases members with
  | nil =>
      cases hspelling with
      | nil hblank => exact Or.inl ⟨rfl, hblank⟩
  | cons member rest =>
      right
      obtain ⟨key, value⟩ := member
      have hvalue := @valueText_of_spelling value
      have hrest := @membersText_of_spelling rest
      obtain ⟨htype, hstrings⟩ := List.forall_mem_cons.mp hstrings
      have hstring : Item.Proper (.scalar key) → StringText key := fun hproper =>
        ScalarText.string hproper ((isString_iff key).mp htype)
      cases rest with
      | nil =>
          rw [objectItems_singleton] at hspelling
          obtain ⟨first, second, rfl, hfirst, hkey, hsecond⟩ := hspelling.exists_cons
          obtain ⟨between, behind, rfl, hbetween, -, hbehind⟩ := hsecond.exists_cons
          obtain ⟨before, inner, after, rfl, hbefore, hinner, hafter⟩ := hvalue hkeyed.1 hbehind
          have hmembers := MembersText.last hfirst (hstring hkey) hbetween hbefore hinner
            hafter
          simpa [Item.text] using hmembers
      | cons next rest =>
          rw [objectItems_cons_cons] at hspelling
          obtain ⟨first, second, rfl, hfirst, hkey, hsecond⟩ := hspelling.exists_cons
          obtain ⟨between, behind, rfl, hbetween, -, hbehind⟩ := hsecond.exists_cons
          obtain ⟨third, fourth, rfl, hthird, hfourth⟩ := hbehind.split
          obtain ⟨before, inner, after, rfl, hbefore, hinner, hafter⟩ := hvalue hkeyed.1 hthird
          obtain ⟨blank, tail, rfl, hblank, -, htail⟩ := hfourth.exists_cons
          have hmore := hrest hstrings hkeyed.2 htail
          rw [or_iff_right (by simp)] at hmore
          have hmembers := MembersText.more hfirst (hstring hkey) hbetween hbefore hinner
            (hafter.append hblank) hmore
          simpa [Item.text] using hmembers

end

/-- **The grammar on items.** The derivable texts are those that spell a document. -/
theorem derivable_iff (text : Text) :
    Derivable text ↔
      ∃ document : Document, document.Every StringKeys ∧ Spelling document.separated text := by
  constructor
  · rintro ⟨document, before, inner, after, hbefore, hvalue, hafter, rfl⟩
    obtain ⟨hkeyed, hspelling⟩ := spelling_of_valueText hvalue
    exact ⟨document, hkeyed, hspelling.padded hbefore hafter⟩
  · rintro ⟨document, hkeyed, hspelling⟩
    obtain ⟨before, inner, after, htext, hbefore, hvalue, hafter⟩ :=
      valueText_of_spelling hkeyed hspelling
    exact ⟨document, before, inner, after, hbefore, hvalue, hafter, htext⟩

end Liblw.Mime
