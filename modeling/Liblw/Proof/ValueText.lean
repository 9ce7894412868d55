import Liblw.Mime.Conveys
import Liblw.Proof.FormatterOrder
import Liblw.Proof.ParseComplete

/-!
# The text of a tree

The text of a tree is the texts of its items with nothing in between. Where the parser cuts it at
all, it cuts it into these items: with the control characters in its strings blanked out, which no
scanner minds, it is a text of the grammar. So the parser reads the tree back or refuses it.
-/

namespace Liblw.Mime

open Lib JSONParse

/-- The items one after the other, with no blanks. -/
def compact (list : List Item) : Text := list.flatMap Item.text

/-! ### The items of a tree -/

theorem compact_append (first second : List Item) :
    compact (first ++ second) = compact first ++ compact second :=
  List.flatMap_append

theorem compact_cons (item : Item) (list : List Item) :
    compact (item :: list) = item.text ++ compact list :=
  List.flatMap_cons

theorem compact_intercalate (parts : List (List Item)) :
    compact (List.intercalate [.comma] parts) = commaSeparated (parts.map compact) := by
  cases parts with
  | nil => rfl
  | cons first parts =>
      rw [List.map_cons, commaSeparated_cons]
      induction parts generalizing first with
      | nil => rw [List.intercalate_singleton]; simp
      | cons second parts ih =>
          rw [List.intercalate_cons_cons, compact_append, compact_append, ih]
          simp [compact, Item.text]

mutual

theorem render_eq_compact (value : Value) : render value = compact value.document.separated := by
  cases value with
  | list elements =>
      rw [render_list, renderElements_eq_compact elements, ← compact_intercalate]
      exact (compact_append (.openList :: _) [.closeList]).symm
  | object members =>
      rw [render_object, renderMembers_eq_compact members, ← compact_intercalate]
      exact (compact_append (.openObject :: _) [.closeObject]).symm
  | _ => exact (List.append_nil _).symm

theorem renderElements_eq_compact (elements : List Value) : renderElements elements =
    (Document.spellElements (List.intercalate [.comma]) (elementDocuments elements)).map
      compact := by
  cases elements with
  | nil => rfl
  | cons value rest =>
      rw [renderElements_cons, render_eq_compact value, renderElements_eq_compact rest]
      rfl

theorem renderMembers_eq_compact (members : List (Text × Value)) : renderMembers members =
    (Document.spellMembers (List.intercalate [.comma]) (memberDocuments members)).map
      compact := by
  cases members with
  | nil => rfl
  | cons member rest =>
      obtain ⟨key, value⟩ := member
      rw [renderMembers_cons, render_eq_compact value, renderMembers_eq_compact rest]
      rfl

end

/-- How the scalars of a tree are spelled. -/
def Spelled (text : Text) : Prop :=
  KeywordText text ∨ (∃ number, text = integerText number) ∨ ∃ str, text = stringLiteral str

mutual

theorem spelled_of_mem_bare {spelled : Text} (value : Value)
    (hmem : Item.scalar spelled ∈ value.document.bare) : Spelled spelled := by
  cases value with
  | list elements =>
      refine spelled_of_mem_elements elements ?_
      simpa [Value.document, Document.bare, Document.spell] using hmem
  | object members =>
      refine spelled_of_mem_members members ?_
      simpa [Value.document, Document.bare, Document.spell] using hmem
  | null =>
      obtain rfl := Item.scalar.inj (List.mem_singleton.mp hmem)
      exact Or.inl (Or.inr (Or.inr rfl))
  | boolean value =>
      obtain rfl := Item.scalar.inj (List.mem_singleton.mp hmem)
      cases value
      · exact Or.inl (Or.inr (Or.inl rfl))
      · exact Or.inl (Or.inl rfl)
  | signed number =>
      obtain rfl := Item.scalar.inj (List.mem_singleton.mp hmem)
      exact Or.inr (Or.inl ⟨_, rfl⟩)
  | unsigned number =>
      obtain rfl := Item.scalar.inj (List.mem_singleton.mp hmem)
      exact Or.inr (Or.inl ⟨_, rfl⟩)
  | string str =>
      obtain rfl := Item.scalar.inj (List.mem_singleton.mp hmem)
      exact Or.inr (Or.inr ⟨str, rfl⟩)

theorem spelled_of_mem_elements {spelled : Text} (elements : List Value)
    (hmem : Item.scalar spelled ∈
      (Document.spellElements List.flatten (elementDocuments elements)).flatten) :
    Spelled spelled := by
  cases elements with
  | nil => cases hmem
  | cons value rest =>
      rw [elementDocuments, Document.spellElements, List.flatten_cons, List.mem_append] at hmem
      rcases hmem with hmem | hmem
      · exact spelled_of_mem_bare value hmem
      · exact spelled_of_mem_elements rest hmem

theorem spelled_of_mem_members {spelled : Text} (members : List (Text × Value))
    (hmem : Item.scalar spelled ∈
      (Document.spellMembers List.flatten (memberDocuments members)).flatten) :
    Spelled spelled := by
  cases members with
  | nil => cases hmem
  | cons member rest =>
      obtain ⟨key, value⟩ := member
      rw [memberDocuments, Document.spellMembers, List.flatten_cons, List.mem_append,
        List.mem_cons, List.mem_cons] at hmem
      rcases hmem with (hkey | hcolon | hmem) | hmem
      · obtain rfl := Item.scalar.inj hkey
        exact Or.inr (Or.inr ⟨key, rfl⟩)
      · cases hcolon
      · exact spelled_of_mem_bare value hmem
      · exact spelled_of_mem_members rest hmem

end

theorem spelled_of_mem_separated {value : Value} {spelled : Text}
    (hmem : Item.scalar spelled ∈ value.document.separated) : Spelled spelled :=
  spelled_of_mem_bare value (mem_separated.mp hmem)

/-! ### Blanking out -/

/-- No scanner tells a control character from a blank. -/
def blanked (c : Char) : Char := if c.toNat < 32 then ' ' else c

theorem blanked_of_le {c : Char} (hc : 32 ≤ c.toNat) : blanked c = c := if_neg (by omega)

theorem blanked_eq {c d : Char} (hd : 32 < d.toNat) : blanked c = d ↔ c = d := by
  unfold blanked
  split
  · rename_i hc
    constructor
    · rintro rfl
      exact absurd hd (by decide)
    · rintro rfl
      omega
  · exact Iff.rfl

theorem mem_map_blanked {d : Char} (hd : 32 < d.toNat) {text : Text} :
    d ∈ text.map blanked ↔ d ∈ text := by
  simp [List.mem_map, blanked_eq hd]

theorem isSpace_blanked {c : Char} (hc : isSpace c = true) : isSpace (blanked c) = true := by
  unfold blanked
  split
  · rfl
  · exact hc

/-- What the character class does not have, it does not have blanked out. -/
theorem apply_blanked {p : Char → Bool} (hspace : p ' ' = false) {c : Char} (hc : p c = false) :
    p (blanked c) = false := by
  unfold blanked
  split
  · exact hspace
  · exact hc

theorem map_blanked {text : Text} (htext : ∀ c ∈ text, 32 ≤ c.toNat) : text.map blanked = text :=
  (List.map_congr_left fun c hc => blanked_of_le (htext c hc)).trans (List.map_id text)

theorem map_blanked_keyword {word : Text} (hword : KeywordText word) :
    word.map blanked = word := by
  rcases hword with rfl | rfl | rfl
  · rfl
  · rfl
  · rfl

theorem map_blanked_sign {sign : Text} (hsign : SignPart sign) : sign.map blanked = sign := by
  rcases hsign with rfl | rfl | rfl
  · rfl
  · rfl
  · rfl

theorem le_toNat_of_isNumeric {c : Char} (hc : isNumeric c = true) : 32 ≤ c.toNat := by
  rw [isNumeric, Bool.or_eq_true, decide_eq_true_eq] at hc
  rcases hc with hdigit | rfl
  · have hrange := hdigit
    simp only [isDigit, Char.isDigit, Bool.and_eq_true, decide_eq_true_eq] at hrange
    have hlower : 48 ≤ c.toNat := hrange.1
    omega
  · decide

def Item.blanked : Item → Item
  | .scalar text => .scalar (text.map Mime.blanked)
  | item => item

theorem Item.text_blanked (item : Item) : item.blanked.text = item.text.map Mime.blanked := by
  cases item <;> rfl

theorem compact_map_blanked (list : List Item) :
    compact (list.map Item.blanked) = (compact list).map blanked := by
  rw [compact, compact, List.flatMap_map, List.map_flatMap]
  exact List.flatMap_congr fun item _ => item.text_blanked

theorem needsComma_blanked (first second : Item) :
    Item.needsComma first.blanked second.blanked = Item.needsComma first second := by
  cases first <;> cases second <;> rfl

theorem scalarAt_blanked {text after : Text} (hscalar : ScalarAt text after) :
    ScalarAt (text.map blanked) (after.map blanked) := by
  cases hscalar with
  | @string before _ hbefore =>
      have hquote : '"' ∉ before.map blanked := fun hmem =>
        hbefore ((mem_map_blanked (by decide)).mp hmem)
      rw [List.map_cons, List.map_append]
      exact .string hquote
  | @keyword word _ c hword hnext =>
      rw [map_blanked_keyword hword]
      exact .keyword hword (apply_blanked (p := fun c => isAlnum c || c = '_') (by decide) hnext)
  | @number sign run _ hsign hnumeral hrun hafter =>
      rw [List.map_append, map_blanked_sign hsign,
        map_blanked fun c hc => le_toNat_of_isNumeric (hrun c hc)]
      refine .number hsign hnumeral hrun fun c hc => ?_
      rw [List.head?_map, Option.mem_def, Option.map_eq_some_iff] at hc
      obtain ⟨d, hd, rfl⟩ := hc
      exact apply_blanked (by decide) (hafter d hd)

/-- Whoever cuts a text cuts the blanked text alike. -/
theorem cut_blanked {list : List Item} {text : Text} (hcut : Cut list text) :
    Cut (list.map Item.blanked) (text.map blanked) := by
  have hspaces : ∀ {before : Text}, (∀ c ∈ before, isSpace c = true) →
      ∀ c ∈ before.map blanked, isSpace c = true := by
    intro before hbefore c hc
    obtain ⟨d, hd, rfl⟩ := List.mem_map.mp hc
    exact isSpace_blanked (hbefore d hd)
  induction hcut with
  | nil hblank => exact .nil (hspaces hblank)
  | @cons before after item list hbefore hitem hafter ih =>
      rw [List.map_append, List.map_append, List.map_cons, ← Item.text_blanked]
      refine .cons (hspaces hbefore) ?_ ih
      cases item with
      | scalar text => exact scalarAt_blanked hitem
      | _ => exact trivial

/-! ### Where the text of a tree is cut -/

theorem exists_integerText (number : Int) :
    ∃ sign whole, SignPart sign ∧ WholePart whole ∧ integerText number = sign ++ whole := by
  cases number with
  | ofNat magnitude =>
      refine ⟨[], Nat.toDigits 10 magnitude, Or.inl rfl, wholePart_toDigits _, ?_⟩
      rw [Int.ofNat_eq_natCast, integerText_ofNat, List.nil_append]
  | negSucc magnitude =>
      exact ⟨['-'], Nat.toDigits 10 (magnitude + 1), Or.inr (Or.inl rfl), wholePart_toDigits _,
        integerText_negSucc magnitude⟩

theorem stringBody_blanked (c : Char) {rest : Text} (hrest : StringBody rest) :
    StringBody ((escape c).map blanked ++ rest) := by
  unfold escape
  split
  · exact .escape hrest
  · exact .escape hrest
  · exact .escape hrest
  · exact .escape hrest
  · exact .escape hrest
  · exact .escape hrest
  · exact .escape hrest
  · exact .escape hrest
  · rename_i hquote hbackslash _ _ _ _ _ _
    rw [List.map_singleton, blanked]
    split
    · exact .plain (by decide) (by decide) (by decide) hrest
    · exact .plain hquote hbackslash (by omega) hrest

theorem stringText_blanked (str : Text) : StringText ((stringLiteral str).map blanked) := by
  refine ⟨(str.flatMap escape).map blanked, ?_, by simp [literalIn]; decide⟩
  induction str with
  | nil => exact .nil
  | cons c str ih =>
      rw [List.flatMap_cons, List.map_append]
      exact stringBody_blanked c ih

theorem proper_blanked {spelled : Text} (hspelled : Spelled spelled) :
    (Item.scalar spelled).blanked.Proper := by
  rcases hspelled with hkeyword | ⟨number, rfl⟩ | ⟨str, rfl⟩
  · rw [Item.blanked, map_blanked_keyword hkeyword]
    exact Or.inl hkeyword
  · obtain ⟨sign, whole, hsign, hwhole, htext⟩ := exists_integerText number
    have hnumeric := numeric_of_parts hwhole (Or.inl rfl)
    rw [List.append_nil] at hnumeric
    rw [Item.blanked, htext, List.map_append, map_blanked_sign hsign,
      map_blanked fun c hc => le_toNat_of_isNumeric (hnumeric c hc)]
    exact Or.inr (Or.inl (numberText_of_whole hsign hwhole))
  · exact Or.inr (Or.inr (stringText_blanked str))

theorem spelling_compact {list : List Item} (hproper : ∀ item ∈ list, item.Proper) :
    Spelling list (compact list) := by
  induction list with
  | nil => exact .nil nofun
  | cons item list ih =>
      rw [compact_cons]
      exact (ih fun next hmem => hproper next (List.mem_cons_of_mem _ hmem)).front
        (hproper item List.mem_cons_self)

theorem exists_compact_cons {next : Item} (hbegins : next.beginsValue = false)
    (list : List Item) : ∃ c tail, compact (next :: list) = c :: tail ∧ Ends c := by
  have hproper : next.Proper := by
    cases next with
    | scalar text => cases hbegins
    | _ => exact trivial
  obtain ⟨c, tail, htext, -, hends⟩ := hproper.exists_cons
  rw [compact_cons, htext]
  exact ⟨c, _, rfl, hends hbegins⟩

theorem mem_escape_quote {str : Text} : '"' ∈ str.flatMap escape ↔ '"' ∈ str := by
  constructor
  · intro hmem
    by_contra hquote
    exact quote_notMem_flatMap_escape hquote hmem
  · intro hmem
    exact List.mem_flatMap.mpr ⟨'"', hmem, by decide⟩

/-- A scalar of a tree stands where its scanner takes it. -/
theorem scalarAt_of_spelled {spelled after : Text} (hspelled : Spelled spelled)
    (hscannable : Scannable spelled) (hends : ∀ c ∈ after.head?, Ends c)
    (hgoesOn : KeywordText spelled → after ≠ []) : ScalarAt spelled after := by
  rcases hspelled with hkeyword | ⟨number, rfl⟩ | ⟨str, rfl⟩
  · exact scalarAt_of_scannable (Or.inl hkeyword) hscannable hends hgoesOn
  · obtain ⟨sign, whole, hsign, hwhole, htext⟩ := exists_integerText number
    have hnumber := numberText_of_whole hsign hwhole
    rw [← htext] at hnumber
    exact scalarAt_of_scannable (Or.inr (Or.inl hnumber)) hscannable hends hgoesOn
  · have hquote : '"' ∉ unquoted (quoted (str.flatMap escape)) := hscannable.string rfl
    rw [unquoted_quoted] at hquote
    exact .string hquote

theorem cut_compact {list : List Item}
    (hcommas : list.IsChain fun first second => Item.needsComma first second = false)
    (hscalars : ∀ spelled, Item.scalar spelled ∈ list → Spelled spelled ∧ Scannable spelled)
    (hlast : ∀ word, KeywordText word → list.getLast? ≠ some (.scalar word)) :
    Cut list (compact list) := by
  induction list with
  | nil => exact .nil nofun
  | cons item list ih =>
      have hcommas := List.isChain_cons.mp hcommas
      rw [compact_cons]
      refine (ih hcommas.2 (fun spelled hmem => hscalars spelled (List.mem_cons_of_mem _ hmem))
        fun word hword hmem => ?_).front ?_
      · cases list with
        | nil => cases hmem
        | cons next list => exact hlast word hword (by rwa [List.getLast?_cons_cons])
      · cases item with
        | scalar spelled =>
            obtain ⟨hspelled, hscannable⟩ := hscalars spelled List.mem_cons_self
            cases list with
            | nil =>
                exact scalarAt_of_spelled hspelled hscannable nofun fun hkeyword _ =>
                  hlast spelled hkeyword rfl
            | cons next list =>
                have hneeds := hcommas.1 next rfl
                rw [Item.needsComma, Item.endsValue, Bool.true_and] at hneeds
                obtain ⟨c, tail, htext, hends⟩ := exists_compact_cons hneeds list
                rw [htext]
                refine scalarAt_of_spelled hspelled hscannable (fun d hd => ?_) fun _ hnil => ?_
                · obtain rfl := Option.some.inj hd
                  exact hends
                · cases hnil
        | _ => exact trivial

theorem Cut.items_eq {list : List Item} {text : Text} (hcut : Cut list text) :
    items 0 text = list := by
  induction hcut with
  | nil hblank =>
      have hitems := (cut_blank hblank []).1
      rwa [List.append_nil] at hitems
  | cons hbefore hitem hafter ih =>
      rw [List.append_assoc, (cut_blank hbefore _).1, (cut_item hitem).1, ih]

/-! ### What is asked of a tree -/

section Every

variable {string other : Text → Prop} {keys names : List Text → Prop}

mutual

theorem Value.every_and (string other : Text → Prop) (keys names : List Text → Prop)
    (value : Value) : value.Every string keys ∧ value.Every other names ↔
      value.Every (fun str => string str ∧ other str) (fun list => keys list ∧ names list) := by
  cases value with
  | list elements => exact everyElement_and string other keys names elements
  | object members =>
      have hmembers := everyMember_and string other keys names members
      simp only [Value.Every, ← hmembers]
      tauto
  | string str => exact Iff.rfl
  | _ => simp [Value.Every]

theorem everyElement_and (string other : Text → Prop) (keys names : List Text → Prop)
    (elements : List Value) :
    EveryElement string keys elements ∧ EveryElement other names elements ↔
      EveryElement (fun str => string str ∧ other str) (fun list => keys list ∧ names list)
        elements := by
  cases elements with
  | nil => simp [EveryElement]
  | cons value rest =>
      simp only [EveryElement, ← Value.every_and string other keys names value,
        ← everyElement_and string other keys names rest]
      tauto

theorem everyMember_and (string other : Text → Prop) (keys names : List Text → Prop)
    (members : List (Text × Value)) :
    EveryMember string keys members ∧ EveryMember other names members ↔
      EveryMember (fun str => string str ∧ other str) (fun list => keys list ∧ names list)
        members := by
  cases members with
  | nil => simp [EveryMember]
  | cons member rest =>
      simp only [EveryMember, ← Value.every_and string other keys names member.2,
        ← everyMember_and string other keys names rest]
      tauto

end

mutual

theorem Value.every_of_forall {string : Text → Prop} {keys : List Text → Prop}
    (hstring : ∀ str, string str) (hkeys : ∀ list, keys list) (value : Value) :
    value.Every string keys := by
  cases value with
  | string str => exact hstring str
  | list elements => exact everyElement_of_forall hstring hkeys elements
  | object members => exact ⟨hkeys _, everyMember_of_forall hstring hkeys members⟩
  | _ => trivial

theorem everyElement_of_forall {string : Text → Prop} {keys : List Text → Prop}
    (hstring : ∀ str, string str) (hkeys : ∀ list, keys list) (elements : List Value) :
    EveryElement string keys elements := by
  cases elements with
  | nil => trivial
  | cons value rest =>
      exact ⟨Value.every_of_forall hstring hkeys value, everyElement_of_forall hstring hkeys rest⟩

theorem everyMember_of_forall {string : Text → Prop} {keys : List Text → Prop}
    (hstring : ∀ str, string str) (hkeys : ∀ list, keys list) (members : List (Text × Value)) :
    EveryMember string keys members := by
  cases members with
  | nil => trivial
  | cons member rest =>
      exact ⟨Value.every_of_forall hstring hkeys member.2,
        everyMember_of_forall hstring hkeys rest⟩

end

theorem Value.every_congr (hstring : ∀ str, string str ↔ other str)
    (hkeys : ∀ list, keys list ↔ names list) (value : Value) :
    value.Every string keys ↔ value.Every other names := by
  rw [funext fun str => propext (hstring str), funext fun list => propext (hkeys list)]

end Every

theorem memberDocuments_fst (members : List (Text × Value)) :
    (memberDocuments members).map Prod.fst = (members.map Prod.fst).map stringLiteral := by
  induction members with
  | nil => rfl
  | cons member rest ih => rw [memberDocuments, List.map_cons, ih]; rfl

mutual

theorem every_document (p : List Text → Prop) (value : Value) : value.document.Every p ↔
    value.Every (fun _ => True) (fun keys => p (keys.map stringLiteral)) := by
  cases value with
  | list elements => exact everyElement_document p elements
  | object members =>
      rw [Value.document, Document.Every, Value.Every, memberDocuments_fst,
        everyMember_document p members]
  | _ => exact Iff.rfl

theorem everyElement_document (p : List Text → Prop) (elements : List Value) :
    Document.EveryElement p (elementDocuments elements) ↔
      EveryElement (fun _ => True) (fun keys => p (keys.map stringLiteral)) elements := by
  cases elements with
  | nil => exact Iff.rfl
  | cons value rest =>
      rw [elementDocuments, Document.EveryElement, EveryElement, every_document p value,
        everyElement_document p rest]

theorem everyMember_document (p : List Text → Prop) (members : List (Text × Value)) :
    Document.EveryMember p (memberDocuments members) ↔
      EveryMember (fun _ => True) (fun keys => p (keys.map stringLiteral)) members := by
  cases members with
  | nil => exact Iff.rfl
  | cons member rest =>
      rw [memberDocuments, Document.EveryMember, EveryMember, every_document p member.2,
        everyMember_document p rest]

end

theorem scannable_integerText (number : Int) : Scannable (integerText number) := by
  obtain ⟨sign, whole, hsign, hwhole, htext⟩ := exists_integerText number
  have hnumeral := numeral_of_parts hwhole (Or.inl rfl)
  have hnumeric := numeric_of_parts hwhole (Or.inl rfl)
  rw [List.append_nil] at hnumeral hnumeric
  rw [htext]
  have hscalar : ScalarAt (sign ++ whole) [] := .number hsign hnumeral hnumeric nofun
  exact scannable_of_scalarAt hscalar

theorem scannable_keyword {word : Text} (hword : KeywordText word) : Scannable word := by
  have hscalar : ScalarAt word [' '] := .keyword hword (by decide)
  exact scannable_of_scalarAt hscalar

theorem unquoted_stringLiteral (str : Text) : unquoted (stringLiteral str) = str.flatMap escape :=
  unquoted_quoted (str.flatMap escape)

theorem scannable_stringLiteral (str : Text) : Scannable (stringLiteral str) ↔ Unquoted str := by
  constructor
  · intro hscannable hmem
    have hquote := hscannable.string rfl
    rw [unquoted_stringLiteral] at hquote
    exact hquote (mem_escape_quote.mpr hmem)
  · intro hstr
    refine ⟨fun _ hmem => ?_, ?_⟩
    · rw [unquoted_stringLiteral] at hmem
      exact hstr (mem_escape_quote.mp hmem)
    · rintro (htype | htype) <;> cases htype

/-- The scalars of a list of items can be scanned. -/
def ScannableItems (list : List Item) : Prop :=
  ∀ spelled, Item.scalar spelled ∈ list → Scannable spelled

theorem scannableItems_scalar (spelled : Text) :
    ScannableItems [.scalar spelled] ↔ Scannable spelled := by
  simp [ScannableItems]

theorem scannableItems_append (first second : List Item) :
    ScannableItems (first ++ second) ↔ ScannableItems first ∧ ScannableItems second := by
  simp only [ScannableItems, List.mem_append, or_imp, forall_and]

def UnquotedKeys (keys : List Text) : Prop := ∀ key ∈ keys, Unquoted key

mutual

theorem scannable_document (value : Value) :
    ScannableItems value.document.bare ↔ value.Every Unquoted UnquotedKeys := by
  cases value with
  | list elements =>
      rw [Value.Every, ← scannable_elements elements]
      simp [ScannableItems, Value.document, Document.bare, Document.spell]
  | object members =>
      rw [Value.Every, ← scannable_members members]
      simp [ScannableItems, Value.document, Document.bare, Document.spell]
  | null =>
      exact (scannableItems_scalar _).trans
        (iff_of_true (scannable_keyword (Or.inr (Or.inr rfl))) trivial)
  | boolean value =>
      refine (scannableItems_scalar _).trans (iff_of_true (scannable_keyword ?_) trivial)
      cases value
      · exact Or.inr (Or.inl rfl)
      · exact Or.inl rfl
  | signed number =>
      exact (scannableItems_scalar _).trans (iff_of_true (scannable_integerText _) trivial)
  | unsigned number =>
      exact (scannableItems_scalar _).trans (iff_of_true (scannable_integerText _) trivial)
  | string str => exact (scannableItems_scalar _).trans (scannable_stringLiteral str)

theorem scannable_elements (elements : List Value) :
    ScannableItems (Document.spellElements List.flatten (elementDocuments elements)).flatten ↔
      EveryElement Unquoted UnquotedKeys elements := by
  cases elements with
  | nil => simp [ScannableItems, elementDocuments, Document.spellElements, EveryElement]
  | cons value rest =>
      rw [elementDocuments, Document.spellElements, List.flatten_cons, scannableItems_append,
        EveryElement, ← scannable_document value, ← scannable_elements rest]
      rfl

theorem scannable_members (members : List (Text × Value)) :
    ScannableItems (Document.spellMembers List.flatten (memberDocuments members)).flatten ↔
      UnquotedKeys (members.map Prod.fst) ∧ EveryMember Unquoted UnquotedKeys members := by
  cases members with
  | nil =>
      simp [ScannableItems, memberDocuments, Document.spellMembers, EveryMember, UnquotedKeys]
  | cons member rest =>
      obtain ⟨key, value⟩ := member
      have hpair : ScannableItems (.scalar (stringLiteral key) :: .colon :: value.document.bare) ↔
          Unquoted key ∧ value.Every Unquoted UnquotedKeys := by
        rw [← scannable_stringLiteral, ← scannable_document value]
        simp [ScannableItems]
      have hkeys : UnquotedKeys (((key, value) :: rest).map Prod.fst) ↔
          Unquoted key ∧ UnquotedKeys (rest.map Prod.fst) := List.forall_mem_cons
      have hrest := scannable_members rest
      rw [memberDocuments, Document.spellMembers, List.flatten_cons, scannableItems_append, hrest,
        hkeys, EveryMember]
      refine (and_congr_left' hpair).trans ?_
      tauto

end

/-! ### Parsing the text of a tree -/

theorem isChain_blanked {list : List Item}
    (hcommas : list.IsChain fun first second => Item.needsComma first second = false) :
    (list.map Item.blanked).IsChain fun first second => Item.needsComma first second = false := by
  rw [List.isChain_map]
  simpa only [needsComma_blanked] using hcommas

/-- A text of a tree that the parser cuts has no quotation mark in its strings. -/
theorem scannable_of_cut_render {value : Value} {list : List Item}
    (hcut : Cut list (render value)) : ScannableItems value.document.separated := by
  rw [render_eq_compact] at hcut
  have hproper : ∀ item ∈ value.document.separated.map Item.blanked, item.Proper := by
    intro item hmem
    obtain ⟨other, hother, rfl⟩ := List.mem_map.mp hmem
    cases other with
    | scalar spelled => exact proper_blanked (spelled_of_mem_separated hother)
    | _ => exact trivial
  have hcommas := isChain_blanked (isChain_separated value.document)
  have hspelling := spelling_compact hproper
  rw [compact_map_blanked] at hspelling
  obtain ⟨hitems, -⟩ := cut_of_spelling hspelling hcommas (cut_blanked hcut)
  have hblanked := cut_blanked hcut
  rw [hitems] at hblanked
  intro spelled hmem
  have hscannable := scannable_of_cut hblanked _ (List.mem_map_of_mem hmem)
  rcases spelled_of_mem_separated hmem with hkeyword | ⟨number, rfl⟩ | ⟨str, rfl⟩
  · exact scannable_keyword hkeyword
  · exact scannable_integerText number
  · refine (scannable_stringLiteral str).mpr fun hquote => ?_
    have hunquoted : '"' ∉ unquoted (quoted ((str.flatMap escape).map blanked)) := by
      have hliteral : (stringLiteral str).map blanked =
          quoted ((str.flatMap escape).map blanked) := by
        simp [literalIn, quoted]
        decide
      rw [← hliteral]
      exact hscannable.string (by rw [hliteral]; rfl)
    rw [unquoted_quoted, mem_map_blanked (by decide), mem_escape_quote] at hunquoted
    exact hunquoted hquote

theorem scannableItems_separated (document : Document) :
    ScannableItems document.separated ↔ ScannableItems document.bare := by
  simp only [ScannableItems, mem_separated]

theorem not_keywordText_integerText (number : Int) : ¬ KeywordText (integerText number) := by
  obtain ⟨c, tail, htext, hc⟩ := integerText_cons number
  rw [htext]
  rintro (hword | hword | hword)
  · obtain rfl := (List.cons.inj hword).1
    exact absurd hc (by decide)
  · obtain rfl := (List.cons.inj hword).1
    exact absurd hc (by decide)
  · obtain rfl := (List.cons.inj hword).1
    exact absurd hc (by decide)

theorem not_keywordText_stringLiteral (str : Text) : ¬ KeywordText (stringLiteral str) := by
  rintro (hword | hword | hword)
  · cases (List.cons.inj hword).1
  · cases (List.cons.inj hword).1
  · cases (List.cons.inj hword).1

/-- The last item of a tree is a keyword only if the tree is. -/
theorem getLast?_separated (value : Value) {word : Text} (hword : KeywordText word) :
    value.document.separated.getLast? = some (.scalar word) →
      value.isKeyword = true ∧ render value = word := by
  intro hlast
  cases value with
  | list elements =>
      have hclose : (Value.list elements).document.separated.getLast? = some .closeList :=
        List.getLast?_concat
      rw [hclose] at hlast
      cases hlast
  | object members =>
      have hclose : (Value.object members).document.separated.getLast? = some .closeObject :=
        List.getLast?_concat
      rw [hclose] at hlast
      cases hlast
  | null => exact ⟨rfl, Item.scalar.inj (Option.some.inj hlast)⟩
  | boolean value => exact ⟨rfl, Item.scalar.inj (Option.some.inj hlast)⟩
  | signed number =>
      obtain rfl := Item.scalar.inj (Option.some.inj hlast)
      exact absurd hword (not_keywordText_integerText _)
  | unsigned number =>
      obtain rfl := Item.scalar.inj (Option.some.inj hlast)
      exact absurd hword (not_keywordText_integerText _)
  | string str =>
      obtain rfl := Item.scalar.inj (Option.some.inj hlast)
      exact absurd hword (not_keywordText_stringLiteral str)

theorem keywordText_of_isKeyword {value : Value} (hkeyword : value.isKeyword = true) :
    KeywordText (render value) := by
  cases value with
  | null => exact Or.inr (Or.inr rfl)
  | boolean value =>
      cases value
      · exact Or.inr (Or.inl rfl)
      · exact Or.inl rfl
  | _ => cases hkeyword

theorem stringKeys_document (value : Value) : value.document.Every StringKeys := by
  refine (every_document StringKeys value).mpr (Value.every_of_forall (fun _ => trivial) ?_ value)
  intro keys key hmem
  obtain ⟨name, -, rfl⟩ := List.mem_map.mp hmem
  rfl

theorem cut_render {value : Value} (hscannable : ScannableItems value.document.separated)
    (hgoesOn : value.isKeyword = false) : Cut value.document.separated (render value) := by
  rw [render_eq_compact]
  refine cut_compact (isChain_separated value.document)
    (fun spelled hmem => ⟨spelled_of_mem_separated hmem, hscannable spelled hmem⟩)
    fun word hword hlast => ?_
  rw [(getLast?_separated value hword hlast).1] at hgoesOn
  cases hgoesOn

/-- The parser takes the text of a tree for the tree, if it takes it at all. -/
theorem parse_render_iff (value : Value) (token : DeserializationToken) :
    parse (render value) = .ok token ↔ token = value.document.token ∧
      ScannableItems value.document.bare ∧ value.document.Every DistinctKeys ∧
      value.isKeyword = false := by
  constructor
  · intro hparse
    obtain ⟨hcut, found, hreads, rfl, hkeys⟩ := exists_document hparse
    have hscannable := scannable_of_cut_render hcut
    have hgoesOn : value.isKeyword = false := by
      by_contra hkeyword
      exact hcut.goesOn _ (keywordText_of_isKeyword (eq_true_of_ne_false hkeyword))
        (List.suffix_refl _)
    have hown : Reads (render value) value.document := by
      rw [Reads, (cut_render hscannable hgoesOn).items_eq, filter_separated]
    obtain rfl := hreads.unique hown
    exact ⟨rfl, (scannableItems_separated _).mp hscannable,
      Document.Every.mono (fun _ hkeys => hkeys.2) _ hkeys, hgoesOn⟩
  · rintro ⟨rfl, hscannable, hkeys, hgoesOn⟩
    have hcut := cut_render ((scannableItems_separated _).mpr hscannable) hgoesOn
    have htake := @takeAll_document [] [] value.document (stringKeys_document value) hkeys
    rw [List.append_nil] at htake
    have hloop : updateLoop 0 0 (render value) (Progress.within []).state =
        .ok (Progress.complete value.document).state := updateLoop_of_cut hcut htake 0
    exact parse_of_updateLoop hloop

end Liblw.Mime
