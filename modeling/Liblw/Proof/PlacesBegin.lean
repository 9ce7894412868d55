import Liblw.Mime.Places
import Liblw.Proof.GrammarItems

/-!
# What stands at a place

The text that leads to a stack of places, taken apart into the containers that are open in it, each
with the grammar's text of what it has so far. Every such text is the beginning of a JSON text: the
containers can be closed one after the other.
-/

namespace Liblw.Mime

theorem blank_nil : Blank [] := by simp [Blank]

/-! ### Growing lists and objects -/

theorem ElementsText.single {document : Document} {text : Text} (hvalue : ValueText document text) :
    ElementsText [document] text := by
  have helements := ElementsText.last blank_nil hvalue blank_nil
  rwa [List.nil_append, List.append_nil] at helements

theorem ElementsText.snoc {elements : List Document} {inner : Text}
    (helements : ElementsText elements inner) {document : Document} {text : Text}
    (hvalue : ValueText document text) :
    ElementsText (elements ++ [document]) (inner ++ ',' :: text) := by
  induction elements generalizing inner with
  | nil => cases helements
  | cons first rest ih =>
      cases helements with
      | last hbefore hfirst hafter =>
          exact .more hbefore hfirst hafter (.single hvalue)
      | more hbefore hfirst hafter hrest =>
          rw [List.append_assoc, List.cons_append]
          exact .more hbefore hfirst hafter (ih hrest)

theorem MembersText.single {key : Text} {document : Document} {text : Text}
    (hkey : StringText key) (hvalue : ValueText document text) :
    MembersText [(key, document)] (key ++ ':' :: text) := by
  have hmembers := MembersText.last blank_nil hkey blank_nil blank_nil hvalue blank_nil
  simpa using hmembers

theorem MembersText.snoc {members : List (Text × Document)} {inner : Text}
    (hmembers : MembersText members inner) {key : Text} {document : Document} {text : Text}
    (hkey : StringText key) (hvalue : ValueText document text) :
    MembersText (members ++ [(key, document)]) (inner ++ ',' :: (key ++ ':' :: text)) := by
  induction members generalizing inner with
  | nil => cases hmembers
  | cons first rest ih =>
      cases hmembers with
      | last hbefore hname hbetween hbehind hfirst hafter =>
          have hmore := MembersText.more hbefore hname hbetween hbehind hfirst hafter
            (.single hkey hvalue)
          simpa using hmore
      | more hbefore hname hbetween hbehind hfirst hafter hrest =>
          have hmore := MembersText.more hbefore hname hbetween hbehind hfirst hafter (ih hrest)
          simpa using hmore

/-- What stands in an object in front of a key. -/
def BeforeKey (before : Text) : Prop :=
  before = [] ∨ ∃ members inner, MembersText members inner ∧ before = inner ++ [',']

theorem BeforeKey.member {before key : Text} (hbefore : BeforeKey before) (hkey : StringText key)
    {document : Document} {text : Text} (hvalue : ValueText document text) :
    ∃ members, MembersText members (before ++ key ++ ':' :: text) := by
  rcases hbefore with rfl | ⟨members, inner, hmembers, rfl⟩
  · exact ⟨_, .single hkey hvalue⟩
  · refine ⟨members ++ [(key, document)], ?_⟩
    have hmore := hmembers.snoc hkey hvalue
    simpa using hmore

/-! ### Texts at places -/

/-- The text leads to these places. -/
inductive Stands : List Place → Text → Prop where
  | document : Stands [.document] []
  | documentValue {document : Document} {text : Text} (hvalue : ValueText document text) :
      Stands [.documentValue] text
  | list {place filled : Place} {below : List Place} {text : Text}
      (htext : Stands (place :: below) text) (hfill : place.fill = some filled) :
      Stands (.list :: filled :: below) (text ++ ['['])
  | listValue {place filled : Place} {below : List Place} {text inner : Text}
      {elements : List Document} (htext : Stands (place :: below) text)
      (hfill : place.fill = some filled) (hinner : ElementsText elements inner) :
      Stands (.listValue :: filled :: below) (text ++ '[' :: inner)
  | listComma {place filled : Place} {below : List Place} {text inner : Text}
      {elements : List Document} (htext : Stands (place :: below) text)
      (hfill : place.fill = some filled) (hinner : ElementsText elements inner) :
      Stands (.listComma :: filled :: below) (text ++ '[' :: (inner ++ [',']))
  | object {place filled : Place} {below : List Place} {text : Text}
      (htext : Stands (place :: below) text) (hfill : place.fill = some filled) :
      Stands (.object :: filled :: below) (text ++ ['\x7b'])
  | objectValue {place filled : Place} {below : List Place} {text inner : Text}
      {members : List (Text × Document)} (htext : Stands (place :: below) text)
      (hfill : place.fill = some filled) (hinner : MembersText members inner) :
      Stands (.objectValue :: filled :: below) (text ++ '\x7b' :: inner)
  | objectComma {place filled : Place} {below : List Place} {text inner : Text}
      {members : List (Text × Document)} (htext : Stands (place :: below) text)
      (hfill : place.fill = some filled) (hinner : MembersText members inner) :
      Stands (.objectComma :: filled :: below) (text ++ '\x7b' :: (inner ++ [',']))
  | key {place filled : Place} {below : List Place} {text before key : Text}
      (htext : Stands (place :: below) text) (hfill : place.fill = some filled)
      (hbefore : BeforeKey before) (hkey : StringText key) :
      Stands (.key :: filled :: below) (text ++ '\x7b' :: (before ++ key))
  | member {place filled : Place} {below : List Place} {text before key : Text}
      (htext : Stands (place :: below) text) (hfill : place.fill = some filled)
      (hbefore : BeforeKey before) (hkey : StringText key) :
      Stands (.member :: filled :: below) (text ++ '\x7b' :: (before ++ key ++ [':']))

/-- A value leads from its place to the place behind it. -/
theorem Stands.fill {place filled : Place} {below : List Place} {text value : Text}
    {document : Document} (hstands : Stands (place :: below) text)
    (hfill : place.fill = some filled) (hvalue : ValueText document value) :
    Stands (filled :: below) (text ++ value) := by
  cases hstands with
  | document =>
      obtain rfl := Option.some.inj hfill
      exact .documentValue hvalue
  | list htext hparent =>
      obtain rfl := Option.some.inj hfill
      rw [List.append_assoc, List.singleton_append]
      exact .listValue htext hparent (.single hvalue)
  | listComma htext hparent hinner =>
      obtain rfl := Option.some.inj hfill
      rw [List.append_assoc, List.cons_append, List.append_assoc, List.singleton_append]
      exact .listValue htext hparent (hinner.snoc hvalue)
  | member htext hparent hbefore hkey =>
      obtain rfl := Option.some.inj hfill
      obtain ⟨members, hmembers⟩ := hbefore.member hkey hvalue
      rw [List.append_assoc, List.cons_append, List.append_assoc, List.singleton_append]
      exact .objectValue htext hparent hmembers
  | _ => cases hfill

/-- A closing bracket makes the open list a value of the place under it. -/
theorem Stands.closeList {place : Place} {below : List Place} {text : Text}
    (hstands : Stands (place :: below) text) (hplace : place = .list ∨ place = .listValue) :
    Stands below (text ++ [']']) := by
  cases hstands with
  | list htext hfill =>
      have hvalue := htext.fill hfill (.emptyList blank_nil)
      simpa using hvalue
  | listValue htext hfill hinner =>
      have hvalue := htext.fill hfill (.list hinner)
      simpa using hvalue
  | _ => rcases hplace with hplace | hplace <;> cases hplace

theorem Stands.closeObject {place : Place} {below : List Place} {text : Text}
    (hstands : Stands (place :: below) text) (hplace : place = .object ∨ place = .objectValue) :
    Stands below (text ++ ['\x7d']) := by
  cases hstands with
  | object htext hfill =>
      have hvalue := htext.fill hfill (.emptyObject blank_nil)
      simpa using hvalue
  | objectValue htext hfill hinner =>
      have hvalue := htext.fill hfill (.object hinner)
      simpa using hvalue
  | _ => rcases hplace with hplace | hplace <;> cases hplace

theorem Stands.scalarKey {place : Place} {below : List Place} {text key : Text}
    (hstands : Stands (place :: below) text) (hplace : place = .object ∨ place = .objectComma)
    (hkey : StringText key) : Stands (.key :: below) (text ++ key) := by
  cases hstands with
  | object htext hfill =>
      have hnext := Stands.key htext hfill (Or.inl rfl) hkey
      simpa using hnext
  | objectComma htext hfill hinner =>
      have hnext := Stands.key htext hfill (Or.inr ⟨_, _, hinner, rfl⟩) hkey
      simpa using hnext
  | _ => rcases hplace with hplace | hplace <;> cases hplace

/-- A scalar fills the place, or is a key where an object is open. -/
theorem Stands.takeScalar {place : Place} {below next : List Place} {text spelled : Text}
    (hstands : Stands (place :: below) text) (hscalar : ScalarText spelled)
    (htake : Place.take (place :: below) (.scalar spelled) = some next) :
    Stands next (text ++ spelled) := by
  by_cases hplace : place = .object ∨ place = .objectComma
  · have hkey : (if scalarType spelled = .string then some (.key :: below) else none) =
        some next := by
      rcases hplace with rfl | rfl <;> exact htake
    split_ifs at hkey with htype
    obtain rfl := Option.some.inj hkey
    exact hstands.scalarKey hplace (ScalarText.string hscalar ((isString_iff spelled).mp htype))
  · obtain ⟨hobject, hcomma⟩ := not_or.mp hplace
    have hmap : place.fill.map (· :: below) = some next := by
      cases place <;> first | exact htake | contradiction
    obtain ⟨filled, hfill, rfl⟩ := Option.map_eq_some_iff.mp hmap
    exact hstands.fill hfill (.scalar hscalar)

/-- **One item.** The item leads from the places to those behind it. -/
theorem Stands.take {places next : List Place} {text : Text} {item : Item}
    (hstands : Stands places text) (hitem : item.Proper)
    (htake : Place.take places item = some next) : Stands next (text ++ item.text) := by
  cases places with
  | nil => cases hstands
  | cons place below =>
      cases item with
      | scalar spelled => exact hstands.takeScalar hitem htake
      | openList =>
          obtain ⟨filled, hfill, rfl⟩ := Option.map_eq_some_iff.mp htake
          exact .list hstands hfill
      | openObject =>
          obtain ⟨filled, hfill, rfl⟩ := Option.map_eq_some_iff.mp htake
          exact .object hstands hfill
      | closeList =>
          cases place with
          | list =>
              obtain rfl := Option.some.inj htake
              exact hstands.closeList (Or.inl rfl)
          | listValue =>
              obtain rfl := Option.some.inj htake
              exact hstands.closeList (Or.inr rfl)
          | _ => cases htake
      | closeObject =>
          cases place with
          | object =>
              obtain rfl := Option.some.inj htake
              exact hstands.closeObject (Or.inl rfl)
          | objectValue =>
              obtain rfl := Option.some.inj htake
              exact hstands.closeObject (Or.inr rfl)
          | _ => cases htake
      | colon =>
          cases place with
          | key =>
              obtain rfl := Option.some.inj htake
              cases hstands with
              | key htext hfill hbefore hkey =>
                  have hnext := Stands.member htext hfill hbefore hkey
                  simpa [Item.text] using hnext
          | _ => cases htake
      | comma =>
          cases place with
          | listValue =>
              obtain rfl := Option.some.inj htake
              cases hstands with
              | listValue htext hfill hinner =>
                  have hnext := Stands.listComma htext hfill hinner
                  simpa [Item.text] using hnext
          | objectValue =>
              obtain rfl := Option.some.inj htake
              cases hstands with
              | objectValue htext hfill hinner =>
                  have hnext := Stands.objectComma htext hfill hinner
                  simpa [Item.text] using hnext
          | _ => cases htake

theorem Stands.takeAll {places next : List Place} {text : Text} {list : List Item}
    (hstands : Stands places text) (hitems : ∀ item ∈ list, item.Proper)
    (htake : Place.takeAll places list = some next) :
    Stands next (text ++ list.flatMap Item.text) := by
  induction list generalizing places text with
  | nil =>
      obtain rfl := Option.some.inj htake
      simpa using hstands
  | cons item list ih =>
      obtain ⟨hitem, hlist⟩ := List.forall_mem_cons.mp hitems
      obtain ⟨middle, hmiddle, hrest⟩ := Option.bind_eq_some_iff.mp htake
      have hnext := ih (hstands.take hitem hmiddle) hlist hrest
      rwa [List.append_assoc] at hnext

/-! ### Closing what is open -/

theorem nullText : ValueText (.scalar "null".toList) "null".toList :=
  .scalar (Or.inl (Or.inr (Or.inr rfl)))

theorem emptyKey : StringText ['"', '"'] := ⟨[], .nil, rfl⟩

theorem Begins.of_append {text more : Text} (hbegins : Begins (text ++ more)) : Begins text := by
  obtain ⟨rest, hderivable⟩ := hbegins
  rw [List.append_assoc] at hderivable
  exact ⟨more ++ rest, hderivable⟩

/-- **Beginnings.** Every text that leads to some places is the beginning of a JSON text. -/
theorem Stands.begins {places : List Place} {text : Text} (hstands : Stands places text) :
    Begins text := by
  induction places generalizing text with
  | nil => cases hstands
  | cons place below ih =>
      have hnull : ∀ {filled : Place}, place.fill = some filled →
          Stands (filled :: below) (text ++ "null".toList) :=
        fun hfill => hstands.fill hfill nullText
      cases place with
      | document =>
          cases hstands with
          | document =>
              exact ⟨"null".toList, _, [], _, [], blank_nil, nullText, blank_nil, by simp⟩
      | documentValue =>
          cases hstands with
          | documentValue hvalue =>
              exact ⟨[], _, [], _, [], blank_nil, hvalue, blank_nil, by simp⟩
      | list => exact (ih (hstands.closeList (Or.inl rfl))).of_append
      | listValue => exact (ih (hstands.closeList (Or.inr rfl))).of_append
      | listComma => exact (ih ((hnull rfl).closeList (Or.inr rfl))).of_append.of_append
      | object => exact (ih (hstands.closeObject (Or.inl rfl))).of_append
      | objectValue => exact (ih (hstands.closeObject (Or.inr rfl))).of_append
      | objectComma =>
          have hkey := hstands.scalarKey (Or.inr rfl) emptyKey
          have hcolon := @Stands.take _ (.member :: below) _ .colon hkey trivial rfl
          have hvalue := hcolon.fill rfl nullText
          exact (ih (hvalue.closeObject (Or.inr rfl))).of_append.of_append.of_append.of_append
      | key =>
          have hcolon := @Stands.take _ (.member :: below) _ .colon hstands trivial rfl
          have hvalue := hcolon.fill rfl nullText
          exact (ih (hvalue.closeObject (Or.inr rfl))).of_append.of_append.of_append
      | member => exact (ih ((hnull rfl).closeObject (Or.inr rfl))).of_append.of_append

end Liblw.Mime
