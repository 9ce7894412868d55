import Liblw.Proof.FormatterNesting
import Liblw.Proof.PlacesBegin

/-!
# Calls in an order that fits

A call that finds a state on the stack writes what `items` says, or throws and writes nothing; in
neither case does it look below an empty stack. So a run writes the beginning of a JSON text as long
as each call writes something that may stand where the text has come to.
-/

namespace Liblw.Mime

open Lib JSONSerializationFormatter

/-! ### One call -/

/-- The call writes these items, or it throws and changes nothing. -/
def WritesItems (call : FormatCall Unit) (formatter : JSONSerializationFormatter) :
    Option (List Item) → Prop
  | some items => ∃ stack, call.exec formatter =
      (.ok (), ⟨stack, formatter.output ++ items.flatMap Item.text⟩)
  | none => ∃ error, call.exec formatter = (.error (.thrown error), formatter)

section Calls

variable {state : State} {rest : List State} {output : Text}

attribute [local simp] Call.exec_bind maybeComma checkCanAddValue checkCanAddString valueAdded
  stringAdded valueItems stringItems WritesItems Item.text

theorem writes_addLiteral (text : Text) :
    WritesItems (addLiteral text) ⟨state :: rest, output⟩ (valueItems (.scalar text) state) := by
  cases state <;> simp [addLiteral]

theorem writes_putString (str : Text) :
    WritesItems (putString str) ⟨state :: rest, output⟩
      (stringItems (.scalar (quotedText str)) state) := by
  have hescape : str.flatMap charText = str.flatMap escape := by
    congr 1
    funext c
    exact charText_eq_escape c
  cases state <;> simp [putString, exec_putChars, quotedText, hescape]

theorem writes_putChar (c : Char) :
    WritesItems (putChar c) ⟨state :: rest, output⟩
      (stringItems (.scalar (quotedText [c])) state) := by
  cases state <;> simp [putChar, quotedText]

theorem writes_startList :
    WritesItems startList ⟨state :: rest, output⟩ (valueItems .openList state) := by
  cases state <;> simp [startList]

theorem writes_startObject :
    WritesItems startObject ⟨state :: rest, output⟩ (valueItems .openObject state) := by
  cases state <;> simp [startObject]

theorem writes_endList :
    WritesItems endList ⟨state :: rest, output⟩
      (if state = .list ∨ state = .listValue then some [.closeList] else none) := by
  cases state <;> simp [endList]

theorem writes_endObject :
    WritesItems endObject ⟨state :: rest, output⟩
      (if state = .object ∨ state = .objectValue then some [.closeObject] else none) := by
  cases state <;> simp [endObject]

theorem writes_startPairKey :
    WritesItems startPairKey ⟨state :: rest, output⟩
      (if state = .object then some []
        else if state = .objectValue then some [.comma] else none) := by
  cases state <;> simp [startPairKey]

theorem writes_endPairKey :
    WritesItems endPairKey ⟨state :: rest, output⟩
      (if state = .keyAdded then some [.colon] else none) := by
  cases state <;> simp [endPairKey]

theorem writes_endPair :
    WritesItems endPair ⟨state :: rest, output⟩
      (if state = .object ∨ state = .objectValue then some [] else none) := by
  cases state <;> simp [endPair]

variable {δ : Type} (floating : Floating δ)

/-- **One call.** On a stack that is not empty, the call writes its items, or it is refused and
leaves everything as it is. -/
theorem writes_call (invocation : Invocation δ) :
    WritesItems (invocation.call floating) ⟨state :: rest, output⟩
      (invocation.items floating state) := by
  cases invocation with
  | putNull => exact writes_addLiteral _
  | putBoolean boolean => exact writes_addLiteral _
  | putChar c => exact writes_putChar c
  | putSignedInteger number => exact writes_addLiteral _
  | putUnsignedInteger number => exact writes_addLiteral _
  | putFloatingPoint number => exact writes_addLiteral _
  | putString str => exact writes_putString str
  | startList => exact writes_startList
  | endList => exact writes_endList
  | startObject => exact writes_startObject
  | endObject => exact writes_endObject
  | startPairKey => exact writes_startPairKey
  | endPairKey => exact writes_endPairKey
  | endPair => exact writes_endPair

end Calls

/-! ### The items of a call -/

theorem stringBody_escape {c : Char} (hprintable : Printable c) {rest : Text}
    (hrest : StringBody rest) : StringBody (charText c ++ rest) := by
  unfold charText
  split_ifs with hquote hbackspace hformfeed hnewline hreturn htab
  · exact .escape hrest
  · exact .escape hrest
  · exact .escape hrest
  · exact .escape hrest
  · exact .escape hrest
  · exact .escape hrest
  · push Not at hquote
    have hcontrol : 32 ≤ c.toNat := by
      rcases hprintable with hcontrol | hescaped
      · exact hcontrol
      · simp [hbackspace, hformfeed, hnewline, hreturn, htab] at hescaped
    exact .plain hquote.1 hquote.2.1 hcontrol hrest

theorem stringText_quotedText {str : Text} (hprintable : ∀ c ∈ str, Printable c) :
    StringText (quotedText str) := by
  refine ⟨str.flatMap charText, ?_, rfl⟩
  induction str with
  | nil => exact .nil
  | cons c str ih =>
      obtain ⟨hc, hstr⟩ := List.forall_mem_cons.mp hprintable
      rw [List.flatMap_cons]
      exact stringBody_escape hc (ih hstr)

theorem head?_toDigits {number : Nat} (hpos : 0 < number) :
    (Nat.toDigits 10 number).head? ≠ some '0' := by
  induction number using Nat.strongRecOn with
  | _ number ih =>
      by_cases hsmall : number < 10
      · rw [Nat.toDigits_of_lt_base hsmall]
        interval_cases number <;> decide
      · have hquotient : 0 < number / 10 := by omega
        have hhead := ih (number / 10) (by omega) hquotient
        rw [Nat.toDigits_of_base_le (by decide) (by omega), List.head?_append]
        cases hdigits : (Nat.toDigits 10 (number / 10)).head? with
        | none => exact absurd (List.head?_eq_none_iff.mp hdigits) Nat.toDigits_ne_nil
        | some c =>
            rw [hdigits] at hhead
            exact hhead

theorem wholePart_toDigits (number : Nat) : WholePart (Nat.toDigits 10 number) := by
  rcases Nat.eq_zero_or_pos number with rfl | hpos
  · exact Or.inl (Nat.toDigits_zero 10)
  · refine Or.inr ⟨⟨Nat.toDigits_ne_nil, fun c hc => ?_⟩, head?_toDigits hpos⟩
    exact Nat.isDigit_of_mem_toDigits (by decide) (by decide) hc

theorem numberText_of_whole {sign whole : Text} (hsign : SignPart sign) (hwhole : WholePart whole) :
    NumberText (sign ++ whole) :=
  ⟨sign, whole, [], [], hsign, hwhole, Or.inl rfl, Or.inl rfl, by simp⟩

theorem numberText_unsigned (number : UInt64) : NumberText (unsignedText number) :=
  numberText_of_whole (Or.inl rfl) (wholePart_toDigits _)

theorem numberText_signed (number : Int64) : NumberText (signedText number) := by
  unfold signedText
  split_ifs
  · exact numberText_of_whole (Or.inr (Or.inl rfl)) (wholePart_toDigits _)
  · exact numberText_of_whole (Or.inl rfl) (wholePart_toDigits _)

theorem proper_valueItems {state : State} {item : Item} {items : List Item} (hitem : item.Proper)
    (hitems : valueItems item state = some items) : ∀ other ∈ items, other.Proper := by
  cases state with
  | value => obtain rfl := Option.some.inj hitems; simpa using hitem
  | list => obtain rfl := Option.some.inj hitems; simpa using hitem
  | listValue =>
      obtain rfl := Option.some.inj hitems
      exact List.forall_mem_cons.mpr ⟨trivial, by simpa using hitem⟩
  | keyEnded => obtain rfl := Option.some.inj hitems; simpa using hitem
  | _ => cases hitems

theorem proper_stringItems {state : State} {item : Item} {items : List Item} (hitem : item.Proper)
    (hitems : stringItems item state = some items) : ∀ other ∈ items, other.Proper := by
  by_cases hkey : state = .keyStarted
  · subst hkey
    obtain rfl := Option.some.inj hitems
    simpa using hitem
  · rw [stringItems] at hitems
    · exact proper_valueItems hitem hitems
    · exact hkey

variable {δ : Type} (floating : Floating δ)

/-- What a call writes is made of items of the grammar, if its argument has nothing in it that JSON
cannot write. -/
theorem proper_items {state : State} {invocation : Invocation δ} {items : List Item}
    (hclean : invocation.Clean floating) (hitems : invocation.items floating state = some items) :
    ∀ item ∈ items, item.Proper := by
  cases invocation with
  | putNull => exact @proper_valueItems _ (.scalar _) _ (Or.inl (Or.inr (Or.inr rfl))) hitems
  | putBoolean boolean =>
      refine @proper_valueItems _ (.scalar _) _ (Or.inl ?_) hitems
      cases boolean with
      | true => exact Or.inl rfl
      | false => exact Or.inr (Or.inl rfl)
  | putChar c =>
      have hprintable : Printable c := hclean
      have hstring : StringText (quotedText [c]) :=
        stringText_quotedText (by simpa using hprintable)
      exact @proper_stringItems _ (.scalar _) _ (Or.inr (Or.inr hstring)) hitems
  | putSignedInteger number =>
      exact @proper_valueItems _ (.scalar _) _ (Or.inr (Or.inl (numberText_signed number))) hitems
  | putUnsignedInteger number =>
      exact @proper_valueItems _ (.scalar _) _ (Or.inr (Or.inl (numberText_unsigned number))) hitems
  | putFloatingPoint number =>
      exact @proper_valueItems _ (.scalar _) _
        (Or.inr (Or.inl (floating.number number hclean))) hitems
  | putString str =>
      exact @proper_stringItems _ (.scalar _) _
        (Or.inr (Or.inr (stringText_quotedText hclean))) hitems
  | startList => exact @proper_valueItems _ .openList _ trivial hitems
  | startObject => exact @proper_valueItems _ .openObject _ trivial hitems
  | endList =>
      rw [Invocation.items] at hitems
      split_ifs at hitems
      obtain rfl := Option.some.inj hitems
      simp [Item.Proper]
  | endObject =>
      rw [Invocation.items] at hitems
      split_ifs at hitems
      obtain rfl := Option.some.inj hitems
      simp [Item.Proper]
  | startPairKey =>
      rw [Invocation.items] at hitems
      split_ifs at hitems
      · obtain rfl := Option.some.inj hitems
        simp
      · obtain rfl := Option.some.inj hitems
        simp [Item.Proper]
  | endPairKey =>
      rw [Invocation.items] at hitems
      split_ifs at hitems
      obtain rfl := Option.some.inj hitems
      simp [Item.Proper]
  | endPair =>
      rw [Invocation.items] at hitems
      split_ifs at hitems
      obtain rfl := Option.some.inj hitems
      simp

/-! ### Runs -/

/-- **One step.** A call that fits is sound and leads to the places behind what it writes. -/
theorem soundStep_of_fits {formatter : JSONSerializationFormatter} {places next : List Place}
    {state : State} {below : List State} {invocation : Invocation δ}
    (hstands : Stands places formatter.output) (hstack : formatter.state = state :: below)
    (hclean : invocation.items floating state ≠ none → invocation.Clean floating)
    (hplaces : placesAfter floating places state invocation = some next) :
    SoundStep floating formatter invocation ∧
      Stands next (invocation.next floating formatter).output := by
  obtain ⟨stack, output⟩ := formatter
  obtain rfl : stack = state :: below := hstack
  have hcall := @writes_call state below output _ floating invocation
  rw [placesAfter] at hplaces
  cases hitems : invocation.items floating state with
  | none =>
      rw [hitems] at hcall hplaces
      obtain ⟨error, hexec⟩ := hcall
      obtain rfl := Option.some.inj hplaces
      have hnext : invocation.next floating ⟨state :: below, output⟩ = ⟨state :: below, output⟩ :=
        congrArg Prod.snd hexec
      refine ⟨⟨Or.inr ⟨⟨error, congrArg Prod.fst hexec⟩, by rw [hnext]⟩, ?_⟩, ?_⟩
      · rw [hnext]
        exact hstands.begins
      · rw [hnext]
        exact hstands
  | some items =>
      rw [hitems] at hcall hplaces
      obtain ⟨stack, hexec⟩ := hcall
      have hnext : (invocation.next floating ⟨state :: below, output⟩).output =
          output ++ items.flatMap Item.text := by
        rw [Invocation.next, hexec]
      have hproper := proper_items floating (hclean (by simp [hitems])) hitems
      have hreached := hstands.takeAll hproper hplaces
      refine ⟨⟨Or.inl (congrArg Prod.fst hexec), ?_⟩, ?_⟩
      · rw [hnext]
        exact hreached.begins
      · rw [hnext]
        exact hreached

theorem soundRun_of_stands (calls : List (Invocation δ)) {formatter : JSONSerializationFormatter}
    {places : List Place} (hstands : Stands places formatter.output)
    (horderly : Orderly floating formatter places calls) : SoundRun floating formatter calls := by
  induction calls generalizing formatter places with
  | nil => exact trivial
  | cons invocation rest ih =>
      obtain ⟨state, below, next, hstack, hclean, hplaces, hrest⟩ := horderly
      obtain ⟨hstep, hnext⟩ := soundStep_of_fits floating hstands hstack hclean hplaces
      exact ⟨hstep, ih hnext hrest⟩

/-- **Runs.** On a fresh formatter, a run whose calls all find a state on the stack and write what
may stand where the text has come to settles every call and always leaves the beginning of a JSON
text. -/
theorem soundRun_of_orderly (calls : List (Invocation δ))
    (horderly : Orderly floating JSONSerializationFormatter.make [.document] calls) :
    SoundRun floating JSONSerializationFormatter.make calls :=
  soundRun_of_stands floating calls .document horderly

/-- Numbers without a fraction, and one that is not finite. -/
def wholeFloating : Floating (Option Nat) where
  text
    | some number => Nat.toDigits 10 number
    | none => "inf".toList
  isFinite := Option.isSome
  number value hfinite := by
    cases value with
    | none => cases hfinite
    | some number => exact numberText_of_whole (Or.inl rfl) (wholePart_toDigits number)

theorem soundRun_nested_lists :
    SoundRun wholeFloating JSONSerializationFormatter.make
      [.startList, .putFloatingPoint (some 1), .startList, .putNull, .endList, .putBoolean true,
        .endList] := by
  apply soundRun_of_orderly
  have htrivial : ∀ {p : Prop}, p → True := fun _ => trivial
  exact ⟨_, _, _, rfl, htrivial, rfl, _, _, _, rfl, fun _ => rfl, rfl, _, _, _, rfl, htrivial, rfl,
    _, _, _, rfl, htrivial, rfl, _, _, _, rfl, htrivial, rfl, _, _, _, rfl, htrivial, rfl,
    _, _, _, rfl, htrivial, rfl, trivial⟩

/-- Behind a complete scalar the stack is empty, and the next call looks at its top. -/
theorem not_soundRun_second_value :
    ¬ ∀ calls : List (Invocation (Option Nat)),
      SoundRun wholeFloating JSONSerializationFormatter.make calls := by
  intro hall
  obtain ⟨-, hsecond, -⟩ := hall [.putNull, .putNull]
  rcases hsecond.settles with hok | ⟨⟨error, herror⟩, -⟩
  · cases hok
  · cases herror

end Liblw.Mime
