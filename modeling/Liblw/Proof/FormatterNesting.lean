import Liblw.Proof.Spelling

/-!
# Which trees the formatter writes

A container pushes its state over the state of the context it stands in and never takes it off
again: `end_list` and `end_object` only mark the top as holding a value. What is left on top after
a nested container is therefore that container's state, not its context's. Inside a context of the
same kind the two look alike and the formatter goes on correctly; inside the other kind the next
call finds the wrong top and throws.
-/

namespace Liblw.Mime

open Lib JSONSerializationFormatter

/-! ### The text of the scalars -/

theorem charText_eq_escape (c : Char) : charText c = escape c := by
  unfold charText escape
  split_ifs with hquote hbackspace hformfeed hnewline hreturn htab
  · rcases hquote with rfl | rfl | rfl <;> rfl
  · subst hbackspace; rfl
  · subst hformfeed; rfl
  · subst hnewline; rfl
  · subst hreturn; rfl
  · subst htab; rfl
  · push Not at hquote
    split <;> simp_all

theorem unsignedText_eq (number : UInt64) : unsignedText number = integerText number.toNat :=
  (integerText_ofNat _).symm

theorem signedText_eq (number : Int64) : signedText number = integerText number.toInt := by
  unfold signedText
  cases hnumber : number.toInt with
  | ofNat magnitude =>
      have hnonneg : ¬ Int.ofNat magnitude < 0 := by simp
      rw [if_neg hnonneg]
      exact (integerText_ofNat magnitude).symm
  | negSucc magnitude =>
      rw [if_pos (Int.negSucc_lt_zero magnitude), integerText_negSucc]
      rfl

/-! ### One call of the formatter -/

/-- The states in which the formatter takes a value. -/
def JSONSerializationFormatter.State.accepts : State → Bool
  | .value | .list | .listValue | .keyEnded => true
  | _ => false

def JSONSerializationFormatter.State.separator : State → Text
  | .listValue | .objectValue => [',']
  | _ => []

/-- The stack after a scalar has been written under the given top. -/
def afterScalar : State → List State → List State
  | .value, rest => rest
  | .keyEnded, rest => rest
  | _, rest => .listValue :: rest

section Calls

variable {state : State} {rest : List State} {output : Text}

@[simp]
theorem exec_write (text : Text) (formatter : JSONSerializationFormatter) :
    (JSONSerializationFormatter.write text).exec formatter =
      (.ok (), { formatter with output := formatter.output ++ text }) := rfl

@[simp]
theorem exec_top : JSONSerializationFormatter.top.exec ⟨state :: rest, output⟩ =
    (.ok state, ⟨state :: rest, output⟩) := rfl

@[simp]
theorem exec_push (formatter : JSONSerializationFormatter) : (push state).exec formatter =
    (.ok (), { formatter with state := state :: formatter.state }) := rfl

@[simp]
theorem exec_pop : pop.exec ⟨state :: rest, output⟩ = (.ok (), ⟨rest, output⟩) := rfl

attribute [local simp] Call.exec_bind maybeComma checkCanAddValue checkCanAddString valueAdded
  stringAdded State.accepts State.separator afterScalar

theorem exec_addLiteral (text : Text) (haccepts : state.accepts = true) :
    (addLiteral text).exec ⟨state :: rest, output⟩ =
      (.ok (), ⟨afterScalar state rest, output ++ state.separator ++ text⟩) := by
  cases state <;> simp_all [addLiteral]

theorem exec_putChars (str : Text) (formatter : JSONSerializationFormatter) :
    (forM str fun c => JSONSerializationFormatter.write (charText c) : FormatCall PUnit).exec
        formatter =
      (.ok ⟨⟩, { formatter with output := formatter.output ++ str.flatMap escape }) := by
  induction str generalizing formatter with
  | nil => simp
  | cons c str ih =>
      have hhead : (JSONSerializationFormatter.write (charText c)).exec formatter =
          (.ok ⟨⟩, { formatter with output := formatter.output ++ escape c }) := by
        simp [charText_eq_escape]
      rw [List.forM_cons, Call.exec_bind_ok hhead, ih]
      simp

theorem exec_putString (str : Text) (haccepts : state.accepts = true) :
    (putString str).exec ⟨state :: rest, output⟩ =
      (.ok (), ⟨afterScalar state rest, output ++ state.separator ++ stringLiteral str⟩) := by
  cases state <;> simp_all [putString, exec_putChars, literalIn]

theorem exec_putString_key (str : Text) :
    (putString str).exec ⟨.keyStarted :: rest, output⟩ =
      (.ok (), ⟨.keyAdded :: rest, output ++ stringLiteral str⟩) := by
  simp [putString, exec_putChars, literalIn]

theorem exec_startList (haccepts : state.accepts = true) :
    startList.exec ⟨state :: rest, output⟩ =
      (.ok (), ⟨.list :: state :: rest, output ++ state.separator ++ ['[']⟩) := by
  cases state <;> simp_all [startList]

theorem exec_startObject (haccepts : state.accepts = true) :
    startObject.exec ⟨state :: rest, output⟩ =
      (.ok (), ⟨.object :: state :: rest, output ++ state.separator ++ ['{']⟩) := by
  cases state <;> simp_all [startObject]

theorem exec_endList (hstate : state = .list ∨ state = .listValue) :
    endList.exec ⟨state :: rest, output⟩ =
      (.ok (), ⟨.listValue :: rest, output ++ [']']⟩) := by
  rcases hstate with rfl | rfl <;> simp [endList]

theorem exec_endObject (hstate : state = .object ∨ state = .objectValue) :
    endObject.exec ⟨state :: rest, output⟩ =
      (.ok (), ⟨.objectValue :: rest, output ++ ['}']⟩) := by
  rcases hstate with rfl | rfl <;> simp [endObject]

/-- The calls that bring the formatter from an object to the value of its next member. -/
theorem exec_key (key : Text) (next : FormatCall Unit)
    (hstate : state = .object ∨ state = .objectValue) :
    (do startPairKey; putString key; endPairKey; next : FormatCall Unit).exec
        ⟨state :: rest, output⟩ =
      next.exec ⟨.keyEnded :: state :: rest,
        output ++ state.separator ++ stringLiteral key ++ [':']⟩ := by
  have hstart : startPairKey.exec ⟨state :: rest, output⟩ =
      (.ok (), ⟨.keyStarted :: state :: rest, output ++ state.separator⟩) := by
    rcases hstate with rfl | rfl <;> simp [startPairKey]
  rw [Call.exec_bind_ok hstart, Call.exec_bind_ok (exec_putString_key key)]
  simp [endPairKey]

theorem exec_endPair (hstate : state = .object ∨ state = .objectValue) :
    endPair.exec ⟨state :: rest, output⟩ = (.ok (), ⟨.objectValue :: rest, output⟩) := by
  rcases hstate with rfl | rfl <;> simp [endPair]

theorem endList_fails_of_objectValue : endList.Fails ⟨.objectValue :: rest, output⟩ := by
  simp [Call.Fails, endList]

theorem endPair_fails_of_listValue : endPair.Fails ⟨.listValue :: rest, output⟩ := by
  simp [Call.Fails, endPair]

/-- On top of a finished object the formatter takes no value of any kind. -/
theorem write_fails_of_objectValue (value : Value) :
    (Serializer.write value).Fails ⟨.objectValue :: rest, output⟩ := by
  cases value <;>
    simp [Call.Fails, Serializer.write, putNull, putBoolean, putSignedInteger, putUnsignedInteger,
      addLiteral, putString, startList, startObject]

end Calls

/-! ### Trees of one kind of container -/

/-- What is on the stack after a value: a container leaves its own state on top, a scalar changes
only the state it was written under. -/
def AfterValue (value : Value) (state : State) (rest stack : List State) : Prop :=
  match value with
  | .list _ => ∃ below, stack = .listValue :: below
  | .object _ => ∃ below, stack = .objectValue :: below
  | _ => stack = afterScalar state rest

theorem AfterValue.in_list {value : Value} {state : State} {rest stack : List State}
    (hafter : AfterValue value state rest stack) (hobject : value.isObject = false)
    (hstate : state = .list ∨ state = .listValue) : ∃ below, stack = .listValue :: below := by
  cases value with
  | list elements => exact hafter
  | object members => cases hobject
  | _ =>
      rcases hstate with rfl | rfl <;> exact ⟨rest, hafter⟩

theorem AfterValue.in_pair {value : Value} {state : State} {rest stack : List State}
    (hafter : AfterValue value .keyEnded (state :: rest) stack) (hlist : value.isList = false)
    (hstate : state = .object ∨ state = .objectValue) :
    ∃ next below, stack = next :: below ∧ (next = .object ∨ next = .objectValue) := by
  cases value with
  | list elements => cases hlist
  | object members =>
      obtain ⟨below, hstack⟩ := hafter
      exact ⟨.objectValue, below, hstack, Or.inr rfl⟩
  | _ => exact ⟨state, rest, hafter, hstate⟩

/-- The texts of the elements or members that follow one another from the given top on: the first
is separated only from what stands before it. -/
def joinedAfter (state : State) : List Text → Text
  | [] => []
  | first :: rest => state.separator ++ first ++ rest.flatMap (',' :: ·)

theorem commaSeparated_eq_joinedAfter (state : State) (hstate : state.separator = [])
    (parts : List Text) : commaSeparated parts = joinedAfter state parts := by
  cases parts with
  | nil => rfl
  | cons first rest => rw [commaSeparated_cons, joinedAfter, hstate, List.nil_append]

theorem joinedAfter_cons {state : State} (next : State) (hnext : next.separator = [','])
    (first : Text) (rest : List Text) :
    joinedAfter state (first :: rest) = state.separator ++ first ++ joinedAfter next rest := by
  cases rest with
  | nil => simp [joinedAfter]
  | cons second rest => simp [joinedAfter, hnext]

mutual

theorem write_unmixed (value : Value) (hunmixed : value.unmixed = true) (state : State)
    (rest : List State) (output : Text) (haccepts : state.accepts = true) :
    ∃ stack, (Serializer.write value).exec ⟨state :: rest, output⟩ =
        (.ok (), ⟨stack, output ++ state.separator ++ render value⟩) ∧
      AfterValue value state rest stack := by
  cases value with
  | null => exact ⟨_, exec_addLiteral _ haccepts, rfl⟩
  | boolean value =>
      refine ⟨_, ?_, rfl⟩
      rw [Serializer.write, putBoolean, exec_addLiteral _ haccepts]
      cases value <;> rfl
  | signed number =>
      refine ⟨_, ?_, rfl⟩
      rw [render, renderIn, ← signedText_eq]
      exact exec_addLiteral _ haccepts
  | unsigned number =>
      refine ⟨_, ?_, rfl⟩
      rw [render, renderIn, ← unsignedText_eq]
      exact exec_addLiteral _ haccepts
  | string str => exact ⟨_, exec_putString str haccepts, rfl⟩
  | list elements =>
      rw [Serializer.write, Call.exec_bind_ok (exec_startList haccepts)]
      obtain ⟨next, below, hexec, hnext⟩ :=
        serializeList_unmixed elements hunmixed .list (state :: rest)
          (output ++ state.separator ++ ['[']) (Or.inl rfl)
      rw [Call.exec_bind_ok hexec, exec_endList hnext]
      refine ⟨_, ?_, below, rfl⟩
      simp [renderIn, commaSeparated_eq_joinedAfter .list rfl]
  | object members =>
      rw [Serializer.write, Call.exec_bind_ok (exec_startObject haccepts)]
      obtain ⟨next, below, hexec, hnext⟩ :=
        serializeObject_unmixed members hunmixed .object (state :: rest)
          (output ++ state.separator ++ ['{']) (Or.inl rfl)
      rw [Call.exec_bind_ok hexec, exec_endObject hnext]
      refine ⟨_, ?_, below, rfl⟩
      simp [renderIn, commaSeparated_eq_joinedAfter .object rfl]

theorem serializeList_unmixed (elements : List Value) (hunmixed : unmixedElements elements = true)
    (state : State) (rest : List State) (output : Text)
    (hstate : state = .list ∨ state = .listValue) :
    ∃ next below, (Serializer.serializeList elements).exec ⟨state :: rest, output⟩ =
        (.ok (), ⟨next :: below, output ++ joinedAfter state (renderElements elements)⟩) ∧
      (next = .list ∨ next = .listValue) := by
  cases elements with
  | nil =>
      exact ⟨state, rest, by simp [Serializer.serializeList, renderElementsIn, joinedAfter], hstate⟩
  | cons value elements =>
      simp only [unmixedElements, Bool.and_eq_true, Bool.not_eq_true'] at hunmixed
      obtain ⟨⟨hobject, hvalue⟩, helements⟩ := hunmixed
      have haccepts : state.accepts = true := by rcases hstate with rfl | rfl <;> rfl
      obtain ⟨stack, hexec, hafter⟩ := write_unmixed value hvalue state rest output haccepts
      obtain ⟨below, rfl⟩ := hafter.in_list hobject hstate
      obtain ⟨next, final, htail, hnext⟩ :=
        serializeList_unmixed elements helements .listValue below
        (output ++ state.separator ++ render value) (Or.inr rfl)
      refine ⟨next, final, ?_, hnext⟩
      rw [Serializer.serializeList, Call.exec_bind_ok hexec, htail, renderElements_cons,
        joinedAfter_cons .listValue rfl]
      simp

theorem serializeObject_unmixed (members : List (Text × Value))
    (hunmixed : unmixedMembers members = true) (state : State) (rest : List State) (output : Text)
    (hstate : state = .object ∨ state = .objectValue) :
    ∃ next below, (Serializer.serializeObject members).exec ⟨state :: rest, output⟩ =
        (.ok (), ⟨next :: below, output ++ joinedAfter state (renderMembers members)⟩) ∧
      (next = .object ∨ next = .objectValue) := by
  cases members with
  | nil =>
      exact ⟨state, rest,
        by simp [Serializer.serializeObject, renderMembersIn, joinedAfter], hstate⟩
  | cons member members =>
      obtain ⟨key, value⟩ := member
      simp only [unmixedMembers, Bool.and_eq_true, Bool.not_eq_true'] at hunmixed
      obtain ⟨⟨hlist, hvalue⟩, hmembers⟩ := hunmixed
      obtain ⟨stack, hexec, hafter⟩ := write_unmixed value hvalue .keyEnded (state :: rest)
        (output ++ state.separator ++ stringLiteral key ++ [':']) rfl
      obtain ⟨between, below, rfl, hbetween⟩ := hafter.in_pair hlist hstate
      obtain ⟨next, final, htail, hnext⟩ :=
        serializeObject_unmixed members hmembers .objectValue below
        (output ++ state.separator ++ stringLiteral key ++ [':'] ++ render value) (Or.inr rfl)
      refine ⟨next, final, ?_, hnext⟩
      rw [show State.keyEnded.separator = [] from rfl, List.append_nil] at hexec
      rw [Serializer.serializeObject, exec_key key _ hstate, Call.exec_bind_ok hexec,
        Call.exec_bind_ok (exec_endPair hbetween), htail, renderMembers_cons,
        joinedAfter_cons .objectValue rfl]
      simp

end

/-! ### Trees that mix the kinds -/

mutual

theorem write_mixed (value : Value) (hmixed : value.unmixed = false) (state : State)
    (rest : List State) (output : Text) (haccepts : state.accepts = true) :
    (Serializer.write value).Fails ⟨state :: rest, output⟩ := by
  cases value with
  | list elements =>
      rw [Serializer.write]
      exact Call.fails_bind_right (exec_startList haccepts)
        (serializeList_mixed elements hmixed .list _ _ (Or.inl rfl))
  | object members =>
      rw [Serializer.write]
      exact Call.fails_bind_right (exec_startObject haccepts)
        (Call.fails_bind_left (serializeObject_mixed members hmixed .object _ _ (Or.inl rfl)))
  | _ => cases hmixed

/-- An object that is the last element is noticed only by the `end_list` that follows it, so the
two calls are taken together. -/
theorem serializeList_mixed (elements : List Value) (hmixed : unmixedElements elements = false)
    (state : State) (rest : List State) (output : Text)
    (hstate : state = .list ∨ state = .listValue) :
    (do Serializer.serializeList elements; endList : FormatCall Unit).Fails
      ⟨state :: rest, output⟩ := by
  cases elements with
  | nil => cases hmixed
  | cons value elements =>
      have haccepts : state.accepts = true := by rcases hstate with rfl | rfl <;> rfl
      rw [Serializer.serializeList, bind_assoc]
      cases hvalue : value.unmixed with
      | false => exact Call.fails_bind_left (write_mixed value hvalue state rest output haccepts)
      | true =>
          obtain ⟨stack, hexec, hafter⟩ := write_unmixed value hvalue state rest output haccepts
          refine Call.fails_bind_right hexec ?_
          cases hobject : value.isObject with
          | true =>
              cases value with
              | object members =>
                  obtain ⟨below, rfl⟩ := hafter
                  cases elements with
                  | nil => exact endList_fails_of_objectValue
                  | cons next elements =>
                      rw [Serializer.serializeList, bind_assoc]
                      exact Call.fails_bind_left (write_fails_of_objectValue next)
              | _ => cases hobject
          | false =>
              obtain ⟨below, rfl⟩ := hafter.in_list hobject hstate
              have hrest : unmixedElements elements = false := by
                simpa [unmixedElements, hobject, hvalue] using hmixed
              exact serializeList_mixed elements hrest .listValue below _ (Or.inr rfl)

theorem serializeObject_mixed (members : List (Text × Value))
    (hmixed : unmixedMembers members = false) (state : State) (rest : List State) (output : Text)
    (hstate : state = .object ∨ state = .objectValue) :
    (Serializer.serializeObject members).Fails ⟨state :: rest, output⟩ := by
  cases members with
  | nil => cases hmixed
  | cons member members =>
      obtain ⟨key, value⟩ := member
      rw [Serializer.serializeObject, Call.Fails]
      simp only [exec_key key _ hstate]
      change Call.Fails _ _
      cases hvalue : value.unmixed with
      | false => exact Call.fails_bind_left (write_mixed value hvalue .keyEnded _ _ rfl)
      | true =>
          obtain ⟨stack, hexec, hafter⟩ := write_unmixed value hvalue .keyEnded (state :: rest)
            (output ++ state.separator ++ stringLiteral key ++ [':']) rfl
          refine Call.fails_bind_right hexec ?_
          cases hlist : value.isList with
          | true =>
              cases value with
              | list elements =>
                  obtain ⟨below, rfl⟩ := hafter
                  exact Call.fails_bind_left endPair_fails_of_listValue
              | _ => cases hlist
          | false =>
              obtain ⟨between, below, rfl, hbetween⟩ := hafter.in_pair hlist hstate
              have hrest : unmixedMembers members = false := by
                simpa [unmixedMembers, hlist, hvalue] using hmixed
              exact Call.fails_bind_right (exec_endPair hbetween)
                (serializeObject_mixed members hrest .objectValue below _ (Or.inr rfl))

end

/-! ### The formatter as a whole -/

/-- Serialising the value with a fresh formatter throws nothing and writes exactly its JSON text. -/
def Writes (value : Value) : Prop :=
  ∃ final, (Serializer.write value).exec JSONSerializationFormatter.make = (.ok (), final) ∧
    final.output = jsonText value

/-- **The formatter writes exactly the unmixed trees in whose strings and keys no bare control
character stands.** It throws on every mixed tree, and a bare control character it writes as it
is. -/
theorem writes_iff_unmixed (value : Value) :
    Writes value ↔ value.unmixed = true ∧ ∀ c ∈ value.characters, isBareControl c = false := by
  constructor
  · rintro ⟨final, hexec, htext⟩
    cases hunmixed : value.unmixed with
    | false =>
        exact absurd (write_mixed value hunmixed .value [] [] rfl) (Call.not_fails_of_ok hexec)
    | true =>
        obtain ⟨stack, hwritten, -⟩ := write_unmixed value hunmixed .value [] [] rfl
        rw [JSONSerializationFormatter.make, hwritten] at hexec
        cases hexec
        exact ⟨rfl, bareless_of_render_eq (by simpa [State.separator] using htext)⟩
  · rintro ⟨hunmixed, hcharacters⟩
    obtain ⟨stack, hexec, -⟩ := write_unmixed value hunmixed .value [] [] rfl
    exact ⟨_, hexec, by simp [State.separator, render_eq_jsonText hcharacters]⟩

/-- A list that holds one empty object is not written: `end_list` finds the object's state. -/
theorem not_writes_object_in_list : ¬ Writes (.list [.object []]) := by
  rintro ⟨final, hexec, -⟩
  have hthrows : (Serializer.write (.list [.object []])).exec JSONSerializationFormatter.make =
      (.error (.thrown ⟨.failedPrecondition, "Unexpected end of list while formatting JSON."⟩),
        ⟨[.objectValue, .list, .value], "[\x7b\x7d".toList⟩) := by rfl
  rw [hthrows] at hexec
  cases hexec

end Liblw.Mime
