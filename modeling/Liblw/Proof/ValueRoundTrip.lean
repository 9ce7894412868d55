import Mathlib.Algebra.Order.BigOperators.Group.List
import Liblw.Proof.ValueText

/-!
# Trees there and back

`listRoundTrip` without its restrictions. The members of an object are kept under their keys as they
are spelled, so the token finds them again exactly if every key is spelled as itself: escapes only
make a key longer, and the keys of an object cannot all be found among longer ones.
-/

namespace Liblw.Mime

open Lib JSONParse

/-! ### Plain keys -/

/-- Where what `f` makes of the elements covers them, and `f` makes none smaller, it keeps the size
of each. -/
theorem size_eq_of_subset_map {α : Type} {f : α → α} {size : α → Nat}
    (hgrows : ∀ a, size a ≤ size (f a)) {list : List α} (hnodup : list.Nodup)
    (hsubset : list ⊆ list.map f) : ∀ a ∈ list, size (f a) = size a := by
  have hperm : list.Perm (list.map f) :=
    (hnodup.subperm hsubset).perm_of_length_le (by rw [List.length_map])
  have hsum : (list.map size).sum = (list.map fun a => size (f a)).sum := by
    have hsizes := (hperm.map size).sum_eq
    rwa [List.map_map] at hsizes
  intro a ha
  by_contra hne
  have hlt : size a < size (f a) := lt_of_le_of_ne (hgrows a) (Ne.symm hne)
  exact absurd hsum (ne_of_lt (List.sum_lt_sum size _ (fun b _ => hgrows b) ⟨a, ha, hlt⟩))

theorem length_escape_pos (c : Char) : 1 ≤ (escape c).length := by
  unfold escape
  split <;> simp

theorem escape_of_length {c : Char} (hlength : (escape c).length = 1) : escape c = [c] := by
  unfold escape at hlength ⊢
  split at hlength
  · cases hlength
  · cases hlength
  · cases hlength
  · cases hlength
  · cases hlength
  · cases hlength
  · cases hlength
  · cases hlength
  · rfl

theorem length_le_flatMap_escape (str : Text) : str.length ≤ (str.flatMap escape).length := by
  induction str with
  | nil => rfl
  | cons c str ih =>
      have hc := length_escape_pos c
      rw [List.flatMap_cons, List.length_append, List.length_cons]
      omega

theorem escape_of_length_flatMap {str : Text}
    (hlength : (str.flatMap escape).length = str.length) : ∀ c ∈ str, escape c = [c] := by
  induction str with
  | nil => exact nofun
  | cons c str ih =>
      have hc := length_escape_pos c
      have hstr := length_le_flatMap_escape str
      rw [List.flatMap_cons, List.length_append, List.length_cons] at hlength
      exact List.forall_mem_cons.mpr ⟨escape_of_length (by omega), ih (by omega)⟩

theorem flatMap_escape_eq_self {str : Text} (hplain : ∀ c ∈ str, escape c = [c]) :
    str.flatMap escape = str := by
  rw [List.flatMap_congr hplain, List.flatMap_singleton']

theorem stringLiteral_injective : Function.Injective stringLiteral := by
  intro first second heq
  rw [← decodeString_stringLiteral first, heq, decodeString_stringLiteral]

theorem flatMap_escape_injective : Function.Injective fun str : Text => str.flatMap escape := by
  intro first second heq
  apply stringLiteral_injective
  have heq : first.flatMap escape = second.flatMap escape := heq
  rw [stringLiteral, stringLiteral, literalIn, literalIn, heq]

theorem distinctKeys_iff (keys : List Text) :
    DistinctKeys (keys.map stringLiteral) ↔ keys.Nodup := by
  have hunquoted : (keys.map stringLiteral).map unquoted =
      keys.map fun key => key.flatMap escape := by
    rw [List.map_map]
    exact List.map_congr_left fun key _ => unquoted_stringLiteral key
  rw [DistinctKeys, hunquoted, List.nodup_map_iff flatMap_escape_injective]

theorem plainKeys_of_mem {keys : List Text} (hnodup : keys.Nodup)
    (hfound : ∀ key ∈ keys, key ∈ keys.map fun key => key.flatMap escape) : PlainKeys keys := by
  refine ⟨hnodup, fun key hkey => escape_of_length_flatMap ?_⟩
  exact size_eq_of_subset_map length_le_flatMap_escape hnodup hfound key hkey

/-! ### The token of a tree -/

theorem dot_notMem_of_wholePart {whole : Text} (hwhole : WholePart whole) : '.' ∉ whole := by
  rcases hwhole with rfl | ⟨hdigits, -⟩
  · decide
  · intro hmem
    exact absurd (hdigits.2 '.' hmem) (by decide)

theorem scalarType_integerText (number : Int) : scalarType (integerText number) = .integer := by
  obtain ⟨sign, whole, hsign, hwhole, htext⟩ := exists_integerText number
  have hnumeral := numeral_of_parts hwhole (Or.inl rfl)
  rw [List.append_nil] at hnumeral
  rw [htext, scalarType_number hsign hnumeral, if_neg (dot_notMem_of_wholePart hwhole)]

theorem token_signed (number : Int64) :
    (Value.signed number).document.token = tokenOf (.signed number) := by
  have htype := scalarType_integerText number.toInt
  simp only [Value.document, Document.token, scalarToken, render, renderIn, htype, tokenOf]

theorem token_unsigned (number : UInt64) :
    (Value.unsigned number).document.token = tokenOf (.unsigned number) := by
  have htype := scalarType_integerText number.toNat
  simp only [Value.document, Document.token, scalarToken, render, renderIn, htype, tokenOf]

theorem conveys_string (str : Text) :
    Conveys (Value.string str).document.token (.string str) := by
  refine ⟨rfl, ?_⟩
  change Except.ok (decodeString (stringLiteral str)) = _
  rw [decodeString_stringLiteral]

theorem length_elementDocuments (elements : List Value) :
    (elementDocuments elements).length = elements.length := by
  induction elements with
  | nil => rfl
  | cons value rest ih => rw [elementDocuments, List.length_cons, ih, List.length_cons]

theorem memberTokens_fst (members : List (Text × Value)) :
    (Document.memberTokens (memberDocuments members)).map Prod.fst =
      (members.map Prod.fst).map fun key => key.flatMap escape := by
  induction members with
  | nil => rfl
  | cons member rest ih =>
      obtain ⟨key, value⟩ := member
      rw [memberDocuments, Document.memberTokens, List.map_cons, ih, unquoted_stringLiteral]
      rfl

theorem mem_memberTokens {members : List (Text × Value)} {key : Text} {value : Value}
    (hmem : (key, value) ∈ members) :
    (key.flatMap escape, value.document.token) ∈
      Document.memberTokens (memberDocuments members) := by
  induction members with
  | nil => cases hmem
  | cons member rest ih =>
      obtain ⟨name, other⟩ := member
      rw [memberDocuments, Document.memberTokens, unquoted_stringLiteral]
      rcases List.mem_cons.mp hmem with heq | hmem
      · cases heq
        exact List.mem_cons_self
      · exact List.mem_cons_of_mem _ (ih hmem)

theorem getKey_eq_ok_iff {elements : List (Text × DeserializationToken)} {key : Text}
    {element : DeserializationToken} :
    (DeserializationToken.object elements).getKey key = .ok element ↔
      elements.lookup key = some element := by
  cases hlookup : elements.lookup key with
  | none => simp [DeserializationToken.getKey, hlookup, raise]
  | some found => simp [DeserializationToken.getKey, hlookup]

/-- A member whose key is spelled as itself is found under it. -/
theorem lookup_memberTokens {members : List (Text × Value)}
    (hplain : PlainKeys (members.map Prod.fst)) {key : Text} {value : Value}
    (hmem : (key, value) ∈ members) :
    (Document.memberTokens (memberDocuments members)).lookup key = some value.document.token := by
  obtain ⟨hnodup, hescape⟩ := hplain
  have hkey : key.flatMap escape = key :=
    flatMap_escape_eq_self (hescape key (List.mem_map_of_mem (f := Prod.fst) hmem))
  have hfresh : ((Document.memberTokens (memberDocuments members)).map Prod.fst).Nodup := by
    rw [memberTokens_fst]
    exact hnodup.map flatMap_escape_injective
  refine lookup_of_mem hfresh ?_
  have hdocument := mem_memberTokens hmem
  rwa [hkey] at hdocument

theorem found_of_conveysMembers {elements : List (Text × DeserializationToken)}
    {members : List (Text × Value)} (hconveys : ConveysMembers (.object elements) members) :
    ∀ key ∈ members.map Prod.fst, key ∈ elements.map Prod.fst := by
  induction members with
  | nil => exact nofun
  | cons member rest ih =>
      obtain ⟨⟨element, hget, -⟩, hrest⟩ := hconveys
      refine List.forall_mem_cons.mpr ⟨?_, ih hrest⟩
      rw [← lookup_isSome_iff, getKey_eq_ok_iff.mp hget]
      rfl

mutual

/-- The token of a tree holds the tree exactly if all keys stand for themselves. -/
theorem conveys_document (value : Value) (hkeys : value.document.Every DistinctKeys) :
    Conveys value.document.token value ↔ value.Every (fun _ => True) PlainKeys := by
  cases value with
  | null => exact iff_of_true rfl trivial
  | boolean value => cases value <;> exact iff_of_true ⟨rfl, rfl⟩ trivial
  | signed number =>
      rw [token_signed]
      exact iff_of_true (represents_tokenOf (.signed number) rfl) trivial
  | unsigned number =>
      rw [token_unsigned]
      exact iff_of_true (represents_tokenOf (.unsigned number) rfl) trivial
  | string str => exact iff_of_true (conveys_string str) trivial
  | list elements =>
      have hfrom := conveysFrom_tokens elements hkeys []
      rw [List.nil_append] at hfrom
      have hsize : (Document.tokens (elementDocuments elements)).length = elements.length := by
        rw [Document.tokens_eq_map, List.length_map, length_elementDocuments]
      refine Iff.trans ⟨fun hconveys => hconveys.2.2, fun hconveys => ⟨rfl, ?_, hconveys⟩⟩ hfrom
      rw [Value.document, Document.token, DeserializationToken.size, hsize]
  | object members =>
      have hnodup : (members.map Prod.fst).Nodup := by
        have hdistinct := hkeys.1
        rwa [memberDocuments_fst, distinctKeys_iff] at hdistinct
      have hmembers : PlainKeys (members.map Prod.fst) →
          (ConveysMembers (Value.object members).document.token members ↔
            EveryMember (fun _ => True) PlainKeys members) := fun hplain =>
        conveysMembers_lookup members hkeys.2 fun member hmem => lookup_memberTokens hplain hmem
      have hsize : (Document.memberTokens (memberDocuments members)).length = members.length := by
        have hlength := congrArg List.length (memberTokens_fst members)
        simpa only [List.length_map] using hlength
      constructor
      · rintro ⟨-, -, hconveys⟩
        have hplain : PlainKeys (members.map Prod.fst) := by
          refine plainKeys_of_mem hnodup ?_
          rw [← memberTokens_fst]
          exact found_of_conveysMembers hconveys
        exact ⟨hplain, (hmembers hplain).mp hconveys⟩
      · rintro ⟨hplain, hevery⟩
        refine ⟨rfl, ?_, (hmembers hplain).mpr hevery⟩
        rw [Value.document, Document.token, DeserializationToken.size, hsize]

theorem conveysFrom_tokens (elements : List Value)
    (hkeys : Document.EveryElement DistinctKeys (elementDocuments elements))
    (before : List DeserializationToken) :
    ConveysFrom (.list (before ++ Document.tokens (elementDocuments elements))) before.length
        elements ↔ EveryElement (fun _ => True) PlainKeys elements := by
  cases elements with
  | nil =>
      refine iff_of_true ?_ trivial
      simp [ConveysFrom, elementDocuments, Document.tokens, DeserializationToken.hasIndex]
  | cons value rest =>
      have hvalue := conveys_document value hkeys.1
      have hrest := conveysFrom_tokens rest hkeys.2 (before ++ [value.document.token])
      rw [List.append_assoc, List.singleton_append, List.length_append, List.length_singleton]
        at hrest
      have hget : (DeserializationToken.list (before ++ value.document.token ::
          Document.tokens (elementDocuments rest))).getIndex before.length =
            .ok value.document.token := by
        simp [DeserializationToken.getIndex]
      rw [elementDocuments, Document.tokens, ConveysFrom, EveryElement, hrest, ← hvalue, hget]
      simp

/-- The members, looked up in an object that has all of them under their keys. -/
theorem conveysMembers_lookup (members : List (Text × Value))
    (hkeys : Document.EveryMember DistinctKeys (memberDocuments members))
    {elements : List (Text × DeserializationToken)}
    (hlookup : ∀ member ∈ members, elements.lookup member.1 = some member.2.document.token) :
    ConveysMembers (.object elements) members ↔
      EveryMember (fun _ => True) PlainKeys members := by
  cases members with
  | nil => exact Iff.rfl
  | cons member rest =>
      obtain ⟨key, value⟩ := member
      have hvalue := conveys_document value hkeys.1
      have hrest := conveysMembers_lookup rest hkeys.2 fun other hmem =>
        hlookup other (List.mem_cons_of_mem _ hmem)
      have hget := getKey_eq_ok_iff.mpr (hlookup (key, value) List.mem_cons_self)
      rw [ConveysMembers, EveryMember, hrest, ← hvalue, hget]
      simp

end

/-! ### The round trip -/

theorem unquoted_of_plain {key : Text} (hplain : ∀ c ∈ key, escape c = [c]) : Unquoted key := by
  intro hmem
  exact absurd (hplain '"' hmem) (by decide)

/-- What the scanners, the keys of the parser and the accessors ask of a tree. -/
theorem every_unquoted_plain (value : Value) : value.Every Unquoted PlainKeys ↔
    ScannableItems value.document.bare ∧ value.document.Every DistinctKeys ∧
      value.Every (fun _ => True) PlainKeys := by
  have hkeys : ∀ keys, PlainKeys keys ↔
      UnquotedKeys keys ∧ DistinctKeys (keys.map stringLiteral) ∧ PlainKeys keys := by
    intro keys
    rw [distinctKeys_iff]
    exact ⟨fun hplain => ⟨fun key hkey => unquoted_of_plain (hplain.2 key hkey), hplain.1, hplain⟩,
      fun h => h.2.2⟩
  rw [scannable_document, every_document, Value.every_and, Value.every_and]
  exact Value.every_congr (fun str => by simp) hkeys value

/-- **Every tree there and back.** A tree that the serializer writes is read back as itself exactly
if no string of it has a quotation mark, no two keys of an object are alike, no character of a key
is escaped, and the tree is not a keyword alone. -/
theorem roundTrips_iff (value : Value) : RoundTrips value ↔
    value.unmixed = true ∧ value.Every Unquoted PlainKeys ∧ value.isKeyword = false := by
  have hwritten : value.unmixed = true → ∃ stack,
      (Serializer.write value).exec JSONSerializationFormatter.make =
        (.ok (), ⟨stack, render value⟩) := by
    intro hunmixed
    obtain ⟨stack, hexec, -⟩ := write_unmixed value hunmixed .value [] [] rfl
    exact ⟨stack, hexec⟩
  constructor
  · rintro ⟨final, token, hexec, hparse, hconveys⟩
    have hunmixed : value.unmixed = true := by
      by_contra hmixed
      exact Call.not_fails_of_ok hexec
        (write_mixed value (eq_false_of_ne_true hmixed) .value [] [] rfl)
    obtain ⟨stack, hwrite⟩ := hwritten hunmixed
    obtain rfl := (Prod.mk.inj (hexec.symm.trans hwrite)).2
    obtain ⟨rfl, hscannable, hkeys, hgoesOn⟩ := (parse_render_iff value token).mp hparse
    have hplain := (conveys_document value hkeys).mp hconveys
    exact ⟨hunmixed, (every_unquoted_plain value).mpr ⟨hscannable, hkeys, hplain⟩, hgoesOn⟩
  · rintro ⟨hunmixed, hevery, hgoesOn⟩
    obtain ⟨hscannable, hkeys, hplain⟩ := (every_unquoted_plain value).mp hevery
    obtain ⟨stack, hwrite⟩ := hwritten hunmixed
    exact ⟨_, value.document.token, hwrite,
      (parse_render_iff value _).mpr ⟨rfl, hscannable, hkeys, hgoesOn⟩,
      (conveys_document value hkeys).mpr hplain⟩

end Liblw.Mime
