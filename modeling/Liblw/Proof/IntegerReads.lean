import Liblw.Mime.SerializedValue
import Liblw.Proof.ObjectKeys

/-!
# Integers that are read as a type

The text of an integer token is a sign and digits, which the token answers with as they are or
refuses. What is converted is the same number exactly if the type has it.
-/

namespace Liblw.Mime

/-! ### The conversion -/

namespace IntegralType

variable {T : IntegralType} {number : Int}

theorem holds_signed (hsigned : T.signed = true) :
    T.Holds number ↔ -2 ^ (T.width - 1) ≤ number ∧ number < 2 ^ (T.width - 1) := by
  rw [Holds, if_pos hsigned]

theorem holds_unsigned (hunsigned : T.signed = false) :
    T.Holds number ↔ 0 ≤ number ∧ number < 2 ^ T.width := by
  rw [Holds, hunsigned, if_neg Bool.false_ne_true]

theorem convert_eq_self_iff (T : IntegralType) (number : Int) :
    T.convert number = number ↔ T.Holds number := by
  cases hsigned : T.signed with
  | true =>
      -- the numbers of the type are as many below zero as from zero on
      have hdouble : 2 ^ T.width = 2 * 2 ^ (T.width - 1) := by
        rw [← Nat.pow_succ', Nat.succ_eq_add_one, Nat.sub_add_cancel T.width_pos]
      have hhalf : ((2 ^ (T.width - 1) : Nat) : Int) = 2 ^ (T.width - 1) := Nat.cast_pow 2 _
      have hpos : 0 < 2 ^ (T.width - 1) := Nat.two_pow_pos _
      rw [holds_signed hsigned, convert, if_pos hsigned, hdouble, ← hhalf]
      generalize 2 ^ (T.width - 1) = half at hpos
      constructor
      · intro hsame
        have hlower := @Int.le_bmod number (2 * half) (by omega)
        have hupper := @Int.bmod_lt number (2 * half) (by omega)
        rw [hsame] at hlower hupper
        omega
      · rintro ⟨hlower, hupper⟩
        exact Int.bmod_eq_of_le_mul_two (by omega) (by omega)
  | false =>
      have hpos : (0 : Int) < 2 ^ T.width := Int.pow_pos (by decide)
      rw [holds_unsigned hsigned, convert, hsigned, if_neg Bool.false_ne_true]
      constructor
      · intro hsame
        rw [← hsame]
        exact ⟨Int.emod_nonneg number (Int.ne_of_gt hpos), Int.emod_lt_of_pos number hpos⟩
      · rintro ⟨hnonneg, hlt⟩
        exact Int.emod_eq_of_lt hnonneg hlt

end IntegralType

/-! ### The text of an integer token -/

/-- A sign and digits. -/
structure IntegerToken (scalar : JSONScalarToken) : Prop where
  type : scalar.type = .integer
  spelled : ∃ sign digits, SignPart sign ∧ IsDigits digits ∧ scalar.token = sign ++ digits

theorem mem_bare_list {documents : List Document} {document : Document} {item : Item}
    (hmem : document ∈ documents) (hitem : item ∈ document.bare) :
    item ∈ (Document.list documents).bare := by
  have hspelled : document.bare ∈ Document.spellElements List.flatten documents := by
    rw [Document.spellElements_eq_map]
    exact List.mem_map_of_mem hmem
  apply List.mem_append_left
  apply List.mem_cons_of_mem
  exact List.mem_flatten.mpr ⟨_, hspelled, hitem⟩

theorem mem_bare_object {members : List (Text × Document)} {key : Text} {document : Document}
    {item : Item} (hmem : (key, document) ∈ members) (hitem : item ∈ document.bare) :
    item ∈ (Document.object members).bare := by
  have hspelled : .scalar key :: .colon :: document.bare ∈
      Document.spellMembers List.flatten members := by
    rw [Document.spellMembers_eq_map]
    exact List.mem_map.mpr ⟨(key, document), hmem, rfl⟩
  apply List.mem_append_left
  apply List.mem_cons_of_mem
  refine List.mem_flatten.mpr ⟨_, hspelled, ?_⟩
  exact List.mem_cons_of_mem _ (List.mem_cons_of_mem _ hitem)

/-- The scalar tokens of a document are those of its scalars. -/
theorem scalar_of_within {tree token : DeserializationToken} (hwithin : Within tree token)
    {document : Document} (htree : tree = document.token) {scalar : JSONScalarToken}
    (htoken : token = .scalar scalar) :
    ∃ spelled, scalar = scalarToken spelled ∧ Item.scalar spelled ∈ document.bare := by
  induction hwithin generalizing document with
  | self tree =>
      rw [htoken] at htree
      cases document with
      | scalar text => exact ⟨text, DeserializationToken.scalar.inj htree, List.mem_singleton.2 rfl⟩
      | list elements => cases htree
      | object members => cases htree
  | element hmem hwithin ih =>
      cases document with
      | scalar text => cases htree
      | list documents =>
          obtain rfl := DeserializationToken.list.inj htree
          rw [Document.tokens_eq_map] at hmem
          obtain ⟨inner, hinner, rfl⟩ := List.mem_map.mp hmem
          obtain ⟨spelled, hscalar, hbare⟩ := ih rfl htoken
          exact ⟨spelled, hscalar, mem_bare_list hinner hbare⟩
      | object members => cases htree
  | member hmem hwithin ih =>
      cases document with
      | scalar text => cases htree
      | list documents => cases htree
      | object members =>
          obtain rfl := DeserializationToken.object.inj htree
          rw [Document.memberTokens_eq_map] at hmem
          obtain ⟨⟨name, inner⟩, hinner, hsame⟩ := List.mem_map.mp hmem
          rw [Prod.mk.injEq] at hsame
          obtain ⟨spelled, hscalar, hbare⟩ := ih hsame.2.symm htoken
          exact ⟨spelled, hscalar, mem_bare_object hinner hbare⟩

/-- A run without a dot is digits. -/
theorem isDigits_of_numeral {run : Text} (hnumeral : Numeral run)
    (hrun : ∀ c ∈ run, isNumeric c = true) (hdot : '.' ∉ run) : IsDigits run := by
  obtain ⟨c, tail, rfl, -⟩ := hnumeral.exists_cons
  refine ⟨List.cons_ne_nil c tail, fun d hd => ?_⟩
  have hne : d ≠ '.' := fun heq => hdot (heq ▸ hd)
  have hnumeric := hrun d hd
  rw [isNumeric, Bool.or_eq_true, decide_eq_true_eq] at hnumeric
  exact hnumeric.resolve_right hne

/-- An integer token that is cut from a text is a sign and digits. -/
theorem integerToken_of_cut {list : List Item} {text spelled : Text} (hcut : Cut list text)
    (hmem : Item.scalar spelled ∈ list) (htype : scalarType spelled = .integer) :
    IntegerToken (scalarToken spelled) := by
  induction hcut with
  | nil hblank => cases hmem
  | cons hspace hitem hafter ih =>
      rcases List.mem_cons.mp hmem with rfl | hmem
      · cases hitem with
        | string hquote => cases htype
        | keyword hword hnext =>
            rcases hword with rfl | rfl | rfl
            · cases htype
            · cases htype
            · cases htype
        | number hsign hnumeral hrun hafter =>
            refine ⟨htype, _, _, hsign, ?_, rfl⟩
            rw [scalarType_number hsign hnumeral] at htype
            exact isDigits_of_numeral hnumeral hrun fun hdot => by simp [hdot] at htype
      · exact ih hmem

/-! ### What the token answers -/

theorem getUnsignedInteger_of_minus {scalar : JSONScalarToken}
    (hminus : scalar.token.head? = some '-') :
    (DeserializationToken.scalar scalar).getUnsignedInteger =
      DeserializationToken.notA (.scalar scalar) "unsigned INTEGER" := by
  rw [DeserializationToken.getUnsignedInteger, if_neg]
  rw [DeserializationToken.isUnsignedInteger, hminus]
  simp

namespace IntegerToken

variable {T : IntegralType} {scalar : JSONScalarToken} (htoken : IntegerToken scalar)

include htoken

/-- Without its plus sign the text is a numeral, and with a minus sign it is no number above zero.
-/
theorem numeral :
    IsNumeral (DeserializationToken.skipPlus scalar.token) ∧
      ((scalar.token.head? = some '-' ∧ scalar.number ≤ 0) ∨
        (scalar.token.head? ≠ some '-' ∧
          IsDigits (DeserializationToken.skipPlus scalar.token))) := by
  obtain ⟨sign, digits, hsign, hdigits, hspelled⟩ := htoken.spelled
  obtain ⟨c, tail, hcons, hplus, hminus⟩ := hdigits.exists_cons
  rw [JSONScalarToken.number, hspelled]
  rcases hsign with rfl | rfl | rfl
  · have hskip : DeserializationToken.skipPlus digits = digits := by
      rw [hcons, DeserializationToken.skipPlus]
      rintro rest hsame
      exact hplus (List.cons.inj hsame).1
    rw [List.nil_append, hskip]
    refine ⟨.inl hdigits, .inr ⟨?_, hdigits⟩⟩
    rw [hcons, List.head?_cons]
    exact fun hsame => hminus (Option.some.inj hsame)
  · refine ⟨.inr ⟨digits, rfl, hdigits⟩, .inl ⟨rfl, ?_⟩⟩
    exact Int.neg_nonpos_of_nonneg (Int.natCast_nonneg _)
  · exact ⟨.inl hdigits, .inr ⟨nofun, hdigits⟩⟩

/-- The number is returned if it fits into 64 bits. -/
theorem getSignedInteger (hsigned : T.signed = true) :
    (DeserializationToken.scalar scalar).getSignedInteger =
      if T.widest.Holds scalar.number then .ok scalar.number
      else
        let text := String.ofList scalar.token
        raise .invalidArgument s!"Value {text} is too large for a 64-bit integer." := by
  have hread := @fromCharsSigned_of_isNumeral (-2 ^ 63) (2 ^ 63 - 1) _ htoken.numeral.1
  rw [← JSONScalarToken.number] at hread
  have hrange : T.widest.Holds scalar.number ↔
      -2 ^ 63 ≤ scalar.number ∧ scalar.number ≤ 2 ^ 63 - 1 := by
    rw [IntegralType.holds_signed (show T.widest.signed = true from hsigned)]
    exact and_congr_right fun _ => Int.le_sub_one_iff.symm
  rw [DeserializationToken.getSignedInteger, if_pos htoken.type, fromCharsInt64_eq, hread]
  by_cases hholds : T.widest.Holds scalar.number
  · rw [if_pos hholds, if_pos (hrange.1 hholds)]
    rfl
  · rw [if_neg hholds, if_neg (mt hrange.2 hholds)]
    rfl

theorem getUnsignedInteger (hunsigned : T.signed = false) (hminus : scalar.token.head? ≠ some '-')
    (hdigits : IsDigits (DeserializationToken.skipPlus scalar.token)) :
    (DeserializationToken.scalar scalar).getUnsignedInteger =
      if T.widest.Holds scalar.number then .ok scalar.number
      else
        let text := String.ofList scalar.token
        raise .invalidArgument s!"Value {text} is too large for an unsigned 64-bit integer." := by
  have hunsignedToken :
      (DeserializationToken.scalar scalar).isUnsignedInteger = true := by
    rw [DeserializationToken.isUnsignedInteger, htoken.type]
    simpa using hminus
  have hnumber : scalar.number =
      (Nat.ofDigitChars 10 (DeserializationToken.skipPlus scalar.token) 0 : Int) :=
    numeralValue_of_isDigits hdigits
  have hread := @fromDigits_of_isDigits 0 (2 ^ 64 - 1) _ hdigits false
    (DeserializationToken.skipPlus scalar.token)
  rw [if_neg Bool.false_ne_true, ← hnumber] at hread
  have hrange : T.widest.Holds scalar.number ↔
      0 ≤ scalar.number ∧ scalar.number ≤ 2 ^ 64 - 1 := by
    rw [IntegralType.holds_unsigned (show T.widest.signed = false from hunsigned)]
    exact and_congr_right fun _ => Int.le_sub_one_iff.symm
  rw [DeserializationToken.getUnsignedInteger, if_pos hunsignedToken, fromCharsUInt64,
    fromCharsUnsigned, hread]
  by_cases hholds : T.widest.Holds scalar.number
  · rw [if_pos hholds, if_pos (hrange.1 hholds)]
    rfl
  · rw [if_neg hholds, if_neg (mt hrange.2 hholds)]
    rfl

/-- Either the number fits into 64 bits and is converted, or an error is thrown. A number below zero
does not fit where there is no sign, and minus zero, which is refused as well, fits everywhere. -/
theorem as_cases (T : IntegralType) :
    ((DeserializationToken.scalar scalar).as T = .ok (T.convert scalar.number) ∧
        T.widest.Holds scalar.number) ∨
      ((∃ error, (DeserializationToken.scalar scalar).as T = .error (.thrown error)) ∧
        (T.widest.Holds scalar.number → T.Holds scalar.number)) := by
  rw [DeserializationToken.as]
  cases hsigned : T.signed with
  | true =>
      rw [if_pos rfl, htoken.getSignedInteger hsigned]
      by_cases hholds : T.widest.Holds scalar.number
      · rw [if_pos hholds]
        exact .inl ⟨rfl, hholds⟩
      · rw [if_neg hholds]
        exact .inr ⟨⟨_, rfl⟩, fun hwide => absurd hwide hholds⟩
  | false =>
      rw [if_neg Bool.false_ne_true]
      rcases htoken.numeral.2 with ⟨hminus, hnonpos⟩ | ⟨hminus, hdigits⟩
      · rw [getUnsignedInteger_of_minus hminus]
        refine .inr ⟨⟨_, rfl⟩, fun hwide => ?_⟩
        rw [IntegralType.holds_unsigned (show T.widest.signed = false from hsigned)] at hwide
        rw [IntegralType.holds_unsigned hsigned, Int.le_antisymm hnonpos hwide.1]
        exact ⟨Int.le_refl 0, Int.pow_pos (by decide)⟩
      · rw [htoken.getUnsignedInteger hsigned hminus hdigits]
        by_cases hholds : T.widest.Holds scalar.number
        · rw [if_pos hholds]
          exact .inl ⟨rfl, hholds⟩
        · rw [if_neg hholds]
          exact .inr ⟨⟨_, rfl⟩, fun hwide => absurd hwide hholds⟩

theorem returnsOnly_as_iff (T : IntegralType) :
    ReturnsOnly scalar.number ((DeserializationToken.scalar scalar).as T) ↔
      (T.widest.Holds scalar.number → T.Holds scalar.number) := by
  rcases htoken.as_cases T with ⟨hok, hwide⟩ | ⟨⟨error, herror⟩, hholds⟩
  · rw [hok, forall_prop_of_true hwide, ← T.convert_eq_self_iff]
    constructor
    · rintro (hsame | ⟨error, herror⟩)
      · exact Except.ok.inj hsame
      · cases herror
    · exact fun hsame => .inl (congrArg Except.ok hsame)
  · rw [herror]
    exact iff_of_true (.inr ⟨error, rfl⟩) hholds

end IntegerToken

/-! ### Through a key or an index -/

section Containers

variable {scalar : JSONScalarToken} {outer : DeserializationToken} (T : IntegralType)

theorem getAt_eq {key : Text} (hget : outer.getKey key = .ok (.scalar scalar)) :
    outer.getAt T key = (DeserializationToken.scalar scalar).as T := by
  rw [DeserializationToken.getAt, hget]
  rfl

theorem hasKey_of_getKey {key : Text} {token : DeserializationToken}
    (hget : outer.getKey key = .ok token) : outer.hasKey key = true := by
  cases outer with
  | scalar scalar => cases hget
  | list elements => cases hget
  | object elements =>
      rw [DeserializationToken.hasKey]
      cases hlookup : elements.lookup key with
      | some value => rfl
      | none =>
          simp only [DeserializationToken.getKey, hlookup] at hget
          cases hget

theorem getNth_eq {index : Nat} (hget : outer.getIndex index = .ok (.scalar scalar)) :
    outer.getNth T index = (DeserializationToken.scalar scalar).as T := by
  rw [DeserializationToken.getNth, hget]
  rfl

theorem hasIndex_of_getIndex {index : Nat} {token : DeserializationToken}
    (hget : outer.getIndex index = .ok token) : outer.hasIndex index = true := by
  cases outer with
  | scalar scalar => cases hget
  | object elements => cases hget
  | list elements =>
      rw [DeserializationToken.hasIndex, decide_eq_true_eq]
      by_contra hlong
      simp only [DeserializationToken.getIndex,
        List.getElem?_eq_none (Nat.le_of_not_lt hlong)] at hget
      cases hget

/-- A container gives out what the token itself does. -/
theorem readsExactly_iff :
    ReadsExactly T scalar ↔
      ReturnsOnly scalar.number ((DeserializationToken.scalar scalar).as T) := by
  refine ⟨fun hreads => hreads.value, fun hvalue => ⟨hvalue, ?_, ?_⟩⟩
  · intro outer key hget
    refine ⟨by rwa [getAt_eq T hget], fun defaultValue => ?_⟩
    rwa [DeserializationToken.getAtOr, if_pos (hasKey_of_getKey hget), getAt_eq T hget]
  · intro outer index hget
    refine ⟨by rwa [getNth_eq T hget], fun defaultValue => ?_⟩
    rwa [DeserializationToken.getNthOr, if_pos (hasIndex_of_getIndex hget), getNth_eq T hget]

end Containers

/-! ### The tokens of a parsed text -/

theorem integerToken_of_parse {text : Text} {tree : DeserializationToken}
    (hparse : parse text = .ok tree) {scalar : JSONScalarToken}
    (hwithin : Within tree (.scalar scalar)) (htype : scalar.type = .integer) :
    IntegerToken scalar := by
  obtain ⟨hcut, document, hreads, htree, -⟩ := exists_document hparse
  obtain ⟨spelled, rfl, hmem⟩ := scalar_of_within hwithin htree rfl
  rw [← hreads] at hmem
  exact integerToken_of_cut hcut (List.mem_of_mem_filter hmem) htype

/-- **Integers that are read.** An integer token of a parsed text gives out its number or throws, as
a value of a type, exactly if the type has the number or 64 bits are too few for it. -/
theorem parsed_readsExactly_iff {text : Text} {tree : DeserializationToken}
    (hparse : parse text = .ok tree) {scalar : JSONScalarToken}
    (hwithin : Within tree (.scalar scalar)) (htype : scalar.type = .integer) (T : IntegralType) :
    ReadsExactly T scalar ↔ (T.widest.Holds scalar.number → T.Holds scalar.number) := by
  rw [readsExactly_iff]
  exact (integerToken_of_parse hparse hwithin htype).returnsOnly_as_iff T

/-- Three hundred as a number of sixteen bits. -/
theorem parsed_readsExactly_iff_short :
    let T : IntegralType := ⟨true, 16, by decide⟩
    let scalar : JSONScalarToken := .make .integer "300".toList
    ReadsExactly T scalar ↔ (T.widest.Holds scalar.number → T.Holds scalar.number) :=
  parsed_readsExactly_iff (show parse "[300]".toList = .ok (.list [_]) from rfl)
    (.element (List.mem_singleton.2 rfl) (.self _)) rfl _

/-- As a number of eight bits it is forty-four. -/
theorem not_readsExactly :
    let scalar : JSONScalarToken := .make .integer "300".toList
    parse "300".toList = .ok (.scalar scalar) ∧
      (DeserializationToken.scalar scalar).as ⟨false, 8, by decide⟩ = .ok 44 ∧
      ¬ ReadsExactly ⟨false, 8, by decide⟩ scalar := by
  refine ⟨rfl, rfl, fun hreads => ?_⟩
  rcases hreads.value with hok | ⟨error, herror⟩
  · exact absurd (Except.ok.inj hok) (by decide)
  · cases herror

end Liblw.Mime
