import Liblw.Lib.Separator
import Liblw.Proof.ParseDocuments

/-!
# The keys of an object

An object token knows its members by the text between the quotation marks of their keys, not by
what `decode_string` makes of it. The two are the same as long as no key has an escape.
-/

namespace Liblw.Mime

/-! ### A text reads as one document -/

theorem bare_ne_closeList (document : Document) (rest other : List Item) :
    document.bare ++ rest ≠ .closeList :: other := by
  intro heq
  cases document with
  | scalar text => cases (List.cons.inj heq).1
  | list elements => cases (List.cons.inj heq).1
  | object members => cases (List.cons.inj heq).1

mutual

/-- The items of a document end where the document ends. -/
theorem bare_append_inj {first second : Document} {before after : List Item}
    (heq : first.bare ++ before = second.bare ++ after) : first = second ∧ before = after := by
  cases first with
  | scalar text =>
      cases second with
      | scalar other =>
          obtain ⟨htext, hrest⟩ := List.cons.inj heq
          exact ⟨by rw [Item.scalar.inj htext], hrest⟩
      | list elements => cases (List.cons.inj heq).1
      | object members => cases (List.cons.inj heq).1
  | list elements =>
      cases second with
      | scalar text => cases (List.cons.inj heq).1
      | list others =>
          have hinner : (Document.spellElements List.flatten elements).flatten ++
                .closeList :: before =
              (Document.spellElements List.flatten others).flatten ++ .closeList :: after := by
            simpa [Document.bare, Document.spell] using heq
          obtain ⟨rfl, hrest⟩ := bareElements_append_inj hinner
          exact ⟨rfl, hrest⟩
      | object members => cases (List.cons.inj heq).1
  | object members =>
      cases second with
      | scalar text => cases (List.cons.inj heq).1
      | list elements => cases (List.cons.inj heq).1
      | object others =>
          have hinner : (Document.spellMembers List.flatten members).flatten ++
                .closeObject :: before =
              (Document.spellMembers List.flatten others).flatten ++ .closeObject :: after := by
            simpa [Document.bare, Document.spell] using heq
          obtain ⟨rfl, hrest⟩ := bareMembers_append_inj hinner
          exact ⟨rfl, hrest⟩

theorem bareElements_append_inj {first second : List Document} {before after : List Item}
    (heq : (Document.spellElements List.flatten first).flatten ++ .closeList :: before =
      (Document.spellElements List.flatten second).flatten ++ .closeList :: after) :
    first = second ∧ before = after := by
  cases first with
  | nil =>
      cases second with
      | nil => exact ⟨rfl, (List.cons.inj heq).2⟩
      | cons document rest =>
          rw [Document.spellElements, Document.spellElements, List.flatten_cons,
            List.append_assoc] at heq
          exact absurd heq.symm (bare_ne_closeList document _ _)
  | cons document rest =>
      rw [Document.spellElements, List.flatten_cons, List.append_assoc] at heq
      cases second with
      | nil => exact absurd heq (bare_ne_closeList document _ _)
      | cons other others =>
          rw [Document.spellElements, List.flatten_cons, List.append_assoc] at heq
          obtain ⟨rfl, htail⟩ := bare_append_inj heq
          obtain ⟨rfl, hrest⟩ := bareElements_append_inj htail
          exact ⟨rfl, hrest⟩

theorem bareMembers_append_inj {first second : List (Text × Document)} {before after : List Item}
    (heq : (Document.spellMembers List.flatten first).flatten ++ .closeObject :: before =
      (Document.spellMembers List.flatten second).flatten ++ .closeObject :: after) :
    first = second ∧ before = after := by
  cases first with
  | nil =>
      cases second with
      | nil => exact ⟨rfl, (List.cons.inj heq).2⟩
      | cons member rest => cases (List.cons.inj heq).1
  | cons member rest =>
      obtain ⟨key, document⟩ := member
      cases second with
      | nil => cases (List.cons.inj heq).1
      | cons other others =>
          obtain ⟨name, value⟩ := other
          obtain ⟨hkey, hcolon⟩ := List.cons.inj heq
          obtain rfl := Item.scalar.inj hkey
          have hvalue : document.bare ++
                ((Document.spellMembers List.flatten rest).flatten ++ .closeObject :: before) =
              value.bare ++
                ((Document.spellMembers List.flatten others).flatten ++ .closeObject :: after) := by
            rw [← List.append_assoc, ← List.append_assoc]
            exact (List.cons.inj hcolon).2
          obtain ⟨rfl, htail⟩ := bare_append_inj hvalue
          obtain ⟨rfl, hrest⟩ := bareMembers_append_inj htail
          exact ⟨rfl, hrest⟩

end

/-- What a text says is settled by its items. -/
theorem Reads.unique {text : Text} {first second : Document} (hfirst : Reads text first)
    (hsecond : Reads text second) : first = second := by
  have heq : first.bare ++ [] = second.bare ++ [] := by
    rw [List.append_nil, List.append_nil]
    exact hfirst.symm.trans hsecond
  exact (bare_append_inj heq).1

/-! ### Decoding -/

/-- Text without escapes is what it decodes to. -/
theorem decodeLoop_append {before : Text} (hbefore : '\\' ∉ before) :
    decodeLoop (before ++ ['"']) = before := by
  induction before with
  | nil => rfl
  | cons c before ih =>
      rw [List.mem_cons, not_or] at hbefore
      have htail := ih hbefore.2
      cases before with
      | nil => simp [decodeLoop, Ne.symm hbefore.1]
      | cons d before =>
          rw [List.cons_append, List.cons_append, decodeLoop]
          · rw [← List.cons_append, htail]
          · exact Ne.symm hbefore.1

theorem length_decodeEscape_le (c : Char) : (decodeEscape c).length ≤ 1 := by
  unfold decodeEscape
  split <;> simp

/-- Decoding makes a text no longer, and an escape makes it shorter, unless the text ends in a
backslash, which then takes the closing quotation mark with it. -/
theorem length_decodeLoop_le (before : Text) :
    (decodeLoop (before ++ ['"'])).length ≤ before.length ∧
      ((decodeLoop (before ++ ['"'])).length = before.length →
        '"' ∉ decodeLoop (before ++ ['"']) → '\\' ∉ before) := by
  induction hn : before.length using Nat.strongRecOn generalizing before with
  | _ n ih =>
      subst hn
      cases before with
      | nil => simp [decodeLoop]
      | cons c rest =>
          by_cases hescape : c = '\\'
          · subst hescape
            cases rest with
            | nil => simp [decodeLoop, decodeEscape]
            | cons d rest =>
                have hlength := (ih rest.length (by simp) rest rfl).1
                have hshort := length_decodeEscape_le d
                have hdecode : (decodeLoop ('\\' :: d :: rest ++ ['"'])).length <
                    ('\\' :: d :: rest).length := by
                  simp only [List.cons_append, decodeLoop, List.length_append, List.length_cons]
                  omega
                exact ⟨hdecode.le, fun heq => absurd heq hdecode.ne⟩
          · have hdecode : decodeLoop (c :: rest ++ ['"']) = c :: decodeLoop (rest ++ ['"']) := by
              cases rest with
              | nil => simp [decodeLoop]
              | cons d rest =>
                  rw [List.cons_append, List.cons_append, decodeLoop]
                  exact hescape
            obtain ⟨hlength, hnone⟩ := ih rest.length (by simp) rest rfl
            rw [hdecode, List.length_cons, List.length_cons]
            refine ⟨Nat.succ_le_succ hlength, fun heq hquote => ?_⟩
            rw [List.mem_cons, not_or] at hquote ⊢
            exact ⟨Ne.symm hescape, hnone (Nat.succ.inj heq) hquote.2⟩

/-! ### The keys of an accepted text -/

/-- A key, told by what stands between its quotation marks. -/
def quoted (before : Text) : Text := '"' :: (before ++ ['"'])

theorem unquoted_quoted (before : Text) : unquoted (quoted before) = before := by
  simp [unquoted, quoted]

theorem string_of_cut {list : List Item} {text spelled : Text} (hcut : Cut list text)
    (hmem : Item.scalar spelled ∈ list) (htype : scalarType spelled = .string) :
    ∃ before, spelled = quoted before ∧ '"' ∉ before := by
  induction hcut with
  | nil hblank => cases hmem
  | cons hspace hitem hafter ih =>
      rcases List.mem_cons.mp hmem with rfl | hmem
      · cases hitem with
        | string hquote => exact ⟨_, rfl, hquote⟩
        | keyword hword hnext =>
            rcases hword with rfl | rfl | rfl
            · cases htype
            · cases htype
            · cases htype
        | number hsign hnumeral hrun hafter =>
            rw [scalarType_number hsign hnumeral] at htype
            split_ifs at htype
      · exact ih hmem

theorem key_mem_bare {members : List (Text × Document)} {key : Text}
    (hkey : key ∈ members.map Prod.fst) : Item.scalar key ∈ (Document.object members).bare := by
  obtain ⟨member, hmem, rfl⟩ := List.mem_map.mp hkey
  have hinner : Item.scalar member.1 ∈ (Document.spellMembers List.flatten members).flatten := by
    rw [Document.spellMembers_eq_map]
    exact List.mem_flatten.mpr ⟨_, List.mem_map_of_mem hmem, List.mem_cons_self⟩
  simp [Document.bare, Document.spell, hinner]

/-! ### Lookup -/

theorem lookup_of_mem {elements : List (Text × DeserializationToken)} {key : Text}
    {value : DeserializationToken} (hnodup : (elements.map Prod.fst).Nodup)
    (hmem : (key, value) ∈ elements) : elements.lookup key = some value := by
  obtain ⟨before, after, rfl⟩ := List.append_of_mem hmem
  rw [List.lookup_eq_some_iff]
  refine ⟨before, after, rfl, ?_⟩
  intro element helement
  rw [List.map_append, List.map_cons, List.nodup_append] at hnodup
  have hne := hnodup.2.2 element.1 (List.mem_map_of_mem helement) key List.mem_cons_self
  simpa using Ne.symm hne

/-- An object token answers to its keys by what they decode to. -/
structure KeysDecoded (members : List (Text × Document)) (token : DeserializationToken) :
    Prop where
  hasKey : ∀ key, token.hasKey key = true ↔ key ∈ members.map fun member => decodeString member.1
  getKey : ∀ member ∈ members, token.getKey (decodeString member.1) = .ok member.2.token
  size : token.size = .ok members.length
  distinct : (members.map fun member => decodeString member.1).Nodup

section Object

variable {text : Text} {members : List (Text × Document)} {token : DeserializationToken}

/-- What is known of an object that has been read. -/
theorem object_of_parse (hparse : parse text = .ok token)
    (hreads : Reads text (.object members)) :
    token = (Document.object members).token ∧
      (members.map fun member => unquoted member.1).Nodup ∧
      ∀ member ∈ members, ∃ before, member.1 = quoted before ∧ '"' ∉ before := by
  obtain ⟨hcut, document, hdocument, rfl, hkeys⟩ := exists_document hparse
  obtain rfl := hdocument.unique hreads
  obtain ⟨⟨hstrings, hdistinct⟩, -⟩ := hkeys
  refine ⟨rfl, ?_, ?_⟩
  · rwa [DistinctKeys, List.map_map] at hdistinct
  · intro member hmember
    have hkey : member.1 ∈ members.map Prod.fst := List.mem_map_of_mem hmember
    have hitem : Item.scalar member.1 ∈ items 0 text := by
      have hbare := key_mem_bare hkey
      rw [← hreads] at hbare
      exact (List.mem_filter.mp hbare).1
    exact string_of_cut hcut hitem (hstrings _ hkey)

theorem hasKey_object_iff (key : Text) :
    (Document.object members).token.hasKey key = true ↔
      key ∈ members.map fun member => unquoted member.1 :=
  lookup_isSome_iff_key members key

theorem getKey_object (hnodup : (members.map fun member => unquoted member.1).Nodup)
    {member : Text × Document} (hmember : member ∈ members) :
    (Document.object members).token.getKey (unquoted member.1) = .ok member.2.token := by
  have hmem : (unquoted member.1, member.2.token) ∈ Document.memberTokens members := by
    rw [Document.memberTokens_eq_map]
    exact List.mem_map_of_mem hmember
  have hlookup := lookup_of_mem (by rwa [keys_memberTokens]) hmem
  simp only [Document.token, DeserializationToken.getKey, hlookup]

/-- Keys without escapes are kept as what they decode to. -/
theorem keysDecoded_of_plain (hparse : parse text = .ok token)
    (hreads : Reads text (.object members)) (hplain : ∀ member ∈ members, '\\' ∉ member.1) :
    KeysDecoded members token := by
  obtain ⟨rfl, hnodup, hquoted⟩ := object_of_parse hparse hreads
  have hdecode : ∀ member ∈ members, decodeString member.1 = unquoted member.1 := by
    intro member hmember
    obtain ⟨before, hkey, -⟩ := hquoted member hmember
    have hbefore : '\\' ∉ before := fun hmem =>
      hplain member hmember (by rw [hkey, quoted]; simp [hmem])
    rw [hkey, unquoted_quoted]
    exact decodeLoop_append hbefore
  have hmap : (members.map fun member => decodeString member.1) =
      members.map fun member => unquoted member.1 := List.map_congr_left hdecode
  refine ⟨fun key => ?_, fun member hmember => ?_, ?_, ?_⟩
  · rw [hmap]
    exact hasKey_object_iff key
  · rw [hdecode member hmember]
    exact getKey_object hnodup hmember
  · rw [Document.token, Document.memberTokens_eq_map]
    simp [DeserializationToken.size]
  · rwa [hmap]

/-- An escape in a key makes the decoded keys together shorter than the keys that are kept. -/
theorem plain_of_keysDecoded (hparse : parse text = .ok token)
    (hreads : Reads text (.object members)) (hdecoded : KeysDecoded members token) :
    ∀ member ∈ members, '\\' ∉ member.1 := by
  obtain ⟨rfl, hnodup, hquoted⟩ := object_of_parse hparse hreads
  have hsame : ∀ key, (key ∈ members.map fun member => decodeString member.1) ↔
      key ∈ members.map fun member => unquoted member.1 := fun key =>
    (hdecoded.hasKey key).symm.trans (hasKey_object_iff key)
  have hperm := (List.perm_ext_iff_of_nodup hdecoded.distinct hnodup).mpr hsame
  have hsum : (members.map fun member => (decodeString member.1).length).sum =
      (members.map fun member => (unquoted member.1).length).sum := by
    have hlengths := (hperm.map List.length).sum_eq
    rwa [List.map_map, List.map_map] at hlengths
  have hle : ∀ member ∈ members,
      (decodeString member.1).length ≤ (unquoted member.1).length := by
    intro member hmember
    obtain ⟨before, hkey, -⟩ := hquoted member hmember
    rw [hkey, unquoted_quoted]
    exact (length_decodeLoop_le before).1
  intro member hmember
  obtain ⟨before, hkey, hquote⟩ := hquoted member hmember
  have hlength := Lib.eq_of_sum_eq hle hsum member hmember
  -- the decoded key is one of the kept keys, which hold no quotation mark
  have hkept : '"' ∉ decodeString member.1 := by
    obtain ⟨other, hother, heq⟩ := List.mem_map.mp
      ((hsame _).mp (List.mem_map_of_mem hmember))
    obtain ⟨kept, hkept, hnone⟩ := hquoted other hother
    rw [← heq, hkept, unquoted_quoted]
    exact hnone
  rw [hkey, unquoted_quoted] at hlength
  rw [hkey] at hkept
  have hbefore := (length_decodeLoop_le before).2 hlength hkept
  rw [hkey, quoted]
  simp [hbefore]

end Object

/-- **Keys.** An object token answers to its keys by what they decode to exactly when none of them
has a backslash. -/
theorem keysDecoded_iff {text : Text} {members : List (Text × Document)}
    {token : DeserializationToken} (hparse : parse text = .ok token)
    (hreads : Reads text (.object members)) :
    KeysDecoded members token ↔ ∀ member ∈ members, '\\' ∉ member.1 :=
  ⟨plain_of_keysDecoded hparse hreads, keysDecoded_of_plain hparse hreads⟩

theorem keysDecoded_iff_single :
    KeysDecoded [("\"a\"".toList, .scalar ['1'])]
        (Document.object [("\"a\"".toList, .scalar ['1'])]).token ↔
      ∀ member ∈ [("\"a\"".toList, Document.scalar ['1'])], '\\' ∉ member.1 :=
  @keysDecoded_iff "\x7b\"a\":1\x7d".toList _ _ rfl rfl

/-- The key `a\/b` decodes to `a/b`, but is kept as it is spelled. -/
theorem escaped_key_lost :
    ¬ ∀ text members token, parse text = .ok token → Reads text (.object members) →
      KeysDecoded members token := by
  intro hall
  have hdecoded := hall "\x7b\"a\\/b\":1\x7d".toList
    [("\"a\\/b\"".toList, .scalar ['1'])] _ rfl rfl
  have hkey := (hdecoded.hasKey "a/b".toList).mpr (by decide)
  cases hkey

end Liblw.Mime
