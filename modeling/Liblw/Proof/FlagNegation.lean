import Liblw.Cli.Negation
import Liblw.Proof.ArgumentVector
import Liblw.Proof.CommandLine

/-!
# Where the layers of negation agree

`init` asks for the flag before it calls `flags_cli_set`, so what that would still try is never
tried. A name that `parse_flag` takes for a negation is not looked up as it stands.
-/

namespace Liblw.Cli

open Lib

variable {hash : Text → UInt64} {map final : FlagMap hash} {flagName : Text}

/-! ### One flag -/

theorem find_congr {other : Text}
    (hsame : hashFlagName hash other = hashFlagName hash flagName) :
    map.find other = map.find flagName := by
  rw [FlagMap.find, FlagMap.find, hsame]

theorem value_congr {other : Text}
    (hsame : hashFlagName hash other = hashFlagName hash flagName) :
    map.value other = map.value flagName := by
  rw [FlagMap.value, FlagMap.value, find_congr hsame]

theorem value_store {flag parsed : FlagBase} (hfind : map.find flagName = some flag)
    (hname : parsed.name = flag.name) (other : Text) :
    (map.store parsed).value other =
      if hashFlagName hash other = hashFlagName hash flagName then parsed.booleanValue
      else map.value other := by
  have hflag := FlagMap.hash_of_find hfind
  rw [FlagMap.value, find_store, hname, hflag]
  split_ifs with hsame
  · rw [find_congr hsame, hfind, Option.map_some, if_pos hflag]
    rfl
  · rw [FlagMap.value]
    cases hother : map.find other with
    | none => rfl
    | some found =>
        rw [Option.map_some, FlagMap.hash_of_find hother, if_neg hsame]

theorem boolean_of_exists (hboolean : map.AllBoolean) (hexists : flagsExists map flagName) :
    ∃ flag, map.find flagName = some (.boolean flag) := by
  obtain ⟨flag, hfind⟩ := Option.isSome_iff_exists.mp hexists
  obtain ⟨inner, rfl⟩ := hboolean flag (List.mem_of_find?_eq_some hfind)
  exact ⟨inner, hfind⟩

/-- The flag was set to the value, and no other. -/
def Sets (map : FlagMap hash) (flagName : Text) (value : Bool) (final : FlagMap hash) : Prop :=
  ∀ other, final.value other =
    if hashFlagName hash other = hashFlagName hash flagName then some value else map.value other

theorem flagsCliSet_yes (hboolean : map.AllBoolean) (hexists : flagsExists map flagName) :
    ∃ final, flagsCliSet map flagName none none = .ok (false, final) ∧
      Sets map flagName true final := by
  obtain ⟨flag, hfind⟩ := boolean_of_exists hboolean hexists
  refine ⟨map.store (.boolean (flag.setValue true)), ?_, value_store hfind rfl⟩
  simp only [flagsCliSet, hfind, Option.isNone_some, Bool.false_and, Bool.false_eq_true, if_false]
  rfl

theorem flagsCliSet_no (hboolean : map.AllBoolean) (hexists : flagsExists map flagName) :
    ∃ final, flagsCliSet map flagName (some "no".toList) none = .ok (false, final) ∧
      Sets map flagName false final := by
  obtain ⟨flag, hfind⟩ := boolean_of_exists hboolean hexists
  refine ⟨map.store (.boolean (flag.setValue false)), ?_, value_store hfind rfl⟩
  simp only [flagsCliSet, hfind, Option.isNone_some, Bool.false_and, Bool.false_eq_true, if_false]
  rfl

/-- A name that is no flag's is read as a negation. -/
theorem flagsCliSet_alternate (hexists : flagsExists map flagName = false) :
    flagsCliSet map flagName none none =
      flagsCliSet map (alternateFlagName flagName) (some "no".toList) none := by
  have hfind : map.find flagName = none := by
    rwa [flagsExists, Option.isSome_eq_false_iff, Option.isNone_iff_eq_none] at hexists
  simp only [flagsCliSet, hfind, Option.isNone_none, Option.isNone_some, Bool.and_self,
    Bool.and_false, Bool.false_eq_true, if_false, if_true]

theorem exists_of_flagsCliSet {value : Text} {used : Bool}
    (hset : flagsCliSet map flagName (some value) none = .ok (used, final)) :
    flagsExists map flagName := by
  unfold flagsCliSet at hset
  cases hfind : map.find flagName with
  | none =>
      simp only [hfind, Option.isNone_some, Bool.and_false, Bool.false_eq_true, if_false] at hset
      cases hset
  | some flag =>
      rw [flagsExists, hfind]
      rfl

/-! ### The names -/

theorem nul_notMem_altName {name : Text} (hname : '\x00' ∉ name) : '\x00' ∉ altName name := by
  intro hmem
  obtain ⟨c, hc, hchar⟩ := List.mem_map.mp hmem
  split_ifs at hchar
  · cases hchar
  · rw [hchar] at hc
    exact hname hc

theorem nul_mem_altName {name : Text} (hname : '\x00' ∈ name) : '\x00' ∈ altName name :=
  List.mem_map.mpr ⟨_, hname, rfl⟩

theorem FlagBase.literal (flag : FlagBase) : '\x00' ∉ flag.name := by
  cases flag with
  | boolean flag => exact flag.literal
  | integer type flag => exact flag.literal
  | string flag => exact flag.literal
  | nanoseconds locales flag => exact flag.literal
  | custom typeName parseMethod flag => exact flag.literal

theorem nul_notMem_of_exists (hapart : map.NoCollision flagName)
    (hexists : flagsExists map flagName) : '\x00' ∉ flagName := by
  obtain ⟨flag, hfind⟩ := Option.isSome_iff_exists.mp hexists
  have hsame := hapart flag (List.mem_of_find?_eq_some hfind) (FlagMap.hash_of_find hfind).symm
  intro hnul
  apply nul_notMem_altName flag.literal
  rw [← hsame]
  exact nul_mem_altName hnul

/-- None of the characters that are taken off a name ends a C string. -/
theorem nul_mem_alternateFlagName (hnul : '\x00' ∈ flagName) :
    '\x00' ∈ alternateFlagName flagName := by
  unfold alternateFlagName
  split_ifs with hno hdisable
  · obtain ⟨rest, rfl⟩ := List.isPrefixOf_iff_prefix.mp hno.2
    have hrest : '\x00' ∈ rest := by simpa using hnul
    change '\x00' ∈ if _ then rest.drop 1 else rest
    split_ifs with hhyphen
    · cases rest with
      | nil => cases hrest
      | cons c rest =>
          rcases List.mem_cons.mp hrest with rfl | hmem
          · rcases hhyphen.2 with hhead | hhead
            · cases hhead
            · cases hhead
          · exact hmem
    · exact hrest
  · obtain ⟨rest, rfl⟩ := List.isPrefixOf_iff_prefix.mp hdisable.2
    simpa using hnul
  · exact hnul

/-- `flags_cli_set` takes off as much as `parse_flag` does. -/
theorem alternateFlagName_of_negated (hnegated : negated flagName) :
    alternateFlagName flagName = flagName.drop 3 := by
  obtain ⟨hlength, hprefix⟩ := hnegated
  obtain ⟨rest, rfl⟩ := List.isPrefixOf_iff_prefix.mp hprefix
  have hdrop : ("no-".toList ++ rest).drop 2 = '-' :: rest := rfl
  have hrest : 1 < ('-' :: rest).length := by
    change 3 < rest.length + 3 at hlength
    rw [List.length_cons]
    omega
  unfold alternateFlagName
  rw [if_pos ⟨Nat.lt_of_succ_lt hlength, rfl⟩, hdrop]
  exact if_pos ⟨hrest, .inl rfl⟩

theorem withoutValue_of_negated (hnegated : negated flagName) :
    withoutValue flagName = (some (flagName.drop 3), some "no".toList) := by
  obtain ⟨rest, rfl⟩ := List.isPrefixOf_iff_prefix.mp hnegated.2
  exact if_pos hnegated

theorem withoutValue_of_not_negated (hnegated : ¬ negated flagName) :
    withoutValue flagName = (some flagName, none) :=
  if_neg hnegated

theorem hash_drop_ne (hapart : map.NoCollision flagName)
    (hapart' : map.NoCollision (flagName.drop 3)) (hexists : flagsExists map flagName)
    (hnegated : negated flagName) :
    hashFlagName hash (flagName.drop 3) ≠ hashFlagName hash flagName := by
  intro hsame
  obtain ⟨flag, hfind⟩ := Option.isSome_iff_exists.mp hexists
  have hmem := List.mem_of_find?_eq_some hfind
  have hname := FlagMap.hash_of_find hfind
  have halt : altName flagName = altName (flagName.drop 3) :=
    (hapart flag hmem hname.symm).trans (hapart' flag hmem (hsame.trans hname.symm)).symm
  have hlength := congrArg List.length halt
  rw [altName, altName, List.length_map, List.length_map, List.length_drop] at hlength
  have hshort := hnegated.1
  omega

/-! ### Both layers -/

section Agreement

variable {program target : Text} {value : Option Text} {used : Bool}

theorem parseFlag_dashed (hne : flagName ≠ []) (hname : '=' ∉ flagName) (hnul : '\x00' ∉ flagName) :
    parseFlag (cString (dashed flagName)) = .ok (withoutValue flagName) := by
  have hdashed : '\x00' ∉ dashed flagName := by simpa [dashed] using hnul
  rw [cString_of_nul_notMem hdashed]
  obtain ⟨c, name, rfl⟩ := List.exists_cons_of_ne_nil hne
  exact parseFlag_bare fun hmem => hname (List.mem_cons_of_mem c hmem)

/-- What `init` asks about is a flag where it takes the argument. -/
theorem exists_of_agreesWith (hagrees : AgreesWith map final program flagName)
    (hparse : parseFlag (cString (dashed flagName)) = .ok (some target, value)) :
    flagsExists map target := by
  rw [← Bool.not_eq_false]
  intro hexists
  obtain ⟨usage, after, hexec, hargc, _⟩ := hagrees
  obtain ⟨used, hround⟩ := exec_init hexec
  have hnamed : namesFlag map (dashed flagName) = false := by
    rw [namesFlag_of_parse hparse, Option.filter_some_neg hexists]
    rfl
  obtain ⟨_, rfl⟩ := initArgument_unnamed hnamed hround
  cases hargc

theorem agreesWith_of_exists {flags : FlagMap hash}
    (hparse : parseFlag (cString (dashed flagName)) = .ok (some target, value))
    (hexists : flagsExists map target)
    (hset : flagsCliSet map target value none = .ok (false, flags)) :
    AgreesWith map final program flagName ↔ ∀ other, flags.value other = final.value other := by
  have hinit := @init_set hash map target program _ value false flags hparse hexists hset
  constructor
  · rintro ⟨usage, after, hexec, _, hvalues⟩
    rw [hinit] at hexec
    cases hexec
    exact hvalues
  · intro hvalues
    exact ⟨_, _, hinit, rfl, hvalues⟩

/-- The name hashes to a flag's or its alternate does, and neither is a C string that ends early. -/
theorem nul_notMem_of_flagsCliSet (hapart : map.NoCollision flagName)
    (halternate : map.NoCollision (alternateFlagName flagName))
    (hset : flagsCliSet map flagName none none = .ok (used, final)) : '\x00' ∉ flagName := by
  cases hexists : flagsExists map flagName with
  | true => exact nul_notMem_of_exists hapart hexists
  | false =>
      rw [flagsCliSet_alternate hexists] at hset
      intro hnul
      apply nul_notMem_of_exists halternate (exists_of_flagsCliSet hset)
      exact nul_mem_alternateFlagName hnul

/-- Where two flags are set to different values, the results agree only if the one was set before
and the other was not. -/
theorem Sets.agree_iff {flags : FlagMap hash} {first second : Text}
    (hfirst : Sets map first false flags) (hsecond : Sets map second true final)
    (hne : hashFlagName hash first ≠ hashFlagName hash second) :
    (∀ other, flags.value other = final.value other) ↔
      map.value second = some true ∧ map.value first = some false := by
  constructor
  · intro hvalues
    have hone := hvalues first
    have htwo := hvalues second
    rw [hfirst, hsecond, if_pos rfl, if_neg hne] at hone
    rw [hfirst, hsecond, if_neg hne.symm, if_pos rfl] at htwo
    exact ⟨htwo, hone.symm⟩
  · rintro ⟨htrue, hfalse⟩ other
    rw [hfirst, hsecond]
    split_ifs with hone htwo htwo
    · exact absurd (hone.symm.trans htwo) hne
    · rw [value_congr hone, hfalse]
    · rw [value_congr htwo, htrue]
    · rfl

section Cases

variable (hparse : parseFlag (cString (dashed flagName)) = .ok (withoutValue flagName))
include hparse

theorem agreesWith_of_not_negated (hboolean : map.AllBoolean) (hnegated : ¬ negated flagName)
    (hset : flagsCliSet map flagName none none = .ok (used, final)) :
    AgreesWith map final program flagName ↔ flagsExists map flagName := by
  rw [withoutValue_of_not_negated hnegated] at hparse
  constructor
  · intro hagrees
    exact exists_of_agreesWith hagrees hparse
  · intro hexists
    obtain ⟨flags, hyes, _⟩ := flagsCliSet_yes hboolean hexists
    cases Except.ok.inj (hyes.symm.trans hset)
    exact (agreesWith_of_exists hparse hexists hyes).mpr fun _ => rfl

theorem parseFlag_negated (hnegated : negated flagName) :
    parseFlag (cString (dashed flagName)) = .ok (some (flagName.drop 3), some "no".toList) := by
  rw [hparse, withoutValue_of_negated hnegated]

theorem agreesWith_of_negated (hboolean : map.AllBoolean) (hnegated : negated flagName)
    (hexists : flagsExists map flagName = false)
    (hset : flagsCliSet map flagName none none = .ok (used, final)) :
    AgreesWith map final program flagName := by
  rw [flagsCliSet_alternate hexists, alternateFlagName_of_negated hnegated] at hset
  have hdrop := exists_of_flagsCliSet hset
  obtain ⟨flags, hno, _⟩ := flagsCliSet_no hboolean hdrop
  cases Except.ok.inj (hno.symm.trans hset)
  exact (agreesWith_of_exists (parseFlag_negated hparse hnegated) hdrop hno).mpr fun _ => rfl

/-- Both a flag and the negation of one: the call enables the one, and `init` disables the other. -/
theorem agreesWith_of_both (hboolean : map.AllBoolean) (hself : map.NoCollision flagName)
    (hdrop : map.NoCollision (flagName.drop 3)) (hnegated : negated flagName)
    (hexists : flagsExists map flagName)
    (hset : flagsCliSet map flagName none none = .ok (used, final)) :
    AgreesWith map final program flagName ↔
      map.value flagName = some true ∧ map.value (flagName.drop 3) = some false := by
  have hparsed := parseFlag_negated hparse hnegated
  have hne := hash_drop_ne hself hdrop hexists hnegated
  obtain ⟨enabled, hyes, hsets⟩ := flagsCliSet_yes hboolean hexists
  cases Except.ok.inj (hyes.symm.trans hset)
  by_cases hother : flagsExists map (flagName.drop 3)
  · obtain ⟨disabled, hno, hsets'⟩ := flagsCliSet_no hboolean hother
    rw [agreesWith_of_exists hparsed hother hno, hsets'.agree_iff hsets hne]
  · constructor
    · intro hagrees
      exact absurd (exists_of_agreesWith hagrees hparsed) hother
    · rintro ⟨_, hvalue⟩
      rw [FlagMap.value, Option.not_isSome_iff_eq_none.mp hother] at hvalue
      cases hvalue

end Cases

/-- `init` does as the call of `flags_cli_set` does if and only if the name is a flag's and no
negation that `parse_flag` knows, or is such a negation and no flag's, or both flags already are as
either of the two would set them. -/
theorem agreesWith_iff (hboolean : map.AllBoolean)
    (hapart : ∀ name ∈ [flagName, flagName.drop 3, alternateFlagName flagName],
      map.NoCollision name)
    (hne : flagName ≠ []) (hname : '=' ∉ flagName)
    (hset : flagsCliSet map flagName none none = .ok (used, final)) (program : Text) :
    AgreesWith map final program flagName ↔
      (flagsExists map flagName ↔ ¬ negated flagName) ∨
        negated flagName ∧ map.value flagName = some true ∧
          map.value (flagName.drop 3) = some false := by
  obtain ⟨hself, hdrop, halternate⟩ : map.NoCollision flagName ∧
      map.NoCollision (flagName.drop 3) ∧ map.NoCollision (alternateFlagName flagName) := by
    simpa using hapart
  have hparse := parseFlag_dashed hne hname (nul_notMem_of_flagsCliSet hself halternate hset)
  by_cases hnegated : negated flagName
  · cases hexists : flagsExists map flagName with
    | true =>
        rw [agreesWith_of_both hparse hboolean hself hdrop hnegated hexists hset]
        simp [hnegated]
    | false =>
        have hagrees := @agreesWith_of_negated hash map final flagName program used hparse hboolean
          hnegated hexists hset
        simp [hnegated, hagrees]
  · rw [agreesWith_of_not_negated hparse hboolean hnegated hset]
    simp [hnegated]

end Agreement

/-- `LW_FLAG(bool, boolean, true, "")`. -/
def booleanFlag : Flag Bool := ⟨"boolean".toList, true, none, by decide⟩

def booleanMap : FlagMap fun text => text.length.toUInt64 :=
  ⟨[.boolean booleanFlag], List.nodup_singleton _⟩

theorem booleanMap_allBoolean : booleanMap.AllBoolean :=
  fun _ hmem => ⟨booleanFlag, List.mem_singleton.mp hmem⟩

def disabledMap : FlagMap fun text => text.length.toUInt64 :=
  booleanMap.store (.boolean (booleanFlag.setValue false))

/-- `--no-boolean` disables the flag through either layer. -/
theorem agreesWith_no_hyphen : AgreesWith booleanMap disabledMap ['p'] "no-boolean".toList :=
  (agreesWith_iff booleanMap_allBoolean (by decide) (by decide) (by decide)
    (rfl : flagsCliSet booleanMap "no-boolean".toList none none = .ok (false, disabledMap))
    ['p']).mpr (.inl (by decide))

/-- `--noboolean` is left over, and the call disables the flag. -/
theorem not_agreesWith_no :
    booleanMap.AllBoolean ∧ (∀ name ∈ ["noboolean".toList, "noboolean".toList.drop 3,
        alternateFlagName "noboolean".toList], booleanMap.NoCollision name) ∧
      flagsCliSet booleanMap "noboolean".toList none none = .ok (false, disabledMap) ∧
      ¬ AgreesWith booleanMap disabledMap ['p'] "noboolean".toList := by
  have hparse : parseFlag (cString (dashed "noboolean".toList)) =
      .ok (some "noboolean".toList, none) := rfl
  refine ⟨booleanMap_allBoolean, by decide, rfl, fun hagrees => ?_⟩
  exact absurd (exists_of_agreesWith hagrees hparse) (by decide)

end Liblw.Cli
