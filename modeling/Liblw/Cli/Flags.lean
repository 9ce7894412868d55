import Liblw.Cli.Format
import Mathlib.Data.List.Nodup

/-!
# Flags

The registered flags and how the command line sets one. `std::hash` is a function that is passed
along, and flags are told apart by the hash of their names alone.
-/

namespace Liblw.Cli

/-- A flag whose values have the type `T`. Its name is a string literal. -/
structure Flag (T : Type) where
  name : Text
  default : T
  stored : Option T
  literal : '\x00' ∉ name

namespace Flag

variable {T : Type}

def value (flag : Flag T) : T := flag.stored.getD flag.default

def setValue (flag : Flag T) (value : T) : Flag T := { flag with stored := some value }

end Flag

/-- A flag of any type. The types that are not built in bring their own `parse_method`, and a
duration is read with the locales of the host. -/
inductive FlagBase where
  | boolean (flag : Flag Bool)
  | integer (type : IntegerType) (flag : Flag Int)
  | string (flag : Flag Text)
  | nanoseconds (locales : Locales) (flag : Flag Int)
  | custom (typeName : String) (parseMethod : Text → Result Text) (flag : Flag Text)

def booleanTypeName : String := "bool"

namespace FlagBase

/-- The type of the flag as its definition spells it. -/
def typeName : FlagBase → String
  | boolean _ => "bool"
  | integer type _ => type.name
  | string _ => "std::string"
  | nanoseconds _ _ => "std::chrono::nanoseconds"
  | custom typeName _ _ => typeName

def name : FlagBase → Text
  | boolean flag => flag.name
  | integer _ flag => flag.name
  | string flag => flag.name
  | nanoseconds _ flag => flag.name
  | custom _ _ flag => flag.name

def parseValue (value : Text) : FlagBase → Result FlagBase
  | boolean flag => (parseBool value).map fun parsed => boolean (flag.setValue parsed)
  | integer type flag =>
      (parseInteger type value).map fun parsed => integer type (flag.setValue parsed)
  | string flag => .ok (string (flag.setValue (parseString value)))
  | nanoseconds locales flag =>
      (parseDuration locales value).map fun parsed => nanoseconds locales (flag.setValue parsed)
  | custom typeName parseMethod flag =>
      (parseMethod value).map fun parsed => custom typeName parseMethod (flag.setValue parsed)

/-- Only the stored value changes. -/
theorem kept_of_parseValue {flag parsed : FlagBase} {value : Text}
    (hparse : flag.parseValue value = .ok parsed) :
    parsed.name = flag.name ∧ parsed.typeName = flag.typeName := by
  cases flag with
  | boolean flag =>
      obtain ⟨_, _, rfl⟩ := eq_ok_of_map hparse
      exact ⟨rfl, rfl⟩
  | integer type flag =>
      obtain ⟨_, _, rfl⟩ := eq_ok_of_map hparse
      exact ⟨rfl, rfl⟩
  | string flag =>
      cases hparse
      exact ⟨rfl, rfl⟩
  | nanoseconds locales flag =>
      obtain ⟨_, _, rfl⟩ := eq_ok_of_map hparse
      exact ⟨rfl, rfl⟩
  | custom typeName parseMethod flag =>
      obtain ⟨_, _, rfl⟩ := eq_ok_of_map hparse
      exact ⟨rfl, rfl⟩

/-- Only a flag for strings is a flag for strings once it is set. -/
theorem parseValue_eq_string {flag : FlagBase} {value : Text} {parsed : Flag Text}
    (hparse : flag.parseValue value = .ok (string parsed)) :
    flag.typeName = "std::string" ∧ parsed.stored = some (parseString value) := by
  cases flag with
  | string flag =>
      cases hparse
      exact ⟨rfl, rfl⟩
  | boolean flag =>
      obtain ⟨_, _, heq⟩ := eq_ok_of_map hparse
      cases heq
  | integer type flag =>
      obtain ⟨_, _, heq⟩ := eq_ok_of_map hparse
      cases heq
  | nanoseconds locales flag =>
      obtain ⟨_, _, heq⟩ := eq_ok_of_map hparse
      cases heq
  | custom typeName parseMethod flag =>
      obtain ⟨_, _, heq⟩ := eq_ok_of_map hparse
      cases heq

end FlagBase

/-! ### The map of the flags -/

section FlagMap

variable (hash : Text → UInt64)

def hashFlagName (flagName : Text) : UInt64 :=
  hash (flagName.map fun c => if c = '_' then '-' else c)

/-- No two flags have names with the same hash: `flags_register` throws for the second one. -/
structure FlagMap where
  flags : List FlagBase
  distinct : (flags.map fun flag => hashFlagName hash flag.name).Nodup

variable {hash}

namespace FlagMap

def find (map : FlagMap hash) (flagName : Text) : Option FlagBase :=
  map.flags.find? fun flag => hashFlagName hash flag.name = hashFlagName hash flagName

/-- The flag as it is now, in the place where a flag with its name is registered. -/
def store (map : FlagMap hash) (flag : FlagBase) : FlagMap hash where
  flags := map.flags.map fun other =>
    if hashFlagName hash other.name = hashFlagName hash flag.name then flag else other
  distinct := by
    rw [List.map_map]
    convert map.distinct using 2
    funext other
    rw [Function.comp_apply]
    split_ifs with heq
    · exact heq.symm
    · rfl

variable {map : FlagMap hash} {flag other : FlagBase} {flagName : Text}

theorem hash_of_find (hfind : map.find flagName = some flag) :
    hashFlagName hash flag.name = hashFlagName hash flagName := by
  have hhash := List.find?_some hfind
  rwa [decide_eq_true_eq] at hhash

theorem eq_of_hash (hflag : flag ∈ map.flags) (hother : other ∈ map.flags)
    (hhash : hashFlagName hash flag.name = hashFlagName hash other.name) : flag = other :=
  List.inj_on_of_nodup_map map.distinct hflag hother hhash

theorem find_of_mem (hmem : flag ∈ map.flags) : map.find flag.name = some flag := by
  have hsome : (map.find flag.name).isSome := by
    unfold find
    rw [List.find?_isSome]
    exact ⟨flag, hmem, decide_eq_true rfl⟩
  obtain ⟨found, hfound⟩ := Option.isSome_iff_exists.mp hsome
  rw [hfound, eq_of_hash (List.mem_of_find?_eq_some hfound) hmem (hash_of_find hfound)]

theorem mem_store (hmem : other ∈ map.flags)
    (hhash : hashFlagName hash other.name = hashFlagName hash flag.name) :
    flag ∈ (map.store flag).flags := by
  apply List.mem_map.mpr
  exact ⟨other, hmem, if_pos hhash⟩

theorem eq_or_mem_of_mem_store (hmem : other ∈ (map.store flag).flags) :
    other = flag ∨ other ∈ map.flags := by
  obtain ⟨stored, hstored, heq⟩ := List.mem_map.mp hmem
  split_ifs at heq
  · exact .inl heq.symm
  · rw [← heq]
    exact .inr hstored

end FlagMap

def flagsExists (map : FlagMap hash) (flagName : Text) : Bool := (map.find flagName).isSome

/-- The flag that a name that is no flag's may disable. -/
def alternateFlagName (flagName : Text) : Text :=
  if 2 < flagName.length ∧ "no".toList.isPrefixOf flagName then
    let flagName := flagName.drop 2
    if 1 < flagName.length ∧ (flagName.head? = some '-' ∨ flagName.head? = some '_') then
      flagName.drop 1
    else flagName
  else if 7 < flagName.length ∧ "disable".toList.isPrefixOf flagName then
    'e' :: 'n' :: flagName.drop 3
  else flagName

/-- `next` is the argument behind the one that names the flag, where there is one. The result says
whether it was taken as the value. -/
def flagsCliSet (map : FlagMap hash) (flagName : Text) (value next : Option Text) :
    Result (Bool × FlagMap hash) :=
  let disables : Bool := (map.find flagName).isNone && value.isNone
  let flagName := if disables then alternateFlagName flagName else flagName
  let value := if disables then some "no".toList else value
  let shown := String.ofList flagName
  match map.find flagName with
  | none => raise .invalidArgument s!"Flag {shown} does not exist."
  | some flag =>
      let value :=
        if value.isNone ∧ flag.typeName = booleanTypeName then some "yes".toList else value
      match value with
      | some value => (flag.parseValue value).map fun parsed => (false, map.store parsed)
      | none =>
          match next.filter fun next => !"--".toList.isPrefixOf next with
          | some next => (flag.parseValue next).map fun parsed => (true, map.store parsed)
          | none =>
              let typeName := flag.typeName
              raise .invalidArgument s!"Flag {shown} missing {typeName} value."

end FlagMap

end Liblw.Cli
