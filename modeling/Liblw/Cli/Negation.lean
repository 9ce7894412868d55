import Liblw.Cli.Init

/-!
# Two layers of negation

`parse_flag` takes `no-` off a name, and `flags_cli_set` takes off `no`, `no-` and `no_` and turns
`disable` into `enable`. An argument goes through both, and a call of `flags_cli_set` on what is
behind the dashes goes through the second alone.
-/

namespace Liblw.Cli

variable {hash : Text → UInt64}

/-- The name as it is hashed. -/
def altName (flagName : Text) : Text := flagName.map fun c => if c = '_' then '-' else c

/-- `parse_flag` takes the name for a negation. -/
def negated (flagName : Text) : Prop := 3 < flagName.length ∧ "no-".toList.isPrefixOf flagName

instance (flagName : Text) : Decidable (negated flagName) := inferInstanceAs (Decidable (_ ∧ _))

def dashed (flagName : Text) : Text := '-' :: '-' :: flagName

namespace FlagBase

def booleanValue : FlagBase → Option Bool
  | boolean flag => some flag.value
  | _ => none

end FlagBase

namespace FlagMap

/-- The value of the flag of type `bool` that has the name. -/
def value (map : FlagMap hash) (flagName : Text) : Option Bool :=
  (map.find flagName).bind FlagBase.booleanValue

def AllBoolean (map : FlagMap hash) : Prop := ∀ flag ∈ map.flags, ∃ inner, flag = .boolean inner

/-- A name that hashes like a registered one is that name, up to underscores and hyphens. -/
def NoCollision (map : FlagMap hash) (flagName : Text) : Prop :=
  ∀ flag ∈ map.flags, hashFlagName hash flagName = hashFlagName hash flag.name →
    altName flagName = altName flag.name

instance (map : FlagMap hash) (flagName : Text) : Decidable (map.NoCollision flagName) :=
  inferInstanceAs (Decidable (∀ flag ∈ map.flags, _ → _))

end FlagMap

/-- `init` takes the one argument, and the flags have the values that they have there. -/
def AgreesWith (map final : FlagMap hash) (program flagName : Text) : Prop :=
  ∃ usage after, init.exec ⟨2, [program, dashed flagName], map⟩ = (.ok usage, after) ∧
    after.argc = 1 ∧ ∀ other, after.flags.value other = final.value other

end Liblw.Cli
