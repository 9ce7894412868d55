import Liblw.Cli.Init

/-!
# The arguments that are left over

Which arguments `init` should leave is said without the loop: an argument goes when it names a flag,
and when the one in front of it does and needs a value. The loop is also written once more with a
record of the arguments that it reads and overwrites.
-/

namespace Liblw.Cli

open Lib

variable {hash : Text → UInt64}

/-! ### What is left -/

/-- The argument names a registered flag. -/
def namesFlag (flags : FlagMap hash) (argument : Text) : Bool :=
  match parseFlag (cString argument) with
  | .ok (some flagName, _) => flagsExists flags flagName
  | _ => false

/-- The argument names a flag that takes the next argument as its value. -/
def takesNext (flags : FlagMap hash) (argument : Text) : Bool :=
  match parseFlag (cString argument) with
  | .ok (some flagName, none) =>
      (flags.find flagName).any fun flag => flag.typeName != booleanTypeName
  | _ => false

/-- The arguments that are left over, when the first of them is taken as a value or is not. -/
def leftOver (flags : FlagMap hash) : (taken : Bool) → List Text → List Text
  | _, [] => []
  | true, _ :: arguments => leftOver flags false arguments
  | false, argument :: arguments =>
      if namesFlag flags argument then leftOver flags (takesNext flags argument) arguments
      else argument :: leftOver flags false arguments

namespace CommandLine

/-- The arguments behind the program name. -/
def arguments (line : CommandLine hash) : List Text := (line.argv.take line.argc).drop 1

end CommandLine

/-! ### What is read and overwritten -/

/-- A use of an element of the vector. -/
inductive Access where
  | read (index : Nat)
  | write (index : Nat)
deriving DecidableEq, Repr

/-- The command line, and how its vector was used. -/
structure Watched (hash : Text → UInt64) where
  line : CommandLine hash
  accesses : List Access

variable (hash) in
abbrev WatchedCall (α : Type) := Call Fault (Watched hash) α

namespace Watched

def access (watched : Watched hash) (accesses : List Access) : Watched hash :=
  { watched with accesses := watched.accesses ++ accesses }

def argument (i : Nat) : WatchedCall hash Text := do
  modify fun watched => watched.access [.read i]
  let watched ← get
  return watched.line.argument i

def returning {α : Type} : Result α → WatchedCall hash α
  | .ok value => pure value
  | .error fault => throw fault

def setFlag (usedNext : Bool) (flags : FlagMap hash) : WatchedCall hash Unit :=
  modify fun watched => { watched with line := watched.line.setFlag usedNext flags }

def moveForward (i backFill : Nat) : WatchedCall hash Unit :=
  modify fun watched =>
    { watched.access [.read i, .write backFill] with line := watched.line.moveForward i backFill }

/-- `initArgument`, with its uses of the vector. -/
def initArgument (remaining i backFill : Nat) : WatchedCall hash (Bool × Nat) := do
  let (flagName, optValue) ← returning (parseFlag (← argument i))
  let watched ← get
  match flagName.filter (flagsExists watched.line.flags) with
  | some flagName => do
      -- `flags_cli_set` looks at the next argument only if it needs it.
      let next ← if 0 < remaining then some <$> argument (i + 1) else pure none
      let (usedNext, flags) ← returning (flagsCliSet watched.line.flags flagName optValue next)
      setFlag usedNext flags
      return (usedNext, backFill)
  | none => do
      moveForward i backFill
      return (false, backFill + 1)

/-- `initLoop`, with its uses of the vector. -/
def initLoop : (remaining i backFill : Nat) → (taken : Bool) → WatchedCall hash Unit
  | 0, _, _, _ => pure ()
  | remaining + 1, i, backFill, true => initLoop remaining (i + 1) backFill false
  | remaining + 1, i, backFill, false => do
      let (usedNext, backFill) ← initArgument remaining i backFill
      initLoop remaining (i + 1) backFill usedNext

/-- `init`, with its uses of the vector. -/
def init : WatchedCall hash Bool := do
  let watched ← get
  initLoop (watched.line.argc - 1) 1 1 false
  let watched ← get
  return !help watched.line.flags

end Watched

/-- The later access does not read what the earlier one has overwritten. -/
def KeepsClear : Access → Access → Prop
  | .write index, .read index' => index ≠ index'
  | _, _ => True

end Liblw.Cli
