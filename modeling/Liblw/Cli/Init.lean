import Liblw.Cli.Flags
import Liblw.Lib.Call

/-!
# Reading the command line

`lw::init` sets the flags that the arguments name, and moves the other arguments to the front. An
argument is read as a C string. The texts that it prints for `--help` are left out.
-/

namespace Liblw.Cli

open Lib

/-- What a reader of the C string sees. -/
def cString (text : Text) : Text := text.takeWhile fun c => c ≠ '\x00'

/-- The end of `parse_flag`, for what is behind the first `=`. A single quote is both its ends, and
the length that wraps around is cut off at the end of the argument. -/
def unquote (name text : Text) : Result Text :=
  if text.head? = some '"' ∨ text.head? = some '\'' then
    if text.head? ≠ text.getLast? then
      let name := String.ofList name
      raise .invalidArgument s!"Value for flag {name} is malformed."
    else .ok ((text.drop 1).take (text.length - 2))
  else .ok text

/-- A flag without a value, which a leading `no-` disables. -/
def withoutValue (name : Text) : Option Text × Option Text :=
  if 3 < name.length ∧ "no-".toList.isPrefixOf name then (some (name.drop 3), some (name.take 2))
  else (some name, none)

def parseFlag (flag : Text) : Result (Option Text × Option Text) :=
  if flag.length < 3 ∨ !"--".toList.isPrefixOf flag then .ok (none, none)
  else
    let stop := 3 + ((flag.drop 3).takeWhile fun c => c ≠ '=').length
    let name := (flag.drop 2).take (stop - 2)
    if flag.length - 1 ≤ stop then .ok (withoutValue name)
    else (unquote name (flag.drop (stop + 1))).map fun value => (some name, some value)

section CommandLine

variable {hash : Text → UInt64}

/-- The number of arguments that are left over, the vector that they are in, and the flags. -/
structure CommandLine (hash : Text → UInt64) where
  argc : Nat
  argv : List Text
  flags : FlagMap hash

variable (hash) in
abbrev InitCall (α : Type) := Call Fault (CommandLine hash) α

/-- `flags::help`. -/
def help (map : FlagMap hash) : Bool :=
  map.flags.any fun
    | .boolean flag => flag.name = "help".toList && flag.value
    | _ => false

namespace CommandLine

/-- The argument that the pointer is at. -/
def argument (line : CommandLine hash) (i : Nat) : Text := cString (line.argv.getD i [])

/-- A flag was set by one argument, or by two. -/
def setFlag (line : CommandLine hash) (usedNext : Bool) (flags : FlagMap hash) : CommandLine hash :=
  { line with argc := line.argc - (if usedNext then 2 else 1), flags := flags }

def moveForward (line : CommandLine hash) (i backFill : Nat) : CommandLine hash :=
  { line with argv := line.argv.set backFill (line.argv.getD i []) }

end CommandLine

def returning {α : Type} : Result α → InitCall hash α
  | .ok value => pure value
  | .error fault => throw fault

/-- One round of the loop. The result says whether the next argument was taken as well, and where
the next unknown argument goes. -/
def initArgument (remaining i backFill : Nat) : InitCall hash (Bool × Nat) := do
  let line ← get
  let (flagName, optValue) ← returning (parseFlag (line.argument i))
  match flagName.filter (flagsExists line.flags) with
  | some flagName =>
      let next := if 0 < remaining then some (line.argument (i + 1)) else none
      let (usedNext, flags) ← returning (flagsCliSet line.flags flagName optValue next)
      set (line.setFlag usedNext flags)
      return (usedNext, backFill)
  | none =>
      set (line.moveForward i backFill)
      return (false, backFill + 1)

/-- The loop of `init`. An argument that was taken as a value is passed over. -/
def initLoop : (remaining i backFill : Nat) → (taken : Bool) → InitCall hash Unit
  | 0, _, _, _ => pure ()
  | remaining + 1, i, backFill, true => initLoop remaining (i + 1) backFill false
  | remaining + 1, i, backFill, false => do
      let (usedNext, backFill) ← initArgument remaining i backFill
      initLoop remaining (i + 1) backFill usedNext

def init : InitCall hash Bool := do
  let line ← get
  initLoop (line.argc - 1) 1 1 false
  let line ← get
  return !help line.flags

end CommandLine

end Liblw.Cli
