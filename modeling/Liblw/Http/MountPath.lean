import Liblw.Http.Headers

/-!
# Routes

`parse_into_matchers` reads a route once and cuts it into one matcher for each segment. The views
that it opens are told by the characters they hold so far; each state of the machine carries those
that are open in it. Only the type of the last typed parameter and the number of regular
expressions live on from one segment to the next.

`std::regex` is a parameter: which patterns compile, and what a full match of a part captures.
-/

namespace Liblw.Http

open Liblw.Lib

/-- `std::regex` with the flags that the matchers use. A match returns the text of the first group,
or the whole part if the pattern has no group; both lie inside the part. -/
structure RegexEngine where
  compiles : (pattern : Text) → Bool
  fullMatch : (pattern part : Text) → Option Text
  captured_infix : ∀ {pattern part captured : Text},
    fullMatch pattern part = some captured → captured <:+: part

/-- An engine that refuses every pattern. -/
def noPatterns : RegexEngine where
  compiles _ := false
  fullMatch _ _ := none
  captured_infix hmatch := by cases hmatch

inductive Validator where
  | int
  | uint
deriving DecidableEq, Repr

def Validator.accepts : Validator → Text → Bool
  | .int, '-' :: digits => digits.all isDigit
  | _, part => part.all isDigit

inductive PathMatcher where
  | literal (chunk : Text)
  | parameter (chunk name extension : Text)
  | validated (chunk name extension : Text) (validator : Validator)
  | regex (index : Nat) (chunk : Text)
deriving DecidableEq, Repr

namespace PathMatcher

def isLiteral : PathMatcher → Bool
  | .literal _ => true
  | _ => false

def chunk : PathMatcher → Text
  | .literal chunk => chunk
  | .parameter chunk _ _ => chunk
  | .validated chunk _ _ _ => chunk
  | .regex _ chunk => chunk

def name : PathMatcher → Text
  | .literal chunk => chunk
  | .parameter _ name _ => name
  | .validated _ name _ _ => name
  | .regex index _ => Nat.toDigits 10 index

/-- `ParameterPathMatcher::match`. -/
def matchParameter (extension part : Text) : Option Text :=
  if extension = [] then some part
  else if part.length ≤ extension.length then none
  else
    let captured := part.take (part.length - extension.length)
    if sameName extension (part.drop captured.length) then some captured else none

def «match» (engine : RegexEngine) : PathMatcher → Text → Option Text
  | .literal chunk, part => if sameName chunk part then some part else none
  | .parameter _ _ extension, part => matchParameter extension part
  | .validated _ _ extension validator, part =>
      (matchParameter extension part).filter validator.accepts
  -- the pattern stands behind the five characters of `:[re]`
  | .regex _ chunk, part => engine.fullMatch (chunk.drop 5) part

/-- What a matcher captures is a piece of the part it matches. -/
theorem infix_of_match {engine : RegexEngine} {matcher : PathMatcher} {part captured : Text}
    (hmatch : matcher.match engine part = some captured) : captured <:+: part := by
  have hparameter : ∀ {extension}, matchParameter extension part = some captured →
      captured <:+: part := by
    intro extension hparameter
    unfold matchParameter at hparameter
    dsimp only at hparameter
    split_ifs at hparameter
    · obtain rfl := Option.some.inj hparameter
      exact List.infix_rfl
    · obtain rfl := Option.some.inj hparameter
      exact (List.take_prefix _ _).isInfix
  cases matcher with
  | literal chunk =>
      simp only [«match»] at hmatch
      split_ifs at hmatch
      obtain rfl := Option.some.inj hmatch
      exact List.infix_rfl
  | parameter chunk name extension => exact hparameter hmatch
  | validated chunk name extension validator =>
      exact hparameter (Option.filter_eq_some_iff.mp hmatch).1
  | regex index chunk => exact engine.captured_infix hmatch

end PathMatcher

/-! ### The parser -/

namespace MountPath

/-- The states of the machine, with the views that are open. -/
inductive State where
  | start
  | literal (chunk : Text)
  | parameterStart (chunk : Text)
  | parameterType (chunk type : Text)
  | parameterName (chunk name : Text)
  | parameterExtension (chunk name extension : Text)
  | parameterEnd (chunk name extension : Text)
  | regex (chunk : Text) (escaping : Bool)
deriving DecidableEq, Repr

/-- What lives on from one segment to the next: the type, which is never cleared, and the number of
regular expressions. -/
structure Carry where
  type : Text
  unnamedCounter : Nat
deriving DecidableEq, Repr

structure Parser where
  state : State
  carry : Carry
  matchers : List PathMatcher
deriving DecidableEq, Repr

def Parser.make : Parser := ⟨.start, ⟨[], 0⟩, []⟩

/-- `ValidatedParameterPathMatcher::validator_for`. -/
def validatorFor (type : Text) : Result Validator :=
  if type = "int".toList then .ok .int
  else if type = "uint".toList then .ok .uint
  else
    let shown := String.ofList type
    raise .invalidArgument s!"Unknown parameter validation type: {shown}"

def parameterMatcher (type chunk name extension : Text) : Result PathMatcher :=
  if type = [] then .ok (.parameter chunk name extension)
  else (validatorFor type).map (.validated chunk name extension)

variable (engine : RegexEngine) (endpoint : Text)

def refuse (before : String) (i : Nat) (after : String) : Result Parser :=
  let shown := String.ofList endpoint
  raise .invalidArgument s!"{before}{i} in endpoint {shown}{after}"

namespace Parser

/-- `START`. `c` is `none` behind the last character. -/
def stepStart (parser : Parser) (c : Option Char) : Parser :=
  match c with
  | none => parser
  | some c =>
      if c = '/' then parser
      else if c = ':' then { parser with state := .parameterStart [c] }
      else { parser with state := .literal [c] }

def stepLiteral (parser : Parser) (chunk : Text) (c : Option Char) : Parser :=
  match c with
  | some c =>
      if c = '/' then
        { parser with state := .start, matchers := parser.matchers ++ [.literal chunk] }
      else { parser with state := .literal (chunk ++ [c]) }
  | none => { parser with state := .start, matchers := parser.matchers ++ [.literal chunk] }

def stepParameterStart (parser : Parser) (chunk : Text) (i : Nat) (c : Option Char) :
    Result Parser :=
  match c with
  | none =>
      let shown := String.ofList endpoint
      raise .invalidArgument
        s!"Unexpected end of sequence after parameter start in endpoint {shown}"
  | some c =>
      if c = '[' then .ok { parser with state := .parameterType (chunk ++ [c]) [] }
      else if !isAlnum c then
        refuse endpoint s!"Unexpected character '{c}' at character " i
          (". Expected either start of parameter type ([) or alpha numeric " ++ "parameter name.")
      else .ok { parser with state := .parameterName (chunk ++ [c]) [c] }

def stepParameterType (parser : Parser) (chunk type : Text) (i : Nat) (c : Option Char) :
    Result Parser :=
  match c with
  | none =>
      let shown := String.ofList endpoint
      raise .invalidArgument s!"Unexpected end of sequence in parameter type in endpoint {shown}"
  | some c =>
      if c = ']' then
        if type = [] then refuse endpoint "Unexpected end of parameter type at character " i ""
        else if type = "re".toList then
          .ok { parser with
            state := .regex (chunk ++ [c]) false
            carry := ⟨type, parser.carry.unnamedCounter + 1⟩ }
        else .ok { parser with
          state := .parameterName (chunk ++ [c]) []
          carry := { parser.carry with type } }
      else .ok { parser with state := .parameterType (chunk ++ [c]) (type ++ [c]) }

def stepParameterName (parser : Parser) (chunk name : Text) (i : Nat) (c : Option Char) :
    Result Parser :=
  if (c = none ∨ c = some '.' ∨ c = some '/') ∧ name = [] then
    refuse endpoint "Unexpected end of parameter name at character " i ""
  else
    match c with
    | none => .ok { parser with state := .parameterEnd chunk name [] }
    | some c =>
        if c = '.' then .ok { parser with state := .parameterExtension (chunk ++ [c]) name [c] }
        else if c = '/' then .ok { parser with state := .parameterEnd chunk name [] }
        else if !isAlnum c then
          refuse endpoint s!"Invalid character '{c}' at character " i
            ". Parameter names must be alphanumeric."
        else .ok { parser with state := .parameterName (chunk ++ [c]) (name ++ [c]) }

def stepParameterExtension (parser : Parser) (chunk name extension : Text) (i : Nat)
    (c : Option Char) : Result Parser :=
  if (c = none ∨ c = some '/') ∧ extension.length = 1 then
    refuse endpoint "Unexpected end of parameter file extension at character " i ""
  else
    match c with
    | none => .ok { parser with state := .parameterEnd chunk name extension }
    | some c =>
        if c = '/' then .ok { parser with state := .parameterEnd chunk name extension }
        else if c ≠ '.' ∧ !isAlnum c then
          refuse endpoint s!"Invalid character '{c}' at character " i
            ". File extensions must be alphanumeric."
        else .ok { parser with
          state := .parameterExtension (chunk ++ [c]) name (extension ++ [c]) }

def stepRegex (parser : Parser) (chunk : Text) (escaping : Bool) (c : Option Char) :
    Result Parser :=
  match c with
  | some c =>
      if escaping then .ok { parser with state := .regex (chunk ++ [c]) false }
      else if c = '\\' then .ok { parser with state := .regex (chunk ++ [c]) true }
      else if c = '/' then closeRegex
      else .ok { parser with state := .regex (chunk ++ [c]) false }
  -- an escape at the very end leaves the segment open, and it is dropped
  | none => if escaping then .ok { parser with state := .regex chunk false } else closeRegex
where
  closeRegex : Result Parser :=
    if engine.compiles (chunk.drop 5) then
      .ok { parser with
        state := .start
        matchers := parser.matchers ++ [.regex parser.carry.unnamedCounter chunk] }
    else .error (.standard .regexError)

/-- The matcher of a parameter whose end has been seen. -/
def pushParameter (parser : Parser) (chunk name extension : Text) : Result Parser :=
  match parameterMatcher parser.carry.type chunk name extension with
  | .error fault => .error fault
  | .ok matcher => .ok { parser with state := .start, matchers := parser.matchers ++ [matcher] }

def step (parser : Parser) (i : Nat) (c : Option Char) : Result Parser :=
  match parser.state with
  | .start => .ok (parser.stepStart c)
  | .literal chunk => .ok (parser.stepLiteral chunk c)
  | .parameterStart chunk => parser.stepParameterStart endpoint chunk i c
  | .parameterType chunk type => parser.stepParameterType endpoint chunk type i c
  | .parameterName chunk name => parser.stepParameterName endpoint chunk name i c
  | .parameterExtension chunk name extension =>
      parser.stepParameterExtension endpoint chunk name extension i c
  -- the parameter is pushed one character late, which then starts the next segment
  | .parameterEnd chunk name extension =>
      (parser.pushParameter chunk name extension).map fun parser => parser.stepStart c
  | .regex chunk escaping => parser.stepRegex engine chunk escaping c

/-- The loop from index `i` on, its last round behind the last character. -/
def loop : (i : Nat) → Text → Parser → Result Parser
  | i, [], parser => parser.step engine endpoint i none
  | i, c :: rest, parser => do
      let parser ← parser.step engine endpoint i (some c)
      loop (i + 1) rest parser

end Parser

def parseIntoMatchers : Result (List PathMatcher) := do
  let parser ← Parser.loop engine endpoint 0 endpoint .make
  match parser.state with
  | .parameterEnd chunk name extension => do
      let parser ← parser.pushParameter chunk name extension
      pure parser.matchers
  | _ => pure parser.matchers

/-- `MountPath::parse_endpoint`. -/
def parseEndpoint : Result (List PathMatcher) := parseIntoMatchers engine endpoint

end MountPath

end Liblw.Http
