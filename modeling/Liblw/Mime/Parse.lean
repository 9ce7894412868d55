import Liblw.Mime.Token

/-!
# Reading JSON

`JSONParse` reads the characters once, from left to right, and keeps the containers that are still
open, the keys that wait for their value and the colons in between on one stack of tokens. A value
that is complete is on top of the stack for a moment; `_pop_top` moves it to where it belongs.

`str[i]` is never looked at below the current index, so the scanners take the text from their start
position on.
-/

namespace Liblw.Mime

/-- The `JSONToken` variant: a character, or a pointer to one of the three token classes. -/
inductive JSONToken where
  | char (c : Char)
  | value (token : DeserializationToken)

def isScalar : JSONToken → Bool
  | .value (.scalar _) => true
  | _ => false

def isListToken : JSONToken → Bool
  | .value (.list _) => true
  | _ => false

def isObjectToken : JSONToken → Bool
  | .value (.object _) => true
  | _ => false

/-- The stack, its top first, and the value of the whole document once it is complete. -/
structure JSONParse where
  tokenStack : List JSONToken
  finalValue : Option JSONToken

namespace JSONParse

def make : JSONParse := ⟨[], none⟩

def push (parse : JSONParse) (token : DeserializationToken) : JSONParse :=
  { parse with tokenStack := .value token :: parse.tokenStack }

/-! ### Scanners -/

/-- The index of the first quotation mark, `i` being the index of the text's first character. -/
def closingQuote : Nat → Text → Option Nat
  | _, [] => none
  | i, c :: rest =>
      if c = '\\' then closingQuote (i + 1) rest
      else if c = '"' then some i
      else closingQuote (i + 1) rest

def parseString (parse : JSONParse) (str : Text) (start : Nat) : Result (JSONParse × Nat) :=
  match closingQuote (start + 1) str.tail with
  | none =>
      let i := start + 1 + str.tail.length
      raise .invalidArgument
        s!"Unexpected end of input at character {i} in JSON string starting at character {start}"
  | some last =>
      .ok (parse.push (.scalar (.make .string (str.take (last - start + 1)))), last)

/-- The keyword at the front of the text with its type, and the text after it. -/
def keyword (str : Text) : Option (JSONScalarToken × Text) :=
  if "true".toList.isPrefixOf str then some (.make .boolean (str.take 4), str.drop 4)
  else if "false".toList.isPrefixOf str then some (.make .boolean (str.take 5), str.drop 5)
  else if "null".toList.isPrefixOf str then some (.make .nul (str.take 4), str.drop 4)
  else none

def parseKeyword (parse : JSONParse) (str : Text) (pos : Nat) : Result (JSONParse × Nat) :=
  match keyword str with
  | none => raise .invalidArgument s!"Unknown keyword at character {pos} in JSON."
  -- The character after the keyword is read also where the view has none.
  | some (_, []) => .error (.undefined .readPastView)
  | some (token, c :: rest) =>
      if isAlnum c || c = '_' then
        raise .invalidArgument s!"Unknown keyword at character {pos} in JSON."
      else
        .ok (parse.push (.scalar token), pos + (str.length - (rest.length + 1)) - 1)

/-- The loop over the digits and dots of a number: how many it passes, and whether one is a dot. -/
def scanNumber : (pos : Nat) → (float : Bool) → Text → Result (Nat × Bool)
  | pos, float, [] => .ok (pos, float)
  | pos, float, c :: rest =>
      if c = '.' then
        if float then
          raise .invalidArgument s!"Unexpected '.' at character {pos} in JSON number."
        else scanNumber (pos + 1) true rest
      else if isDigit c then scanNumber (pos + 1) float rest
      else .ok (pos, float)

/-- Where a number ends, from the character after its sign on, and whether it has a dot. -/
def numberEnd (pos : Nat) : Text → Result (Nat × Bool)
  | [] => raise .invalidArgument "Unexpected end of input to JSON parser."
  | c :: rest =>
      let next := pos + 1
      if c = '0' then
        if rest.head?.any isDigit then
          raise .invalidArgument
            s!"Unexpected digit at character {next} in JSON number. Expected '.' or end of number."
        else scanNumber next false rest
      else if isDigit c then scanNumber pos false (c :: rest)
      else raise .invalidArgument s!"Unexpected '{c}' at character {pos} in JSON number."

def parseNumber (parse : JSONParse) (str : Text) (start : Nat) : Result (JSONParse × Nat) :=
  let signed := str.head? = some '+' ∨ str.head? = some '-'
  let pos := if signed then start + 1 else start
  match numberEnd pos (str.drop (pos - start)) with
  | .error fault => .error fault
  | .ok (last, float) =>
      if str[last - 1 - start]? = some '.' then
        raise .invalidArgument s!"Unexpected end of number at character {last} in JSON."
      else
        let type := if float then JSONType.float else JSONType.integer
        .ok (parse.push (.scalar (.make type (str.take (last - start)))), last - 1)

/-! ### The stack -/

def tokenTypeName : JSONToken → String
  | .char c => String.singleton c
  | .value token => jsonTypeName token.type

/-- `JSONObjectToken::insert`. -/
def insert (elements : List (Text × DeserializationToken)) (key : Text)
    (value : DeserializationToken) : Result (List (Text × DeserializationToken)) :=
  if (elements.lookup key).isSome then
    let text := String.ofList key
    raise .failedPrecondition s!"Key {text} already added to object."
  else .ok (elements ++ [(key, value)])

/-- The last part of `_pop_top`: a value whose key and colon lie under it. -/
def popPair (parse : JSONParse) (rhs : DeserializationToken) (below : List JSONToken) (i : Nat) :
    Result JSONParse :=
  match below with
  | lhs :: .value (.object elements) :: rest =>
      match lhs with
      | .value (.scalar key) => do
          let elements ← insert elements key.token.tail.dropLast rhs
          pure { parse with tokenStack := .value (.object elements) :: rest }
      | _ => .error (.standard .badVariantAccess)
  | _ :: _ :: _ =>
      raise .invalidArgument
        s!"Unexpected key-value pair found at character {i}outside of JSON object."
  | _ => .error (.undefined .emptyStackTop)

def popTop (parse : JSONParse) (i : Nat) : Result JSONParse :=
  match parse.tokenStack with
  | [] => .error (.undefined .emptyStackTop)
  | [rhs] => .ok { parse with tokenStack := [], finalValue := some rhs }
  | .char c :: _ :: _ => raise .invalidArgument s!"Unexpected '{c}' at character {i} in JSON."
  | .value rhs :: .value (.object elements) :: rest =>
      if rhs.isString then
        .ok { parse with tokenStack := .value rhs :: .value (.object elements) :: rest }
      else
        let found := tokenTypeName (.value rhs)
        raise .invalidArgument
          s!"Unexpected {found} at character {i} in JSON map. Expected STRING key."
  | .value rhs :: .value (.list elements) :: rest =>
      .ok { parse with tokenStack := .value (.list (elements ++ [rhs])) :: rest }
  | .value rhs :: .char c :: rest =>
      if c = ':' then popPair parse rhs rest i
      else raise .unimplemented "_pop_top not fully implemented yet."
  | .value _ :: .value (.scalar _) :: _ =>
      raise .unimplemented "_pop_top not fully implemented yet."

/-! ### The loop over the input -/

/-- The check that `top()` is one of the wanted tokens, `top()` of an empty stack included. -/
def checkTop (parse : JSONParse) (wanted : JSONToken → Bool) (c : Char) (i : Nat) : Result Unit :=
  match parse.tokenStack with
  | [] => .error (.undefined .emptyStackTop)
  | top :: _ =>
      if wanted top then .ok ()
      else raise .invalidArgument s!"Unexpected '{c}' at character {i} in JSON."

/-- A closing bracket: its container is on top of the stack and complete. -/
def close (parse : JSONParse) (wanted : JSONToken → Bool) (c : Char) (i : Nat) :
    Result (JSONParse × Nat) :=
  match parse.checkTop wanted c i with
  | .error fault => .error fault
  | .ok () => (parse.popTop i).map (·, i)

/-- A scalar: its scanner has pushed it and tells where it ends. -/
def popScanned : Result (JSONParse × Nat) → Result (JSONParse × Nat)
  | .error fault => .error fault
  | .ok (parse, last) => (parse.popTop last).map (·, last)

/-- One round of the loop on a character that is no space: the new state, and the index that the
round leaves in `i`. `str` is the text from `i` on and `c` its first character. -/
def updateChar (parse : JSONParse) (c : Char) (str : Text) (i : Nat) : Result (JSONParse × Nat) :=
  if c = '{' then .ok (parse.push (.object []), i)
  else if c = '}' then parse.close isObjectToken c i
  else if c = '[' then .ok (parse.push (.list []), i)
  else if c = ']' then parse.close isListToken c i
  else if c = ':' then
    if parse.tokenStack.head?.any isScalar then
      .ok ({ parse with tokenStack := .char ':' :: parse.tokenStack }, i)
    else raise .invalidArgument s!"Unexpected ':' at character {i} in JSON."
  else if c = ',' then
    (parse.checkTop (fun top => isListToken top || isObjectToken top) c i).map fun _ => (parse, i)
  else if c = '"' then popScanned (parse.parseString str i)
  else if c = 't' ∨ c = 'f' ∨ c = 'n' then popScanned (parse.parseKeyword str i)
  else if c = '+' ∨ c = '-' ∨ isDigit c then popScanned (parse.parseNumber str i)
  else raise .invalidArgument s!"Unexpected '{c}' at character {i} in JSON."

/-- The loop of `update` from index `i` on. A scanner that has read ahead moves `i`; the characters
it has read are passed over, `skip` of them. -/
def updateLoop : (i skip : Nat) → Text → JSONParse → Result JSONParse
  | _, _, [], parse => .ok parse
  | i, skip + 1, _ :: rest, parse => updateLoop (i + 1) skip rest parse
  | i, 0, c :: rest, parse =>
      if isSpace c then updateLoop (i + 1) 0 rest parse
      else if parse.finalValue.isSome then
        raise .invalidArgument s!"Unexpected additional input after value at character {i} in JSON."
      else
        match parse.updateChar c (c :: rest) i with
        | .error fault => .error fault
        | .ok (parse, last) => updateLoop (i + 1) (last - i) rest parse

def update (parse : JSONParse) (str : Text) : Result (Option JSONToken) := do
  let parse ← updateLoop 0 0 str parse
  if parse.tokenStack ≠ [] then
    raise .invalidArgument "Unexpected end of input to JSON parser."
  pure parse.finalValue

end JSONParse

/-- `JSONDeserializationParser::parse`. -/
def parse (str : Text) : Result DeserializationToken := do
  match ← JSONParse.make.update str with
  | none => raise .invalidArgument "Unexpected end of input to JSON parser."
  | some (.char _) => raise .invalidArgument "Malformed JSON document."
  | some (.value token) => pure token

end Liblw.Mime
