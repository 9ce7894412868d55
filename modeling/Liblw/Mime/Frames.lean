import Liblw.Mime.Parse

/-!
# The parser as a machine on frames

What `JSONParse` does with its stack, told in terms of the containers that are open. The text is cut
into lexemes, and each lexeme moves the innermost open container to its next stage. The machine
knows four answers to a lexeme: it goes on, the document is complete, the text is refused, or the
code has no proper answer at all. The last are the `Verdict.defect`s:

* a closing bracket or a comma while nothing is open;
* a keyword that is the end of the text, whose following character is read all the same;
* a value that is complete right after a key, before any colon;
* a second member with the key text of an earlier one.
-/

namespace Liblw.Mime

inductive Lexeme where
  | openObject
  | closeObject
  | openList
  | closeList
  | colon
  | comma
  | string (raw : Text)
  | scalar
  /-- A keyword with nothing behind it. -/
  | cut
  | malformed
deriving DecidableEq, Repr

/-- The lexeme of a text that starts like a keyword. -/
def keywordLexeme (str : Text) : Lexeme × Nat :=
  match JSONParse.keyword str with
  | none => (.malformed, 1)
  | some (_, []) => (.cut, 1)
  | some (_, d :: tail) =>
      if isAlnum d || d = '_' then (.malformed, 1) else (.scalar, str.length - (tail.length + 1))

/-- The lexeme of a text that starts like a number. -/
def numberLexeme (str : Text) : Lexeme × Nat :=
  match JSONParse.make.parseNumber str 0 with
  | .error _ => (.malformed, 1)
  | .ok (_, last) => (.scalar, last + 1)

/-- The lexeme at the front of a text and how many characters it takes. A string is told by the text
between its quotation marks. -/
def lexeme : Text → Lexeme × Nat
  | [] => (.malformed, 1)
  | c :: rest =>
      if c = '{' then (.openObject, 1)
      else if c = '}' then (.closeObject, 1)
      else if c = '[' then (.openList, 1)
      else if c = ']' then (.closeList, 1)
      else if c = ':' then (.colon, 1)
      else if c = ',' then (.comma, 1)
      else if c = '"' then
        match JSONParse.closingQuote 1 rest with
        | none => (.malformed, 1)
        | some last => (.string ((c :: rest).take (last + 1)).tail.dropLast, last + 1)
      else if c = 't' ∨ c = 'f' ∨ c = 'n' then keywordLexeme (c :: rest)
      else if c = '+' ∨ c = '-' ∨ isDigit c then numberLexeme (c :: rest)
      else (.malformed, 1)

/-- The lexemes of a text, blanks left out. `skip` characters belong to the lexeme before. -/
def lexemes : (skip : Nat) → Text → List Lexeme
  | _, [] => []
  | skip + 1, _ :: rest => lexemes skip rest
  | 0, c :: rest =>
      if isSpace c then lexemes 0 rest
      else (lexeme (c :: rest)).1 :: lexemes ((lexeme (c :: rest)).2 - 1) rest

/-- An open container. An object is told by the key texts of its members, and by the key that waits
for its value, before or after the colon. -/
inductive Frame where
  | list
  | object (keys : List Text)
  | key (keys : List Text) (key : Text)
  | member (keys : List Text) (key : Text)
deriving DecidableEq, Repr

inductive Verdict where
  | next (frames : List Frame)
  | complete
  | refused
  | defect
deriving DecidableEq, Repr

/-- A value is complete inside the given frames; `raw` is the text of a string. -/
def finishValue (raw : Option Text) : List Frame → Verdict
  | [] => .complete
  | .list :: frames => .next (.list :: frames)
  | .object keys :: frames =>
      match raw with
      | some key => .next (.key keys key :: frames)
      | none => .refused
  | .key _ _ :: _ => .defect
  | .member keys key :: frames =>
      if key ∈ keys then .defect else .next (.object (keys ++ [key]) :: frames)

def advance (frames : List Frame) : Lexeme → Verdict
  | .openObject => .next (.object [] :: frames)
  | .openList => .next (.list :: frames)
  | .closeObject =>
      match frames with
      | [] => .defect
      | .object _ :: frames => finishValue none frames
      | _ => .refused
  | .closeList =>
      match frames with
      | [] => .defect
      | .list :: frames => finishValue none frames
      | _ => .refused
  | .colon =>
      match frames with
      | .key keys key :: frames => .next (.member keys key :: frames)
      | _ => .refused
  | .comma =>
      match frames with
      | [] => .defect
      | .list :: frames => .next (.list :: frames)
      | .object keys :: frames => .next (.object keys :: frames)
      | _ => .refused
  | .string raw => finishValue (some raw) frames
  | .scalar => finishValue none frames
  | .cut => .defect
  | .malformed => .refused

/-- The machine meets no defect on its way through the lexemes. -/
def tame : List Frame → List Lexeme → Bool
  | _, [] => true
  | frames, lexeme :: rest =>
      match advance frames lexeme with
      | .next frames => tame frames rest
      | .complete => true
      | .refused => true
      | .defect => false

end Liblw.Mime
