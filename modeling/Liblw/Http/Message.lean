import Liblw.Http.Response

/-!
# Messages

What a reader of HTTP/1.1 takes a text for: a status line, header lines up to the first empty line,
and the body behind it. A line ends at the first line end; a field name ends at the first colon, and
the blanks around a field value are not part of it.
-/

namespace Liblw.Http

open HttpRequest

structure Message where
  status : Int
  reason : Text
  fields : List (Text × Text)
  body : Text
deriving DecidableEq

/-- The first line, and the text behind its end. -/
def cutLine (text : Text) : Option (Text × Text) :=
  (findLineEnd text).map fun length => (text.take length, text.drop (length + 2))

def isBlank (c : Char) : Bool := c = ' ' || c = '\t'

/-- The text without the blanks at both of its ends. -/
def trimBlanks (text : Text) : Text :=
  ((text.dropWhile isBlank).reverse.dropWhile isBlank).reverse

def decodeField (line : Text) : Option (Text × Text) :=
  match line.dropWhile (· ≠ ':') with
  | [] => none
  | _ :: value => some (line.takeWhile (· ≠ ':'), trimBlanks value)

def decodeStatus (line : Text) : Option (Int × Text) :=
  if HttpResponse.versionText.isPrefixOf line then
    let rest := line.drop HttpResponse.versionText.length
    let code := fromCharsInt64 (rest.takeWhile (· ≠ ' '))
    match code.rest, code.value, rest.dropWhile (· ≠ ' ') with
    | [], some status, _ :: reason => some (status, reason)
    | _, _, _ => none
  else none

/-- The fields up to the empty line, and the text behind it. A line takes at least its end, so that
there are no more rounds than characters. -/
def decodeFields : (rounds : Nat) → Text → Option (List (Text × Text) × Text)
  | 0, _ => none
  | rounds + 1, text =>
      (cutLine text).bind fun (line, rest) =>
        if line = [] then some ([], rest)
        else
          (decodeField line).bind fun field =>
            (decodeFields rounds rest).map fun (fields, body) => (field :: fields, body)

def decodeMessage (text : Text) : Option Message :=
  (cutLine text).bind fun (line, rest) =>
    (decodeStatus line).bind fun (status, reason) =>
      (decodeFields (rest.length + 1) rest).map fun (fields, body) => ⟨status, reason, fields, body⟩

/-- The text reads as this number. -/
def NumberText (text : Text) (number : Nat) : Prop :=
  text ≠ [] ∧ (∀ c ∈ text, isDigit c = true) ∧ Nat.ofDigitChars 10 text 0 = number

/-! ### The headers that were set -/

/-- The headers after the setters, in the order in which their names first came. -/
def setHeaders (setters : List HttpResponse.Setter) : HeadersView :=
  setters.foldl (fun headers setter =>
    match setter with
    | .header name value => headers.assign name value
    | _ => headers) []

/-- The header set of the message, with the length of the body where it was not set. -/
def finalHeaders (headers : HeadersView) (body : Text) : HeadersView :=
  if headers.contains HttpResponse.contentLengthName then headers
  else headers ++ [(HttpResponse.contentLengthName, Mime.integerText body.length)]

/-- The text decodes back to the status, the headers and the body. -/
def DecodesBack (text : Text) (status : Int) (reason : Text) (headers : HeadersView)
    (body : Text) : Prop :=
  ∃ fields, decodeMessage text = some ⟨status, reason, fields, body⟩ ∧
    fields.Perm (finalHeaders headers body) ∧
    (fields.Pairwise fun first second => sameName first.1 second.1 = false) ∧
    ∃ length, HeadersView.find fields HttpResponse.contentLengthName = some length ∧
      NumberText length body.length

/-- The parts keep to the separators that they are written between. -/
structure Framed (reason : Text) (headers : HeadersView) (body : Text) : Prop where
  reason : ¬ ['\r', '\n'] <:+: reason
  names : ∀ entry ∈ headers, ¬ ['\r', '\n'] <:+: entry.1 ∧ ':' ∉ entry.1
  values : ∀ entry ∈ headers, ¬ ['\r', '\n'] <:+: entry.2 ∧ trimBlanks entry.2 = entry.2
  length : ∀ length, headers.find HttpResponse.contentLengthName = some length →
    NumberText length body.length

end Liblw.Http
