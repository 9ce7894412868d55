import Liblw.Http.Conversation
import Liblw.Http.HeadText
import Liblw.Proof.ContentLength
import Liblw.Proof.ResponseFraming

/-!
# Requests as they are written

The text that a client sends for a request, and the request that is to be heard of it. Its words
have no blanks, its names no colons, and nothing in it ends a line.
-/

namespace Liblw.Http

open Liblw.Lib Serving

def IsWord (text : Text) : Prop := ∀ c ∈ text, isSpace c = false ∧ c.toNat < 256

def IsName (text : Text) : Prop :=
  text ≠ [] ∧ ∀ c ∈ text, (c ≠ ':' ∧ c ≠ '\r' ∧ c ≠ '\n') ∧ c.toNat < 256

def IsValue (text : Text) : Prop :=
  (∀ c ∈ text.head?, isSpace c = false) ∧ ∀ c ∈ text, (c ≠ '\r' ∧ c ≠ '\n') ∧ c.toNat < 256

instance : DecidablePred IsWord := fun text => inferInstanceAs (Decidable (∀ c ∈ text, _))
instance : DecidablePred IsName := fun _ => inferInstanceAs (Decidable (_ ∧ _))
instance : DecidablePred IsValue := fun _ => inferInstanceAs (Decidable (_ ∧ _))

def bytesOfText (text : Text) : List UInt8 := text.map fun c => UInt8.ofNat c.toNat

structure WrittenRequest where
  method : Text
  path : Text
  query : Option Text
  version : Text
  fields : List (Text × Text)
  isMethod : IsWord method
  isPath : IsWord path ∧ '?' ∉ path
  isQuery : ∀ text ∈ query, IsWord text
  isVersion : IsWord version
  areNames : ∀ field ∈ fields, IsName field.1
  areValues : ∀ field ∈ fields, IsValue field.2

namespace WrittenRequest

variable (written : WrittenRequest)

def target : Text := written.path ++ (written.query.elim [] fun query => '?' :: query)

def requestLine : Text :=
  written.method ++ ' ' :: (written.target ++ ' ' :: written.version)

def lines : List Text := written.requestLine :: written.fields.map fieldLine

def headText : Text := terminated written.lines ++ ['\r', '\n']

def head : List UInt8 := bytesOfText written.headText

/-- The parameters that the query writes. -/
def parameters : HeadersView := written.query.elim [] queryPairs

/-- No value of the query's last piece is taken over. -/
def QuerySafe : Prop := ∀ query ∈ written.query, LastPieceSafe query

/-- The request with its length. -/
def request (length : Int) : HttpRequest where
  rawHeader := written.headText
  httpVersion := written.version
  method := written.method
  path := written.path
  rawPath := written.target
  headers := insertAll written.fields
  queryParams := written.parameters
  routeParams := []
  contentLength := length

/-- The length that the fields announce, which is zero where they say nothing of it. -/
def Announces (length : Nat) : Prop :=
  match HeadersView.find written.fields "content-length".toList with
  | none => length = 0
  | some text => HttpRequest.IsLength text ∧ numeralValue text = length

end WrittenRequest

/-- What is thrown for a text that is no length. -/
def refusedLength (text : Text) : Result Unit :=
  let shown := String.ofList text
  raise .invalidArgument s!"Invalid Content-Length \"{shown}\"; expected a positive integer."

/-- A request that keeps the connection alive, with the body that it announces. -/
structure Letter where
  written : WrittenRequest
  body : List UInt8
  safe : written.QuerySafe
  keepsAlive : HeadersView.find written.fields connectionName = some "keep-alive".toList
  announces : written.Announces body.length

def Letter.bytes (letter : Letter) : List UInt8 := letter.written.head ++ letter.body

end Liblw.Http
