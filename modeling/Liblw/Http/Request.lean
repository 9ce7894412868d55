import Liblw.Http.Headers
import Liblw.Io.Reader

/-!
# Requests

`HttpRequest` reads the head of a request from its reader and takes it apart in place. The fields
are set one after the other, so that a head that turns out malformed leaves the request as far as it
had been read.

A `std::string` made from a buffer has the character of each byte. Positions are indices into the
view that a function is given.
-/

namespace Liblw.Http

open Liblw.Lib

/-- The characters of a buffer as a `std::string`. -/
def textOfBytes (bytes : List UInt8) : Text := bytes.map fun byte => Char.ofNat byte.toNat

structure HttpRequest where
  rawHeader : Text
  httpVersion : Text
  method : Text
  path : Text
  rawPath : Text
  headers : HeadersView
  queryParams : HeadersView
  routeParams : HeadersView
  contentLength : Int
deriving DecidableEq

namespace HttpRequest

def make : HttpRequest := ⟨[], [], [], [], [], [], [], [], -1⟩

def hasHeader (request : HttpRequest) (name : Text) : Bool := request.headers.contains name

/-- `content_length()`, which returns the signed field as a `std::size_t`. -/
def contentLengthSize (request : HttpRequest) : Nat := (request.contentLength % 2 ^ 64).toNat

/-! ### Scanning -/

section Scanning

variable {σ : Type}

def substr (text : Text) (start count : Nat) : Text := (text.drop start).take count

/-- `while (i < view.size() && wanted(view.at(i))) ++i;` -/
def passWhile (wanted : Char → Bool) (view : Text) (i : Nat) : Nat :=
  i + ((view.drop i).takeWhile wanted).length

def isNotSpace (c : Char) : Bool := !isSpace c

def isLineEnd (c : Char) : Bool := c = '\r' || c = '\n'

/-- The digits of `std::hex << (int)c` for a signed `char`. -/
def hexOfChar (c : Char) : String :=
  String.ofList (Nat.toDigits 16 (if c.toNat < 128 then c.toNat else 2 ^ 32 - 256 + c.toNat))

def checkIsSpace (header : Text) (i : Nat) : Call Fault σ Unit :=
  match header[i]? with
  | none => raise .invalidArgument s!"Unexpected end of input at position {i}; expected space."
  | some c =>
      if !isSpace c || isLineEnd c then
        let found := hexOfChar c
        raise .invalidArgument
          s!"Invalid character in request at position {i}. Found 0x{found}, expected space."
      else pure ()

def insertViewPairs (view : Text) (keyStart keyEnd valueStart valueEnd : Nat)
    (pairs : HeadersView) : HeadersView :=
  if keyEnd ≤ keyStart then pairs
  else if valueEnd ≤ valueStart then
    pairs.insert (substr view keyStart (keyEnd - keyStart)) []
  else
    pairs.insert (substr view keyStart (keyEnd - keyStart))
      (substr view valueStart (valueEnd - valueStart))

/-- The variables of the loop of `parse_query_params`. -/
structure QueryScan where
  parsingKey : Bool
  keyStart : Nat
  keyEnd : Nat
  valueStart : Nat

/-- The loop of `parse_query_params` from index `i` on, `rest` being the characters from there. -/
def parseQueryLoop (params : Text) : (i : Nat) → (rest : Text) → QueryScan → HeadersView →
    HeadersView
  | i, [], scan, pairs =>
      if scan.keyStart ≠ i then
        insertViewPairs params scan.keyStart scan.keyEnd scan.valueStart i pairs
      else pairs
  | i, c :: rest, scan, pairs =>
      let scan := if scan.parsingKey then
        { scan with keyEnd := i, valueStart := i + 1, parsingKey := c ≠ '=' } else scan
      if c = '&' then
        parseQueryLoop params (i + 1) rest ⟨true, i + 1, i + 1, i + 1⟩
          (insertViewPairs params scan.keyStart scan.keyEnd scan.valueStart i pairs)
      else parseQueryLoop params (i + 1) rest scan pairs

def parseQueryParams (params : Text) (pairs : HeadersView) : HeadersView :=
  parseQueryLoop params 0 params ⟨true, 0, 0, 0⟩ pairs

/-- `find("\r\n")`. -/
def findLineEnd : Text → Option Nat
  | '\r' :: '\n' :: _ => some 0
  | _ :: rest => (findLineEnd rest).map (· + 1)
  | [] => none

/-- The name and the value of a header line, and the view after it. -/
def parseHeaderLine (view : Text) : Call Fault σ ((Text × Text) × Text) :=
  let colonPos := passWhile (· ≠ ':') view 0
  let lineEnd := passWhile (fun c => !isLineEnd c) view 0
  if lineEnd < colonPos then
    raise .invalidArgument s!"Unexpected end of line at position {lineEnd}; expected ':'"
  else if view.length ≤ colonPos then
    raise .invalidArgument s!"Unexpected end of header at position {colonPos}"
  else
    let i := passWhile (fun c => isSpace c && !isLineEnd c) view (colonPos + 1)
    if view.length ≤ i then
      raise .invalidArgument s!"Unexpected end of header at position {i}"
    else
      match findLineEnd (view.drop i) with
      | none => raise .invalidArgument s!"Unexpected end of input at position {i}"
      | some length =>
          pure ((substr view 0 colonPos, substr view i length), view.drop (i + length + 2))

end Scanning

/-! ### The head -/

def parseMethodLine (header : Text) : Call Fault HttpRequest Nat := do
  let i := passWhile isNotSpace header 0
  checkIsSpace header i
  modify fun request => { request with method := substr header 0 i }
  -- the path ends at a blank or at its query
  let start := i + 1
  let stop := passWhile (fun c => isNotSpace c && c ≠ '?') header start
  let i := if header[stop]? = some '?' then passWhile isNotSpace header stop else stop
  checkIsSpace header i
  if header[stop]? = some '?' then
    modify fun request => { request with
      queryParams := parseQueryParams (substr header (stop + 1) (i - stop)) request.queryParams }
  modify fun request => { request with
    path := substr header start (stop - start)
    rawPath := substr header start (i - start) }
  let start := i + 1
  let i := passWhile isNotSpace header start
  if header.length ≤ i + 1 then
    raise .invalidArgument "Unexpected end of input after HTTP method line."
  else if header[i]? ≠ some '\r' ∨ header[i + 1]? ≠ some '\n' then
    raise .invalidArgument "Unexpected characters after HTTP version, expected \\r\\n."
  else
    modify fun request => { request with httpVersion := substr header start (i - start) }
    pure (i + 2)

/-- The loop over the header lines. A line takes at least three characters, so that it ends within
as many rounds as the view has characters. -/
def parseHeadersLoop : (rounds : Nat) → Text → Call Fault HttpRequest Unit
  | 0, _ => throw .diverged
  | rounds + 1, view =>
      if "\r\n".toList.isPrefixOf view then pure ()
      else do
        let ((name, value), rest) ← parseHeaderLine view
        modify fun request => { request with headers := request.headers.insert name value }
        parseHeadersLoop rounds rest

def parseHeaders (view : Text) : Call Fault HttpRequest Unit :=
  parseHeadersLoop (view.length + 1) view

def parseContentLength : Call Fault HttpRequest Unit := do
  let request ← get
  match request.headers.find "content-length".toList with
  | none => set { request with contentLength := 0 }
  | some text =>
      let parsed := fromCharsInt64 text
      let contentLength := parsed.value.getD request.contentLength
      set { request with contentLength }
      if parsed.rest ≠ [] ∨ contentLength < 0 then
        let shown := String.ofList text
        raise .invalidArgument
          s!"Invalid Content-Length \"{shown}\"; expected a positive integer."

/-- What `read_header` does with the text it has read. -/
def parseHead (rawHeader : Text) : Call Fault HttpRequest Unit := do
  modify fun request => { request with rawHeader }
  let methodLineEnd ← parseMethodLine rawHeader
  parseHeaders (rawHeader.drop methodLineEnd)
  parseContentLength

end HttpRequest

/-! ### Reading -/

/-- A request and the reader it is read from. -/
structure Exchange (σ : Type) where
  request : HttpRequest
  reader : Io.CoReader σ

namespace Exchange

variable {σ : Type} (flags : Io.ReadFlags) (allocator : Io.Allocator) (source : Io.Source σ)

def onRequest {α : Type} (call : Call Fault HttpRequest α) : Call Fault (Exchange σ) α :=
  call.within request fun request exchange => { exchange with request }

def onReader {α : Type} (call : Call Fault (Io.CoReader σ) α) : Call Fault (Exchange σ) α :=
  call.within reader fun reader exchange => { exchange with reader }

def headEnd : List UInt8 := [13, 10, 13, 10]

def readHeader : Call Fault (Exchange σ) Unit := do
  let exchange ← get
  if exchange.request.rawHeader ≠ [] then
    raise .failedPrecondition "Header already loaded."
  else
    let bytes ← onReader (Io.CoReader.readUntilString flags allocator source headEnd 0)
    onRequest (HttpRequest.parseHead (textOfBytes bytes))

def body : Call Fault (Exchange σ) (List UInt8) := do
  let exchange ← get
  let contentLength := exchange.request.contentLengthSize
  if contentLength = 0 then pure []
  else if 0 < contentLength then onReader (Io.CoReader.read flags allocator source contentLength)
  else raise .internal "Unsupported method of content body determination in request."

end Exchange

end Liblw.Http
