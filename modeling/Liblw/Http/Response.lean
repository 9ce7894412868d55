import Liblw.Http.HeadText
import Liblw.Http.NameOrder
import Liblw.Mime.Render

/-!
# Responses

`HttpResponse` keeps what its setters are given as it is, and writes it out between separators.
-/

namespace Liblw.Http

structure HttpResponse where
  statusCode : Int32
  statusMessage : Text
  headers : HeaderMap
  body : Text
deriving DecidableEq

/-- The messages of `default_status_message`. -/
def statusMessages : List (Int × String) :=
  [(100, "Continue"), (101, "Switching Protocols"), (102, "Processing"), (103, "Early Hints"),
    (200, "OK"), (201, "Created"), (202, "Accepted"), (203, "Non-Authoritative Information"),
    (204, "No Content"), (205, "Reset Content"), (206, "Partial Content"), (207, "Multi-Status"),
    (208, "Already Reported"), (226, "IM Used"), (300, "Multiple Choices"),
    (301, "Moved Permanently"), (302, "Found"), (303, "See Other"), (304, "Not Modified"),
    (305, "Use Proxy"), (306, "Switch Proxy"), (307, "Temporary Redirect"),
    (308, "Permanent Redirect"), (400, "Bad Request"), (401, "Unauthorized"),
    (402, "Payment Required"), (403, "Forbidden"), (404, "Not Found"),
    (405, "Method Not Allowed"), (406, "Not Acceptable"), (407, "Proxy Authentication Required"),
    (408, "Request Timeout"), (409, "Conflict"), (410, "Gone"), (411, "Length Required"),
    (412, "Precondition Failed"), (413, "Payload Too Large"), (414, "URI Too Long"),
    (415, "Unsupported Media Type"), (416, "Range Not Satisfiable"), (417, "Expectation Failed"),
    (418, "I'm a teapot"), (421, "Misdirected Request"), (422, "Unprocessable Entity"),
    (423, "Locked"), (424, "Failed Dependency"), (425, "Too Early"), (426, "Upgrade Required"),
    (428, "Precondition Required"), (429, "Too Many Requests"),
    (431, "Request Header Fields Too Large"), (451, "Unavailable For Legal Reasons"),
    (500, "Internal Server Error"), (501, "Not Implemented"), (502, "Bad Gateway"),
    (503, "Service Unavailable"), (504, "Gateway Timeout"), (505, "HTTP Version Not Supported"),
    (506, "Variant Also Negotiates"), (507, "Insufficient Storage"), (508, "Loop Detected"),
    (510, "Not Extended"), (511, "Network Authentication Required")]

def defaultStatusMessage (code : Int32) : Result Text :=
  match statusMessages.lookup code.toInt with
  | some message => .ok message.toList
  | none => raise .invalidArgument s!"Invalid status code \"{code.toInt}\" for HTTP response."

namespace HttpResponse

def make : HttpResponse := ⟨0, [], .leaf, []⟩

def status (response : HttpResponse) : Int32 :=
  if response.statusCode = 0 then 200 else response.statusCode

def message (response : HttpResponse) : Result Text :=
  if response.statusMessage = [] then defaultStatusMessage response.status
  else .ok response.statusMessage

def hasHeader (response : HttpResponse) (name : Text) : Bool := response.headers.contains name

/-! ### The setters -/

def setStatus (response : HttpResponse) (code : Int32) : HttpResponse :=
  { response with statusCode := code, statusMessage := [] }

def setStatusMessage (response : HttpResponse) (code : Int32) (message : Text) : HttpResponse :=
  { response with statusCode := code, statusMessage := message }

def setHeader (response : HttpResponse) (name value : Text) : HttpResponse :=
  match response.headers.find caseInsensitiveLess name with
  | none => { response with headers := response.headers.insert caseInsensitiveLess name value }
  | some _ => { response with headers := response.headers.assign caseInsensitiveLess name value }

def setBody (response : HttpResponse) (body : Text) : HttpResponse := { response with body }

inductive Setter where
  | status (code : Int32)
  | statusMessage (code : Int32) (message : Text)
  | header (name value : Text)
  | body (text : Text)
deriving DecidableEq

def apply (response : HttpResponse) : Setter → HttpResponse
  | .status code => response.setStatus code
  | .statusMessage code message => response.setStatusMessage code message
  | .header name value => response.setHeader name value
  | .body text => response.setBody text

def applyAll (setters : List Setter) : HttpResponse := setters.foldl apply make

/-! ### Writing -/

def versionText : Text := "HTTP/1.1 ".toList

def contentLengthName : Text := "Content-Length".toList

/-- The header lines that are written, the last one only where it was not set. -/
def headerFields (response : HttpResponse) : List (Text × Text) :=
  response.headers.entries ++
    if response.hasHeader contentLengthName then []
    else [(contentLengthName, Mime.integerText response.body.length)]

/-- `serialize`, which is `operator<<` into a buffer. -/
def serialize (response : HttpResponse) : Result Text :=
  response.message.map fun message =>
    versionText ++ (Mime.integerText response.status.toInt ++ ' ' :: (message ++
      '\r' :: '\n' :: (headerLines response.headerFields ++ response.body)))

end HttpResponse

end Liblw.Http
