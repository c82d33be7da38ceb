/-
`proto/http/HttpResp`: a response and its wire form.
-/
import Jerry.HttpReqDecoder

namespace Jerry

open CString HttpReqDecoder

structure HttpResp where
  headers : List (List UInt8 × List UInt8)
  statusCode : UInt16
  body : List UInt8
deriving DecidableEq, Repr

namespace HttpResp

def statusMap : List (UInt16 × List UInt8) :=
  [(100, bytes "Continue"), (101, bytes "Switching Protocols"),
    (200, bytes "OK"), (201, bytes "Created"), (202, bytes "Accepted"),
    (203, bytes "Non-Authoritative Information"), (204, bytes "No Content"),
    (205, bytes "Reset Content"), (206, bytes "Partial Content"),
    (300, bytes "Multiple Choices"), (301, bytes "Moved Permanently"),
    (302, bytes "Found"), (303, bytes "See Other"),
    (304, bytes "Not Modified"), (305, bytes "Use Proxy"),
    (307, bytes "Temporary Redirect"), (400, bytes "Bad Request"),
    (401, bytes "Unauthorized"), (402, bytes "Payment Required"),
    (403, bytes "Forbidden"), (404, bytes "Not Found"),
    (405, bytes "Method Not Allowed"), (406, bytes "Not Acceptable"),
    (407, bytes "Proxy Authentication Required"),
    (408, bytes "Request Time-out"), (409, bytes "Conflict"),
    (410, bytes "Gone"), (411, bytes "Length Required"),
    (412, bytes "Precondition Failed"),
    (413, bytes "Request Entity Too Large"),
    (414, bytes "Request-URI Too Large"),
    (415, bytes "Unsupported Media Type"),
    (416, bytes "Requested range not satisfiable"),
    (417, bytes "Expectation Failed"), (500, bytes "Internal Server Error"),
    (501, bytes "Not Implemented"), (502, bytes "Bad Gateway"),
    (503, bytes "Service Unavailable"), (504, bytes "Gateway Time-out"),
    (505, bytes "HTTP Version not supported")]

/-- `HttpResp resp`. -/
def init : HttpResp :=
  ⟨[], 200, []⟩

def setStatus (resp : HttpResp) (statusCode : UInt16) : HttpResp :=
  { resp with statusCode := statusCode }

/-- `multimap::emplace`: behind the entries whose key is not greater. -/
def emplace (name value : List UInt8) :
    List (List UInt8 × List UInt8) → List (List UInt8 × List UInt8)
  | [] => [(name, value)]
  | entry :: entries =>
      if name < entry.1 then (name, value) :: entry :: entries
      else entry :: emplace name value entries

/-- `target->second = value` for the first entry with that key. -/
def overwriteValue (name value : List UInt8) :
    List (List UInt8 × List UInt8) → List (List UInt8 × List UInt8)
  | [] => []
  | entry :: entries =>
      if entry.1 = name then (entry.1, value) :: entries
      else entry :: overwriteValue name value entries

/-- The key that is looked up ends at the first NUL, the one that is stored does
not. -/
def addHeader (resp : HttpResp) (name : StringView) (value : List UInt8)
    (multiple : Bool) : HttpResp :=
  let key := cStr name.data
  let found := resp.headers.any fun entry => decide (entry.1 = key)
  { resp with headers :=
      if !multiple && found then overwriteValue key value resp.headers
      else emplace name.chars value resp.headers }

def setContentType (resp : HttpResp) (contentType : List UInt8) : HttpResp :=
  resp.addHeader (.ofString (bytes "Content-Type")) contentType false

def setServer (resp : HttpResp) (serverName : List UInt8) : HttpResp :=
  resp.addHeader (.ofString (bytes "Server")) serverName false

def setRedirect (resp : HttpResp) (location : List UInt8) (statusCode : UInt16) :
    HttpResp :=
  { resp with statusCode := statusCode }.addHeader
    (.ofString (bytes "Location")) location false

def addEtag (resp : HttpResp) (etag : List UInt8) : HttpResp :=
  resp.addHeader (.ofString (bytes "Etag")) etag true

def setKeepAlive (resp : HttpResp) : HttpResp :=
  resp.addHeader (.ofString (bytes "Connection")) (bytes "keep-Alive") false

def setBody (resp : HttpResp) (body : List UInt8) : HttpResp :=
  { resp with body := body }

def appendBody (resp : HttpResp) (body : List UInt8) : HttpResp :=
  { resp with body := resp.body ++ body }

/-- What a handler can do to a response. -/
inductive Setter where
  | setStatus (statusCode : UInt16)
  | setContentType (contentType : List UInt8)
  | setServer (serverName : List UInt8)
  | setKeepAlive
  | addEtag (etag : List UInt8)
  | addHeader (name : StringView) (value : List UInt8) (multiple : Bool)
  | setRedirect (location : List UInt8) (statusCode : UInt16)
  | setBody (body : List UInt8)
  | appendBody (body : List UInt8)
deriving DecidableEq, Repr

def Setter.exec (resp : HttpResp) : Setter → HttpResp
  | .setStatus statusCode => resp.setStatus statusCode
  | .setContentType contentType => resp.setContentType contentType
  | .setServer serverName => resp.setServer serverName
  | .setKeepAlive => resp.setKeepAlive
  | .addEtag etag => resp.addEtag etag
  | .addHeader name value multiple => resp.addHeader name value multiple
  | .setRedirect location statusCode => resp.setRedirect location statusCode
  | .setBody body => resp.setBody body
  | .appendBody body => resp.appendBody body

/-- The response a handler leaves behind. -/
def build (calls : List Setter) : HttpResp :=
  calls.foldl Setter.exec init

/-- The value of the first entry with that key. -/
def getHeader (resp : HttpResp) (name : StringView) : Option (List UInt8) :=
  (resp.headers.find? fun entry => decide (entry.1 = cStr name.data)).map
    Prod.snd

def getContentLength (resp : HttpResp) : Nat :=
  resp.body.length

/-- The wire form at the time that `date` stands for.  A status code that the
table does not have makes `map::at` throw. -/
def toString (resp : HttpResp) (date : List UInt8) :
    Except Fault (List UInt8) :=
  match statusMap.lookup resp.statusCode with
  | none => .error .outOfRange
  | some reason => .ok
      (bytes "HTTP/1.1 " ++ toDecimal resp.statusCode.toNat ++ bytes " " ++
        reason ++ crlf ++
        (resp.headers.flatMap fun entry =>
          entry.1 ++ bytes ": " ++ entry.2 ++ crlf) ++
        bytes "Content-Length: " ++ toDecimal resp.getContentLength ++ crlf ++
        bytes "Date: " ++ date ++ crlf ++ crlf ++ resp.body)

end HttpResp

end Jerry
