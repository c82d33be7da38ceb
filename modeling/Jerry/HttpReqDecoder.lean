/-
`proto/http/HttpReqDecoder`: the request decoder over a receive buffer.  The
three parse functions and the loop around them are written as the source runs
them; what the source leaves undefined or throws is an explicit fault.
-/
import Jerry.BaseBuffer
import Jerry.HttpReq
import Jerry.Search

namespace Jerry

open CString Search Window

/-- `Decode` does not return: an `assert` fails, `map::at` throws
`std::out_of_range`, a byte outside the vector is read, or a loop never
ends. -/
inductive Fault where
  | assertion
  | outOfRange
  | outOfBounds
  | endless
deriving DecidableEq, Repr

/-- `HttpReqDecoder::State`. -/
inductive HttpReqDecoder.State where
  | expectRequestLine | expectHeaders | expectBody | parseFinished
deriving DecidableEq, Repr

/-- The source holds the buffer by reference. -/
structure HttpReqDecoder where
  req : HttpReq
  bodyMaxBytes : Nat
  state : HttpReqDecoder.State
  buffer : BaseBuffer
deriving DecidableEq

namespace HttpReqDecoder

abbrev sp : UInt8 := 32
abbrev colon : UInt8 := 58
abbrev cr : UInt8 := 13
abbrev lf : UInt8 := 10

def crlf : List UInt8 := [cr, lf]

def methodMap : List (List UInt8 × HttpReq.Method) :=
  [(bytes "GET", .get), (bytes "POST", .post), (bytes "HEAD", .head),
    (bytes "HEAD", .head), (bytes "HEAD", .head), (bytes "DELETE", .delete),
    (bytes "OPTIONS", .options), (bytes "TRACE", .trace)]

def versionMap : List (List UInt8 × HttpReq.HttpVersion) :=
  [(bytes "HTTP/1.0", .http10), (bytes "HTTP/1.1", .http11)]

/-- The constructor, with the default limit of 2 MB. -/
def init (buffer : BaseBuffer) : HttpReqDecoder :=
  ⟨.init, 2 * 1024 * 1024, .expectRequestLine, buffer⟩

def setBodyMaxBytes (d : HttpReqDecoder) (n : Nat) : HttpReqDecoder :=
  { d with bodyMaxBytes := n }

/-- Positions are offsets from `BeginOfReadable`.  `false` asks for more
bytes, after dropping everything when the start cannot be a method. -/
def parseRequestLine (d : HttpReqDecoder) :
    Except Fault (Bool × HttpReqDecoder) :=
  let readable := d.buffer.toStringView
  let sp1 := readable.idxOf sp
  if sp1 = readable.length then
    if d.buffer.readableBytes ≥ 7 then
      .ok (false, { d with buffer := d.buffer.dropAllBytes })
    else .ok (false, d)
  else
    match methodMap.lookup (readable.take sp1) with
    | none => .ok (false, { d with buffer := d.buffer.dropAllBytes })
    | some method =>
        let req := { d.req with method := method }
        let sp2 := sp1 + 1 + (readable.drop (sp1 + 1)).idxOf sp
        if sp2 = readable.length then .ok (false, { d with req := req })
        else
          let req := { req with requestUri := slice readable (sp1 + 1) sp2 }
          let eol := sp2 + 1 + search crlf (readable.drop (sp2 + 1))
          if eol = readable.length then .ok (false, { d with req := req })
          else
            match versionMap.lookup (slice readable (sp2 + 1) eol) with
            | none => .error .outOfRange
            | some version =>
                match d.buffer.dropBytesUntil
                    (d.buffer.readIdx + (eol + 2)) with
                | none => .error .endless
                | some buffer => .ok (true,
                    { d with
                      req := { req with version := version }
                      state := .expectHeaders
                      buffer := buffer })

/-- `*BeginOfReadable() == '\r' && *next(BeginOfReadable()) == '\n'`: the two
bytes are taken from memory, readable or not.  `none` reads outside the
vector. -/
def atEndOfHeaders : List UInt8 → Option Bool
  | [] => none
  | c :: rest =>
      if c = cr then rest.head?.map fun e => decide (e = lf) else some false

/-- One line of the form `name:value`, added unless its name is known. -/
def parseHeader (d : HttpReqDecoder) :
    Except Fault (Bool × HttpReqDecoder) :=
  let readable := d.buffer.toStringView
  let col := readable.idxOf colon
  if col = readable.length then .ok (false, d)
  else
    let eol := col + 1 + search crlf (readable.drop (col + 1))
    if eol = readable.length then .ok (false, d)
    else
      let name := readable.take col
      let valuePos := if readable[col + 1]? = some sp then col + 2 else col + 1
      let value := slice readable valuePos eol
      match d.buffer.dropBytesUntil (d.buffer.readIdx + (eol + 2)) with
      | none => .error .endless
      | some buffer => .ok (true,
          { d with
            req := { d.req with headers := d.req.headers.emplace name value }
            buffer := buffer })

/-- The `while (true)` of `ParseHeaders`, watched for `fuel` rounds. -/
def parseHeadersLoop : Nat → HttpReqDecoder →
    Except Fault (Bool × HttpReqDecoder)
  | 0, _ => .error .endless
  | fuel + 1, d =>
      match atEndOfHeaders d.buffer.memory with
      | none => .error .outOfBounds
      | some true => .ok (true,
          { d with buffer := d.buffer.dropBytes 2, state := .expectBody })
      | some false =>
          match parseHeader d with
          | .error fault => .error fault
          | .ok (false, d) => .ok (false, d)
          | .ok (true, d) => parseHeadersLoop fuel d

/-- Every line takes at least two bytes off the buffer. -/
def parseHeaders (d : HttpReqDecoder) : Except Fault (Bool × HttpReqDecoder) :=
  parseHeadersLoop (d.buffer.readableBytes + 1) d

/-- Whatever is readable is the body, up to the limit; the rest is dropped. -/
def parseBody (d : HttpReqDecoder) : HttpReqDecoder :=
  let maxSize := min d.buffer.readableBytes d.bodyMaxBytes
  let truncated := d.req.isBodyTruncated || decide (maxSize > d.bodyMaxBytes)
  { d with
    req := { d.req with
      isBodyTruncated := truncated
      body := d.buffer.toStringView.take maxSize }
    state := .parseFinished
    buffer := d.buffer.dropAllBytes }

/-- The `while (true)` of `Decode`, watched for `fuel` rounds. -/
def decodeLoop : Nat → HttpReqDecoder →
    Except Fault (Option HttpReq × HttpReqDecoder)
  | 0, _ => .error .endless
  | fuel + 1, d =>
      match d.state with
      | .expectRequestLine =>
          if d.req.headers.entries ≠ [] ∨ d.req.body ≠ [] then
            .error .assertion
          else
            match parseRequestLine d with
            | .error fault => .error fault
            | .ok (false, d) => .ok (none, d)
            | .ok (true, d) => decodeLoop fuel d
      | .expectHeaders =>
          match parseHeaders d with
          | .error fault => .error fault
          | .ok (false, d) => .ok (none, d)
          | .ok (true, d) => decodeLoop fuel d
      | .expectBody => decodeLoop fuel (parseBody d)
      | .parseFinished => .ok (some d.req,
          { d with state := .expectRequestLine, req := d.req.movedFrom })

/-- There are four states and none is entered twice in one call. -/
def decode (d : HttpReqDecoder) :
    Except Fault (Option HttpReq × HttpReqDecoder) :=
  decodeLoop 4 d

/-- One segment arrives and `Decode` is called once. -/
def feed (d : HttpReqDecoder) (segment : List UInt8) :
    Except Fault (Option HttpReq × HttpReqDecoder) :=
  decode { d with buffer := d.buffer.append segment }

/-- One segment after the other, with what each call returned. -/
def feedAll (d : HttpReqDecoder) :
    List (List UInt8) → Except Fault (List (Option HttpReq) × HttpReqDecoder)
  | [] => .ok ([], d)
  | segment :: segments =>
      match feed d segment with
      | .error fault => .error fault
      | .ok (out, d) =>
          match feedAll d segments with
          | .error fault => .error fault
          | .ok (outs, d) => .ok (out :: outs, d)

end HttpReqDecoder

end Jerry
