/-
The wire form of an HTTP request head: the request line, the header lines and
the empty line.  A value of these types satisfies the grammar the decoder's
comments state, so every theorem about one is about well-formed input.
-/
import Jerry.HttpReqDecoder
import Mathlib.Data.Bool.AllAny

namespace Jerry

open CString HttpReqDecoder

/-- A header field whose name and value contain none of the bytes that end
them. -/
structure HeaderLine where
  name : List UInt8
  value : List UInt8
  name_clean : ∀ c ∈ name, c ≠ colon ∧ c ≠ cr ∧ c ≠ lf
  value_clean : ∀ c ∈ value, c ≠ cr ∧ c ≠ lf

namespace HeaderLine

/-- A check of every byte. -/
theorem clean {p : UInt8 → Prop} [DecidablePred p] {l : List UInt8}
    (h : (l.all fun c => decide (p c)) = true) : ∀ c ∈ l, p c :=
  List.all_iff_forall_prop.mp h

def host : HeaderLine :=
  ⟨bytes "Host", bytes "a", clean (by decide), clean (by decide)⟩

/-- `name: value` CRLF. -/
def wire (h : HeaderLine) : List UInt8 :=
  h.name ++ colon :: sp :: h.value ++ crlf

/-- The lines one after the other. -/
def wires (hs : List HeaderLine) : List UInt8 :=
  hs.flatMap wire

@[simp] theorem wires_nil : wires [] = [] := rfl

@[simp] theorem wires_cons (h : HeaderLine) (hs : List HeaderLine) :
    wires (h :: hs) = h.wire ++ wires hs := rfl

@[simp] theorem wires_append (hs ks : List HeaderLine) :
    wires (hs ++ ks) = wires hs ++ wires ks := by
  simp [wires]

theorem wire_length (h : HeaderLine) :
    h.wire.length = h.name.length + h.value.length + 4 := by
  simp only [wire, crlf, List.length_append, List.length_cons, List.length_nil]
  omega

theorem length_le_wires_length (hs : List HeaderLine) :
    hs.length ≤ (wires hs).length := by
  induction hs with
  | nil => exact Nat.le_refl _
  | cons h hs ih =>
      have hwire := h.wire_length
      rw [wires_cons, List.length_append, List.length_cons]
      omega

/-- The map the decoder builds from the lines, in the order they come. -/
def addAll (hs : List HeaderLine) (m : HttpReq.Headers) : HttpReq.Headers :=
  hs.foldl (fun m h => m.emplace h.name h.value) m

theorem addAll_append (hs ks : List HeaderLine) (m : HttpReq.Headers) :
    addAll (hs ++ ks) m = addAll ks (addAll hs m) := by
  simp [addAll]

end HeaderLine

open HeaderLine

/-- `HTTP-Version`, as `version_map` spells it. -/
def versionStr : HttpReq.HttpVersion → List UInt8
  | .http10 => bytes "HTTP/1.0"
  | .http11 => bytes "HTTP/1.1"

theorem versionMap_lookup (version : HttpReq.HttpVersion) :
    versionMap.lookup (versionStr version) = some version := by
  cases version <;> decide

theorem cr_not_mem_versionStr (version : HttpReq.HttpVersion) :
    cr ∉ versionStr version := by
  cases version <;> decide

/-- A request without its body. -/
structure RequestHead where
  methodStr : List UInt8
  method : HttpReq.Method
  uri : List UInt8
  version : HttpReq.HttpVersion
  headers : List HeaderLine
  method_known : methodMap.lookup methodStr = some method
  uri_no_space : sp ∉ uri

namespace RequestHead

/-- Method SP Request-URI SP HTTP-Version CRLF. -/
def requestLine (q : RequestHead) : List UInt8 :=
  q.methodStr ++ sp :: q.uri ++ sp :: versionStr q.version ++ crlf

/-- The request line, the header lines and the empty line. -/
def wire (q : RequestHead) : List UInt8 :=
  q.requestLine ++ wires q.headers ++ crlf

/-- The request the decoder should hand out for a head and a body. -/
def toReq (q : RequestHead) (body : List UInt8) (truncated : Bool) : HttpReq :=
  { body := body
    requestUri := q.uri
    headers := addAll q.headers .empty
    method := q.method
    version := q.version
    isBodyTruncated := truncated }

/-- A `GET` of HTTP/1.1. -/
def get (uri : List UInt8) (headers : List HeaderLine)
    (uri_no_space : sp ∉ uri) : RequestHead :=
  { methodStr := bytes "GET"
    method := .get
    uri := uri
    version := .http11
    headers := headers
    method_known := rfl
    uri_no_space := uri_no_space }

/-- A `POST` of HTTP/1.1. -/
def post (uri : List UInt8) (headers : List HeaderLine)
    (uri_no_space : sp ∉ uri) : RequestHead :=
  { methodStr := bytes "POST"
    method := .post
    uri := uri
    version := .http11
    headers := headers
    method_known := rfl
    uri_no_space := uri_no_space }

theorem methodStr_mem (q : RequestHead) :
    (q.methodStr, q.method) ∈ methodMap := by
  obtain ⟨before, after, heq, _⟩ := List.lookup_eq_some_iff.mp q.method_known
  rw [heq]
  simp

/-- No method has a space, and only one is as long as the limit that
`ParseRequestLine` gives up at. -/
theorem methodStr_short (q : RequestHead) :
    sp ∉ q.methodStr ∧ q.methodStr.length ≤ 7 ∧
      (q.methodStr.length = 7 → q.method = .options) := by
  have hall : ∀ entry ∈ methodMap, sp ∉ entry.1 ∧ entry.1.length ≤ 7 ∧
      (entry.1.length = 7 → entry.2 = .options) := by decide
  exact hall _ q.methodStr_mem

theorem wire_ne_nil (q : RequestHead) : q.wire ≠ [] := by
  simp [wire, crlf]

end RequestHead

end Jerry
