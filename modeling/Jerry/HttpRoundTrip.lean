/-
Decoding undoes the wire format: requests that arrive whole, one after the
other on one decoder, come out as they went in.
-/
import Jerry.HttpDecoding
import Mathlib.Data.List.Find

namespace Jerry

open CString HttpReqDecoder HeaderLine

/-- A request as its sender has it.  Header names are not empty and contain no
NUL. -/
structure Request where
  head : RequestHead
  body : List UInt8
  names : ∀ h ∈ head.headers, h.name ≠ [] ∧ 0 ∉ h.name

namespace Request

/-- The head, then the body. -/
def wire (r : Request) : List UInt8 :=
  r.head.wire ++ r.body

/-- The value of the first header line with that name, in any case. -/
def header (r : Request) (name : List UInt8) : Option (List UInt8) :=
  (r.head.headers.find? fun h => decide (EqualFold h.name name)).map
    HeaderLine.value

/-- What the handler of a request sees of it. -/
structure Matches (bodyMaxBytes : Nat) (r : Request) (req : HttpReq) :
    Prop where
  method : req.getMethod = r.head.method
  uri : req.getRequestUri = r.head.uri
  version : req.getVersion = r.head.version
  header : ∀ name, 0 ∉ name →
    req.getHeader (.ofString name) = r.header name
  body : req.getBody = r.body.take bodyMaxBytes

theorem addAll_eq_foldl (hs : List HeaderLine) (m : HttpReq.Headers) :
    addAll hs m = (hs.map fun h => (h.name, h.value)).foldl
      (fun m e => m.emplace e.1 e.2) m := by
  simp [addAll, List.foldl_map]

theorem toReq_getHeader (r : Request) (body : List UInt8) (truncated : Bool)
    {name : List UInt8} (hname : 0 ∉ name) :
    (r.head.toReq body truncated).getHeader (.ofString name) =
      r.header name := by
  have hkey : cStr (StringView.ofString name).data = name :=
    cStr_of_not_mem hname []
  have hfind : (r.head.headers.find? fun h => decide
      (OrderedMap.Equivalent CaseInsensitiveComparator h.name name)) =
      r.head.headers.find? fun h => decide (EqualFold h.name name) := by
    apply List.find?_congr
    intro h hmem
    have hiff := CaseInsensitiveComparator.equivalent_iff (r.names h hmem).2
      hname
    simp only [hiff]
  rw [HttpReq.getHeader, hkey, RequestHead.toReq, addAll_eq_foldl,
    OrderedMap.find?_foldl_emplace, OrderedMap.find?_empty, Option.none_or,
    List.find?_map, Option.map_map, header, ← hfind]
  rfl

theorem toReq_matches (r : Request) (n : Nat) (truncated : Bool) :
    r.Matches n (r.head.toReq (r.body.take n) truncated) where
  method := rfl
  uri := rfl
  version := rfl
  header _ hname := r.toReq_getHeader _ _ hname
  body := rfl

end Request

namespace HttpReqDecoder

variable {d : HttpReqDecoder}

/-- One whole request. -/
theorem feed_request (hidle : d.Idle) (r : Request) :
    ∃ req d', feed d r.wire = .ok (some req, d') ∧
      r.Matches d.bodyMaxBytes req ∧ d'.Idle ∧
      d'.bodyMaxBytes = d.bodyMaxBytes := by
  obtain ⟨d', hfeed, hidle', hmax, _⟩ :=
    feed_complete (hidle.awaiting r.head) (List.nil_append r.wire)
  exact ⟨_, d', hfeed, r.toReq_matches _ _, hidle', hmax⟩

/-- Every call returns the request it was given, no assertion fails, and the
decoder is idle again behind the last one. -/
theorem feedAll_requests (hidle : d.Idle) (rs : List Request) :
    ∃ reqs d', feedAll d (rs.map Request.wire) = .ok (reqs.map some, d') ∧
      List.Forall₂ (Request.Matches d.bodyMaxBytes) rs reqs ∧ d'.Idle := by
  induction rs generalizing d with
  | nil => exact ⟨[], d, rfl, .nil, hidle⟩
  | cons r rs ih =>
      obtain ⟨req, d₁, hfeed, hmatch, hidle₁, hmax⟩ := feed_request hidle r
      obtain ⟨reqs, d', hrest, hmatches, hidle'⟩ := ih hidle₁
      refine ⟨req :: reqs, d', ?_, .cons hmatch (hmax ▸ hmatches), hidle'⟩
      rw [List.map_cons, feedAll, hfeed]
      simp only [hrest, List.map_cons]

/-- Two requests; the second has a body that is cut, and a header that comes
twice. -/
theorem feedAll_requests_two :
    let r : Request := ⟨.get (bytes "/a") [.host] (by decide), [], by decide⟩
    let s : Request := ⟨.get (bytes "/b")
      [⟨bytes "x", bytes "1",
        HeaderLine.clean (by decide), HeaderLine.clean (by decide)⟩,
        ⟨bytes "X", bytes "2",
          HeaderLine.clean (by decide), HeaderLine.clean (by decide)⟩] (by decide),
      bytes "abc", by decide⟩
    ∃ reqs d', feedAll ((init (.ofSize 1024)).setBodyMaxBytes 2)
        [r.wire, s.wire] = .ok (reqs.map some, d') ∧
      List.Forall₂ (Request.Matches 2) [r, s] reqs := by
  intro r s
  have hidle : ((init (.ofSize 1024)).setBodyMaxBytes 2).Idle :=
    (init_idle (BaseBuffer.ofSize_valid _)
      (BaseBuffer.ofSize_toStringView _)).setBodyMaxBytes 2
  obtain ⟨reqs, d', hfeed, hmatches, _⟩ := feedAll_requests hidle [r, s]
  exact ⟨reqs, d', hfeed, hmatches⟩

end HttpReqDecoder

end Jerry
