/-
Every request comes from received bytes: whatever the bytes are and however they
are cut, the first request handed out has a method that stands in them.
-/
import Jerry.HttpDecoding
import Mathlib.Data.List.Infix

namespace Jerry

open CString Search HttpReqDecoder

namespace HttpReqDecoder

variable {d d' : HttpReqDecoder} {received : List UInt8}

theorem methodMap_options {name : List UInt8}
    (hname : methodMap.lookup name = some .options) :
    name = bytes "OPTIONS" := by
  obtain ⟨before, after, heq, _⟩ := List.lookup_eq_some_iff.mp hname
  have hall : ∀ entry ∈ methodMap, entry.2 = .options →
      entry.1 = bytes "OPTIONS" := by decide
  exact hall (name, .options) (by rw [heq]; simp) rfl

/-- The bytes contain the name of the method and the space behind it. -/
def Names (received : List UInt8) (method : HttpReq.Method) : Prop :=
  ∃ name, methodMap.lookup name = some method ∧ name ++ [sp] <:+: received

theorem Names.append {method : HttpReq.Method} (h : Names received method)
    (segment : List UInt8) : Names (received ++ segment) method := by
  obtain ⟨name, hname, hinfix⟩ := h
  exact ⟨name, hname, hinfix.trans (List.prefix_append _ _).isInfix⟩

/-- What any bytes at all can have led to since the decoder was idle: the
buffer holds the last of them, or a method was read from them. -/
inductive Traced (received : List UInt8) (d : HttpReqDecoder) : Prop where
  | requestLine :
      d.state = .expectRequestLine → d.req.headers = .empty →
      d.req.body = [] → d.buffer.Valid →
      d.buffer.toStringView <:+ received → Traced received d
  | headers :
      d.state = .expectHeaders → Names received d.req.method →
      Traced received d

theorem Traced.append (h : Traced received d) (segment : List UInt8) :
    Traced (received ++ segment)
      { d with buffer := d.buffer.append segment } := by
  cases h with
  | requestLine hstate hheaders hbody hvalid hview =>
      refine .requestLine hstate hheaders hbody
        (BaseBuffer.append_valid hvalid segment) ?_
      obtain ⟨before, rfl⟩ := hview
      refine ⟨before, ?_⟩
      change before ++ (d.buffer.append segment).toStringView = _
      rw [BaseBuffer.append_toStringView hvalid, List.append_assoc]
  | headers hstate hnames => exact .headers hstate (hnames.append segment)

/-- `ParseRequestLine` on any bytes: the buffer is kept or emptied when it asks
for more, and a method is named when it goes on. -/
theorem parseRequestLine_trace {found : Bool}
    (hparse : parseRequestLine d = .ok (found, d')) :
    (found = false ∧ d'.state = d.state ∧ d'.req.headers = d.req.headers ∧
      d'.req.body = d.req.body ∧
      (d'.buffer = d.buffer ∨ d'.buffer = d.buffer.dropAllBytes)) ∨
    (found = true ∧ d'.state = .expectHeaders ∧
      Names d.buffer.toStringView d'.req.method) := by
  unfold parseRequestLine at hparse
  simp only at hparse
  split at hparse
  · split at hparse <;> cases hparse <;> simp
  · rename_i hspace
    split at hparse
    · cases hparse
      simp
    · rename_i method hmethod
      split at hparse
      · cases hparse
        simp
      · split at hparse
        · cases hparse
          simp
        · split at hparse
          · cases hparse
          · split at hparse
            · cases hparse
            · cases hparse
              refine Or.inr ⟨rfl, rfl, _, hmethod, ?_⟩
              exact (take_idxOf_of_front hspace).isInfix

theorem parseHeader_trace {found : Bool}
    (hparse : parseHeader d = .ok (found, d')) :
    d'.state = d.state ∧ d'.req.method = d.req.method := by
  unfold parseHeader at hparse
  simp only at hparse
  split at hparse
  · cases hparse
    exact ⟨rfl, rfl⟩
  · split at hparse
    · cases hparse
      exact ⟨rfl, rfl⟩
    · split at hparse
      · cases hparse
      · cases hparse
        exact ⟨rfl, rfl⟩

theorem parseHeadersLoop_trace {fuel : Nat} {found : Bool}
    (hparse : parseHeadersLoop fuel d = .ok (found, d')) :
    d'.req.method = d.req.method ∧
      d'.state = if found then .expectBody else d.state := by
  induction fuel generalizing d with
  | zero => cases hparse
  | succ fuel ih =>
      rw [parseHeadersLoop] at hparse
      split at hparse
      · cases hparse
      · cases hparse
        exact ⟨rfl, rfl⟩
      · split at hparse
        · cases hparse
        · rename_i hheader
          cases hparse
          obtain ⟨hstate, hmethod⟩ := parseHeader_trace hheader
          exact ⟨hmethod, hstate⟩
        · rename_i hheader
          obtain ⟨hstate, hmethod⟩ := parseHeader_trace hheader
          obtain ⟨hmethod', hstate'⟩ := ih hparse
          exact ⟨hmethod'.trans hmethod, hstate ▸ hstate'⟩

/-- What a call leaves behind: a trace of the bytes, or a request whose method
they name. -/
def TracedResult (received : List UInt8) :
    Option HttpReq × HttpReqDecoder → Prop
  | (none, d) => Traced received d
  | (some req, _) => Names received req.method

theorem decodeLoop_headers_trace {fuel : Nat}
    {result : Option HttpReq × HttpReqDecoder}
    (hstate : d.state = .expectHeaders) (hnames : Names received d.req.method)
    (hdecode : decodeLoop (fuel + 3) d = .ok result) :
    TracedResult received result := by
  rw [decodeLoop_headers _ hstate] at hdecode
  split at hdecode
  · cases hdecode
  · rename_i hheaders
    cases hdecode
    obtain ⟨hmethod, hstate'⟩ := parseHeadersLoop_trace hheaders
    exact Traced.headers (hstate'.trans hstate) (hmethod ▸ hnames)
  · rename_i hheaders
    obtain ⟨hmethod, hstate'⟩ := parseHeadersLoop_trace hheaders
    rw [decodeLoop_body fuel hstate'] at hdecode
    cases hdecode
    change Names received (parseBody _).req.method
    exact hmethod ▸ hnames

theorem decode_trace {result : Option HttpReq × HttpReqDecoder}
    (h : Traced received d) (hdecode : decode d = .ok result) :
    TracedResult received result := by
  cases h with
  | requestLine hstate hheaders hbody hvalid hview =>
      change decodeLoop (3 + 1) d = _ at hdecode
      rw [decodeLoop_requestLine 3 hstate hheaders hbody] at hdecode
      split at hdecode
      · cases hdecode
      · rename_i hline
        cases hdecode
        rcases parseRequestLine_trace hline with
          ⟨_, hstate', hheaders', hbody', hbuffer⟩ | ⟨hfound, _⟩
        · refine .requestLine (hstate'.trans hstate) (hheaders'.trans hheaders)
            (hbody'.trans hbody) ?_ ?_
          · rcases hbuffer with hbuffer | hbuffer <;> rw [hbuffer]
            · exact hvalid
            · exact d.buffer.dropAllBytes_valid
          · rcases hbuffer with hbuffer | hbuffer <;> rw [hbuffer]
            · exact hview
            · rw [BaseBuffer.dropAllBytes_toStringView]
              exact List.nil_suffix
        · cases hfound
      · rename_i hline
        rcases parseRequestLine_trace hline with
          ⟨hfound, _⟩ | ⟨_, hstate', name, hname, hinfix⟩
        · cases hfound
        · exact @decodeLoop_headers_trace _ _ 0 _ hstate'
            ⟨name, hname, hinfix.trans hview.isInfix⟩ hdecode
  | headers hstate hnames =>
      exact @decodeLoop_headers_trace _ _ 1 _ hstate hnames hdecode

/-- The first request handed out has a method that the bytes name. -/
theorem feedAll_trace {segments : List (List UInt8)} {req : HttpReq} {n : Nat}
    (h : Traced received d)
    (hfeed : feedAll d segments =
      .ok (List.replicate n none ++ [some req], d')) :
    Names (received ++ segments.flatten) req.method := by
  induction segments generalizing d received n with
  | nil => simp [feedAll] at hfeed
  | cons segment segments ih =>
      rw [feedAll] at hfeed
      split at hfeed
      · cases hfeed
      · rename_i out d₁ hdecode
        split at hfeed
        · cases hfeed
        · rename_i outs d₂ hrest
          have hresult := decode_trace (h.append segment) hdecode
          rw [List.flatten_cons, ← List.append_assoc]
          cases n with
          | zero =>
              simp only [List.replicate_zero, List.nil_append, Except.ok.injEq,
                Prod.mk.injEq, List.cons.injEq] at hfeed
              obtain ⟨⟨rfl, _⟩, _⟩ := hfeed
              exact hresult.append _
          | succ n =>
              simp only [List.replicate_succ, List.cons_append, Except.ok.injEq,
                Prod.mk.injEq, List.cons.injEq] at hfeed
              obtain ⟨⟨rfl, rfl⟩, rfl⟩ := hfeed
              exact ih hresult hrest

end HttpReqDecoder

end Jerry
