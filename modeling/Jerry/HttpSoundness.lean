/-
The heads that are taken: when the bytes behind a returned request are a
sentence of the grammar, for any bytes and any segments.
-/
import Jerry.HttpGrammar

namespace Jerry

open CString Search Window HttpReqDecoder

namespace HttpReqDecoder

variable {d d' : HttpReqDecoder}

/-- A request line, header lines and the empty line, with neither CR nor LF in
the tokens, and the request they say. -/
structure Sentence (head : List UInt8) (req : HttpReq) (q : RequestHead)
    (lines : List FieldLine) : Prop where
  head : head = q.requestLine ++ FieldLine.wires lines ++ crlf
  methodStr : Clean q.methodStr
  uri : Clean q.uri
  version : Clean (versionStr q.version)
  names : ∀ l ∈ lines, Clean l.name
  method : req.method = q.method
  requestUri : req.requestUri = q.uri
  httpVersion : req.version = q.version
  headers : req.headers = FieldLine.addAll lines .empty

/-- The head is a sentence that says the request. -/
def Says (head : List UInt8) (req : HttpReq) : Prop :=
  ∃ q lines, Sentence head req q lines

/-- The bytes that have left the buffer from its front. -/
def taken (d d' : HttpReqDecoder) : List UInt8 :=
  d.buffer.toStringView.take
    (d.buffer.toStringView.length - d'.buffer.toStringView.length)

/-- What `ParseHeaders` takes as a part of the head. -/
def headersTaken (d : HttpReqDecoder) : List UInt8 :=
  match parseHeaders d with
  | .ok (_, d') => taken d d'
  | .error _ => []

/-- What a call of `Decode` takes as a part of the head: not what it drops as
garbage, and not the body. -/
def headTaken (d : HttpReqDecoder) : List UInt8 :=
  match d.state with
  | .expectRequestLine =>
      match parseRequestLine d with
      | .ok (true, d') => taken d d' ++ headersTaken d'
      | _ => []
  | .expectHeaders => headersTaken d
  | _ => []

/-- What the calls behind the segments take. -/
def headOf (d : HttpReqDecoder) : List (List UInt8) → List UInt8
  | [] => []
  | segment :: segments =>
      let received := { d with buffer := d.buffer.append segment }
      headTaken received ++
        match decode received with
        | .ok (_, d') => headOf d' segments
        | .error _ => []

/-- If a request line is readable, neither CR nor LF comes before its second
space, and the lines behind it are apart. -/
def LineApart (dead readable : List UInt8) : Prop :=
  let sp1 := readable.idxOf sp
  let sp2 := sp1 + 1 + (readable.drop (sp1 + 1)).idxOf sp
  let eol := sp2 + 1 + search crlf (readable.drop (sp2 + 1))
  sp1 ≠ readable.length → (methodMap.lookup (readable.take sp1)).isSome →
    sp2 ≠ readable.length → eol ≠ readable.length →
      Clean (slice readable (sp1 + 1) sp2) ∧
        LinesApart dead ((readable.drop (eol + 2)).length + 1)
          (readable.drop (eol + 2))

instance (dead readable : List UInt8) : Decidable (LineApart dead readable) :=
  inferInstanceAs (Decidable (_ → _ → _ → _ → _ ∧ _))

/-- The part of the head that the call will read is apart. -/
def PartApart (d : HttpReqDecoder) : Prop :=
  match d.state with
  | .expectRequestLine =>
      LineApart d.buffer.deadBytes d.buffer.toStringView
  | .expectHeaders =>
      LinesApart d.buffer.deadBytes (d.buffer.toStringView.length + 1)
        d.buffer.toStringView
  | _ => True

instance (d : HttpReqDecoder) : Decidable d.PartApart := by
  unfold PartApart
  split <;> infer_instance

/-- So is the part that each of the calls will read. -/
def PartsApart (d : HttpReqDecoder) : List (List UInt8) → Prop
  | [] => True
  | segment :: segments =>
      let received := { d with buffer := d.buffer.append segment }
      PartApart received ∧
        ∀ out d', decode received = .ok (out, d') → PartsApart d' segments

instance decidablePartsApart :
    ∀ (d : HttpReqDecoder) segments, Decidable (PartsApart d segments)
  | _, [] => isTrue trivial
  | d, segment :: segments =>
      match hdecode : decode { d with buffer := d.buffer.append segment } with
      | .error _ => decidable_of_iff
          (PartApart { d with buffer := d.buffer.append segment })
          (by simp [PartsApart, hdecode])
      | .ok (out, d') =>
          have := decidablePartsApart d' segments
          decidable_of_iff
            (PartApart { d with buffer := d.buffer.append segment } ∧
              PartsApart d' segments)
            (by simp [PartsApart, hdecode])

/-- Between two requests, with anything readable. -/
structure Waiting (d : HttpReqDecoder) : Prop where
  state : d.state = .expectRequestLine
  headers : d.req.headers = .empty
  body : d.req.body = []
  valid : d.buffer.Valid

theorem init_waiting {buffer : BaseBuffer} (hvalid : buffer.Valid) :
    (init buffer).Waiting :=
  ⟨rfl, rfl, rfl, hvalid⟩

section Unique

/-- The lines of a head and what ends it are determined, too. -/
theorem wires_cancel {lines lines' : List FieldLine} {last : List UInt8}
    (hlast : last.length ≤ 2)
    (h : FieldLine.wires lines ++ last = FieldLine.wires lines' ++ crlf) :
    lines = lines' ∧ last = crlf := by
  induction lines generalizing lines' with
  | nil =>
      cases lines' with
      | nil => exact ⟨rfl, h⟩
      | cons l lines' =>
          have hlength := congrArg List.length h
          have hline := l.wire_length
          simp only [FieldLine.wires_cons, FieldLine.wires_nil, List.nil_append,
            List.length_append] at hlength
          omega
  | cons l lines ih =>
      cases lines' with
      | nil =>
          have hlength := congrArg List.length h
          have hline := l.wire_length
          simp only [FieldLine.wires_cons, FieldLine.wires_nil, List.length_append,
            List.nil_append, crlf, List.length_cons, List.length_nil] at hlength
          omega
      | cons l' lines' =>
          simp only [FieldLine.wires_cons, List.append_assoc] at h
          obtain ⟨rfl, hrest⟩ := fieldLine_cancel h
          obtain ⟨rfl, rfl⟩ := ih hrest
          exact ⟨rfl, rfl⟩

/-- What was taken is a sentence if and only if its parts are clean. -/
theorem says_iff {q : RequestHead} {lines : List FieldLine} {last : List UInt8}
    {req : HttpReq} (hlast : last.length ≤ 2) (hmethod : req.method = q.method)
    (huri : req.requestUri = q.uri) (hversion : req.version = q.version)
    (hheaders : req.headers = FieldLine.addAll lines .empty) :
    Says (q.requestLine ++ FieldLine.wires lines ++ last) req ↔
      Clean q.uri ∧ (∀ l ∈ lines, Clean l.name) ∧ last = crlf := by
  constructor
  · rintro ⟨q', lines', h⟩
    have hhead := h.head
    rw [List.append_assoc, List.append_assoc] at hhead
    obtain ⟨_, huri', _, hrest⟩ := requestLine_cancel hhead
    obtain ⟨rfl, rfl⟩ := wires_cancel hlast hrest
    exact ⟨huri' ▸ h.uri, h.names, rfl⟩
  · rintro ⟨hclean, hnames, rfl⟩
    exact ⟨q, lines, rfl, methodStr_clean q, hclean, versionStr_clean _, hnames,
      hmethod, huri, hversion, hheaders⟩

end Unique

section Calls

variable {q : RequestHead} {head : List UInt8} {lines : List FieldLine}
  {out : Option HttpReq} {clean : Prop} {segments : List (List UInt8)}

/-- What has been taken of a head, and whether it is clean so far. -/
inductive SoFar (head : List UInt8) (clean : Prop) (d : HttpReqDecoder) : Prop
  | requestLine : d.Waiting → head = [] → clean → SoFar head clean d
  | headers (q : RequestHead) (lines : List FieldLine) :
      d.state = .expectHeaders → d.req.method = q.method →
      d.req.requestUri = q.uri → d.req.version = q.version →
      d.req.headers = FieldLine.addAll lines .empty → d.buffer.Valid →
      head = q.requestLine ++ FieldLine.wires lines →
      (clean ↔ Clean q.uri ∧ ∀ l ∈ lines, Clean l.name) → SoFar head clean d

/-- What a call that returns `out` makes of it. -/
def Result (head : List UInt8) (clean : Prop) :
    Option HttpReq → HttpReqDecoder → Prop
  | none, d => SoFar head clean d
  | some req, d => d.Waiting ∧ (Says head req ↔ clean)

theorem taken_eq {xs ys : List UInt8} (hd : d.buffer.toStringView = xs ++ ys)
    (hd' : d'.buffer.toStringView = ys) : taken d d' = xs := by
  rw [taken, hd, hd', List.length_append, Nat.add_sub_cancel, List.take_left]

theorem SoFar.append (h : SoFar head clean d) (segment : List UInt8) :
    SoFar head clean { d with buffer := d.buffer.append segment } := by
  cases h with
  | requestLine hd hhead hclean =>
      exact .requestLine ⟨hd.state, hd.headers, hd.body,
        BaseBuffer.append_valid hd.valid segment⟩ hhead hclean
  | headers q lines hstate hmethod huri hversion hheaders hvalid hhead hclean =>
      exact .headers q lines hstate hmethod huri hversion hheaders
        (BaseBuffer.append_valid hvalid segment) hhead hclean

/-- The lines up to the end of them, and the request they make. -/
theorem SoFar.decodeLoop_some {req : HttpReq} (fuel : Nat)
    (hstate : d.state = .expectHeaders) (h : SoFar head clean d)
    (hdecode : decodeLoop (fuel + 3) d = .ok (some req, d')) :
    d'.Waiting ∧ ∃ (q : RequestHead) (lines : List FieldLine) (last : List UInt8),
      head ++ headersTaken d = q.requestLine ++ FieldLine.wires lines ++ last ∧
      last.length ≤ 2 ∧ req.method = q.method ∧ req.requestUri = q.uri ∧
      req.version = q.version ∧ req.headers = FieldLine.addAll lines .empty ∧
      (clean ∧ LinesApart d.buffer.deadBytes (d.buffer.toStringView.length + 1)
          d.buffer.toStringView ↔
        Clean q.uri ∧ (∀ l ∈ lines, Clean l.name) ∧ last = crlf) := by
  cases h with
  | requestLine hd _ _ =>
      rw [hd.state] at hstate
      cases hstate
  | headers q lines _ hmethod huri hversion hheaders hvalid hhead hclean =>
      rw [HttpReqDecoder.decodeLoop_headers _ hstate] at hdecode
      split at hdecode
      · cases hdecode
      · cases hdecode
      · rename_i d₁ hloop
        have htaken : headersTaken d = taken d d₁ := by
          rw [headersTaken, hloop]
        obtain ⟨more, tail, hview, hreq, _, hview', _, hiff⟩ :=
          parseHeadersLoop_sound hvalid hloop
        obtain ⟨_, hstate'⟩ := parseHeadersLoop_trace hloop
        rw [decodeLoop_body fuel hstate'] at hdecode
        obtain ⟨hout, rfl⟩ := Prod.mk.inj (Except.ok.inj hdecode)
        obtain rfl := Option.some.inj hout
        have hidle := finished_idle d₁ (parseBody d₁).req
        have hsplit : d.buffer.toStringView =
            FieldLine.wires more ++ tail.take 2 ++ tail.drop 2 := by
          rw [List.append_assoc, List.take_append_drop]
          exact hview
        have hend : crlf <+: tail ↔ tail.take 2 = crlf :=
          List.prefix_iff_eq_take.trans eq_comm
        refine ⟨⟨hidle.state, hidle.headers, hidle.body, hidle.valid⟩, q,
          lines ++ more, tail.take 2, ?_, List.length_take_le 2 tail, ?_, ?_, ?_,
          ?_, ?_⟩
        · rw [htaken, taken_eq hsplit hview', hhead, FieldLine.wires_append]
          simp only [List.append_assoc]
        · simp only [parseBody, hreq, hmethod]
        · simp only [parseBody, hreq, huri]
        · simp only [parseBody, hreq, hversion]
        · simp only [parseBody, hreq, FieldLine.addAll_append, ← hheaders]
        · rw [BaseBuffer.toStringView_length hvalid, hiff, hclean,
            List.forall_mem_append, ← hend]
          simp [and_assoc]

/-- Header lines, and perhaps the end of them. -/
theorem SoFar.decodeLoop_headers (fuel : Nat)
    (hstate : d.state = .expectHeaders) (h : SoFar head clean d)
    (hdecode : decodeLoop (fuel + 3) d = .ok (out, d')) :
    Result (head ++ headersTaken d)
      (clean ∧ LinesApart d.buffer.deadBytes (d.buffer.toStringView.length + 1)
        d.buffer.toStringView) out d' := by
  cases out with
  | some req =>
      obtain ⟨hwaiting, q, lines, last, hhead, hlast, hmethod, huri, hversion,
        hheaders, hclean⟩ := h.decodeLoop_some fuel hstate hdecode
      refine ⟨hwaiting, ?_⟩
      rw [hhead, says_iff hlast hmethod huri hversion hheaders, hclean]
  | none =>
      cases h with
      | requestLine hd _ _ =>
          rw [hd.state] at hstate
          cases hstate
      | headers q lines _ hmethod huri hversion hheaders hvalid hhead hclean =>
          rw [HttpReqDecoder.decodeLoop_headers _ hstate] at hdecode
          rw [BaseBuffer.toStringView_length hvalid]
          split at hdecode
          · cases hdecode
          · rename_i d₁ hloop
            obtain ⟨_, rfl⟩ := Prod.mk.inj (Except.ok.inj hdecode)
            have htaken : headersTaken d = taken d d₁ := by
              rw [headersTaken, hloop]
            obtain ⟨more, tail, hview, hreq, hvalid', hview', _, hiff⟩ :=
              parseHeadersLoop_sound hvalid hloop
            obtain ⟨_, hstate'⟩ := parseHeadersLoop_trace hloop
            rw [htaken, taken_eq hview hview']
            refine .headers q (lines ++ more) (hstate'.trans hstate) ?_ ?_ ?_ ?_
              hvalid' ?_ ?_
            · rw [hreq]
              exact hmethod
            · rw [hreq]
              exact huri
            · rw [hreq]
              exact hversion
            · rw [hreq, FieldLine.addAll_append, ← hheaders]
            · rw [hhead, FieldLine.wires_append, List.append_assoc]
            · rw [hiff, hclean, List.forall_mem_append]
              simp [and_assoc]
          · rename_i d₁ hloop
            obtain ⟨_, hstate'⟩ := parseHeadersLoop_trace hloop
            rw [decodeLoop_body fuel hstate'] at hdecode
            cases hdecode

/-- No request line is found where one of its pieces is missing. -/
theorem parseRequestLine_waits (h : parseRequestLine d = .ok (false, d')) :
    LineApart d.buffer.deadBytes d.buffer.toStringView := by
  unfold parseRequestLine at h
  simp only at h
  intro hne1 hknown hne2 hne3
  rw [if_neg hne1] at h
  split at h
  · rename_i hunknown
    rw [hunknown] at hknown
    cases hknown
  · rw [if_neg hne2, if_neg hne3] at h
    split at h
    · cases h
    · rw [dropBytesUntil_add] at h
      cases h

theorem lineApart_requestLine {dead readable rest : List UInt8}
    (hview : readable = q.requestLine ++ rest) :
    LineApart dead readable ↔
      Clean q.uri ∧ LinesApart dead (rest.length + 1) rest := by
  obtain ⟨hsp1, hsp2, heol, hmethod, huri, _, hconsumed, hlen⟩ :=
    requestLine_positions q hview
  have hrest : readable.drop (q.methodStr.length + 1 + q.uri.length + 1 +
      (versionStr q.version).length + 2) = rest := by
    rw [hview, ← hconsumed, List.drop_left]
  simp only [LineApart, hsp1, hsp2, heol, hmethod, huri, q.method_known, hrest]
  constructor
  · intro h
    exact h (by omega) rfl (by omega) (by omega)
  · intro h _ _ _ _
    exact h

/-- A call finds no request line, or it goes on at the header lines, perhaps
behind the request line. -/
theorem SoFar.decode_cases (h : SoFar head clean d)
    (hdecode : HttpReqDecoder.decode d = .ok (out, d')) :
    (out = none ∧ SoFar (head ++ headTaken d) (clean ∧ PartApart d) d') ∨
    ∃ head' clean' d₁ fuel, SoFar head' clean' d₁ ∧ d₁.state = .expectHeaders ∧
      decodeLoop (fuel + 3) d₁ = .ok (out, d') ∧
      head ++ headTaken d = head' ++ headersTaken d₁ ∧
      (clean ∧ PartApart d ↔ clean' ∧ LinesApart d₁.buffer.deadBytes
        (d₁.buffer.toStringView.length + 1) d₁.buffer.toStringView) := by
  have hsame := h
  cases h with
  | headers q lines hstate _ _ _ _ _ _ _ =>
      refine Or.inr ⟨head, clean, d, 1, hsame, hstate, hdecode, ?_, ?_⟩
      · rw [headTaken, hstate]
      · rw [PartApart, hstate]
  | requestLine hd hhead hclean =>
      rw [headTaken, PartApart, hd.state]
      change decodeLoop (3 + 1) d = _ at hdecode
      rw [decodeLoop_requestLine 3 hd.state hd.headers hd.body] at hdecode
      simp only
      split at hdecode
      · cases hdecode
      · rename_i d₁ hline
        obtain ⟨rfl, rfl⟩ := Prod.mk.inj (Except.ok.inj hdecode)
        refine Or.inl ⟨rfl, ?_⟩
        rw [hline]
        rcases parseRequestLine_trace hline with
          ⟨_, hstate', hheaders', hbody', hbuffer⟩ | ⟨hfound, _⟩
        · refine .requestLine ⟨hstate'.trans hd.state,
            hheaders'.trans hd.headers, hbody'.trans hd.body, ?_⟩ ?_ ?_
          · rcases hbuffer with hbuffer | hbuffer
            · rw [hbuffer]
              exact hd.valid
            · rw [hbuffer]
              exact d.buffer.dropAllBytes_valid
          · rw [hhead]
            rfl
          · exact ⟨hclean, parseRequestLine_waits hline⟩
        · cases hfound
      · rename_i d₁ hline
        obtain ⟨q, rest, hview, rfl⟩ := parseRequestLine_sound hline
        obtain ⟨hvalid', hview'⟩ := afterRequestLine_view hd.valid hview
        have htaken : taken d (d.afterRequestLine q) = q.requestLine :=
          taken_eq hview hview'
        have hsofar : SoFar (head ++ q.requestLine) (clean ∧ Clean q.uri)
            (d.afterRequestLine q) := by
          refine .headers q [] rfl rfl rfl rfl hd.headers hvalid' ?_ ?_
          · rw [hhead, List.nil_append]
            exact (List.append_nil _).symm
          · simp [hclean]
        have hdead : (d.afterRequestLine q).buffer.deadBytes =
            d.buffer.deadBytes := rfl
        refine Or.inr ⟨_, _, _, 0, hsofar, rfl, hdecode, ?_, ?_⟩
        · rw [hline]
          simp only
          rw [htaken, List.append_assoc]
        · rw [hview', hdead, lineApart_requestLine hview, ← and_assoc]

/-- One call: the step lemma. -/
theorem SoFar.decode (h : SoFar head clean d)
    (hdecode : HttpReqDecoder.decode d = .ok (out, d')) :
    Result (head ++ headTaken d) (clean ∧ PartApart d) out d' := by
  rcases h.decode_cases hdecode with ⟨rfl, hnext⟩ |
    ⟨head', clean', d₁, fuel, hsofar, hstate, hloop, hhead, hclean⟩
  · exact hnext
  · have hresult := hsofar.decodeLoop_headers fuel hstate hloop
    rw [hhead]
    rwa [← hclean] at hresult

theorem feedAll_eq_nil (h : HttpReqDecoder.feedAll d segments = .ok ([], d')) :
    segments = [] ∧ d' = d := by
  cases segments with
  | nil => exact ⟨rfl, (Prod.mk.inj (Except.ok.inj h)).2.symm⟩
  | cons segment segments =>
      rw [HttpReqDecoder.feedAll] at h
      split at h
      · cases h
      · split at h
        · cases h
        · cases h

/-- A run that ends in a request, up to the call that returns it. -/
theorem SoFar.feedAll_last {req : HttpReq} {n : Nat} (h : SoFar head clean d)
    (hfeed : HttpReqDecoder.feedAll d segments =
      .ok (List.replicate n none ++ [some req], d')) :
    ∃ head' clean' d₁, SoFar head' clean' d₁ ∧
      HttpReqDecoder.decode d₁ = .ok (some req, d') ∧
      head ++ headOf d segments = head' ++ headTaken d₁ ∧
      (clean ∧ PartsApart d segments ↔ clean' ∧ PartApart d₁) := by
  induction segments generalizing d head clean n with
  | nil => simp [HttpReqDecoder.feedAll] at hfeed
  | cons segment segments ih =>
      rw [HttpReqDecoder.feedAll] at hfeed
      split at hfeed
      · cases hfeed
      · rename_i out d₁ hdecode
        have hresult := (h.append segment).decode hdecode
        split at hfeed
        · cases hfeed
        · rename_i outs d₂ hrest
          have hparts : (∀ out' d'', HttpReqDecoder.decode { d with
              buffer := d.buffer.append segment } = .ok (out', d'') →
                PartsApart d'' segments) ↔ PartsApart d₁ segments := by
            constructor
            · intro hall
              exact hall out d₁ hdecode
            · intro hnext out' d'' hagain
              obtain ⟨_, rfl⟩ := Prod.mk.inj
                (Except.ok.inj (hdecode.symm.trans hagain))
              exact hnext
          have hdecode' := hdecode
          rw [feed] at hdecode'
          rw [headOf, PartsApart, hparts]
          simp only [hdecode']
          cases n with
          | zero =>
              simp only [List.replicate_zero, List.nil_append, Except.ok.injEq,
                Prod.mk.injEq, List.cons.injEq] at hfeed
              obtain ⟨⟨rfl, rfl⟩, rfl⟩ := hfeed
              obtain ⟨rfl, rfl⟩ := feedAll_eq_nil hrest
              refine ⟨head, clean, _, h.append segment, hdecode, ?_, ?_⟩
              · rw [headOf, List.append_nil]
              · rw [PartsApart, and_true]
          | succ n =>
              simp only [List.replicate_succ, List.cons_append, Except.ok.injEq,
                Prod.mk.injEq, List.cons.injEq] at hfeed
              obtain ⟨⟨rfl, rfl⟩, rfl⟩ := hfeed
              have hrun := ih hresult hrest
              rw [← List.append_assoc, ← and_assoc]
              exact hrun

/-- A run that ends in a request. -/
theorem SoFar.feedAll {req : HttpReq} {n : Nat} (h : SoFar head clean d)
    (hfeed : HttpReqDecoder.feedAll d segments =
      .ok (List.replicate n none ++ [some req], d')) :
    d'.Waiting ∧ (Says (head ++ headOf d segments) req ↔
      clean ∧ PartsApart d segments) := by
  obtain ⟨head', clean', d₁, hlast, hdecode, hhead, hclean⟩ :=
    h.feedAll_last hfeed
  rw [hhead, hclean]
  exact hlast.decode hdecode

end Calls

/-- Whatever was readable before and however the bytes came, the head that was
taken for a returned request is a sentence that says it exactly when each call
found the tokens of the head in their own lines and the empty line among the
received bytes.  The decoder is between two requests again. -/
theorem says_iff_partsApart {segments : List (List UInt8)} {req : HttpReq}
    {n : Nat} (hd : d.Waiting)
    (hfeed : feedAll d segments =
      .ok (List.replicate n none ++ [some req], d')) :
    (Says (headOf d segments) req ↔ PartsApart d segments) ∧ d'.Waiting := by
  have hsofar : SoFar [] True d := .requestLine hd rfl trivial
  obtain ⟨hwaiting, hsaid⟩ := hsofar.feedAll hfeed
  rw [List.nil_append, true_and] at hsaid
  exact ⟨hsaid, hwaiting⟩

/-- A head in two segments, cut inside a line end, with an LF in a value. -/
theorem says_iff_partsApart_lines :
    let d := init (.ofSize 1024)
    let segments := [bytes "GET /a HTTP/1.1\r\nHost:a\r",
      bytes "\nX:  \n:\r\n\r\nbody"]
    ∃ req d', feedAll d segments = .ok ([none, some req], d') ∧
      Says (headOf d segments) req := by
  intro d segments
  have hrun : (feedAll d segments).toOption.map (fun r => r.1.map Option.isSome) =
      some [false, true] := by decide +kernel
  cases hfeed : feedAll d segments with
  | error fault =>
      rw [hfeed] at hrun
      cases hrun
  | ok r =>
      obtain ⟨outs, d'⟩ := r
      rw [hfeed] at hrun
      obtain ⟨out, _, rfl, hnone, hrest⟩ :=
        List.map_eq_cons_iff.mp (Option.some.inj hrun)
      obtain ⟨out', _, rfl, hsome, hnil⟩ := List.map_eq_cons_iff.mp hrest
      obtain rfl := List.map_eq_nil_iff.mp hnil
      obtain ⟨req, rfl⟩ := Option.isSome_iff_exists.mp hsome
      obtain rfl : out = none := by simpa using hnone
      exact ⟨req, d', rfl, (says_iff_partsApart (n := 1)
        (init_waiting (BaseBuffer.ofSize_valid _)) hfeed).1.mpr
          (by decide +kernel)⟩

/-- A head without a colon in its first line: the name takes the rest of the
line, the line end and the next name. -/
theorem says_iff_partsApart_merged :
    let segments := [bytes "GET / HTTP/1.1\r\nHost a\r\nX: 1\r\n\r\n"]
    ∃ req d', feedAll (init (.ofSize 1024)) segments = .ok ([some req], d') ∧
      req.headers.entries = [(bytes "Host a\r\nX", bytes "1")] ∧
      ¬ Says (headOf (init (.ofSize 1024)) segments) req := by
  intro segments
  have hrun : (feedAll (init (.ofSize 1024)) segments).toOption.map
      (fun r => r.1.map (Option.map fun req => req.headers.entries)) =
        some [some [(bytes "Host a\r\nX", bytes "1")]] := by decide +kernel
  cases hfeed : feedAll (init (.ofSize 1024)) segments with
  | error fault =>
      rw [hfeed] at hrun
      cases hrun
  | ok r =>
      obtain ⟨outs, d'⟩ := r
      rw [hfeed] at hrun
      obtain ⟨out, _, rfl, hsome, hnil⟩ :=
        List.map_eq_cons_iff.mp (Option.some.inj hrun)
      obtain rfl := List.map_eq_nil_iff.mp hnil
      obtain ⟨req, rfl, hentries⟩ := Option.map_eq_some_iff.mp hsome
      refine ⟨req, d', rfl, hentries, ?_⟩
      have hsofar : SoFar [] True (init (.ofSize 1024)) :=
        .requestLine (init_waiting (BaseBuffer.ofSize_valid _)) rfl trivial
      have hsaid := (hsofar.feedAll (n := 0) hfeed).2
      rw [List.nil_append, true_and] at hsaid
      rw [hsaid]
      decide +kernel

end HttpReqDecoder

end Jerry
