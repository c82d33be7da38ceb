/-
One call of `Decode` in the middle of a request: where the decoder stands after
any number of received bytes, and what the next call does from there.
-/
import Jerry.HttpHeadParsing
import Mathlib.Data.List.Infix

namespace Jerry

open CString Search Window HttpReqDecoder HeaderLine

namespace HttpReqDecoder

variable {d : HttpReqDecoder} {q : RequestHead} {received body : List UInt8}

/-- Between two requests: nothing is buffered and `req` is clear. -/
structure Idle (d : HttpReqDecoder) : Prop where
  state : d.state = .expectRequestLine
  headers : d.req.headers = .empty
  body : d.req.body = []
  valid : d.buffer.Valid
  empty : d.buffer.toStringView = []

theorem init_idle {buffer : BaseBuffer} (hvalid : buffer.Valid)
    (hempty : buffer.toStringView = []) : (init buffer).Idle :=
  ⟨rfl, rfl, rfl, hvalid, hempty⟩

theorem Idle.setBodyMaxBytes (h : d.Idle) (n : Nat) :
    (d.setBodyMaxBytes n).Idle :=
  ⟨h.state, h.headers, h.body, h.valid, h.empty⟩

/-- After the bytes `received` of a request, the decoder waits either for the
rest of the request line or, with some header lines done, for the rest of the
header block. -/
inductive Awaiting (q : RequestHead) (received : List UInt8)
    (d : HttpReqDecoder) : Prop where
  | requestLine :
      d.state = .expectRequestLine → d.req.headers = .empty →
      d.req.body = [] → d.buffer.Valid →
      d.buffer.toStringView = received → Awaiting q received d
  | headers (done todo : List HeaderLine) :
      q.headers = done ++ todo → d.state = .expectHeaders →
      d.req = { q.toReq [] d.req.isBodyTruncated with
        headers := addAll done .empty } →
      d.buffer.Valid →
      received = q.requestLine ++ wires done ++ d.buffer.toStringView →
      Awaiting q received d

theorem Idle.awaiting (hd : d.Idle) (q : RequestHead) : Awaiting q [] d :=
  .requestLine hd.state hd.headers hd.body hd.valid hd.empty

/-- Bytes that arrive are waited for no longer. -/
theorem Awaiting.append (h : Awaiting q received d) (segment : List UInt8) :
    Awaiting q (received ++ segment)
      { d with buffer := d.buffer.append segment } := by
  cases h with
  | requestLine hstate hheaders hbody hvalid hview =>
      refine .requestLine hstate hheaders hbody
        (BaseBuffer.append_valid hvalid segment) ?_
      rw [← hview]
      exact BaseBuffer.append_toStringView hvalid segment
  | headers done todo hsplit hstate hreq hvalid hview =>
      refine .headers done todo hsplit hstate hreq
        (BaseBuffer.append_valid hvalid segment) ?_
      rw [hview, BaseBuffer.append_toStringView hvalid]
      simp only [List.append_assoc]

/-- The decoder after it handed out `req`. -/
def finished (d : HttpReqDecoder) (req : HttpReq) : HttpReqDecoder :=
  { d with
    req := req.movedFrom
    state := .expectRequestLine
    buffer := d.buffer.dropAllBytes }

theorem finished_idle (d : HttpReqDecoder) (req : HttpReq) :
    (d.finished req).Idle :=
  ⟨rfl, rfl, rfl, d.buffer.dropAllBytes_valid,
    d.buffer.dropAllBytes_toStringView⟩

theorem dropBytes_dropAllBytes (b : BaseBuffer) (n : Nat) :
    (b.dropBytes n).dropAllBytes = b.dropAllBytes := by
  unfold BaseBuffer.dropBytes
  split <;> rfl

/-- One round of the loop at the request line.  Between requests the two
assertions hold. -/
theorem decodeLoop_requestLine (fuel : Nat)
    (hstate : d.state = .expectRequestLine)
    (hheaders : d.req.headers = .empty) (hbody : d.req.body = []) :
    decodeLoop (fuel + 1) d =
      match parseRequestLine d with
      | .error fault => .error fault
      | .ok (false, d) => .ok (none, d)
      | .ok (true, d) => decodeLoop fuel d := by
  have hassert : ¬ (d.req.headers.entries ≠ [] ∨ d.req.body ≠ []) := by
    simp [hheaders, hbody, OrderedMap.empty]
  rw [decodeLoop, hstate]
  exact if_neg hassert

theorem decodeLoop_headers (fuel : Nat) (hstate : d.state = .expectHeaders) :
    decodeLoop (fuel + 1) d =
      match parseHeaders d with
      | .error fault => .error fault
      | .ok (false, d) => .ok (none, d)
      | .ok (true, d) => decodeLoop fuel d := by
  cases hparse : parseHeaders d with
  | error fault => simp [decodeLoop, hstate, hparse]
  | ok r =>
      obtain ⟨finished, d'⟩ := r
      cases finished with
      | false => simp [decodeLoop, hstate, hparse]
      | true => simp [decodeLoop, hstate, hparse]

/-- The rounds behind the headers always finish the request. -/
theorem decodeLoop_body (fuel : Nat) (hstate : d.state = .expectBody) :
    decodeLoop (fuel + 2) d =
      .ok (some (parseBody d).req, d.finished (parseBody d).req) := by
  rw [decodeLoop, hstate]
  rfl

/-- The body is cut at the limit, and the flag is never set. -/
theorem parseBody_req (hd : d.buffer.Valid) :
    (parseBody d).req = { d.req with
      body := d.buffer.toStringView.take d.bodyMaxBytes } := by
  have hflag : decide (min d.buffer.readableBytes d.bodyMaxBytes >
      d.bodyMaxBytes) = false :=
    decide_eq_false (Nat.not_lt.mpr (Nat.min_le_right _ _))
  have hbody : d.buffer.toStringView.take
      (min d.buffer.readableBytes d.bodyMaxBytes) =
      d.buffer.toStringView.take d.bodyMaxBytes := by
    rw [← BaseBuffer.toStringView_length hd, Nat.min_comm, ← List.take_take,
      List.take_length]
  simp only [parseBody, hflag, hbody, Bool.or_false]

/-- With the rest of the header block and a body readable, the remaining lines
are added, everything behind them is the body, and the request is handed
out. -/
theorem decodeLoop_headers_complete {todo : List HeaderLine} (fuel : Nat)
    (hd : d.buffer.Valid) (hstate : d.state = .expectHeaders)
    (hview : d.buffer.toStringView = wires todo ++ (crlf ++ body)) :
    let req := { d.req with
      headers := addAll todo d.req.headers
      body := body.take d.bodyMaxBytes }
    decodeLoop (fuel + 3) d = .ok (some req, d.finished req) := by
  have hheaders : parseHeaders d = .ok (true, _) :=
    parseHeadersLoop_complete hd hview
      (by rw [BaseBuffer.toStringView_length hd]; omega)
  have hadvance : (d.advance (wires todo).length).buffer.Valid :=
    advance_valid hd (by rw [hview, List.length_append]; omega)
  have hvalid : ((d.advance (wires todo).length).buffer.dropBytes 2).Valid :=
    BaseBuffer.dropBytes_valid hadvance 2
  have hrest : ((d.advance (wires todo).length).buffer.dropBytes 2).toStringView
      = body := by
    rw [BaseBuffer.dropBytes_toStringView hadvance, advance_toStringView, hview,
      List.drop_left]
    rfl
  intro req
  rw [decodeLoop_headers _ hstate, hheaders]
  simp only
  rw [decodeLoop_body fuel rfl, parseBody_req hvalid]
  simp only [hrest, finished, withReq, dropBytes_dropAllBytes]
  rfl

theorem afterRequestLine_view {rest : List UInt8} (hd : d.buffer.Valid)
    (hview : d.buffer.toStringView = q.requestLine ++ rest) :
    (d.afterRequestLine q).buffer.Valid ∧
      (d.afterRequestLine q).buffer.toStringView = rest := by
  refine ⟨advance_valid hd (by rw [hview, List.length_append]; omega), ?_⟩
  change (d.advance _).buffer.toStringView = rest
  rw [advance_toStringView, hview, List.drop_left]

/-- When the head is complete, the call hands out the request, with everything
behind the head as its body, and the decoder is idle again. -/
theorem decode_complete (h : Awaiting q (q.wire ++ body) d) :
    let req := q.toReq (body.take d.bodyMaxBytes) d.req.isBodyTruncated
    decode d = .ok (some req, d.finished req) := by
  intro req
  cases h with
  | requestLine hstate hheaders hbody hvalid hview =>
      have hsplit : d.buffer.toStringView =
          q.requestLine ++ (wires q.headers ++ (crlf ++ body)) := by
        rw [hview]
        simp [RequestHead.wire, List.append_assoc]
      obtain ⟨hvalid', hview'⟩ := afterRequestLine_view hvalid hsplit
      have hnext := decodeLoop_headers_complete 0 hvalid' rfl hview'
      change decodeLoop (3 + 1) d = _
      rw [decodeLoop_requestLine 3 hstate hheaders hbody,
        parseRequestLine_complete hsplit]
      change decodeLoop (0 + 3) (d.afterRequestLine q) = _
      rw [hnext]
      simp only [afterRequestLine, withReq, advance, hheaders]
      rfl
  | headers done todo hsplit hstate hreq hvalid hview =>
      have hrest : d.buffer.toStringView = wires todo ++ (crlf ++ body) := by
        have hwire : q.wire ++ body = q.requestLine ++ wires done ++
            (wires todo ++ (crlf ++ body)) := by
          simp [RequestHead.wire, hsplit, List.append_assoc]
        exact (List.append_cancel_left (hwire.symm.trans hview)).symm
      have hnext := decodeLoop_headers_complete 1 hvalid hstate hrest
      have hreq' : { d.req with
          headers := addAll todo d.req.headers
          body := body.take d.bodyMaxBytes } = req := by
        rw [hreq]
        simp only [RequestHead.toReq, req, hsplit, addAll_append]
      change decodeLoop (1 + 3) d = _
      rw [hnext, hreq']

/-- The ways of cutting a head after which the next call misreads it: behind
the one method name that is as long as the limit for garbage, and behind a line
end or the last CR when the memory that follows looks like the end of the
headers, or does not exist. -/
structure CutHarmless (q : RequestHead) (received dead : List UInt8) : Prop where
  method : ¬ (q.method = .options ∧ received.length = 7)
  line : ∀ done todo, q.headers = done ++ todo →
    received = q.requestLine ++ wires done → atEndOfHeaders dead = some false
  final : received = q.requestLine ++ wires q.headers ++ [cr] →
    atEndOfHeaders (cr :: dead) = some false

instance (q : RequestHead) (received dead : List UInt8) :
    Decidable (CutHarmless q received dead) :=
  decidable_of_iff
    (¬ (q.method = .options ∧ received.length = 7) ∧
      (∀ done ∈ q.headers.inits, received = q.requestLine ++ wires done →
        atEndOfHeaders dead = some false) ∧
      (received = q.requestLine ++ wires q.headers ++ [cr] →
        atEndOfHeaders (cr :: dead) = some false))
    ⟨fun h => ⟨h.1, fun done todo hsplit => h.2.1 done
        ((List.mem_inits done q.headers).mpr ⟨todo, hsplit.symm⟩), h.2.2⟩,
      fun h => ⟨h.method, fun done hdone =>
        let ⟨todo, hsplit⟩ := (List.mem_inits done q.headers).mp hdone
        h.line done todo hsplit.symm, h.final⟩⟩

/-- The header block is incomplete: the call takes the complete lines and asks
for more. -/
theorem decodeLoop_headers_incomplete {done todo : List HeaderLine}
    (fuel : Nat) (hsplit : q.headers = done ++ todo)
    (hd : d.buffer.Valid) (hstate : d.state = .expectHeaders)
    (hreq : d.req = { q.toReq [] d.req.isBodyTruncated with
      headers := addAll done .empty })
    (hview : received = q.requestLine ++ wires done ++ d.buffer.toStringView)
    (hfront : d.buffer.toStringView <+: wires todo ++ crlf)
    (hlt : d.buffer.toStringView.length < (wires todo ++ crlf).length)
    (hcut : CutHarmless q received d.buffer.deadBytes) :
    ∃ d', decodeLoop (fuel + 1) d = .ok (none, d') ∧ Awaiting q received d' ∧
      d'.bodyMaxBytes = d.bodyMaxBytes ∧
      d'.req.isBodyTruncated = d.req.isBodyTruncated := by
  have hfuel : d.buffer.toStringView.length < d.buffer.readableBytes + 1 := by
    rw [BaseBuffer.toStringView_length hd]
    omega
  obtain ⟨more, rest, rfl, hmore, hloop⟩ := parseHeadersLoop_incomplete
    hd hfront hlt hfuel
    (fun more rest heq hmore => hcut.line (done ++ more) rest
      (by rw [hsplit, heq, List.append_assoc])
      (by rw [hview, hmore, wires_append, List.append_assoc]))
    (fun hfinal => hcut.final
      (by rw [hview, hfinal, hsplit, wires_append]
          simp only [List.append_assoc]))
  have hheaders : parseHeaders d = .ok (false, _) := hloop
  obtain ⟨l, hl⟩ := hmore
  refine ⟨(d.advance (wires more).length).withReq
    { d.req with headers := addAll more d.req.headers },
    by rw [decodeLoop_headers fuel hstate, hheaders], ?_, rfl, rfl⟩
  refine .headers (done ++ more) rest (by rw [hsplit, List.append_assoc]) hstate
    ?_ (advance_valid hd (by rw [← hl, List.length_append]; omega)) ?_
  · change ({ d.req with headers := addAll more d.req.headers } : HttpReq) = _
    rw [hreq]
    simp only [RequestHead.toReq, withReq, addAll_append]
  · change received = q.requestLine ++ wires (done ++ more) ++
      (d.advance (wires more).length).buffer.toStringView
    rw [advance_toStringView, hview, ← hl, List.drop_left, wires_append]
    simp only [List.append_assoc]

/-- While the head is incomplete, a call after a harmless cut returns nothing
and loses nothing. -/
theorem decode_incomplete (h : Awaiting q received d)
    (hfront : received <+: q.wire) (hlt : received.length < q.wire.length)
    (hcut : CutHarmless q received d.buffer.deadBytes) :
    ∃ d', decode d = .ok (none, d') ∧ Awaiting q received d' ∧
      d'.bodyMaxBytes = d.bodyMaxBytes ∧
      d'.req.isBodyTruncated = d.req.isBodyTruncated := by
  cases h with
  | requestLine hstate hheaders hbody hvalid hview =>
      subst hview
      rw [RequestHead.wire, List.append_assoc] at hfront hlt
      by_cases hline : d.buffer.toStringView.length < q.requestLine.length
      · have hin : d.buffer.toStringView <+: q.requestLine :=
          List.prefix_of_prefix_length_le hfront (List.prefix_append _ _)
            (Nat.le_of_lt hline)
        obtain ⟨method, uri, hparse⟩ := parseRequestLine_incomplete hvalid hin
          hline hcut.method
        refine ⟨d.withReq { d.req with method := method, requestUri := uri },
          ?_, .requestLine hstate hheaders hbody hvalid rfl, rfl, rfl⟩
        change decodeLoop (3 + 1) d = _
        rw [decodeLoop_requestLine 3 hstate hheaders hbody, hparse]
      · obtain ⟨l, hl⟩ := List.prefix_of_prefix_length_le
          (List.prefix_append _ _) hfront (Nat.le_of_not_lt hline)
        obtain ⟨hvalid', hview'⟩ := afterRequestLine_view hvalid hl.symm
        rw [← hl, List.prefix_append_right_inj] at hfront
        rw [← hl, List.length_append, List.length_append] at hlt
        have hline : decode d = decodeLoop (2 + 1) (d.afterRequestLine q) := by
          change decodeLoop (3 + 1) d = _
          rw [decodeLoop_requestLine 3 hstate hheaders hbody,
            parseRequestLine_complete hl.symm]
        rw [hline]
        exact @decodeLoop_headers_incomplete (d.afterRequestLine q) q _ []
          q.headers 2 rfl hvalid' rfl
          (by simp [afterRequestLine, withReq, advance, RequestHead.toReq,
            hheaders, hbody, HeaderLine.addAll])
          (by rw [hview', wires_nil, List.append_nil, hl])
          (hview'.symm ▸ hfront)
          (by rw [hview']; omega) hcut
  | headers done todo hsplit hstate hreq hvalid hview =>
      have hwire : q.wire = q.requestLine ++ wires done ++
          (wires todo ++ crlf) := by
        simp [RequestHead.wire, hsplit, List.append_assoc]
      rw [hview, hwire, List.prefix_append_right_inj] at hfront
      rw [hview, hwire, List.length_append, List.length_append] at hlt
      exact decodeLoop_headers_incomplete 3 hsplit hvalid hstate hreq hview
        hfront (by rw [List.length_append]; simp at hlt ⊢; omega) hcut

/-- The segment that completes a head, with the part of the body that came with
it. -/
theorem feed_complete {segment : List UInt8} (h : Awaiting q received d)
    (hwire : received ++ segment = q.wire ++ body) :
    ∃ d', feed d segment = .ok (some (q.toReq (body.take d.bodyMaxBytes)
        d.req.isBodyTruncated), d') ∧ d'.Idle ∧
      d'.bodyMaxBytes = d.bodyMaxBytes ∧
      d'.req.isBodyTruncated = d.req.isBodyTruncated := by
  have hawait := h.append segment
  rw [hwire] at hawait
  exact ⟨_, decode_complete hawait, finished_idle _ _, rfl, rfl⟩

/-- A segment that leaves the head incomplete and ends in a harmless cut. -/
theorem feed_incomplete {segment rest : List UInt8} (h : Awaiting q received d)
    (hwire : received ++ segment ++ rest = q.wire) (hrest : rest ≠ [])
    (hcut : CutHarmless q (received ++ segment)
      (d.buffer.append segment).deadBytes) :
    ∃ d', feed d segment = .ok (none, d') ∧
      Awaiting q (received ++ segment) d' ∧
      d'.bodyMaxBytes = d.bodyMaxBytes ∧
      d'.req.isBodyTruncated = d.req.isBodyTruncated := by
  have hlt : (received ++ segment).length < q.wire.length := by
    have hpos := List.length_pos_of_ne_nil hrest
    rw [← hwire]
    simp only [List.length_append]
    omega
  exact decode_incomplete (h.append segment) ⟨rest, hwire⟩ hlt hcut

end HttpReqDecoder

end Jerry
