/-
The upgrade request of a new connection, cut into segments: the decoder of a
request lives for one call, so the request line must arrive with all that is
behind it.
-/
import Jerry.HttpGrammar
import Jerry.HttpRespWire
import Jerry.HttpRoundTrip
import Jerry.WsReading
import Jerry.WsSegmentation

namespace Jerry

open CString Search Window HttpReqDecoder

namespace BaseBuffer

variable {b : BaseBuffer} {received : List UInt8}

/-- Nothing has been taken from the buffer since it was made, and its unused
bytes are still zero. -/
structure Fresh (b : BaseBuffer) (received : List UInt8) : Prop where
  readIdx : b.readIdx = 0
  writeIdx : b.writeIdx = received.length
  buffer : ∃ k, b.buffer = received ++ List.replicate k 0

theorem ofSize_fresh (n : Nat) : (ofSize n).Fresh [] :=
  ⟨rfl, rfl, n, rfl⟩

theorem Fresh.valid (h : b.Fresh received) : b.Valid := by
  obtain ⟨k, hbuffer⟩ := h.buffer
  refine ⟨h.readIdx ▸ Nat.zero_le _, ?_⟩
  rw [h.writeIdx, hbuffer, List.length_append]
  exact Nat.le_add_right _ _

theorem Fresh.toStringView (h : b.Fresh received) :
    b.toStringView = received := by
  obtain ⟨k, hbuffer⟩ := h.buffer
  rw [BaseBuffer.toStringView, h.readIdx, h.writeIdx, hbuffer, slice]
  simp

theorem Fresh.deadBytes (h : b.Fresh received) :
    ∃ k, b.deadBytes = List.replicate k 0 := by
  obtain ⟨k, hbuffer⟩ := h.buffer
  refine ⟨k, ?_⟩
  rw [BaseBuffer.deadBytes, h.writeIdx, hbuffer, List.drop_left]

theorem Fresh.append (h : b.Fresh received) (data : List UInt8) :
    (b.append data).Fresh (received ++ data) := by
  by_cases hdata : data = []
  · subst hdata
    rw [List.append_nil]
    simpa [BaseBuffer.append] using h
  obtain ⟨k, hbuffer⟩ := h.buffer
  have hroom : ∃ m, data.length ≤ m ∧
      b.ensureWritableSpace data.length =
        { b with buffer := received ++ List.replicate m 0 } := by
    have hwritable : b.writableBytes = k := by
      rw [writableBytes, hbuffer, h.writeIdx, List.length_append,
        List.length_replicate, Nat.add_sub_cancel_left]
    have hread := h.readIdx
    rw [ensureWritableSpace]
    split
    · rename_i hfits
      exact ⟨k, hwritable ▸ hfits, by rw [← hbuffer]⟩
    · simp only
      rw [if_neg (by omega)]
      refine ⟨k + (max (b.buffer.length + data.length)
        (b.buffer.length * 3 / 2) - b.buffer.length), by omega, ?_⟩
      simp only [hbuffer, List.append_assoc, List.replicate_append_replicate]
  obtain ⟨m, hfits, hspace⟩ := hroom
  have hkeep : (List.replicate m (0 : UInt8)).drop data.length =
      List.replicate (m - data.length) 0 := List.drop_replicate
  have hroom : received.length + data.length ≤
      (received ++ List.replicate m (0 : UInt8)).length := by
    rw [List.length_append, List.length_replicate]
    omega
  rw [append_eq hdata, hspace]
  refine ⟨h.readIdx, ?_, m - data.length, ?_⟩
  · simp only [h.writeIdx, List.length_append]
  · simp only [h.writeIdx, overwrite_eq hroom, List.take_left]
    rw [← List.drop_drop, List.drop_left, hkeep]

end BaseBuffer

/-- The header fields without which a request is refused. -/
def upgradeFields : List String :=
  ["Host", "Upgrade", "Connection", "Sec-WebSocket-Version",
    "Sec-WebSocket-Key"]

/-- A well-formed request for an upgrade: a `GET` of HTTP/1.1 with these fields,
in any order and with any others.  `lines` are its fields as they are sent, each
with or without a space before the value. -/
structure UpgradeRequest where
  head : RequestHead
  lines : List FieldLine
  sent : lines.map (fun l => (l.name, l.value)) =
    head.headers.map (fun h => (h.name, h.value))
  names : ∀ h ∈ head.headers, h.name ≠ [] ∧ 0 ∉ h.name
  method : head.method = .get
  version : head.version = .http11
  fields : ∀ name ∈ upgradeFields,
    ∃ h ∈ head.headers, EqualFold h.name (bytes name)

namespace UpgradeRequest

def request (u : UpgradeRequest) : Request :=
  ⟨u.head, [], u.names⟩

/-- The header lines and the empty line. -/
def headerBlock (u : UpgradeRequest) : List UInt8 :=
  FieldLine.wires u.lines ++ crlf

/-- The bytes that are sent. -/
def wire (u : UpgradeRequest) : List UInt8 :=
  u.head.requestLine ++ u.headerBlock

/-- The value of a field. -/
def field (u : UpgradeRequest) (name : String) : Option (List UInt8) :=
  u.request.header (bytes name)

/-- The request line does not stand in what comes behind it. -/
def LineOnce (u : UpgradeRequest) : Prop :=
  ¬ u.head.requestLine <:+: u.headerBlock

theorem addAll_lines (u : UpgradeRequest) (m : HttpReq.Headers) :
    FieldLine.addAll u.lines m = HeaderLine.addAll u.head.headers m := by
  rw [Request.addAll_eq_foldl, ← u.sent, List.foldl_map, FieldLine.addAll]

/-- No line begins with a CR. -/
theorem lines_begin (u : UpgradeRequest) :
    ∀ l ∈ u.lines, l.name.head? ≠ some cr := by
  intro l hl hcr
  have hmem : (l.name, l.value) ∈ u.head.headers.map fun h => (h.name, h.value) :=
    u.sent ▸ List.mem_map_of_mem hl
  obtain ⟨h, _, heq⟩ := List.mem_map.mp hmem
  have hname : h.name = l.name := congrArg Prod.fst heq
  have hin : cr ∈ h.name := hname ▸ List.mem_of_mem_head? hcr
  exact (h.name_clean cr hin).2.1 rfl

end UpgradeRequest

namespace WebsocketCodec

/-- The fields of a response that accepts a handshake. -/
def upgradedFields (accept date : List UInt8) : List HttpResp.Field :=
  [(bytes "Connection", bytes "Upgrade"), (bytes "Sec-WebSocket-Accept", accept),
    (bytes "Upgrade", bytes "WebSocket"), (bytes "Content-Length", bytes "0"),
    (bytes "Date", date)]

/-- The response that completes a handshake, as the peer gets it. -/
def switchingProtocols (env : HandshakeEnv) (key : List UInt8) : List UInt8 :=
  bytes "HTTP/1.1 101 Switching Protocols\r\n" ++
    ((upgradedFields (env.getSecWebSocketAccept key) env.date).flatMap
      HttpResp.fieldWire ++ crlf)

/-- The handshake is complete: one response has been sent, 101, and nothing else
was done to the connection. -/
structure Upgraded (env : HandshakeEnv) (u : UpgradeRequest)
    (c : WebsocketCodec) : Prop where
  response : ∃ key, u.field "Sec-WebSocket-Key" = some key ∧
    c.calls = [.send (switchingProtocols env key)]
  host : u.field "Host" = some c.host
  requestUri : c.requestUri = u.head.uri
  state : c.state = .exceptFrameHead

/-- `Decode` is called once behind each segment. -/
def receiveAll (env : HandshakeEnv) : WebsocketCodec → List (List UInt8) →
    Except Fault WebsocketCodec
  | c, [] => .ok c
  | c, segment :: segments =>
      match decode env (c.receive segment) with
      | .error fault => .error fault
      | .ok (_, c') => receiveAll env c' segments

/-- No segment but the last ends at the end of the request line or behind it. -/
def LineInLast (u : UpgradeRequest) (segments : List (List UInt8)) : Prop :=
  segments.dropLast.flatten.length < u.head.requestLine.length

/-- The segments complete the handshake. -/
def Upgrades (env : HandshakeEnv) (u : UpgradeRequest) (c : WebsocketCodec)
    (segments : List (List UInt8)) : Prop :=
  ∃ c', receiveAll env c segments = .ok c' ∧ Upgraded env u c'

section Handshake

variable {env : HandshakeEnv} {c c' : WebsocketCodec} {u : UpgradeRequest}
  {received : List UInt8} {out : Option WsReq}

/-- Every one of the fields is found in the decoded request. -/
theorem getHeader_toReq (u : UpgradeRequest) (body : List UInt8)
    (truncated : Bool) {name : String}
    (hname : name ∈ upgradeFields) :
    getHeader (u.head.toReq body truncated) name = u.field name ∧
      (u.field name).isSome := by
  have hzero : ∀ name ∈ upgradeFields, 0 ∉ bytes name := by decide
  refine ⟨u.request.toReq_getHeader body truncated (hzero name hname), ?_⟩
  obtain ⟨h, hmem, hfold⟩ := u.fields name hname
  rw [UpgradeRequest.field, Request.header, Option.isSome_map,
    List.find?_isSome]
  exact ⟨h, hmem, decide_eq_true hfold⟩

theorem not_refuses (u : UpgradeRequest) (body : List UInt8) (truncated : Bool) :
    refuses (u.head.toReq body truncated) = false := by
  have hpresent (name : String) (hname : name ∈ upgradeFields) :
      (getHeader (u.head.toReq body truncated) name).isNone = false := by
    obtain ⟨heq, hsome⟩ := getHeader_toReq u body truncated hname
    rw [heq, Option.isNone_eq_false_iff]
    exact hsome
  have hmethod : (u.head.toReq body truncated).getMethod = .get := u.method
  have hversion : (u.head.toReq body truncated).getVersion = .http11 := u.version
  rw [refuses, hmethod, hversion, hpresent "Host" (by decide),
    hpresent "Upgrade" (by decide), hpresent "Connection" (by decide),
    hpresent "Sec-WebSocket-Version" (by decide),
    hpresent "Sec-WebSocket-Key" (by decide)]
  rfl

/-- What `HandShake` sets in the response is what the peer gets. -/
theorem switchingProtocols_text (env : HandshakeEnv) (key : List UInt8) :
    let add resp name value :=
      HttpResp.addHeader resp (.ofString (bytes name)) value false
    let resp := HttpResp.init.setStatus 101
    let resp := add resp "Upgrade" (bytes "WebSocket")
    let resp := add resp "Connection" (bytes "Upgrade")
    let resp := add resp "Sec-WebSocket-Accept" (env.getSecWebSocketAccept key)
    resp.toString env.date = .ok (switchingProtocols env key) := by
  intro add status upgrade connection accept
  have horder : bytes "Connection" < bytes "Upgrade" ∧
      ¬ bytes "Sec-WebSocket-Accept" < bytes "Connection" ∧
      bytes "Sec-WebSocket-Accept" < bytes "Upgrade" := by
    decide +kernel
  have hnames : (bytes "Upgrade" ≠ bytes "Connection" ∧
      bytes "Connection" ≠ bytes "Sec-WebSocket-Accept" ∧
      bytes "Upgrade" ≠ bytes "Sec-WebSocket-Accept") ∧
      0 ∉ bytes "Upgrade" ∧ 0 ∉ bytes "Connection" ∧
      0 ∉ bytes "Sec-WebSocket-Accept" := by
    decide +kernel
  obtain ⟨⟨hne, hne', hne''⟩, hzero, hzero', hzero''⟩ := hnames
  have hupgrade : upgrade.headers = [(bytes "Upgrade", bytes "WebSocket")] :=
    HttpResp.addHeader_new hzero (List.forall_mem_nil _) _
  have hconnection : connection.headers = [(bytes "Connection", bytes "Upgrade"),
      (bytes "Upgrade", bytes "WebSocket")] := by
    refine (HttpResp.addHeader_new hzero' (by rw [hupgrade]; simpa using hne) _).trans ?_
    rw [hupgrade, HttpResp.emplace, if_pos horder.1]
  have haccept : accept.headers = [(bytes "Connection", bytes "Upgrade"),
      (bytes "Sec-WebSocket-Accept", env.getSecWebSocketAccept key),
      (bytes "Upgrade", bytes "WebSocket")] := by
    refine (HttpResp.addHeader_new hzero''
      (by rw [hconnection]; simpa using ⟨hne', hne''⟩) _).trans ?_
    rw [hconnection, HttpResp.emplace, if_neg horder.2.1, HttpResp.emplace,
      if_pos horder.2.2]
  have hstatus : HttpResp.statusMap.lookup accept.statusCode =
      some (bytes "Switching Protocols") := by
    change HttpResp.statusMap.lookup 101 = _
    decide
  have hline : accept.statusLine (bytes "Switching Protocols") =
      bytes "HTTP/1.1 101 Switching Protocols\r\n" := by
    change bytes "HTTP/1.1 " ++ toDecimal (101 : UInt16).toNat ++ bytes " " ++
      bytes "Switching Protocols" ++ crlf = _
    decide +kernel
  have hfields : accept.fields env.date =
      upgradedFields (env.getSecWebSocketAccept key) env.date := by
    have hbody : accept.body = [] := rfl
    have hnone : toDecimal 0 = bytes "0" := by
      decide +kernel
    rw [HttpResp.fields, haccept, hbody, List.length_nil, hnone]
    rfl
  have hbody : crlf ++ accept.body = crlf := List.append_nil _
  rw [HttpResp.toString_eq hstatus, hline, HttpResp.block, hfields, hbody]
  rfl

/-- A codec that still waits for the handshake, with `received` readable. -/
structure Expecting (c : WebsocketCodec) (received : List UInt8) : Prop where
  state : c.state = .exceptHandshake
  calls : c.calls = []
  valid : c.recvBuffer.Valid
  view : c.recvBuffer.toStringView = received

theorem Expecting.receive (h : c.Expecting received) (segment : List UInt8) :
    (c.receive segment).Expecting (received ++ segment) where
  state := h.state
  calls := h.calls
  valid := BaseBuffer.append_valid h.valid segment
  view := by
    rw [← h.view]
    exact BaseBuffer.append_toStringView h.valid segment

theorem decode_handShake (h : c.Expecting received) :
    decode env c =
      match handShake env c with
      | .error fault => .error fault
      | .ok c => .ok (none, c) := by
  cases hshake : handShake env c with
  | error fault => simp only [decode, decodeLoop, h.state, hshake]
  | ok c => simp only [decode, decodeLoop, h.state, hshake]

variable (env) in
/-- The whole request in one buffer completes the handshake. -/
theorem Expecting.decode_whole (h : c.Expecting u.wire) :
    ∃ c', decode env c = .ok (none, c') ∧ Upgraded env u c' := by
  obtain ⟨body, truncated, d', hdecode⟩ :=
    decode_fieldLines (d := HttpReqDecoder.init c.recvBuffer) (q := u.head)
      rfl rfl rfl h.valid u.lines_begin (u.addAll_lines _) h.view
  have hkeyField : "Sec-WebSocket-Key" ∈ upgradeFields := by decide
  have hhostField : "Host" ∈ upgradeFields := by decide
  obtain ⟨hkey, hkeySome⟩ := getHeader_toReq u body truncated hkeyField
  obtain ⟨hhost, hhostSome⟩ := getHeader_toReq u body truncated hhostField
  obtain ⟨key, hkeyEq⟩ := Option.isSome_iff_exists.mp hkeySome
  obtain ⟨host, hhostEq⟩ := Option.isSome_iff_exists.mp hhostSome
  have htext := switchingProtocols_text env key
  rw [hkeyEq] at hkey
  rw [hhostEq] at hhost
  rw [decode_handShake h, handShake, hdecode]
  simp only [not_refuses, Bool.false_eq_true, if_false, hkey, hhost,
    Option.getD_some]
  simp only at htext
  rw [htext]
  exact ⟨_, rfl, ⟨key, hkeyEq, by simp only [h.calls]; rfl⟩, hhostEq, rfl, rfl⟩

variable (env) in
/-- A part of the request line is kept. -/
theorem Expecting.decode_part (h : c.Expecting received)
    (hfront : received <+: u.head.requestLine)
    (hlt : received.length < u.head.requestLine.length) :
    decode env c = .ok (none, c) := by
  have hmethod : ¬ (u.head.method = .options ∧
      (HttpReqDecoder.init c.recvBuffer).buffer.toStringView.length = 7) := by
    rw [u.method]
    exact fun hoptions => absurd hoptions.1 (by decide)
  obtain ⟨method, uri, hparse⟩ :=
    parseRequestLine_incomplete (d := HttpReqDecoder.init c.recvBuffer)
      (q := u.head) h.valid (h.view.symm ▸ hfront) (h.view.symm ▸ hlt) hmethod
  have hdecode : (HttpReqDecoder.init c.recvBuffer).decode =
      .ok (none, (HttpReqDecoder.init c.recvBuffer).withReq
        { (HttpReqDecoder.init c.recvBuffer).req with
          method := method, requestUri := uri }) := by
    change HttpReqDecoder.decodeLoop (3 + 1) _ = _
    rw [decodeLoop_requestLine 3 rfl rfl rfl, hparse]
  rw [decode_handShake h, handShake, hdecode]
  rfl

end Handshake

section Cuts

variable {env : HandshakeEnv} {c c' : WebsocketCodec} {u : UpgradeRequest}
  {received : List UInt8} {segments : List (List UInt8)}

/-- When all but the last segment end inside the request line, the last one
completes the handshake. -/
theorem Expecting.upgrades (h : c.Expecting received)
    (hsegments : segments ≠ []) (hwire : received ++ segments.flatten = u.wire)
    (hcuts : (received ++ segments.dropLast.flatten).length <
      u.head.requestLine.length) :
    Upgrades env u c segments := by
  induction segments generalizing c received with
  | nil => exact absurd rfl hsegments
  | cons segment segments ih =>
      by_cases hmore : segments = []
      · subst hmore
        rw [List.flatten_singleton] at hwire
        obtain ⟨c', hdecode, hupgraded⟩ :=
          Expecting.decode_whole env (hwire ▸ h.receive segment)
        exact ⟨c', by rw [receiveAll, hdecode]; rfl, hupgraded⟩
      · rw [List.flatten_cons, ← List.append_assoc] at hwire
        rw [List.dropLast_cons_of_ne_nil hmore, List.flatten_cons,
          ← List.append_assoc, List.length_append] at hcuts
        have hlt : (received ++ segment).length < u.head.requestLine.length := by
          omega
        have hfront : received ++ segment <+: u.head.requestLine := by
          rw [UpgradeRequest.wire] at hwire
          exact List.prefix_of_prefix_length_le ⟨_, hwire⟩
            (List.prefix_append _ _) (Nat.le_of_lt hlt)
        have hdecode := (h.receive segment).decode_part env hfront hlt
        obtain ⟨c', hrest, hupgraded⟩ := ih (h.receive segment) hmore hwire
          (by rw [List.length_append]; exact hcuts)
        exact ⟨c', by rw [receiveAll, hdecode]; exact hrest, hupgraded⟩

end Cuts

section Lost

variable {env : HandshakeEnv} {c c' : WebsocketCodec} {u : UpgradeRequest}
  {received seen rest future : List UInt8} {segments : List (List UInt8)}
  {out : Option WsReq}

/-- No line found in a header block goes on behind its end. -/
theorem nothing_behind_wires {lines lines' : List FieldLine} {more : List UInt8}
    (hbegin : ∀ l ∈ lines', l.name.head? ≠ some cr)
    (h : FieldLine.wires lines ++ (crlf ++ more) = FieldLine.wires lines' ++ crlf) :
    more = [] := by
  induction lines generalizing lines' with
  | nil =>
      cases lines' with
      | nil => exact List.append_cancel_left (h.trans (List.append_nil _).symm)
      | cons l lines' =>
          have hgoes := atEndOfHeaders_fieldLine (hbegin l List.mem_cons_self)
            (FieldLine.wires lines' ++ crlf)
          rw [FieldLine.wires_cons, List.append_assoc] at h
          rw [← h] at hgoes
          cases hgoes
  | cons l lines ih =>
      cases lines' with
      | nil =>
          have hlength := congrArg List.length h
          have hline := l.wire_length
          simp only [FieldLine.wires_cons, FieldLine.wires_nil, List.length_append,
            List.nil_append, crlf, List.length_cons, List.length_nil] at hlength
          omega
      | cons l' lines' =>
          simp only [FieldLine.wires_cons, List.append_assoc] at h
          have hrest := (fieldLine_cancel h).2
          exact ih (fun l hl => hbegin l (List.mem_cons_of_mem _ hl)) hrest

/-- Zeros do not complete an empty line. -/
theorem crlf_of_zeros {tail : List UInt8} {k : Nat}
    (h : crlf <+: tail ++ List.replicate k 0) : crlf <+: tail := by
  rcases prefix_append_cases h with hin | ⟨more, heq, hmore⟩
  · exact hin
  · cases more with
    | nil =>
        rw [List.append_nil] at heq
        rw [heq]
    | cons e more =>
        exfalso
        have hzero : ∀ x ∈ e :: more, x = 0 := fun x hx =>
          List.eq_of_mem_replicate (hmore.subset hx)
        have hlast : (e :: more).getLast (by simp) ∈ crlf := by
          rw [heq]
          exact List.mem_append_right _ (List.getLast_mem _)
        rw [hzero _ (List.getLast_mem _)] at hlast
        exact absurd hlast (by decide)

/-- The request line has been taken by a decoder that is gone, and only a part of
what came behind it, `seen`, is left. -/
structure Lost (c : WebsocketCodec) (seen : List UInt8) : Prop where
  state : c.state = .exceptHandshake
  calls : c.calls = []
  valid : c.recvBuffer.Valid
  view : c.recvBuffer.toStringView <:+ seen

/-- The first cut behind the request line. -/
theorem Expecting.lost (h : c.Expecting received)
    (hfresh : c.recvBuffer.Fresh received)
    (hreceived : received = u.head.requestLine ++ rest)
    (hahead : rest ++ future = u.headerBlock)
    (hfuture : future ≠ []) (hdecode : decode env c = .ok (out, c')) :
    c'.Lost rest := by
  have hview : (HttpReqDecoder.init c.recvBuffer).buffer.toStringView =
      u.head.requestLine ++ rest := h.view.trans hreceived
  rw [decode_handShake h, handShake] at hdecode
  cases hrun : (HttpReqDecoder.init c.recvBuffer).decode with
  | error fault =>
      rw [hrun] at hdecode
      cases hdecode
  | ok r =>
      obtain ⟨out', d⟩ := r
      cases decode_sound (d := HttpReqDecoder.init c.recvBuffer) rfl rfl rfl
        h.valid hrun with
      | nothing hnone _ _ =>
          rw [parseRequestLine_complete hview] at hnone
          cases hnone
      | part hview' hvalid hleft =>
          obtain ⟨_, _, _, rfl⟩ := requestLine_cancel (hview.symm.trans hview')
          rw [hrun] at hdecode
          obtain ⟨_, rfl⟩ := Prod.mk.inj (Except.ok.inj hdecode)
          exact ⟨h.state, h.calls, hvalid, hleft⟩
      | @whole _ _ lines tail hview' hend _ _ _ _ =>
          obtain ⟨_, _, _, rfl⟩ := requestLine_cancel (hview.symm.trans hview')
          obtain ⟨k, hdead⟩ := hfresh.deadBytes
          have hend' : crlf <+: tail ++ c.recvBuffer.deadBytes := hend
          rw [hdead] at hend'
          obtain ⟨more, rfl⟩ := crlf_of_zeros hend'
          rw [List.append_assoc, List.append_assoc] at hahead
          have hnone := nothing_behind_wires u.lines_begin hahead
          exact absurd (List.append_eq_nil_iff.mp hnone).2 hfuture

theorem Lost.receive (h : c.Lost seen) (segment : List UInt8) :
    (c.receive segment).Lost (seen ++ segment) where
  state := h.state
  calls := h.calls
  valid := BaseBuffer.append_valid h.valid segment
  view := by
    obtain ⟨before, hseen⟩ := h.view
    have hview : (c.receive segment).recvBuffer.toStringView =
        c.recvBuffer.toStringView ++ segment :=
      BaseBuffer.append_toStringView h.valid segment
    exact ⟨before, by rw [hview, ← hseen, List.append_assoc]⟩

/-- What can follow: the request line is still lost, the request was refused, or
another one was found in what came behind it. -/
inductive Spoiled (seen : List UInt8) (c : WebsocketCodec) : Prop
  | lost : c.Lost seen → Spoiled seen c
  | refused : 2 ≤ c.calls.length → Spoiled seen c
  | misread (q : RequestHead) :
      c.state = .exceptFrameHead ∨ c.state = .exceptPayload → c.Named →
      q.method = .get → q.version = .http11 → q.requestLine <:+: seen →
      c.requestUri = q.uri → Spoiled seen c

theorem get_of_not_refuses {req : HttpReq} (h : refuses req = false) :
    req.method = .get ∧ req.version = .http11 := by
  simp only [refuses, Bool.or_eq_false_iff] at h
  have hmethod : ¬ req.method ≠ .get := of_decide_eq_false h.1.1.1.1.1.1
  have hversion : req.version ≠ .http10 := of_decide_eq_false h.1.1.1.1.1.2
  refine ⟨not_not.mp hmethod, ?_⟩
  cases hcase : req.version with
  | http10 => exact absurd hcase hversion
  | http11 => rfl

theorem Lost.decode (h : c.Lost seen) (hdecode : decode env c = .ok (out, c')) :
    Spoiled seen c' := by
  have hexpect : c.Expecting c.recvBuffer.toStringView :=
    ⟨h.state, h.calls, h.valid, rfl⟩
  rw [decode_handShake hexpect, handShake] at hdecode
  cases hrun : (HttpReqDecoder.init c.recvBuffer).decode with
  | error fault =>
      rw [hrun] at hdecode
      cases hdecode
  | ok r =>
      obtain ⟨out', d⟩ := r
      cases decode_sound (d := HttpReqDecoder.init c.recvBuffer) rfl rfl rfl
        h.valid hrun with
      | nothing _ hvalid hleft =>
          rw [hrun] at hdecode
          obtain ⟨_, rfl⟩ := Prod.mk.inj (Except.ok.inj hdecode)
          exact .lost ⟨h.state, h.calls, hvalid, hleft.trans h.view⟩
      | @part q rest' hview hvalid hleft =>
          rw [hrun] at hdecode
          obtain ⟨_, rfl⟩ := Prod.mk.inj (Except.ok.inj hdecode)
          have hrest : rest' <:+ c.recvBuffer.toStringView :=
            ⟨q.requestLine, hview.symm⟩
          exact .lost ⟨h.state, h.calls, hvalid, (hleft.trans hrest).trans h.view⟩
      | @whole req q lines tail hview _ hmethod huri hversion _ =>
          simp only [hrun] at hdecode
          split at hdecode
          · cases hdecode
          · rename_i c₁ hshake
            obtain ⟨_, rfl⟩ := Prod.mk.inj (Except.ok.inj hdecode)
            split at hshake
            · split at hshake
              · cases hshake
              · obtain rfl := Except.ok.inj hshake
                exact .refused (by simp [h.calls])
            · rename_i hrefuses
              split at hshake
              · cases hshake
              · obtain rfl := Except.ok.inj hshake
                obtain ⟨hget, h11⟩ :=
                  get_of_not_refuses (eq_false_of_ne_true hrefuses)
                have hline : q.requestLine <+: c.recvBuffer.toStringView :=
                  ⟨_, hview.symm⟩
                exact .misread q (Or.inl rfl) (fun hpayload => by cases hpayload)
                  (hmethod ▸ hget) (hversion ▸ h11)
                  (hline.isInfix.trans h.view.isInfix) huri

/-- Behind the handshake a codec waits for a head or a payload. -/
theorem decode_frame_state
    (hstate : c.state = .exceptFrameHead ∨ c.state = .exceptPayload)
    (hdecode : decode env c = .ok (out, c')) :
    c'.state = .exceptFrameHead ∨ c'.state = .exceptPayload := by
  have hpayload : ∀ {c : WebsocketCodec}, c.state = .exceptPayload →
      decode env c = .ok (out, c') →
      c'.state = .exceptFrameHead ∨ c'.state = .exceptPayload := by
    intro c hstate hdecode
    obtain ⟨finished, c₁, hread, _, hnext, _⟩ := decodePayload_cases c
    rw [decode_payload hstate, hread] at hdecode
    cases finished with
    | false =>
        obtain ⟨_, rfl⟩ := Prod.mk.inj (Except.ok.inj hdecode)
        exact Or.inr (hnext.trans hstate)
    | true =>
        obtain ⟨_, rfl⟩ := Prod.mk.inj (Except.ok.inj hdecode)
        exact Or.inl rfl
  rcases hstate with hstate | hstate
  · have hhead := @decode_head c env hstate
    rw [hdecode] at hhead
    rcases decodeFrameHead_cases c with
      ⟨_, heq, _⟩ | ⟨c₁, heq, _⟩ | ⟨_, _, _, c₁, _, _, _, heq, hnext, _⟩
    · rw [heq] at hhead
      cases hhead
    · obtain ⟨_, _, _, hsame⟩ := decodeFrameHead_named heq
      rw [heq] at hhead
      obtain ⟨_, rfl⟩ := Prod.mk.inj (Except.ok.inj hhead)
      exact Or.inl ((hsame rfl).trans hstate)
    · rw [heq] at hhead
      exact hpayload hnext hhead.symm
  · exact hpayload hstate hdecode

/-- The step lemma. -/
theorem Spoiled.decode {segment : List UInt8} (h : Spoiled seen c)
    (hdecode : decode env (c.receive segment) = .ok (out, c')) :
    Spoiled (seen ++ segment) c' := by
  cases h with
  | lost h => exact (h.receive segment).decode hdecode
  | refused h =>
      have hgrow := (decode_calls_grow hdecode).length_le
      exact .refused (h.trans hgrow)
  | misread q hstate hnamed hmethod hversion hline huri =>
      have hkeeps := decode_named (c := c.receive segment) hnamed hstate hdecode
      exact .misread q (decode_frame_state (c := c.receive segment) hstate hdecode)
        hkeeps.named hmethod hversion
        (hline.trans (List.prefix_append _ _).isInfix)
        (hkeeps.requestUri.trans huri)

theorem Spoiled.receiveAll (h : Spoiled seen c)
    (hrun : receiveAll env c segments = .ok c') :
    Spoiled (seen ++ segments.flatten) c' := by
  induction segments generalizing c seen with
  | nil =>
      obtain rfl := Except.ok.inj hrun
      rwa [List.flatten_nil, List.append_nil]
  | cons segment segments ih =>
      rw [WebsocketCodec.receiveAll] at hrun
      split at hrun
      · cases hrun
      · rename_i out c₁ hdecode
        rw [List.flatten_cons, ← List.append_assoc]
        exact ih (h.decode hdecode) hrun

theorem methodMap_get {name : List UInt8}
    (hname : methodMap.lookup name = some .get) : name = bytes "GET" := by
  obtain ⟨before, after, heq, _⟩ := List.lookup_eq_some_iff.mp hname
  have hall : ∀ entry ∈ methodMap, entry.2 = .get → entry.1 = bytes "GET" := by
    decide
  exact hall (name, .get) (by rw [heq]; simp) rfl

/-- The handshake of this request is not complete then. -/
theorem Spoiled.not_upgraded (h : Spoiled seen c)
    (honce : ¬ u.head.requestLine <:+: seen) : ¬ Upgraded env u c := by
  intro hupgraded
  cases h with
  | lost h =>
      have hstate := hupgraded.state
      rw [h.state] at hstate
      cases hstate
  | refused h =>
      obtain ⟨key, _, hcalls⟩ := hupgraded.response
      rw [hcalls, List.length_singleton] at h
      exact absurd h (by decide)
  | misread q _ _ hmethod hversion hline huri =>
      apply honce
      have hfound : q.methodStr = bytes "GET" :=
        methodMap_get (hmethod ▸ q.method_known)
      have hasked : u.head.methodStr = bytes "GET" :=
        methodMap_get (u.method ▸ u.head.method_known)
      have hname := hfound.trans hasked.symm
      have hsame : u.head.requestLine = q.requestLine := by
        rw [RequestHead.requestLine, RequestHead.requestLine, hname, hversion,
          u.version, ← huri, hupgraded.requestUri]
      rwa [hsame]

/-- The run lemma: from a cut behind the request line on, the handshake of this
request is not completed. -/
theorem Expecting.not_upgrades (h : c.Expecting received)
    (hfresh : c.recvBuffer.Fresh received)
    (hlt : received.length < u.head.requestLine.length)
    (hne : ∀ segment ∈ segments, segment ≠ []) (honce : u.LineOnce)
    (hwire : received ++ segments.flatten = u.wire)
    (hcuts : u.head.requestLine.length ≤
      (received ++ segments.dropLast.flatten).length) :
    ¬ Upgrades env u c segments := by
  induction segments generalizing c received with
  | nil =>
      rw [List.dropLast_nil, List.flatten_nil, List.append_nil] at hcuts
      omega
  | cons segment segments ih =>
      by_cases hmore : segments = []
      · subst hmore
        rw [List.dropLast_singleton, List.flatten_nil, List.append_nil] at hcuts
        omega
      rw [List.flatten_cons, ← List.append_assoc] at hwire
      rw [List.dropLast_cons_of_ne_nil hmore, List.flatten_cons,
        ← List.append_assoc] at hcuts
      have hrest : ∀ segment ∈ segments, segment ≠ [] :=
        fun s hs => hne s (List.mem_cons_of_mem _ hs)
      have hwire' := hwire
      rw [UpgradeRequest.wire] at hwire'
      have hfuture : segments.flatten ≠ [] := by
        obtain ⟨s, hs⟩ := List.exists_mem_of_ne_nil _ hmore
        exact fun hnil => hrest s hs (List.flatten_eq_nil_iff.mp hnil s hs)
      rintro ⟨c', hrun, hupgraded⟩
      rw [receiveAll] at hrun
      by_cases hinside : (received ++ segment).length < u.head.requestLine.length
      · have hfront : received ++ segment <+: u.head.requestLine :=
          List.prefix_of_prefix_length_le ⟨_, hwire'⟩
            (List.prefix_append _ _) (Nat.le_of_lt hinside)
        rw [(h.receive segment).decode_part env hfront hinside] at hrun
        exact ih (h.receive segment) (hfresh.append segment) hinside hrest hwire
          hcuts ⟨c', hrun, hupgraded⟩
      · obtain ⟨rest, hreceived⟩ : u.head.requestLine <+: received ++ segment :=
          List.prefix_of_prefix_length_le (List.prefix_append _ _) ⟨_, hwire'⟩
            (Nat.le_of_not_lt hinside)
        have hahead : rest ++ segments.flatten = u.headerBlock := by
          rw [← hreceived, List.append_assoc] at hwire'
          exact List.append_cancel_left hwire'
        split at hrun
        · cases hrun
        · rename_i out c₁ hdecode
          have hlost : c₁.Lost rest := (h.receive segment).lost
            (hfresh.append segment) hreceived.symm hahead hfuture hdecode
          refine ((Spoiled.lost hlost).receiveAll hrun).not_upgraded ?_ hupgraded
          rw [hahead]
          exact honce

end Lost

section Main

/-- The handshake is completed when all but the last segment end inside the
request line, and by no other cuts unless the line is repeated in a header. -/
theorem upgrades_iff_lineInLast (env : HandshakeEnv) (u : UpgradeRequest) (n : Nat)
    {segments : List (List UInt8)} (hne : ∀ segment ∈ segments, segment ≠ [])
    (hwire : segments.flatten = u.wire) :
    (LineInLast u segments →
      Upgrades env u (init (BaseBuffer.ofSize n)) segments) ∧
    (u.LineOnce → Upgrades env u (init (BaseBuffer.ofSize n)) segments →
      LineInLast u segments) := by
  have hexpect : (init (BaseBuffer.ofSize n)).Expecting [] :=
    ⟨rfl, rfl, (BaseBuffer.ofSize_fresh n).valid,
      (BaseBuffer.ofSize_fresh n).toStringView⟩
  have hline : 0 < u.head.requestLine.length := by
    simp only [RequestHead.requestLine, List.length_append, List.length_cons]
    omega
  refine ⟨fun hcuts => ?_, fun honce hupgrades => ?_⟩
  · refine hexpect.upgrades ?_ hwire hcuts
    rintro rfl
    rw [UpgradeRequest.wire] at hwire
    have hnil : u.head.requestLine = [] :=
      (List.append_eq_nil_iff.mp hwire.symm).1
    rw [hnil] at hline
    exact absurd hline (Nat.lt_irrefl 0)
  · by_contra hcuts
    exact hexpect.not_upgrades (BaseBuffer.ofSize_fresh n) hline hne honce hwire
      (Nat.le_of_not_lt hcuts) hupgrades

/-- A field of the example. -/
def exampleField (name value : String)
    (hname : ((bytes name).all fun c =>
      decide (c ≠ colon ∧ c ≠ cr ∧ c ≠ lf)) = true)
    (hvalue : ((bytes value).all fun c => decide (c ≠ cr ∧ c ≠ lf)) = true) :
    HeaderLine :=
  ⟨bytes name, bytes value, HeaderLine.clean hname, HeaderLine.clean hvalue⟩

/-- A line of it, with what is behind the colon. -/
def exampleLine (name raw : String)
    (hname : ((bytes name).all fun c => decide (c ≠ colon)) = true)
    (hraw : ((bytes raw).all fun c => decide (c ≠ cr ∧ c ≠ lf)) = true) :
    FieldLine :=
  ⟨bytes name, bytes raw, fun hmem => HeaderLine.clean hname _ hmem rfl,
    clean_no_crlf (HeaderLine.clean hraw)⟩

theorem exampleUri_no_space : sp ∉ bytes "/" := by decide

/-- The five fields and nothing else. -/
def exampleHead : RequestHead :=
  .get (bytes "/")
    [exampleField "Host" "a" rfl rfl,
      exampleField "Upgrade" "websocket" rfl rfl,
      exampleField "Connection" "Upgrade" rfl rfl,
      exampleField "Sec-WebSocket-Version" "13" rfl rfl,
      exampleField "Sec-WebSocket-Key" "dGhlIHNhbXBsZSBub25jZQ==" rfl rfl]
    exampleUri_no_space

/-- All but the first have a space before the value. -/
def exampleLines : List FieldLine :=
  [exampleLine "Host" "a" rfl rfl,
    exampleLine "Upgrade" " websocket" rfl rfl,
    exampleLine "Connection" " Upgrade" rfl rfl,
    exampleLine "Sec-WebSocket-Version" " 13" rfl rfl,
    exampleLine "Sec-WebSocket-Key" " dGhlIHNhbXBsZSBub25jZQ==" rfl rfl]

theorem exampleLines_sent : exampleLines.map (fun l => (l.name, l.value)) =
    exampleHead.headers.map (fun h => (h.name, h.value)) := by decide

theorem exampleHead_names :
    ∀ h ∈ exampleHead.headers, h.name ≠ [] ∧ 0 ∉ h.name := by decide

theorem exampleHead_fields : ∀ name ∈ upgradeFields,
    ∃ h ∈ exampleHead.headers, EqualFold h.name (bytes name) := by decide

def exampleRequest : UpgradeRequest :=
  ⟨exampleHead, exampleLines, exampleLines_sent, exampleHead_names, rfl, rfl,
    exampleHead_fields⟩

/-- A cut inside the request line does no harm. -/
theorem upgrades_iff_lineInLast_inside :
    Upgrades exampleEnv exampleRequest (init (BaseBuffer.ofSize 32))
      [exampleRequest.wire.take 5, exampleRequest.wire.drop 5] := by
  refine (upgrades_iff_lineInLast exampleEnv exampleRequest 32 ?_ ?_).1 ?_
  · decide +kernel
  · simp
  · rw [LineInLast]
    decide +kernel

/-- Cut behind the request line, the request is lost and never answered. -/
theorem upgrades_iff_lineInLast_behind :
    let segments := [exampleRequest.wire.take 16,
      exampleRequest.wire.drop 16]
    segments.flatten = exampleRequest.wire ∧
      (∀ segment ∈ segments, segment ≠ []) ∧
      (∃ c, receiveAll exampleEnv (init (BaseBuffer.ofSize 1024)) segments = .ok c ∧
        c.calls = [] ∧ c.recvBuffer.readableBytes = 0) ∧
      ¬ Upgrades exampleEnv exampleRequest (init (BaseBuffer.ofSize 1024))
        segments := by
  intro segments
  have hrun : ((receiveAll exampleEnv (init (BaseBuffer.ofSize 1024))
      segments).toOption.map fun c => (c.calls, c.recvBuffer.readableBytes)) =
        some ([], 0) := by decide +kernel
  cases hall : receiveAll exampleEnv (init (BaseBuffer.ofSize 1024)) segments with
  | error fault =>
      rw [hall] at hrun
      cases hrun
  | ok c =>
      rw [hall] at hrun
      obtain ⟨hcalls, hempty⟩ := Prod.mk.inj (Option.some.inj hrun)
      refine ⟨by decide +kernel, by decide +kernel, ⟨c, rfl, hcalls, hempty⟩, ?_⟩
      rintro ⟨c', hok, hupgraded⟩
      obtain rfl := Except.ok.inj (hall.symm.trans hok)
      obtain ⟨key, _, hsent⟩ := hupgraded.response
      exact absurd (hcalls.symm.trans hsent) (by simp)

end Main

end WebsocketCodec

end Jerry
