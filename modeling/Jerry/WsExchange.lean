/-
A connection of `WebsocketServer` from the socket to the socket: a client asks for
the upgrade and then sends frames, in segments, and what the poller finds room for
is written.
-/
import Jerry.HttpExchange
import Jerry.WsResp
import Jerry.WsUpgrade

namespace Jerry

/-- A request, and the payload of the response that `OnRequest` filled in. -/
structure WsAnswer where
  request : WsReq
  payload : List UInt8
deriving DecidableEq, Repr

/-- The frame that is sent for it. -/
def WsAnswer.text (a : WsAnswer) : List UInt8 :=
  WebsocketCodec.encodeFrameHead a.payload .kText ++ a.payload

/-- A connection and its codec, which reads the receive buffer of the connection
itself: `recvBuffer` of the codec stands for that one. -/
structure WsSession where
  conn : TcpConn
  decoder : WebsocketCodec
  answers : List WsAnswer
  fault : Option Fault
deriving DecidableEq

namespace WsSession

/-- `OnTcpConnected` for a client that the limiter lets in. -/
def onTcpConnected : WsSession :=
  let conn := (TcpConn.ofClient false).call .onTcpConnected
  { conn := conn
    decoder := .init conn.recvBuffer
    answers := []
    fault := none }

/-- The codec with what the connection has received. -/
def codec (s : WsSession) : WebsocketCodec :=
  { s.decoder with recvBuffer := s.conn.recvBuffer, calls := [] }

/-- What `Decode` has done to the connection. -/
def decoded (s : WsSession) (o : Outside) (decoder : WebsocketCodec) : WsSession :=
  { s with
    conn := decoder.calls.foldl (fun conn call => (call.toOp o).exec conn)
      { s.conn with recvBuffer := decoder.recvBuffer }
    decoder := decoder }

/-- `OnTcpReceivedData`, with what `OnRequest` does to the response if it is
called. -/
def onTcpReceivedData (env : HandshakeEnv) (o : Outside) (s : WsSession)
    (calls : List WsResp.Call) : WsSession :=
  match s.codec.decode env with
  | .error fault => { s with fault := some fault }
  | .ok (none, decoder) => s.decoded o decoder
  | .ok (some req, decoder) =>
      let s := s.decoded o decoder
      let payload := (WsResp.build calls).getPayload
      { s with
        conn := (s.conn.send (WebsocketCodec.encodeFrameHead payload .kText)).send
          payload
        answers := s.answers ++ [⟨req, payload⟩] }

/-- An event of the channel, or the end of the connection by a timer task. -/
inductive Op where
  | handleEvent (events : TcpConn.Events) (o : Outside) (calls : List WsResp.Call)
  | shutdown (o : Outside)
  | forceClose
deriving DecidableEq

/-- What the operation does to the connection. -/
def Op.connOp : Op → ConnOp
  | .handleEvent events o _ => .handleEvent events o
  | .shutdown o => .shutdown o
  | .forceClose => .forceClose

/-- The callback is the last thing that happens in an event. -/
def exec (env : HandshakeEnv) (s : WsSession) (op : Op) : WsSession :=
  let heard : WsSession := { s with conn := op.connOp.exec s.conn }
  match op with
  | .handleEvent _ o calls =>
      if HttpSession.Heard s.conn heard.conn then heard.onTcpReceivedData env o calls
      else heard
  | _ => heard

end WsSession

/-- The server's side of a connection, the upgrade and the frames that the client
has yet to send, and what the server has read of the first of them. -/
structure WsExchange where
  server : WsSession
  upgrade : Option UpgradeRequest
  frames : List ClientFrame
  received : List UInt8

namespace WsExchange

open WsSession

def start (u : UpgradeRequest) (frames : List ClientFrame) : WsExchange :=
  ⟨onTcpConnected, some u, frames, []⟩

/-- What an event hands to the codec. -/
def segment (x : WsExchange) : Op → Option (List UInt8)
  | .handleEvent events o _ =>
      if HttpSession.Heard x.server.conn
          ((ConnOp.handleEvent events o).exec x.server.conn) then
        match o.read with
        | .stored data => some data
        | .failed => none
      else none
  | _ => none

/-- The client's part: it goes on behind the last byte of the upgrade, or of a
frame. -/
def deliver (x : WsExchange) (segment : List UInt8) : WsExchange :=
  let received := x.received ++ segment
  match x.upgrade, x.frames with
  | some u, _ =>
      if received = u.wire then { x with upgrade := none, received := [] }
      else { x with received := received }
  | none, f :: frames =>
      if received = f.wire then { x with frames := frames, received := [] }
      else { x with received := received }
  | none, [] => { x with received := received }

def next (env : HandshakeEnv) (x : WsExchange) (op : Op) : WsExchange :=
  let delivered := ((x.segment op).map x.deliver).getD x
  { delivered with server := x.server.exec env op }

/-- What is read ends with the upgrade or the frame, or inside the request line or
the payload. -/
def Orderly (x : WsExchange) (op : Op) : Prop :=
  ∀ segment ∈ x.segment op,
    let received := x.received ++ segment
    match x.upgrade with
    | some u => received = u.wire ∨
        received.isPrefixOf u.head.requestLine = true ∧
          received.length < u.head.requestLine.length
    | none => ∃ f ∈ x.frames.head?, received = f.wire ∨
        received.isPrefixOf f.wire = true ∧ f.head.length ≤ received.length ∧
          received.length < f.wire.length

instance (x : WsExchange) (op : Op) : Decidable (x.Orderly op) := by
  unfold Orderly
  cases x.upgrade <;> infer_instance

end WsExchange

/-- A client and the server on one connection. -/
def wsExchangeMachine (env : HandshakeEnv) : Machine WsExchange WsSession.Op where
  enabled x op := op.connOp.Enabled x.server.conn
  next := WsExchange.next env

instance (env : HandshakeEnv) (x : WsExchange) (op : WsSession.Op) :
    Decidable (((wsExchangeMachine env).guard WsExchange.Orderly).enabled x op) :=
  inferInstanceAs (Decidable (op.connOp.Enabled x.server.conn ∧ x.Orderly op))

namespace WebsocketCodec

variable {env : HandshakeEnv} {c : WebsocketCodec} {b : BaseBuffer}
  {f : ClientFrame} {u : UpgradeRequest} {received data done : List UInt8}

/-- Of the next frame, these bytes have been read. -/
inductive Before (c : WebsocketCodec) (f : ClientFrame) : List UInt8 → Prop
  | ready : c.Ready → Before c f []
  | payload {b : BaseBuffer} {done : List UInt8} {k : Nat} : c.InPayload b done [] f k →
      k < f.payload.length → Before c f (f.head ++ f.masked.take k)

theorem Before.empty (h : Before c f received) : c.recvBuffer.Empty := by
  cases h with
  | ready hready => exact hready.empty
  | payload hin =>
      rw [hin.buffer]
      exact ⟨BaseBuffer.consumed_valid hin.empty _ _,
        BaseBuffer.consumed_toStringView hin.empty _ _⟩

theorem AtHead.ready (h : c.AtHead b done []) : c.Ready where
  state := h.state
  empty := by
    rw [h.buffer]
    exact ⟨BaseBuffer.consumed_valid h.empty _ _,
      BaseBuffer.consumed_toStringView h.empty _ _⟩
  payload := h.payload
  lastReadIdx := h.lastReadIdx

variable (hb : b.Valid) (hview : b.toStringView = data) (hdata : data ≠ [])
include hb hview hdata

/-- A segment that brings the rest of the head, or comes behind it, is read on in
the payload. -/
theorem Before.heard (h : Before c f received) (hfront : received ++ data <+: f.wire)
    (hhead : f.head.length ≤ (received ++ data).length) :
    ∃ c₁ b₁ done k rest, decode env { c with recvBuffer := b } = decode env c₁ ∧
      c₁.InPayload b₁ done rest f k ∧
      received ++ data = f.head ++ (f.masked.take k ++ rest) ∧ c₁.calls = c.calls := by
  obtain ⟨b₀, hempty, heq⟩ := BaseBuffer.exists_consumed hb hview hdata
  cases h with
  | ready hready =>
      rw [List.nil_append] at hfront hhead
      obtain ⟨rest, rfl⟩ : f.head <+: data :=
        List.prefix_of_prefix_length_le (List.prefix_append _ _) hfront hhead
      have hat : ({ c with recvBuffer := b } : WebsocketCodec).AtHead b₀ []
          (f.head ++ rest) :=
        ⟨hempty, hready.state, heq, hready.payload, hready.lastReadIdx⟩
      obtain ⟨c₁, hread, hin, hcalls⟩ := hat.decodeFrameHead
      refine ⟨c₁, b₀, _, 0, rest, ?_, hin, ?_, hcalls⟩
      · rw [decode_head hat.state, hread]
      · rw [List.take_zero, List.nil_append, List.nil_append]
  | payload hin _ =>
      refine ⟨{ c with recvBuffer := b }, b₀, [], _, data, rfl, ⟨hempty, hin.state, heq,
        hin.type, hin.payload, hin.key, hin.remains, hin.lastReadIdx, hin.le,
        hin.received⟩, ?_, rfl⟩
      rw [List.append_assoc]

/-- A segment that ends with the frame. -/
theorem Before.complete (env : HandshakeEnv) (h : Before c f received)
    (hwire : received ++ data = f.wire) :
    ∃ req c', decode env { c with recvBuffer := b } = .ok (some req, c') ∧
      req.type = f.type ∧ req.payload = f.payload ∧ c'.Ready ∧ c'.calls = c.calls := by
  obtain ⟨c₁, b₁, done, k, rest, hdecode, hin, hsplit, hcalls⟩ :=
    h.heard hb hview hdata (hwire ▸ List.prefix_refl _) (by
      rw [hwire, ClientFrame.wire_length]
      exact Nat.le_add_right _ _)
  have hrest : rest = f.masked.drop k := by
    have hall : f.masked.take k ++ rest = f.masked.take k ++ f.masked.drop k := by
      rw [List.take_append_drop]
      exact List.append_cancel_left (hsplit.symm.trans hwire)
    exact List.append_cancel_left hall
  rw [hrest, ← List.append_nil (f.masked.drop k)] at hin
  obtain ⟨req, c', hsome, htype, hpayload, hat, -, hcalls'⟩ := hin.decode_complete
  exact ⟨req, c', hdecode.trans hsome, htype, hpayload, hat.ready, hcalls'.trans hcalls⟩

/-- A segment that ends inside the payload. -/
theorem Before.incomplete (env : HandshakeEnv) (h : Before c f received)
    (hfront : received ++ data <+: f.wire)
    (hhead : f.head.length ≤ (received ++ data).length)
    (hlt : (received ++ data).length < f.wire.length) :
    ∃ c', decode env { c with recvBuffer := b } = .ok (none, c') ∧
      c'.Before f (received ++ data) ∧ c'.calls = c.calls := by
  obtain ⟨c₁, b₁, done, k, rest, hdecode, hin, hsplit, hcalls⟩ :=
    h.heard hb hview hdata hfront hhead
  have hrest : rest <+: f.masked.drop k := by
    rw [hsplit, ClientFrame.wire] at hfront
    have hin' := (List.prefix_append_right_inj _).mp hfront
    have hall : f.masked.take k ++ rest <+: f.masked.take k ++ f.masked.drop k := by
      rw [List.take_append_drop]
      exact hin'
    exact (List.prefix_append_right_inj _).mp hall
  have hshort : rest.length < f.payload.length - k := by
    have hle := hin.le
    rw [hsplit, ClientFrame.wire_length, List.length_append, List.length_append,
      List.length_take, ClientFrame.masked_length, Nat.min_eq_left hle] at hlt
    omega
  obtain ⟨c', hnone, hin', hcalls'⟩ := hin.decode_incomplete hrest hshort
  have heq : received ++ data = f.head ++ f.masked.take (k + rest.length) := by
    rw [hsplit, List.take_add, ← List.prefix_iff_eq_take.mp hrest]
  refine ⟨c', hdecode.trans hnone, ?_, hcalls'.trans hcalls⟩
  rw [heq]
  exact .payload hin' (by omega)

omit hb hview hdata in
/-- The whole upgrade leaves the codec between two frames. -/
theorem Expecting.decode_ready (env : HandshakeEnv) (h : c.Expecting u.wire)
    (hpayload : c.req.payload = []) (hidx : c.lastReadIdx = 0) :
    ∃ c', decode env c = .ok (none, c') ∧ Upgraded env u c' ∧ c'.Ready := by
  obtain ⟨c', hdecode, hupgraded⟩ := h.decode_whole env
  refine ⟨c', hdecode, hupgraded, ?_⟩
  rw [decode_handShake h] at hdecode
  cases hshake : handShake env c with
  | error fault =>
      rw [hshake] at hdecode
      cases hdecode
  | ok c₁ =>
      rw [hshake] at hdecode
      cases hdecode
      obtain ⟨hreq, hsame, hstate | ⟨hstate, hempty⟩⟩ := handShake_cases hshake
      · rw [hupgraded.state, h.state] at hstate
        cases hstate
      · exact ⟨hstate, hempty, hreq ▸ hpayload, hsame.trans hidx⟩

omit hb hview hdata in
theorem Before.forget (h : Before c f received) : Before { c with calls := [] } f received := by
  cases h with
  | ready hready =>
      exact .ready ⟨hready.state, hready.empty, hready.payload, hready.lastReadIdx⟩
  | payload hin hk =>
      exact .payload ⟨hin.empty, hin.state, hin.buffer, hin.type, hin.payload, hin.key,
        hin.remains, hin.lastReadIdx, hin.le, hin.received⟩ hk

end WebsocketCodec

namespace TcpConn

variable {c : TcpConn} {accepted : List UInt8}

theorem Flows.answer_twice (h : c.Flows accepted) (hc : c.isConnected = true)
    (head payload : List UInt8) :
    ((c.send head).send payload).Flows (accepted ++ (head ++ payload)) ∧
      ((c.send head).send payload).recvBuffer = c.recvBuffer := by
  obtain ⟨hflows, hbuffer⟩ := h.answer hc head
  have hconnected : (c.send head).isConnected = true := by
    rw [send_connected hc]
    exact hc
  obtain ⟨hflows', hbuffer'⟩ := hflows.answer hconnected payload
  rw [List.append_assoc] at hflows'
  exact ⟨hflows', hbuffer'.trans hbuffer⟩

end TcpConn

namespace WsExchange

open WsSession

/-- The response to the upgrade has been sent, or nothing has. -/
def Greets (env : HandshakeEnv) (u : UpgradeRequest) (x : WsExchange)
    (greeting : List UInt8) : Prop :=
  match x.upgrade with
  | some _ => greeting = [] ∧ x.server.answers = []
  | none => ∃ key, u.field "Sec-WebSocket-Key" = some key ∧
      greeting = WebsocketCodec.switchingProtocols env key

/-- `OnRequest` was called with the frame. -/
def Answers (f : ClientFrame) (a : WsAnswer) : Prop :=
  a.request.type = f.type ∧ a.request.payload = f.payload

/-- The codec waits behind what has been read. -/
def Waits (u : UpgradeRequest) (x : WsExchange) : Prop :=
  match x.upgrade with
  | some v => v = u ∧ x.server.codec.Expecting x.received ∧
      x.server.codec.req.payload = [] ∧ x.server.codec.lastReadIdx = 0
  | none => ∀ f ∈ x.frames.head?, x.server.codec.Before f x.received

/-- The frames in front of those to come have been answered, and the output is the
response to the upgrade and the answers. -/
structure Serving (env : HandshakeEnv) (u : UpgradeRequest) (frames : List ClientFrame)
    (x : WsExchange) : Prop where
  fault : x.server.fault = none
  output : ∃ greeting, x.Greets env u greeting ∧
    x.server.conn.Flows (greeting ++ x.server.answers.flatMap WsAnswer.text)
  answered : ∃ done, frames = done ++ x.frames ∧
    List.Forall₂ Answers done x.server.answers
  waits : x.server.conn.isConnected = true → x.Waits u

variable {env : HandshakeEnv} {u : UpgradeRequest} {frames : List ClientFrame}
  {x : WsExchange} {op : Op}

theorem start_serving (env : HandshakeEnv) (u : UpgradeRequest)
    (frames : List ClientFrame) : Serving env u frames (start u frames) where
  fault := rfl
  output := ⟨[], ⟨rfl, rfl⟩, TcpConn.Aside.flows (c := TcpConn.ofClient false)
    ⟨rfl, rfl, rfl, rfl, rfl⟩ TcpConn.ofClient_flows⟩
  answered := ⟨[], rfl, .nil⟩
  waits _ := ⟨rfl, ⟨rfl, rfl, BaseBuffer.ofSize_valid _, BaseBuffer.ofSize_toStringView _⟩,
    rfl, rfl⟩

/-- An operation that does not reach the codec. -/
theorem Serving.aside (h : Serving env u frames x) {conn : TcpConn}
    (hflows : ∀ accepted, x.server.conn.Flows accepted → conn.Flows accepted)
    (hrecv : conn.isConnected = true → x.server.conn.isConnected = true ∧
      conn.recvBuffer = x.server.conn.recvBuffer) :
    Serving env u frames { x with server := { x.server with conn := conn } } where
  fault := h.fault
  output := by
    obtain ⟨greeting, hgreets, hwas⟩ := h.output
    exact ⟨greeting, hgreets, hflows _ hwas⟩
  answered := h.answered
  waits hc := by
    obtain ⟨hwas, heq⟩ := hrecv hc
    have hwaits := h.waits hwas
    simp only [Waits, codec] at hwaits ⊢
    rw [heq]
    exact hwaits

variable {b : BaseBuffer} {data : List UInt8} {calls : List WsResp.Call} {o : Outside}
  {f : ClientFrame} {rest : List ClientFrame}

/-- The connection after it has read and before the codec has looked at it. -/
def reading (s : WsSession) (b : BaseBuffer) : WsSession :=
  { s with conn := ({ s.conn with recvBuffer := b } : TcpConn).call .onTcpReceivedData }

theorem decoded_quiet (s : WsSession) {decoder : WebsocketCodec}
    (hcalls : decoder.calls = []) :
    s.decoded o decoder = { s with
      conn := { s.conn with recvBuffer := decoder.recvBuffer }
      decoder := decoder } := by
  rw [decoded, hcalls]
  rfl

theorem reading_flows {accepted : List UInt8} (h : x.server.conn.Flows accepted)
    (b : BaseBuffer) : (reading x.server b).conn.Flows accepted :=
  TcpConn.Aside.flows (c := x.server.conn) ⟨rfl, rfl, rfl, rfl, rfl⟩ h

/-- The segment that ends with the upgrade. -/
theorem Serving.upgraded (h : Serving env u frames x) (hupgrade : x.upgrade = some u)
    (hc : x.server.conn.isConnected = true)
    (hexpect : (reading x.server b).codec.Expecting u.wire)
    (hwire : x.received ++ data = u.wire) :
    Serving env u frames { x.deliver data with
      server := (reading x.server b).onTcpReceivedData env o calls } := by
  have hwaits := h.waits hc
  simp only [Waits, hupgrade] at hwaits
  obtain ⟨-, -, hpayload, hidx⟩ := hwaits
  obtain ⟨c', hdecode, hupgraded, hready⟩ := hexpect.decode_ready env hpayload hidx
  obtain ⟨key, hkey, hcalls⟩ := hupgraded.response
  generalize htext : WebsocketCodec.switchingProtocols env key = text at hcalls
  have hserver : (reading x.server b).onTcpReceivedData env o calls =
      { reading x.server b with
        conn := ({ (reading x.server b).conn with recvBuffer := c'.recvBuffer } :
          TcpConn).send text
        decoder := c' } := by
    rw [onTcpReceivedData, hdecode]
    simp only [decoded, hcalls]
    rfl
  have hdeliver : x.deliver data = { x with upgrade := none, received := [] } := by
    simp only [deliver, hupgrade]
    exact if_pos hwire
  obtain ⟨greeting, hgreets, hflows⟩ := h.output
  simp only [Greets, hupgrade] at hgreets
  obtain ⟨rfl, hanswers⟩ := hgreets
  rw [hanswers] at hflows
  obtain ⟨hsent, hbuffer⟩ :=
    ((reading_flows hflows b).of_recvBuffer c'.recvBuffer).answer hc text
  rw [hserver, hdeliver]
  exact
    { fault := h.fault
      output := by
        refine ⟨text, ⟨key, hkey, htext.symm⟩, ?_⟩
        change TcpConn.Flows _ (text ++ x.server.answers.flatMap WsAnswer.text)
        rw [hanswers, List.flatMap_nil, List.append_nil]
        exact hsent
      answered := h.answered
      waits := fun _ f _ => by
        refine .ready ⟨hready.state, ?_, hready.payload, hready.lastReadIdx⟩
        rw [codec, hbuffer]
        exact hready.empty }

/-- A segment that ends inside the request line of the upgrade. -/
theorem Serving.requested (h : Serving env u frames x) (hupgrade : x.upgrade = some u)
    (hc : x.server.conn.isConnected = true)
    (hexpect : (reading x.server b).codec.Expecting (x.received ++ data))
    (hfront : x.received ++ data <+: u.head.requestLine)
    (hlt : (x.received ++ data).length < u.head.requestLine.length) :
    Serving env u frames { x.deliver data with
      server := (reading x.server b).onTcpReceivedData env o calls } := by
  have hwaits := h.waits hc
  simp only [Waits, hupgrade] at hwaits
  obtain ⟨-, -, hpayload, hidx⟩ := hwaits
  have hserver : (reading x.server b).onTcpReceivedData env o calls =
      { reading x.server b with decoder := (reading x.server b).codec } := by
    rw [onTcpReceivedData, hexpect.decode_part env hfront hlt]
    exact decoded_quiet _ rfl
  have hdeliver : x.deliver data = { x with received := x.received ++ data } := by
    simp only [deliver, hupgrade]
    rw [if_neg]
    intro hwire
    rw [hwire, UpgradeRequest.wire, List.length_append] at hlt
    omega
  obtain ⟨greeting, hgreets, hflows⟩ := h.output
  rw [hserver, hdeliver]
  exact
    { fault := h.fault
      output := ⟨greeting, hgreets, reading_flows hflows b⟩
      answered := h.answered
      waits := fun _ => by
        simp only [Waits, hupgrade]
        exact ⟨trivial, hexpect, hpayload, hidx⟩ }

/-- A segment that ends with the next frame. -/
theorem Serving.complete (h : Serving env u frames x) (hupgrade : x.upgrade = none)
    (hframes : x.frames = f :: rest) (hc : x.server.conn.isConnected = true)
    (hb : b.Valid) (hview : b.toStringView = data) (hdata : data ≠ [])
    (hwire : x.received ++ data = f.wire) :
    Serving env u frames { x.deliver data with
      server := (reading x.server b).onTcpReceivedData env o calls } := by
  have hwaits := h.waits hc
  simp only [Waits, hupgrade, hframes] at hwaits
  obtain ⟨req, c', hdecode, htype, hpayload, hready, hcalls⟩ :=
    (hwaits f rfl).complete hb hview hdata env hwire
  let payload := (WsResp.build calls).getPayload
  have hserver : (reading x.server b).onTcpReceivedData env o calls =
      { reading x.server b with
        conn := (({ (reading x.server b).conn with recvBuffer := c'.recvBuffer } :
          TcpConn).send (WebsocketCodec.encodeFrameHead payload .kText)).send payload
        decoder := c'
        answers := x.server.answers ++ [⟨req, payload⟩] } := by
    have hcodec : (reading x.server b).codec =
      { x.server.codec with recvBuffer := b } := rfl
    rw [onTcpReceivedData, hcodec, hdecode]
    simp only [decoded_quiet _ hcalls]
    rfl
  have hdeliver : x.deliver data = { x with frames := rest, received := [] } := by
    simp only [deliver, hupgrade, hframes]
    exact if_pos hwire
  obtain ⟨greeting, hgreets, hflows⟩ := h.output
  obtain ⟨hsent, hbuffer⟩ :=
    ((reading_flows hflows b).of_recvBuffer c'.recvBuffer).answer_twice hc
      (WebsocketCodec.encodeFrameHead payload .kText) payload
  rw [hserver, hdeliver]
  exact
    { fault := h.fault
      output := by
        refine ⟨greeting, ?_, ?_⟩
        · simp only [Greets, hupgrade] at hgreets ⊢
          exact hgreets
        · rw [List.flatMap_append, List.flatMap_singleton, ← List.append_assoc]
          exact hsent
      answered := by
        obtain ⟨done, hall, hanswers⟩ := h.answered
        refine ⟨done ++ [f], ?_, List.rel_append hanswers (.cons ⟨htype, hpayload⟩ .nil)⟩
        rw [hall, hframes, List.append_assoc, List.singleton_append]
      waits := fun _ => by
        simp only [Waits, hupgrade]
        intro f' _
        refine .ready ⟨hready.state, ?_, hready.payload, hready.lastReadIdx⟩
        rw [codec, hbuffer]
        exact hready.empty }

/-- A segment that ends inside the payload of the next frame. -/
theorem Serving.incomplete (h : Serving env u frames x) (hupgrade : x.upgrade = none)
    (hframes : x.frames = f :: rest) (hc : x.server.conn.isConnected = true)
    (hb : b.Valid) (hview : b.toStringView = data) (hdata : data ≠ [])
    (hfront : x.received ++ data <+: f.wire)
    (hhead : f.head.length ≤ (x.received ++ data).length)
    (hlt : (x.received ++ data).length < f.wire.length) :
    Serving env u frames { x.deliver data with
      server := (reading x.server b).onTcpReceivedData env o calls } := by
  have hwaits := h.waits hc
  simp only [Waits, hupgrade, hframes] at hwaits
  obtain ⟨c', hdecode, hbefore, hcalls⟩ :=
    (hwaits f rfl).incomplete hb hview hdata env hfront hhead hlt
  have hserver : (reading x.server b).onTcpReceivedData env o calls =
      { reading x.server b with
        conn := { (reading x.server b).conn with recvBuffer := c'.recvBuffer }
        decoder := c' } := by
    have hcodec : (reading x.server b).codec =
      { x.server.codec with recvBuffer := b } := rfl
    rw [onTcpReceivedData, hcodec, hdecode]
    exact decoded_quiet _ hcalls
  have hdeliver : x.deliver data = { x with received := x.received ++ data } := by
    simp only [deliver, hupgrade, hframes]
    rw [if_neg]
    intro hwire
    rw [hwire] at hlt
    exact Nat.lt_irrefl _ hlt
  obtain ⟨greeting, hgreets, hflows⟩ := h.output
  rw [hserver, hdeliver]
  exact
    { fault := h.fault
      output := ⟨greeting, hgreets, (reading_flows hflows b).of_recvBuffer c'.recvBuffer⟩
      answered := h.answered
      waits := fun _ => by
        simp only [Waits, hupgrade, hframes]
        intro f' hf'
        cases hf'
        exact hbefore.forget }

section Heard

variable {events : TcpConn.Events}

theorem segment_heard (hheard : HttpSession.Heard x.server.conn
    (x.server.conn.handleEvent events o)) (hread : o.read = .stored data) :
    x.segment (.handleEvent events o calls) = some data := by
  refine (if_pos hheard).trans ?_
  rw [hread]

theorem next_not_heard (hheard : ¬ HttpSession.Heard x.server.conn
    (x.server.conn.handleEvent events o)) :
    x.next env (.handleEvent events o calls) = { x with
      server := { x.server with conn := x.server.conn.handleEvent events o } } := by
  have hsegment : x.segment (.handleEvent events o calls) = none := if_neg hheard
  have hexec : x.server.exec env (.handleEvent events o calls) =
      { x.server with conn := x.server.conn.handleEvent events o } := if_neg hheard
  rw [next, hsegment, hexec]
  rfl

/-- The codec is called with a segment. -/
theorem Serving.heard (h : Serving env u frames x)
    (horderly : x.Orderly (.handleEvent events o calls))
    (hheard : HttpSession.Heard x.server.conn (x.server.conn.handleEvent events o)) :
    Serving env u frames (x.next env (.handleEvent events o calls)) := by
  obtain ⟨greeting, -, hflows⟩ := h.output
  obtain ⟨hc, data, hread, hdata, heq⟩ := TcpConn.handleEvent_heard hflows.plain hheard
  generalize hb : (x.server.conn.recvBuffer.readBytesFromFd (.stored data)).1 = b at heq
  have hsegment : x.segment (.handleEvent events o calls) = some data :=
    segment_heard hheard hread
  have hexec : x.server.exec env (.handleEvent events o calls) =
      (reading x.server b).onTcpReceivedData env o calls := by
    refine (if_pos hheard).trans ?_
    simp only [Op.connOp, ConnOp.exec, heq]
    rfl
  have hread {received : List UInt8} (hvalid : x.server.conn.recvBuffer.Valid)
      (hview : x.server.conn.recvBuffer.toStringView = received) :
      b.Valid ∧ b.toStringView = received ++ data := by
    rw [← hb, ← hview]
    exact ⟨BaseBuffer.readBytesFromFd_valid hvalid (.stored data),
      BaseBuffer.readBytesFromFd_stored_toStringView hvalid data⟩
  have hwaits := h.waits hc
  have hends := horderly data hsegment
  rw [next, hsegment, hexec]
  cases hupgrade : x.upgrade with
  | some v =>
      simp only [Waits, hupgrade] at hwaits hends
      obtain ⟨rfl, hexpect, -⟩ := hwaits
      obtain ⟨hvalid, hview⟩ := hread hexpect.valid hexpect.view
      have hreading : (reading x.server b).codec.Expecting (x.received ++ data) :=
        ⟨hexpect.state, rfl, hvalid, hview⟩
      rcases hends with hwire | ⟨hfront, hlt⟩
      · exact h.upgraded hupgrade hc (hwire ▸ hreading) hwire
      · exact h.requested hupgrade hc hreading (List.isPrefixOf_iff_prefix.mp hfront) hlt
  | none =>
      simp only [Waits, hupgrade] at hwaits hends
      obtain ⟨f, hf, hcases⟩ := hends
      obtain ⟨rest, hframes⟩ := List.head?_eq_some_iff.mp hf
      have hempty := (hwaits f hf).empty
      obtain ⟨hvalid, hview⟩ := hread hempty.valid hempty.view
      rw [List.nil_append] at hview
      rcases hcases with hwire | ⟨hfront, hhead, hlt⟩
      · exact h.complete hupgrade hframes hc hvalid hview hdata hwire
      · exact h.incomplete hupgrade hframes hc hvalid hview hdata
          (List.isPrefixOf_iff_prefix.mp hfront) hhead hlt

end Heard

/-- The step lemma. -/
theorem Serving.next (h : Serving env u frames x)
    (henabled : op.connOp.Enabled x.server.conn) (horderly : x.Orderly op) :
    Serving env u frames (x.next env op) := by
  have hflows (accepted : List UInt8) (hwas : x.server.conn.Flows accepted) :
      (op.connOp.exec x.server.conn).Flows accepted := by
    have haccept : x.server.conn.accept op.connOp = [] := by
      cases op <;> rfl
    have hexec := hwas.exec henabled
    rwa [haccept, List.append_nil] at hexec
  obtain ⟨greeting, -, hwas⟩ := h.output
  cases op with
  | handleEvent events o calls =>
      by_cases hheard : HttpSession.Heard x.server.conn
          (x.server.conn.handleEvent events o)
      · exact h.heard horderly hheard
      · rw [next_not_heard hheard]
        exact h.aside hflows (TcpConn.handleEvent_not_heard hwas.plain hheard)
  | shutdown o =>
      have hstop := TcpConn.shutdown_stopped x.server.conn o
      exact h.aside hflows
        fun hc => absurd (hc.symm.trans hstop.stopped) (by decide)
  | forceClose =>
      exact h.aside hflows
        fun hc => absurd hc Bool.false_ne_true

end WsExchange

end Jerry
