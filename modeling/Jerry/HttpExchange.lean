/-
A connection of `HttpServer` from the socket to the socket: what a client sends
in segments is decoded and answered, and what the poller finds room for is
written.  The bytes that are written are the responses, one for each request and
in the order of the requests.
-/
import Jerry.HttpFraming
import Jerry.HttpRespWire
import Jerry.TcpOutput

namespace Jerry

open CString HttpReqDecoder

/-- A request, the response `OnRequest` filled in, and the text that was sent. -/
structure HttpAnswer where
  request : HttpReq
  resp : HttpResp
  text : List UInt8
deriving DecidableEq

/-- A connection and its codec, which reads the receive buffer of the connection
itself: `buffer` of the decoder stands for that one. -/
structure HttpSession where
  conn : TcpConn
  decoder : HttpReqDecoder
  answers : List HttpAnswer
  fault : Option Fault
deriving DecidableEq

namespace HttpSession

/-- `OnTcpConnected` for a client that the limiter lets in. -/
def onTcpConnected : HttpSession :=
  let conn := (TcpConn.ofClient false).call .onTcpConnected
  { conn := conn
    decoder := (init conn.recvBuffer).setBodyMaxBytes (4 * 1024 * 1024)
    answers := []
    fault := none }

/-- The decoder with what the connection has received. -/
def codec (s : HttpSession) : HttpReqDecoder :=
  { s.decoder with buffer := s.conn.recvBuffer }

/-- `OnTcpReceivedData`, with what `OnRequest` does to the response if it is
called, and the date `ToString` finds. -/
def onTcpReceivedData (s : HttpSession) (calls : List HttpResp.Setter)
    (date : List UInt8) : HttpSession :=
  match s.codec.decode with
  | .error fault => { s with fault := some fault }
  | .ok (none, decoder) =>
      { s with
        conn := { s.conn with recvBuffer := decoder.buffer }
        decoder := decoder }
  | .ok (some req, decoder) =>
      let resp := HttpResp.build calls
      match resp.toString date with
      | .error fault => { s with fault := some fault }
      | .ok text =>
          { s with
            conn := ({ s.conn with recvBuffer := decoder.buffer } :
              TcpConn).send text
            decoder := decoder
            answers := s.answers ++ [⟨req, resp, text⟩] }

/-- An event of the channel, or the end of the connection by a timer task. -/
inductive Op where
  | handleEvent (events : TcpConn.Events) (o : Outside)
      (calls : List HttpResp.Setter) (date : List UInt8)
  | shutdown (o : Outside)
  | forceClose
deriving DecidableEq

/-- What the operation does to the connection. -/
def Op.connOp : Op → ConnOp
  | .handleEvent events o _ _ => .handleEvent events o
  | .shutdown o => .shutdown o
  | .forceClose => .forceClose

/-- The connection has called `OnTcpReceivedData`. -/
def Heard (c c' : TcpConn) : Prop :=
  c'.history.callbacks = c.history.callbacks ++ [.onTcpReceivedData]

instance (c c' : TcpConn) : Decidable (Heard c c') :=
  inferInstanceAs (Decidable (_ = _))

/-- The callback is the last thing that happens in an event. -/
def exec (s : HttpSession) (op : Op) : HttpSession :=
  let heard : HttpSession := { s with conn := op.connOp.exec s.conn }
  match op with
  | .handleEvent _ _ calls date =>
      if Heard s.conn heard.conn then heard.onTcpReceivedData calls date else heard
  | _ => heard

end HttpSession

/-- The server's side of a connection, the requests the client has yet to send,
and what the server has read of the first of them. -/
structure HttpExchange where
  server : HttpSession
  todo : List Request
  received : List UInt8

namespace HttpExchange

open HttpSession

def start (todo : List Request) : HttpExchange :=
  ⟨onTcpConnected, todo, []⟩

/-- What an event hands to the codec. -/
def segment (x : HttpExchange) : Op → Option (List UInt8)
  | .handleEvent events o _ _ =>
      if Heard x.server.conn ((ConnOp.handleEvent events o).exec x.server.conn) then
        match o.read with
        | .stored data => some data
        | .failed => none
      else none
  | _ => none

/-- The client's part: it goes on to the next request behind the last byte of
one. -/
def deliver (x : HttpExchange) (segment : List UInt8) : HttpExchange :=
  let received := x.received ++ segment
  match x.todo with
  | [] => { x with received := received }
  | r :: todo =>
      if received = r.wire then { x with todo := todo, received := [] }
      else { x with received := received }

def next (x : HttpExchange) (op : Op) : HttpExchange :=
  let delivered := ((x.segment op).map x.deliver).getD x
  { delivered with server := x.server.exec op }

/-- What is read ends where the request does, and the response can be written;
or it ends inside the head, where the cut does no harm. -/
def Orderly (x : HttpExchange) : Op → Prop
  | .handleEvent events o calls date =>
      let conn := (ConnOp.handleEvent events o).exec x.server.conn
      ∀ segment ∈ x.segment (.handleEvent events o calls date),
        let received := x.received ++ segment
        ∃ r ∈ x.todo.head?,
          (received = r.wire ∧ (HttpResp.statusMap.lookup
            (HttpResp.build calls).statusCode).isSome = true) ∨
          (received.isPrefixOf r.head.wire = true ∧
            received.length < r.head.wire.length ∧
            CutHarmless r.head received conn.recvBuffer.deadBytes)
  | _ => True

instance (x : HttpExchange) : ∀ op : Op, Decidable (x.Orderly op)
  | .handleEvent _ _ _ _ => inferInstanceAs (Decidable (∀ _ ∈ _, _))
  | .shutdown _ | .forceClose => isTrue trivial

end HttpExchange

/-- A client and the server on one connection. -/
def httpExchangeMachine : Machine HttpExchange HttpSession.Op where
  enabled x op := op.connOp.Enabled x.server.conn
  next := HttpExchange.next

instance (x : HttpExchange) (op : HttpSession.Op) :
    Decidable ((httpExchangeMachine.guard HttpExchange.Orderly).enabled x op) :=
  inferInstanceAs (Decidable (op.connOp.Enabled x.server.conn ∧ x.Orderly op))

namespace TcpConn

variable {c : TcpConn} {events : Events} {o : Outside}

theorem not_heard_of_eq {callbacks : List TcpCallback} {callback : TcpCallback}
    (hne : callback ≠ .onTcpReceivedData) :
    callbacks ++ [callback] ≠ callbacks ++ [.onTcpReceivedData] := by
  intro heq
  exact hne (List.head_eq_of_cons_eq (List.append_cancel_left heq))

theorem not_heard_self {callbacks : List TcpCallback} :
    callbacks ≠ callbacks ++ [.onTcpReceivedData] := by
  intro heq
  exact List.cons_ne_nil _ _ (List.self_eq_append_right.mp heq)

theorem shutdown_callbacks (c : TcpConn) (o : Outside) :
    (c.shutdown o).history.callbacks = c.history.callbacks ∨
      (c.shutdown o).history.callbacks =
        c.history.callbacks ++ [.onTcpDisconnected] := by
  simp only [shutdown]
  split
  · exact Or.inr rfl
  · exact Or.inl rfl

theorem deactivateIfDone_callbacks (c : TcpConn) :
    c.deactivateIfDone.history.callbacks = c.history.callbacks := by
  rw [deactivateIfDone]
  split <;> rfl

/-- A write is no reason to call it. -/
theorem onChannelWritable_not_heard (hplain : c.isEncrypted = false) :
    ¬ HttpSession.Heard c (c.onChannelWritable o) := by
  rw [HttpSession.Heard, onChannelWritable]
  split
  · rw [if_neg (by rw [hplain]; decide)]
    generalize c.sendBuffer.writeBytesToFd o.write = r
    obtain ⟨sendBuffer, n⟩ := r
    simp only
    split
    · exact not_heard_of_eq (by decide)
    · rw [deactivateIfDone_callbacks]
      exact not_heard_self
  · exact not_heard_self

/-- `OnTcpReceivedData` is called for what a connected connection has read, and
for nothing else. -/
theorem onChannelReadable_heard (hplain : c.isEncrypted = false)
    (hheard : HttpSession.Heard c (c.onChannelReadable o)) :
    c.isConnected = true ∧ ∃ data, o.read = .stored data ∧ data ≠ [] ∧
      c.onChannelReadable o = ({ c with
        recvBuffer := (c.recvBuffer.readBytesFromFd (.stored data)).1 } :
          TcpConn).call .onTcpReceivedData := by
  cases hc : c.isConnected with
  | false =>
      simp only [HttpSession.Heard, onChannelReadable, hc, Bool.false_eq_true,
        if_false] at hheard
      exact absurd hheard not_heard_self
  | true =>
      have hended (hn : o.read.toInt ≤ 0) : False := by
        rw [HttpSession.Heard, onChannelReadable, if_pos hc,
          if_neg (by rw [hplain]; decide)] at hheard
        simp only [BaseBuffer.readBytesFromFd_snd, if_pos hn] at hheard
        exact not_heard_of_eq (by decide) hheard
      cases hread : o.read with
      | failed => exact (hended (by rw [hread]; decide)).elim
      | stored data =>
          have hend : o.read ≠ .stored [] := by
            intro hnil
            exact hended (by rw [hnil]; decide)
          have hread' : o.read ≠ .failed := by
            rw [hread]
            intro h
            cases h
          have heq := onChannelReadable_stored hc hplain hread' hend
          rw [heq, onDataReceived] at hheard
          rw [heq, onDataReceived, hread]
          cases hlimited : o.limited with
          | true =>
              rw [if_pos hlimited, HttpSession.Heard] at hheard
              rcases shutdown_callbacks _ o with hsame | hcalled
              · exact absurd (hsame.symm.trans hheard) not_heard_self
              · exact absurd (hcalled.symm.trans hheard) (not_heard_of_eq (by decide))
          | false =>
              refine ⟨rfl, data, rfl, fun hnil => hend ?_, rfl⟩
              rw [hread, hnil]

theorem handleEvent_heard (hplain : c.isEncrypted = false)
    (hheard : HttpSession.Heard c (c.handleEvent events o)) :
    c.isConnected = true ∧ ∃ data, o.read = .stored data ∧ data ≠ [] ∧
      c.handleEvent events o = ({ c with
        recvBuffer := (c.recvBuffer.readBytesFromFd (.stored data)).1 } :
          TcpConn).call .onTcpReceivedData := by
  rw [HttpSession.Heard, handleEvent] at hheard
  rw [handleEvent]
  split at hheard
  · exact absurd hheard (not_heard_of_eq (by decide))
  · rename_i hclose
    rw [if_neg hclose]
    split at hheard
    · rename_i hread
      rw [if_pos hread]
      exact onChannelReadable_heard hplain hheard
    · split at hheard
      · exact absurd hheard (onChannelWritable_not_heard hplain)
      · exact absurd hheard (not_heard_of_eq (by decide))

theorem onChannelReadable_stops (hc : c.isConnected = true)
    (hplain : c.isEncrypted = false)
    (hheard : ¬ HttpSession.Heard c (c.onChannelReadable o)) :
    (c.onChannelReadable o).isConnected = false := by
  have hended (hn : o.read.toInt ≤ 0) :
      (c.onChannelReadable o).isConnected = false := by
    rw [onChannelReadable, if_pos hc, if_neg (by rw [hplain]; decide)]
    simp only [BaseBuffer.readBytesFromFd_snd, if_pos hn]
    rfl
  cases hread : o.read with
  | failed => exact hended (by rw [hread]; decide)
  | stored data =>
      by_cases hnil : data = []
      · exact hended (by rw [hread, hnil]; decide)
      · have hread' : o.read ≠ .failed := by
          rw [hread]
          intro h
          cases h
        have heq := onChannelReadable_stored hc hplain hread'
          (by rw [hread]; intro h; exact hnil (ReadResult.stored.inj h))
        rw [heq, onDataReceived] at hheard ⊢
        cases hlimited : o.limited with
        | true =>
            rw [if_pos rfl]
            exact (shutdown_stopped _ o).stopped
        | false =>
            rw [hlimited, if_neg (by decide)] at hheard
            exact absurd rfl hheard

theorem onChannelWritable_recvBuffer (hplain : c.isEncrypted = false) :
    (c.onChannelWritable o).recvBuffer = c.recvBuffer := by
  rw [onChannelWritable]
  split
  · rw [if_neg (by rw [hplain]; decide)]
    generalize c.sendBuffer.writeBytesToFd o.write = r
    obtain ⟨sendBuffer, n⟩ := r
    simp only
    split
    · rfl
    · rw [deactivateIfDone]
      split <;> rfl
  · rfl

/-- Without a call, what has been received stays as it is. -/
theorem handleEvent_not_heard (hplain : c.isEncrypted = false)
    (hheard : ¬ HttpSession.Heard c (c.handleEvent events o))
    (hc : (c.handleEvent events o).isConnected = true) :
    c.isConnected = true ∧
      (c.handleEvent events o).recvBuffer = c.recvBuffer := by
  have hwas : c.isConnected = true := by
    by_contra hnot
    have hstop := exec_stopped (Bool.eq_false_iff.mpr hnot) (.handleEvent events o)
    exact absurd (hc.symm.trans hstop.stopped) (by decide)
  refine ⟨hwas, ?_⟩
  rw [handleEvent] at hheard hc ⊢
  split at hc
  · cases hc
  · rename_i hclose
    rw [if_neg hclose] at hheard ⊢
    split at hc
    · rename_i hread
      rw [if_pos hread] at hheard
      have hstop := onChannelReadable_stops hwas hplain hheard
      exact absurd (hc.symm.trans hstop) (by decide)
    · rename_i hread
      rw [if_neg hread]
      split at hc
      · rename_i hwrite
        rw [if_pos hwrite]
        exact onChannelWritable_recvBuffer hplain
      · cases hc

theorem Flows.of_recvBuffer {accepted : List UInt8} (h : c.Flows accepted)
    (b : BaseBuffer) : ({ c with recvBuffer := b } : TcpConn).Flows accepted :=
  Aside.flows (c := c) ⟨rfl, rfl, rfl, rfl, rfl⟩ h

/-- A text that is sent by a connected connection. -/
theorem Flows.answer {accepted : List UInt8} (h : c.Flows accepted)
    (hc : c.isConnected = true) (text : List UInt8) :
    (c.send text).Flows (accepted ++ text) ∧
      (c.send text).recvBuffer = c.recvBuffer := by
  have hflows := h.send text
  rw [accept, if_pos hc] at hflows
  rw [send_connected hc] at hflows ⊢
  exact ⟨hflows, rfl⟩

end TcpConn

namespace HttpReqDecoder

variable {d : HttpReqDecoder} {q : RequestHead} {received : List UInt8}

theorem Awaiting.valid (h : Awaiting q received d) : d.buffer.Valid := by
  cases h with
  | requestLine _ _ _ hvalid _ => exact hvalid
  | headers _ _ _ _ _ hvalid _ => exact hvalid

/-- Whichever way the bytes get into the buffer. -/
theorem Awaiting.receive (h : Awaiting q received d) {b : BaseBuffer}
    {segment : List UInt8} (hb : b.Valid)
    (hview : b.toStringView = d.buffer.toStringView ++ segment) :
    Awaiting q (received ++ segment) { d with buffer := b } := by
  cases h with
  | requestLine hstate hheaders hbody _ hreceived =>
      exact .requestLine hstate hheaders hbody hb (hview.trans (hreceived ▸ rfl))
  | headers done todo hsplit hstate hreq _ hreceived =>
      refine .headers done todo hsplit hstate hreq hb ?_
      rw [hreceived, hview]
      simp only [List.append_assoc]

end HttpReqDecoder

namespace HttpExchange

open HttpSession

/-- The request was understood, and the text is a response. -/
def Answers (r : Request) (a : HttpAnswer) : Prop :=
  r.Matches (4 * 1024 * 1024) a.request ∧ ∃ date, a.resp.toString date = .ok a.text

/-- The requests before `todo` have been answered, what was read of the next one
is what the decoder waits behind, and the texts flow out in order. -/
structure Serving (rs : List Request) (x : HttpExchange) : Prop where
  fault : x.server.fault = none
  flows : x.server.conn.Flows (x.server.answers.flatMap HttpAnswer.text)
  max : x.server.decoder.bodyMaxBytes = 4 * 1024 * 1024
  answered : ∃ done, rs = done ++ x.todo ∧
    List.Forall₂ Answers done x.server.answers
  awaiting : x.server.conn.isConnected = true → ∀ r ∈ x.todo.head?,
    Awaiting r.head x.received x.server.codec

theorem start_serving (rs : List Request) : Serving rs (start rs) where
  fault := rfl
  flows := TcpConn.Aside.flows (c := TcpConn.ofClient false) ⟨rfl, rfl, rfl, rfl, rfl⟩
    TcpConn.ofClient_flows
  max := rfl
  answered := ⟨[], rfl, .nil⟩
  awaiting _ r _ :=
    (init_idle (BaseBuffer.ofSize_valid _)
      (BaseBuffer.ofSize_toStringView _)).setBodyMaxBytes _ |>.awaiting r.head

variable {rs : List Request} {x : HttpExchange} {op : Op}

/-- An operation that does not reach the codec. -/
theorem Serving.aside (h : Serving rs x) {conn : TcpConn}
    (hflows : conn.Flows (x.server.answers.flatMap HttpAnswer.text))
    (hrecv : conn.isConnected = true → x.server.conn.isConnected = true ∧
      conn.recvBuffer = x.server.conn.recvBuffer) :
    Serving rs { x with server := { x.server with conn := conn } } where
  fault := h.fault
  flows := hflows
  max := h.max
  answered := h.answered
  awaiting hc r hr := by
    obtain ⟨hwas, heq⟩ := hrecv hc
    have hawait := h.awaiting hwas r hr
    simp only [codec] at hawait ⊢
    rw [heq]
    exact hawait

variable {r : Request} {todo : List Request} {b : BaseBuffer} {data : List UInt8}
  {calls : List HttpResp.Setter} {date : List UInt8}

/-- The connection after it has read and before the codec has looked at it. -/
def reading (s : HttpSession) (b : BaseBuffer) : HttpSession :=
  { s with conn := ({ s.conn with recvBuffer := b } : TcpConn).call .onTcpReceivedData }

theorem reading_flows (h : Serving rs x) (b : BaseBuffer) :
    (reading x.server b).conn.Flows (x.server.answers.flatMap HttpAnswer.text) :=
  TcpConn.Aside.flows (c := x.server.conn) ⟨rfl, rfl, rfl, rfl, rfl⟩ h.flows

/-- A segment that leaves the head of the next request incomplete. -/
theorem Serving.incomplete (h : Serving rs x) (htodo : x.todo = r :: todo)
    (hawait : Awaiting r.head (x.received ++ data) (reading x.server b).codec)
    (hfront : x.received ++ data <+: r.head.wire)
    (hlt : (x.received ++ data).length < r.head.wire.length)
    (hcut : CutHarmless r.head (x.received ++ data) b.deadBytes) :
    Serving rs { x.deliver data with
      server := (reading x.server b).onTcpReceivedData calls date } := by
  obtain ⟨d, hdecode, hawait', hmax, -⟩ := decode_incomplete hawait hfront hlt hcut
  have hserver : (reading x.server b).onTcpReceivedData calls date =
      { reading x.server b with
        conn := { (reading x.server b).conn with recvBuffer := d.buffer }
        decoder := d } := by
    rw [onTcpReceivedData, hdecode]
  have hdeliver : x.deliver data = { x with received := x.received ++ data } := by
    rw [deliver, htodo]
    simp only
    rw [if_neg]
    intro hwire
    rw [hwire, Request.wire, List.length_append] at hlt
    omega
  rw [hserver, hdeliver]
  exact
    { fault := h.fault
      flows := (reading_flows h b).of_recvBuffer d.buffer
      max := hmax.trans h.max
      answered := h.answered
      awaiting := fun _ r' hr' => by
        rw [htodo] at hr'
        cases hr'
        exact hawait' }

/-- A segment that ends with the next request. -/
theorem Serving.complete (h : Serving rs x) (htodo : x.todo = r :: todo)
    (hc : x.server.conn.isConnected = true)
    (hawait : Awaiting r.head (x.received ++ data) (reading x.server b).codec)
    (hwire : x.received ++ data = r.wire)
    (hstatus : (HttpResp.statusMap.lookup
      (HttpResp.build calls).statusCode).isSome = true) :
    Serving rs { x.deliver data with
      server := (reading x.server b).onTcpReceivedData calls date } := by
  obtain ⟨reason, hreason⟩ := Option.isSome_iff_exists.mp hstatus
  have htext := HttpResp.toString_eq hreason date
  generalize (HttpResp.build calls).statusLine reason ++
    (HttpResp.build calls).block date = text at htext
  rw [hwire, Request.wire] at hawait
  obtain ⟨req, d, hdecode, hmatches, hidle, hmax⟩ :
      ∃ req d, (reading x.server b).codec.decode = .ok (some req, d) ∧
        r.Matches (reading x.server b).codec.bodyMaxBytes req ∧ d.Idle ∧
        d.bodyMaxBytes = 4 * 1024 * 1024 :=
    ⟨_, _, decode_complete hawait, r.toReq_matches _ _, finished_idle _ _, h.max⟩
  have hserver : (reading x.server b).onTcpReceivedData calls date =
      { reading x.server b with
        conn := ({ (reading x.server b).conn with recvBuffer := d.buffer } :
          TcpConn).send text
        decoder := d
        answers := x.server.answers ++ [⟨req, HttpResp.build calls, text⟩] } := by
    rw [onTcpReceivedData, hdecode]
    simp only [htext]
    rfl
  have hdeliver : x.deliver data = { x with todo := todo, received := [] } := by
    rw [deliver, htodo]
    exact if_pos hwire
  -- the text is taken, since a connection that reads is connected
  obtain ⟨hflows, hbuffer⟩ :=
    ((reading_flows h b).of_recvBuffer d.buffer).answer hc text
  rw [hserver, hdeliver]
  exact
    { fault := h.fault
      flows := by
        rw [List.flatMap_append, List.flatMap_singleton]
        exact hflows
      max := hmax
      answered := by
        obtain ⟨done, hrs, hanswers⟩ := h.answered
        refine ⟨done ++ [r], ?_, List.rel_append hanswers (.cons ⟨?_, date, htext⟩ .nil)⟩
        · rw [hrs, htodo, List.append_assoc, List.singleton_append]
        · exact h.max ▸ hmatches
      awaiting := fun _ r' _ => by
        rw [codec, hbuffer]
        exact hidle.awaiting r'.head }

section Heard

variable {events : TcpConn.Events} {o : Outside}

theorem segment_heard (hheard : Heard x.server.conn (x.server.conn.handleEvent events o))
    (hread : o.read = .stored data) :
    x.segment (.handleEvent events o calls date) = some data := by
  refine (if_pos hheard).trans ?_
  rw [hread]

theorem next_not_heard
    (hheard : ¬ Heard x.server.conn (x.server.conn.handleEvent events o)) :
    x.next (.handleEvent events o calls date) = { x with
      server := { x.server with conn := x.server.conn.handleEvent events o } } := by
  have hsegment : x.segment (.handleEvent events o calls date) = none := if_neg hheard
  have hexec : x.server.exec (.handleEvent events o calls date) =
      { x.server with conn := x.server.conn.handleEvent events o } := if_neg hheard
  rw [next, hsegment, hexec]
  rfl

end Heard

/-- The codec is called with a segment. -/
theorem Serving.heard (h : Serving rs x) {events : TcpConn.Events} {o : Outside}
    (horderly : x.Orderly (.handleEvent events o calls date))
    (hheard : Heard x.server.conn (x.server.conn.handleEvent events o)) :
    Serving rs (x.next (.handleEvent events o calls date)) := by
  obtain ⟨hc, data, hread, -, heq⟩ := TcpConn.handleEvent_heard h.flows.plain hheard
  generalize hb : (x.server.conn.recvBuffer.readBytesFromFd (.stored data)).1 = b at heq
  have hsegment : x.segment (.handleEvent events o calls date) = some data :=
    segment_heard hheard hread
  have hexec : x.server.exec (.handleEvent events o calls date) =
      (reading x.server b).onTcpReceivedData calls date := by
    refine (if_pos hheard).trans ?_
    simp only [Op.connOp, ConnOp.exec, heq]
    rfl
  obtain ⟨r, hr, hcases⟩ := horderly data hsegment
  obtain ⟨todo, htodo⟩ := List.head?_eq_some_iff.mp hr
  have hawait := h.awaiting hc r hr
  have hview := BaseBuffer.readBytesFromFd_stored_toStringView hawait.valid data
  have hvalid := BaseBuffer.readBytesFromFd_valid hawait.valid (.stored data)
  have hreading : Awaiting r.head (x.received ++ data) (reading x.server b).codec :=
    hawait.receive (hb ▸ hvalid) (hb ▸ hview)
  rw [HttpExchange.next, hsegment, hexec]
  rcases hcases with ⟨hwire, hstatus⟩ | ⟨hfront, hlt, hcut⟩
  · exact h.complete htodo hc hreading hwire hstatus
  · have hbuffer : ((ConnOp.handleEvent events o).exec x.server.conn).recvBuffer = b :=
      congrArg TcpConn.recvBuffer heq
    rw [hbuffer] at hcut
    exact h.incomplete htodo hreading (List.isPrefixOf_iff_prefix.mp hfront) hlt hcut

/-- The step lemma. -/
theorem Serving.next (h : Serving rs x) (henabled : op.connOp.Enabled x.server.conn)
    (horderly : x.Orderly op) : Serving rs (x.next op) := by
  have hflows := h.flows.exec henabled
  have haccept : x.server.conn.accept op.connOp = [] := by
    cases op <;> rfl
  rw [haccept, List.append_nil] at hflows
  cases op with
  | handleEvent events o calls date =>
      by_cases hheard : Heard x.server.conn (x.server.conn.handleEvent events o)
      · exact h.heard horderly hheard
      · rw [next_not_heard hheard]
        exact h.aside hflows
          (TcpConn.handleEvent_not_heard h.flows.plain hheard)
  | shutdown o =>
      have hstop := TcpConn.shutdown_stopped x.server.conn o
      exact h.aside hflows
        fun hc => absurd (hc.symm.trans hstop.stopped) (by decide)
  | forceClose =>
      exact h.aside hflows
        fun hc => absurd hc Bool.false_ne_true

end HttpExchange

end Jerry
