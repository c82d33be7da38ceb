/-
Reading on a TLS connection: records wait on the socket, the rest of the record
that `SSL_read` took last waits inside the SSL object, and the poller reports
only what is on the socket.
-/
import Jerry.TcpOutput

namespace Jerry

/-- The SSL object and its socket: the plaintext of the last record that has not
been returned yet, and the records that were not taken yet. -/
structure Ssl where
  pending : List UInt8
  socket : List (List UInt8)
deriving DecidableEq, Repr

namespace Ssl

/-- With nothing pending a whole record is taken, the next one with plaintext. -/
def takeRecord (ssl : Ssl) : Ssl :=
  if ssl.pending = [] then
    match ssl.socket.dropWhile List.isEmpty with
    | [] => ⟨[], []⟩
    | record :: rest => ⟨record, rest⟩
  else ssl

/-- `SSL_read` with the number of bytes it may return; a number that is not
positive is an error. -/
def read (ssl : Ssl) (num : Int) : ReadResult × SslError × Ssl :=
  if num ≤ 0 then (.failed, .other, ssl)
  else
    let ssl := ssl.takeRecord
    if ssl.pending = [] then (.failed, .wantRead, ssl)
    else (.stored (ssl.pending.take num.toNat), .wantRead,
      { ssl with pending := ssl.pending.drop num.toNat })

end Ssl

namespace Ssl

theorem flatten_dropWhile_isEmpty (records : List (List UInt8)) :
    (records.dropWhile List.isEmpty).flatten = records.flatten := by
  induction records with
  | nil => rfl
  | cons record records ih =>
      rw [List.dropWhile_cons]
      split
      · rename_i hempty
        rw [ih, List.flatten_cons, List.isEmpty_iff.mp hempty, List.nil_append]
      · rfl

/-- Taking a record moves its plaintext and loses none. -/
theorem takeRecord_flatten (ssl : Ssl) :
    ssl.takeRecord.pending ++ ssl.takeRecord.socket.flatten =
      ssl.pending ++ ssl.socket.flatten := by
  rw [takeRecord]
  split
  · rename_i hpending
    have hflatten := flatten_dropWhile_isEmpty ssl.socket
    split
    · rename_i hnone
      rw [hnone] at hflatten
      rw [hpending, ← hflatten]
    · rename_i record rest hrecord
      rw [hrecord, List.flatten_cons] at hflatten
      rw [hpending, ← hflatten, List.nil_append]
  · rfl

theorem takeRecord_pending {ssl : Ssl} (h : ssl.pending ≠ []) :
    ssl.takeRecord = ssl := by
  rw [takeRecord, if_neg h]

/-- Nothing is left on the socket if it has no plaintext. -/
theorem takeRecord_empty {ssl : Ssl} (h : ssl.takeRecord.pending = []) :
    ssl.takeRecord = ⟨[], []⟩ ∧ ssl.pending = [] ∧
      ssl.socket.dropWhile List.isEmpty = [] := by
  have hpending : ssl.pending = [] := by
    by_contra hne
    rw [takeRecord_pending hne] at h
    exact hne h
  rw [takeRecord, if_pos hpending] at h ⊢
  cases hcases : ssl.socket.dropWhile List.isEmpty with
  | nil => exact ⟨rfl, hpending, rfl⟩
  | cons record rest =>
      rw [hcases] at h
      have hnonempty : ssl.socket.dropWhile List.isEmpty ≠ [] := by
        rw [hcases]
        exact List.cons_ne_nil _ _
      have hfull := List.head_dropWhile_not List.isEmpty hnonempty
      simp only [hcases, List.head_cons] at hfull h
      rw [h] at hfull
      cases hfull

/-- With nothing pending, a record with plaintext is the first of its kind. -/
theorem takeRecord_full {ssl : Ssl} (hpending : ssl.pending = [])
    (h : ssl.takeRecord.pending ≠ []) :
    ssl.socket.dropWhile List.isEmpty =
      ssl.takeRecord.pending :: ssl.takeRecord.socket := by
  rw [takeRecord, if_pos hpending] at h ⊢
  cases hcases : ssl.socket.dropWhile List.isEmpty with
  | nil =>
      rw [hcases] at h
      exact absurd rfl h
  | cons record rest => rfl

end Ssl

/-- The size limit of a TLS record's plaintext. -/
def maxRecordSize : Nat := 16384

/-- An encrypted connection with its SSL object.  `received` is the plaintext of
all records that have arrived, `consumed` what the user has dropped from
`recv_buffer` and `announced` what had been appended to it when `OnDataReceived`
was last called. -/
structure TlsConn where
  conn : TcpConn
  ssl : Ssl
  received : List UInt8
  consumed : List UInt8
  announced : List UInt8
deriving DecidableEq, Repr

namespace TlsConn

def init : TlsConn :=
  { conn := .ofClient true
    ssl := ⟨[], []⟩
    received := []
    consumed := []
    announced := [] }

/-- All that was appended to `recv_buffer`. -/
def appended (c : TlsConn) : List UInt8 :=
  c.consumed ++ c.conn.recvBuffer.toStringView

/-- The third argument of `SSL_read` in `ReadBytesFromSsl`. -/
def request (c : TlsConn) : Int :=
  BaseBuffer.toInt32
    (c.conn.recvBuffer.ensureWritableSpace BaseBuffer.sslReserve).writableBytes

/-- `OnChannelReadable`, which does not read when not connected. -/
def onChannelReadable (c : TlsConn) (o : Outside) : TlsConn :=
  if c.conn.isConnected then
    let (result, sslError, ssl) := c.ssl.read c.request
    let conn := c.conn.onChannelReadable
      { o with read := result, sslError := sslError }
    let c' := { c with conn := conn, ssl := ssl }
    if conn.history.callbacks = c.conn.history.callbacks ++ [.onTcpReceivedData]
    then { c' with announced := c'.appended }
    else c'
  else c

/-- What can happen: a record arrives, the poller reports the socket readable,
SSL_read reports an error or the end, the user drops data from `recv_buffer`, or
anything else happens to the connection. -/
inductive Op where
  | arrive (record : List UInt8)
  | readable (o : Outside)
  | broken (o : Outside)
  | consume (n : Nat)
  | conn (op : ConnOp)
deriving DecidableEq, Repr

/-- The operation is not a readable event. -/
def NoRead : ConnOp → Prop
  | .handleEvent events _ => events.close = true ∨ events.read = false
  | _ => True

instance : ∀ op, Decidable (NoRead op)
  | .handleEvent _ _ => inferInstanceAs (Decidable (_ ∨ _))
  | .send _ => isTrue trivial
  | .shutdown _ => isTrue trivial
  | .forceClose => isTrue trivial

/-- The poller is level-triggered and knows the socket only. -/
def Op.Enabled (c : TlsConn) : Op → Prop
  | .arrive record => record.length ≤ maxRecordSize
  | .readable _ => c.ssl.socket ≠ []
  | .broken o => o.read = .stored [] ∨ o.read = .failed ∧ o.sslError ≠ .wantRead
  | .consume n => n ≤ c.conn.recvBuffer.readableBytes
  | .conn op => NoRead op ∧ op.Enabled c.conn

instance (c : TlsConn) : ∀ op : Op, Decidable (op.Enabled c)
  | .arrive _ => inferInstanceAs (Decidable (_ ≤ _))
  | .readable _ => inferInstanceAs (Decidable (_ ≠ _))
  | .broken _ => inferInstanceAs (Decidable (_ ∨ _))
  | .consume _ => inferInstanceAs (Decidable (_ ≤ _))
  | .conn _ => inferInstanceAs (Decidable (_ ∧ _))

def exec (c : TlsConn) : Op → TlsConn
  | .arrive record =>
      { c with
        ssl := { c.ssl with socket := c.ssl.socket ++ [record] }
        received := c.received ++ record }
  | .readable o => c.onChannelReadable o
  | .broken o => { c with conn := c.conn.onChannelReadable o }
  | .consume n =>
      { c with
        conn := { c.conn with recvBuffer := c.conn.recvBuffer.dropBytes n }
        consumed := c.consumed ++ c.conn.recvBuffer.toStringView.take n }
  | .conn op => { c with conn := op.exec c.conn }

end TlsConn

def tlsMachine : Machine TlsConn TlsConn.Op where
  enabled c op := op.Enabled c
  next := TlsConn.exec

instance (c : TlsConn) (op : TlsConn.Op) : Decidable (tlsMachine.enabled c op) :=
  inferInstanceAs (Decidable (op.Enabled c))

namespace TlsConn

variable {c : TlsConn} {op : Op} {o : Outside}

/-- Once every readable event has been handled, all plaintext has been appended
and announced, unless the connection was closed. -/
def Drained (c : TlsConn) : Prop :=
  c.conn.isConnected = true → c.ssl.socket = [] →
    c.appended = c.received ∧ c.announced = c.received

/-- No byte is lost on the way through the SSL object. -/
structure Flows (c : TlsConn) : Prop where
  encrypted : c.conn.isEncrypted = true
  valid : c.conn.recvBuffer.Valid
  lossless : c.conn.isConnected = true →
    c.received = c.appended ++ c.ssl.pending ++ c.ssl.socket.flatten
  announced : c.conn.isConnected = true → c.announced = c.appended

/-- The event takes the last record off the socket only if `SSL_read` returns
the whole of it, or if the limiter ends the connection. -/
def TakesWhole (c : TlsConn) : Op → Prop
  | .readable o => c.conn.isConnected = true → o.limited = false →
      0 < c.request → c.ssl.pending = [] →
      ∀ record ∈ c.ssl.socket, c.ssl.socket.dropWhile List.isEmpty = [record] →
        record.length ≤ c.request
  | _ => True

instance (c : TlsConn) : ∀ op, Decidable (c.TakesWhole op)
  | .readable _ => inferInstanceAs
      (Decidable (_ → _ → _ → _ → ∀ _ ∈ _, _ → _))
  | .arrive _ => isTrue trivial
  | .broken _ => isTrue trivial
  | .consume _ => isTrue trivial
  | .conn _ => isTrue trivial

section Reading

theorem toInt32_le (n : Nat) : BaseBuffer.toInt32 n ≤ n := by
  unfold BaseBuffer.toInt32
  rw [Int.bmod_def]
  split <;> omega

/-- The connection with room to read into. -/
def ensured (c : TlsConn) : TcpConn :=
  { c.conn with
    recvBuffer := c.conn.recvBuffer.ensureWritableSpace BaseBuffer.sslReserve }

/-- The plaintext that `SSL_read` returns. -/
def returned (c : TlsConn) : List UInt8 :=
  c.ssl.takeRecord.pending.take c.request.toNat

/-- The connection with this plaintext in its buffer. -/
def filled (c : TlsConn) : TcpConn :=
  { c.conn with
    recvBuffer := (c.conn.recvBuffer.readBytesFromSsl (.stored c.returned)).1 }

theorem not_announced (callbacks : List TcpCallback) :
    callbacks ≠ callbacks ++ [.onTcpReceivedData] := by
  intro heq
  exact absurd (congrArg List.length heq) (by simp)

/-- No room is an error. -/
theorem onChannelReadable_bad (h : c.Flows) (hc : c.conn.isConnected = true)
    (hnum : c.request ≤ 0) :
    c.onChannelReadable o = { c with conn := c.ensured.forceClose } := by
  have hconn : c.conn.onChannelReadable
      { o with read := .failed, sslError := .other } = c.ensured.forceClose := by
    rw [TcpConn.onChannelReadable, if_pos hc, if_pos h.encrypted]
    rfl
  rw [onChannelReadable, if_pos hc, Ssl.read, if_pos hnum]
  simp only [hconn]
  rw [if_neg]
  intro heq
  exact absurd (List.append_cancel_left heq) (by decide)

/-- Without plaintext the connection waits for more. -/
theorem onChannelReadable_none (h : c.Flows) (hc : c.conn.isConnected = true)
    (hnum : 0 < c.request) (hnone : c.ssl.takeRecord.pending = []) :
    c.onChannelReadable o =
      { c with conn := c.ensured, ssl := c.ssl.takeRecord } := by
  have hconn : c.conn.onChannelReadable
      { o with read := .failed, sslError := .wantRead } = c.ensured := by
    rw [TcpConn.onChannelReadable, if_pos hc, if_pos h.encrypted]
    rfl
  rw [onChannelReadable, if_pos hc, Ssl.read, if_neg (by omega)]
  simp only [hnone, if_true, hconn]
  exact if_neg (not_announced _)

/-- Plaintext is put into the buffer, and the user hears of it unless the
limiter shuts the connection down. -/
theorem onChannelReadable_some (h : c.Flows) (hc : c.conn.isConnected = true)
    (hnum : 0 < c.request) (hsome : c.ssl.takeRecord.pending ≠ []) :
    ∃ o' : Outside, o'.limited = o.limited ∧
      (c.onChannelReadable o).conn = c.filled.onDataReceived o' ∧
      (c.onChannelReadable o).ssl = { c.ssl.takeRecord with
        pending := c.ssl.takeRecord.pending.drop c.request.toNat } ∧
      (c.onChannelReadable o).received = c.received ∧
      (c.onChannelReadable o).consumed = c.consumed ∧
      (o.limited = false → (c.onChannelReadable o).announced =
        (c.onChannelReadable o).appended) := by
  have hread : c.ssl.read c.request = (.stored c.returned, .wantRead,
      { c.ssl.takeRecord with
        pending := c.ssl.takeRecord.pending.drop c.request.toNat }) := by
    rw [Ssl.read, if_neg (by omega)]
    simp only [if_neg hsome]
    rfl
  have hlength : 0 < c.returned.length := by
    rw [returned, List.length_take]
    have := List.length_pos_of_ne_nil hsome
    omega
  let o' : Outside := { o with read := .stored c.returned, sslError := .wantRead }
  have hconn : c.conn.onChannelReadable o' = c.filled.onDataReceived o' := by
    have hn : (c.conn.recvBuffer.readBytesFromSsl (.stored c.returned)).2 =
        c.returned.length := BaseBuffer.readBytesFromSsl_snd _ _
    rw [TcpConn.onChannelReadable, if_pos hc, if_pos h.encrypted]
    simp only [o']
    rw [if_neg (by rw [hn]; omega), if_neg (by rw [hn]; omega)]
    rfl
  have hcalls (hlimited : o.limited = false) :
      (c.filled.onDataReceived o').history.callbacks =
        c.conn.history.callbacks ++ [.onTcpReceivedData] := by
    rw [TcpConn.onDataReceived, if_neg (by simp [o', hlimited])]
    rfl
  refine ⟨o', rfl, ?_⟩
  rw [onChannelReadable, if_pos hc, hread]
  simp only
  rw [hconn]
  split
  · exact ⟨rfl, rfl, rfl, rfl, fun _ => rfl⟩
  · rename_i hsilent
    exact ⟨rfl, rfl, rfl, rfl, fun hlimited => absurd (hcalls hlimited) hsilent⟩

theorem returned_length (hnum : 0 < c.request) :
    c.returned.length ≤ c.ensured.recvBuffer.writableBytes := by
  have hlength : c.returned.length ≤ c.request.toNat := List.length_take_le _ _
  have hrequest : c.request ≤ c.ensured.recvBuffer.writableBytes :=
    toInt32_le c.ensured.recvBuffer.writableBytes
  generalize c.request = request at hnum hlength hrequest
  omega

theorem filled_valid (h : c.Flows) (hnum : 0 < c.request) :
    c.filled.recvBuffer.Valid := by
  have hroom : ∀ data, ReadResult.stored c.returned = .stored data →
      data.length ≤ c.ensured.recvBuffer.writableBytes := by
    intro data hdata
    rw [← ReadResult.stored.inj hdata]
    exact returned_length hnum
  exact BaseBuffer.readBytesFromSsl_valid h.valid hroom

theorem filled_toStringView (h : c.Flows) (hnum : 0 < c.request) :
    c.filled.recvBuffer.toStringView =
      c.conn.recvBuffer.toStringView ++ c.returned :=
  BaseBuffer.readBytesFromSsl_stored_toStringView h.valid (returned_length hnum)

end Reading

section Flowing

/-- A connection that is not connected has lost its stream. -/
theorem Flows.of_stopped (hencrypted : c.conn.isEncrypted = true)
    (hvalid : c.conn.recvBuffer.Valid) (hstopped : c.conn.isConnected = false) :
    c.Flows := by
  have hoff (hc : c.conn.isConnected = true) : False := by
    rw [hstopped] at hc
    cases hc
  exact ⟨hencrypted, hvalid, fun hc => (hoff hc).elim, fun hc => (hoff hc).elim⟩

theorem shutdown_recvBuffer_valid {conn : TcpConn} (h : conn.recvBuffer.Valid)
    (o : Outside) : (conn.shutdown o).recvBuffer.Valid := by
  simp only [TcpConn.shutdown]
  split
  · exact conn.recvBuffer.release_valid
  · exact h

theorem Flows.readable (h : c.Flows) (o : Outside) :
    (c.onChannelReadable o).Flows := by
  cases hc : c.conn.isConnected with
  | false =>
      rw [onChannelReadable, if_neg (by rw [hc]; decide)]
      exact h
  | true =>
      have hspace : c.ensured.recvBuffer.Valid :=
        BaseBuffer.ensureWritableSpace_valid h.valid _
      by_cases hnum : c.request ≤ 0
      · rw [onChannelReadable_bad h hc hnum]
        exact .of_stopped h.encrypted (BaseBuffer.release_valid c.conn.recvBuffer) rfl
      replace hnum : 0 < c.request := by omega
      have hlossless := h.lossless hc
      rw [List.append_assoc, ← c.ssl.takeRecord_flatten, ← List.append_assoc]
        at hlossless
      have hview : c.ensured.recvBuffer.toStringView =
          c.conn.recvBuffer.toStringView :=
        BaseBuffer.ensureWritableSpace_toStringView h.valid _
      by_cases hnone : c.ssl.takeRecord.pending = []
      · rw [onChannelReadable_none h hc hnum hnone]
        refine ⟨h.encrypted, hspace, fun _ => ?_, fun _ => ?_⟩
        · simp only [appended, hview]
          exact hlossless
        · simp only [appended, hview]
          exact h.announced hc
      · obtain ⟨o', hlimited, hconn, hssl, hreceived, hconsumed, hannounced⟩ :=
          onChannelReadable_some (o := o) h hc hnum hnone
        cases hcase : o.limited with
        | true =>
            rw [TcpConn.onDataReceived, hlimited, hcase, if_pos rfl] at hconn
            have hstop := TcpConn.shutdown_stopped c.filled o'
            apply Flows.of_stopped
            · rw [hconn, hstop.encrypted]
              exact h.encrypted
            · rw [hconn]
              exact shutdown_recvBuffer_valid (filled_valid h hnum) o'
            · rw [hconn]
              exact hstop.stopped
        | false =>
            rw [TcpConn.onDataReceived, hlimited, hcase, if_neg (by decide)]
              at hconn
            refine ⟨?_, ?_, fun _ => ?_, fun _ => hannounced hcase⟩
            · rw [hconn]
              exact h.encrypted
            · rw [hconn]
              exact filled_valid h hnum
            · rw [hreceived, hssl, appended, hconsumed, hconn, hlossless]
              have hfilled : (c.filled.call .onTcpReceivedData).recvBuffer.toStringView
                  = c.conn.recvBuffer.toStringView ++ c.returned :=
                filled_toStringView h hnum
              rw [hfilled, appended, returned]
              simp only [List.append_assoc]
              rw [← List.append_assoc (List.take _ _), List.take_append_drop]

/-- `conn'` is `conn` after a step that ends the connection or leaves its
`recv_buffer` alone. -/
def Unread (conn conn' : TcpConn) : Prop :=
  conn'.isEncrypted = conn.isEncrypted ∧
    (conn'.isConnected = false ∧
        (conn.recvBuffer.Valid → conn'.recvBuffer.Valid) ∨
      conn'.isConnected = conn.isConnected ∧
        conn'.recvBuffer = conn.recvBuffer)

theorem onChannelClose_unread (conn : TcpConn) :
    Unread conn conn.onChannelClose :=
  ⟨rfl, Or.inl ⟨rfl, fun _ => conn.recvBuffer.release_valid⟩⟩

theorem deactivateIfDone_unread {conn conn' : TcpConn} (h : Unread conn conn') :
    Unread conn conn'.deactivateIfDone := by
  rw [TcpConn.deactivateIfDone]
  split
  · exact h
  · exact h

theorem onChannelWritable_unread (conn : TcpConn) (o : Outside) :
    Unread conn (conn.onChannelWritable o) := by
  have hsame : Unread conn conn := ⟨rfl, Or.inr ⟨rfl, rfl⟩⟩
  rw [TcpConn.onChannelWritable]
  split
  · simp only
    split
    · apply deactivateIfDone_unread
      split
      · exact onChannelClose_unread _
      · exact hsame
    · split
      · exact hsame
      · exact deactivateIfDone_unread hsame
  · exact hsame

theorem exec_unread {conn : TcpConn} {op : ConnOp} (hop : NoRead op) :
    Unread conn (op.exec conn) := by
  cases op with
  | send data =>
      simp only [ConnOp.exec, TcpConn.send]
      split
      · exact ⟨rfl, Or.inr ⟨rfl, rfl⟩⟩
      · exact ⟨rfl, Or.inr ⟨rfl, rfl⟩⟩
  | shutdown o =>
      have hstop := TcpConn.shutdown_stopped conn o
      exact ⟨hstop.encrypted, Or.inl ⟨hstop.stopped, fun hvalid =>
        shutdown_recvBuffer_valid hvalid o⟩⟩
  | forceClose => exact onChannelClose_unread conn
  | handleEvent events o =>
      simp only [ConnOp.exec, TcpConn.handleEvent]
      split
      · exact onChannelClose_unread conn
      · rename_i hcloseEvent
        have hread : events.read = false := hop.resolve_left hcloseEvent
        rw [hread, if_neg (by decide)]
        split
        · exact onChannelWritable_unread conn o
        · exact onChannelClose_unread conn

/-- A failed read ends the connection. -/
theorem broken_unread {conn : TcpConn} (hencrypted : conn.isEncrypted = true)
    (ho : o.read = .stored [] ∨ o.read = .failed ∧ o.sslError ≠ .wantRead) :
    Unread conn (conn.onChannelReadable o) := by
  cases hc : conn.isConnected with
  | false =>
      rw [TcpConn.onChannelReadable, if_neg (by rw [hc]; decide)]
      exact ⟨rfl, Or.inr ⟨rfl, rfl⟩⟩
  | true =>
      rw [TcpConn.onChannelReadable, if_pos hc, if_pos hencrypted]
      rcases ho with hend | ⟨hfailed, herror⟩
      · rw [hend]
        have hn : (conn.recvBuffer.readBytesFromSsl (.stored [])).2 = 0 :=
          BaseBuffer.readBytesFromSsl_snd _ _
        simp only
        rw [if_pos hn]
        have hstop := TcpConn.shutdown_stopped { conn with
          recvBuffer := (conn.recvBuffer.readBytesFromSsl (.stored [])).1 } o
        refine ⟨hstop.encrypted, Or.inl ⟨hstop.stopped, fun hvalid => ?_⟩⟩
        apply shutdown_recvBuffer_valid
        apply BaseBuffer.readBytesFromSsl_valid hvalid
        intro data hdata
        rw [← ReadResult.stored.inj hdata]
        exact Nat.zero_le _
      · simp only [hfailed, BaseBuffer.readBytesFromSsl_failed,
          if_neg herror]
        exact ⟨rfl, Or.inl ⟨rfl, fun _ =>
          conn.recvBuffer.release_valid⟩⟩

theorem Flows.unread {conn : TcpConn} (h : c.Flows) (hconn : Unread c.conn conn) :
    Flows { c with conn := conn } := by
  obtain ⟨hencrypted, ⟨hstopped, hvalid⟩ | ⟨hsame, hbuffer⟩⟩ := hconn
  · exact .of_stopped (hencrypted.trans h.encrypted) (hvalid h.valid) hstopped
  · refine ⟨hencrypted.trans h.encrypted, hbuffer ▸ h.valid, fun hc => ?_,
      fun hc => ?_⟩
    · simp only [appended, hbuffer]
      exact h.lossless (hsame ▸ hc)
    · simp only [appended, hbuffer]
      exact h.announced (hsame ▸ hc)

theorem consume_appended (h : c.Flows) (n : Nat) :
    (c.exec (.consume n)).appended = c.appended := by
  simp only [exec, appended]
  rw [BaseBuffer.dropBytes_toStringView h.valid, List.append_assoc,
    List.take_append_drop]

/-- The step lemma. -/
theorem Flows.exec (h : c.Flows) (henabled : op.Enabled c) :
    (c.exec op).Flows := by
  cases op with
  | arrive record =>
      refine ⟨h.encrypted, h.valid, fun hc => ?_, h.announced⟩
      have hlossless := h.lossless hc
      simp only [TlsConn.exec, appended] at hlossless ⊢
      rw [hlossless]
      simp [List.flatten_append]
  | readable o => exact h.readable o
  | broken o => exact h.unread (broken_unread h.encrypted henabled)
  | consume n =>
      have happended := consume_appended h n
      refine ⟨h.encrypted, BaseBuffer.dropBytes_valid h.valid n, ?_, ?_⟩
      · rw [happended]
        exact h.lossless
      · rw [happended]
        exact h.announced
  | conn op => exact h.unread (exec_unread henabled.1)

end Flowing

section Draining

/-- With everything taken from the socket and the SSL object, everything has
been appended. -/
theorem Flows.drained (h : c.Flows) (hpending : c.ssl.pending = []) :
    c.Drained := by
  intro hc hsocket
  have hlossless := h.lossless hc
  rw [hpending, hsocket, List.append_nil, List.flatten_nil, List.append_nil]
    at hlossless
  exact ⟨hlossless.symm, (h.announced hc).trans hlossless.symm⟩

/-- What is left in the SSL object when the socket is empty is missing. -/
theorem Flows.drained_iff (h : c.Flows) (hc : c.conn.isConnected = true)
    (hsocket : c.ssl.socket = []) : c.Drained ↔ c.ssl.pending = [] := by
  refine ⟨fun hdrained => ?_, h.drained⟩
  have hlossless := h.lossless hc
  rw [hsocket, List.flatten_nil, List.append_nil, (hdrained hc hsocket).1]
    at hlossless
  exact List.self_eq_append_right.mp hlossless

theorem drained_of_stopped (hstopped : c.conn.isConnected = false) :
    c.Drained := by
  intro hc
  rw [hstopped] at hc
  cases hc

theorem takesWhole_iff (hc : c.conn.isConnected = true)
    (hlimited : o.limited = false) (hnum : 0 < c.request)
    (hsocket : c.ssl.socket ≠ []) (hsome : c.ssl.takeRecord.pending ≠ []) :
    c.TakesWhole (.readable o) ↔ (c.ssl.takeRecord.socket = [] →
      c.ssl.takeRecord.pending.drop c.request.toNat = []) := by
  by_cases hpending : c.ssl.pending = []
  · have hrecord := Ssl.takeRecord_full hpending hsome
    rw [List.drop_eq_nil_iff]
    constructor
    · intro htakes hlast
      rw [hlast] at hrecord
      have hmem : c.ssl.takeRecord.pending ∈ c.ssl.socket := by
        apply (List.dropWhile_sublist List.isEmpty).subset
        rw [hrecord]
        exact List.mem_singleton_self _
      have := htakes hc hlimited hnum hpending _ hmem hrecord
      omega
    · intro hwhole _ _ _ _ record _ hlast
      rw [hrecord] at hlast
      obtain ⟨rfl, hrest⟩ := List.cons.inj hlast
      have := hwhole hrest
      omega
  · refine iff_of_true (fun _ _ _ hnone => absurd hnone hpending) ?_
    rw [Ssl.takeRecord_pending hpending]
    exact fun hnone => absurd hnone hsocket

/-- A readable event leaves something behind exactly when `SSL_read` returns only
a part of the last record. -/
theorem Flows.drained_readable_iff (h : c.Flows) (hsocket : c.ssl.socket ≠ [])
    (o : Outside) :
    (c.onChannelReadable o).Drained ↔ c.TakesWhole (.readable o) := by
  cases hc : c.conn.isConnected with
  | false =>
      refine iff_of_true ?_ (fun hcon => by rw [hc] at hcon; cases hcon)
      rw [onChannelReadable, if_neg (by rw [hc]; decide)]
      exact drained_of_stopped hc
  | true =>
      by_cases hnum : c.request ≤ 0
      · refine iff_of_true ?_ (fun _ _ hpos => by omega)
        rw [onChannelReadable_bad h hc hnum]
        exact drained_of_stopped rfl
      replace hnum : 0 < c.request := by omega
      have hflows := h.readable o
      by_cases hnone : c.ssl.takeRecord.pending = []
      · obtain ⟨_, _, hempty⟩ := Ssl.takeRecord_empty hnone
        refine iff_of_true ?_ (fun _ _ _ _ record _ hrecord => ?_)
        · apply hflows.drained
          rw [onChannelReadable_none h hc hnum hnone]
          exact hnone
        · rw [hempty] at hrecord
          cases hrecord
      · obtain ⟨o', hlimited, hconn, hssl, -⟩ :=
          onChannelReadable_some (o := o) h hc hnum hnone
        cases hcase : o.limited with
        | true =>
            rw [TcpConn.onDataReceived, hlimited, hcase, if_pos rfl] at hconn
            refine iff_of_true ?_ (fun _ hcon => by rw [hcase] at hcon; cases hcon)
            apply drained_of_stopped
            rw [hconn]
            exact (TcpConn.shutdown_stopped c.filled o').stopped
        | false =>
            rw [TcpConn.onDataReceived, hlimited, hcase, if_neg (by decide)]
              at hconn
            have hconnected : (c.onChannelReadable o).conn.isConnected = true := by
              rw [hconn]
              exact hc
            have hpending : (c.onChannelReadable o).ssl.pending =
                c.ssl.takeRecord.pending.drop c.request.toNat := by rw [hssl]
            have hrest : (c.onChannelReadable o).ssl.socket =
                c.ssl.takeRecord.socket := by rw [hssl]
            rw [takesWhole_iff hc hcase hnum hsocket hnone, ← hpending, ← hrest]
            by_cases hlast : (c.onChannelReadable o).ssl.socket = []
            · rw [hflows.drained_iff hconnected hlast]
              exact ⟨fun hleft _ => hleft, fun hleft => hleft hlast⟩
            · exact iff_of_true (fun _ hempty => absurd hempty hlast)
                fun hempty => absurd hempty hlast

/-- A step that reads nothing keeps nothing from being read. -/
theorem Drained.unread {conn : TcpConn} (hdrained : c.Drained)
    (hconn : Unread c.conn conn) : Drained { c with conn := conn } := by
  obtain ⟨-, ⟨hstopped, -⟩ | ⟨hsame, hbuffer⟩⟩ := hconn
  · exact drained_of_stopped hstopped
  · intro hc hsocket
    simp only [appended, hbuffer]
    exact hdrained (hsame ▸ hc) hsocket

theorem Flows.drained_exec_iff (h : c.Flows) (hdrained : c.Drained)
    (henabled : op.Enabled c) : (c.exec op).Drained ↔ c.TakesWhole op := by
  cases op with
  | arrive record =>
      refine iff_of_true (fun _ hsocket => ?_) trivial
      exact absurd hsocket (List.append_ne_nil_of_right_ne_nil _ (List.cons_ne_nil _ _))
  | readable o => exact h.drained_readable_iff henabled o
  | broken o =>
      exact iff_of_true (hdrained.unread (broken_unread h.encrypted henabled))
        trivial
  | consume n =>
      refine iff_of_true (fun hc hsocket => ?_) trivial
      rw [consume_appended h]
      exact hdrained hc hsocket
  | conn op => exact iff_of_true (hdrained.unread (exec_unread henabled.1)) trivial

theorem init_flows : init.Flows where
  encrypted := rfl
  valid := BaseBuffer.ofSize_valid 1024
  lossless _ := (BaseBuffer.ofSize_toStringView 1024).symm
  announced _ := (BaseBuffer.ofSize_toStringView 1024).symm

/-- No plaintext is ever left behind exactly in the runs in which each readable
event that takes the last record off the socket has room for all of it, or shuts
the connection down. -/
theorem drained_always_iff {ops : List Op} (hrun : tlsMachine.Run init ops c) :
    tlsMachine.Always Drained init ops ↔
      (tlsMachine.guard TakesWhole).Run init ops c :=
  hrun.always_iff_guard init_flows (init_flows.drained rfl)
    (fun _ _ hflows _ henabled _ => hflows.exec henabled)
    (fun _ _ hflows hdrained henabled =>
      hflows.drained_exec_iff hdrained henabled)

instance (c : TlsConn) (op : Op) :
    Decidable ((tlsMachine.guard TakesWhole).enabled c op) :=
  inferInstanceAs (Decidable (_ ∧ _))

/-- Two records that fit into the buffer. -/
theorem drained_always_iff_fitting :
    let ops : List Op :=
      [.arrive [1, 2], .arrive [3], .readable .quiet, .consume 2,
        .conn (.send [7]), .readable .quiet]
    tlsMachine.Always Drained init ops := by
  intro ops
  have hguard : (tlsMachine.guard TakesWhole).Run init ops
      (ops.foldl tlsMachine.next init) :=
    Machine.run_iff.mpr ⟨by decide +kernel, rfl⟩
  exact (drained_always_iff hguard.of_guard).mpr hguard

/-- A record of 1025 bytes on a new connection: its last byte is not read. -/
theorem drained_always_iff_large :
    let ops : List Op := [.arrive (List.replicate 1025 1), .readable .quiet]
    ∃ c, tlsMachine.Run init ops c ∧ c.conn.isConnected = true ∧
      c.ssl.socket = [] ∧ c.received.length = 1025 ∧
      c.appended.length = 1024 ∧ ¬ tlsMachine.Always Drained init ops := by
  intro ops
  have hrun : tlsMachine.Run init ops (ops.foldl tlsMachine.next init) :=
    Machine.run_iff.mpr ⟨by decide +kernel, rfl⟩
  refine ⟨_, hrun, by decide +kernel, by decide +kernel, by decide +kernel,
    by decide +kernel, ?_⟩
  rintro ⟨-, -, hdrained⟩
  have hall := hdrained (by decide +kernel) (by decide +kernel)
  exact absurd (congrArg List.length hall.1) (by decide +kernel)

end Draining

end TlsConn

end Jerry
