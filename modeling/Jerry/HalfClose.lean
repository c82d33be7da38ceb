/-
A connection with its socket: what the peer has sent, and the poller, which is
level-triggered and reports the socket for as long as bytes are unread on it.
After `Shutdown` reading is to go on.
-/
import Jerry.TlsReading

namespace Jerry

namespace ConnOp

/-- A readable event, which `HandleEvent` passes on to `OnChannelReadable`. -/
def Readable : ConnOp → Prop
  | .handleEvent events _ => events.close = false ∧ events.read = true
  | _ => False

instance : ∀ op, Decidable (Readable op)
  | .handleEvent _ _ => inferInstanceAs (Decidable (_ ∧ _))
  | .send _ => isFalse id
  | .shutdown _ => isFalse id
  | .forceClose => isFalse id

/-- Any event but a merely writable one: whatever the socket holds is to be read
then, if the event closes the connection too. -/
def Signals : ConnOp → Prop
  | .handleEvent events _ => events.close ∨ events.read ∨ events.write = false
  | _ => False

instance : ∀ op, Decidable (Signals op)
  | .handleEvent _ _ => inferInstanceAs (Decidable (_ ∨ _ ∨ _))
  | .send _ => isFalse id
  | .shutdown _ => isFalse id
  | .forceClose => isFalse id

theorem noRead_of_not_readable {op : ConnOp} (h : ¬ op.Readable) :
    TlsConn.NoRead op := by
  cases op with
  | handleEvent events o =>
      simp only [Readable, not_and, Bool.not_eq_true] at h
      cases hclose : events.close with
      | true => exact Or.inl hclose
      | false => exact Or.inr (h hclose)
  | send data => trivial
  | shutdown o => trivial
  | forceClose => trivial

/-- The result that a read would have. -/
def read : ConnOp → ReadResult
  | .handleEvent _ o => o.read
  | _ => .failed

/-- The bytes that come off the socket; `OnChannelReadable` reads only when
connected. -/
def taken (c : TcpConn) (op : ConnOp) : List UInt8 :=
  if op.Readable ∧ c.isConnected = true then
    match op.read with
    | .stored data => data
    | .failed => []
  else []

end ConnOp

/-- `unread` is on the socket, and `consumed` is what the user has dropped from
`recv_buffer`.  `sent` is all that the peer has sent so far, `announced` what had
been appended to `recv_buffer` when `OnDataReceived` was last called; until
`Shutdown` both are taken as they should be.  `passedOver` says that an event
after `Shutdown` has left bytes on the socket that were to be read. -/
structure SocketConn where
  conn : TcpConn
  unread : List UInt8
  peerClosed : Bool
  consumed : List UInt8
  sent : List UInt8
  announced : List UInt8
  passedOver : Bool
deriving DecidableEq, Repr

namespace SocketConn

def init (isEncrypted : Bool) : SocketConn :=
  { conn := .ofClient isEncrypted
    unread := []
    peerClosed := false
    consumed := []
    sent := []
    announced := []
    passedOver := false }

/-- All that was appended to `recv_buffer`. -/
def appended (s : SocketConn) : List UInt8 :=
  s.consumed ++ s.conn.recvBuffer.toStringView

/-- The peer sends or closes its side, the user drops data from `recv_buffer`,
or something happens to the connection. -/
inductive Op where
  | arrive (chunk : List UInt8)
  | peerClose
  | consume (n : Nat)
  | conn (op : ConnOp)
deriving DecidableEq, Repr

/-- epoll reports the socket as readable. -/
def Reported (s : SocketConn) : Prop :=
  s.conn.channel.polled.map Prod.fst = some true ∧
    (s.unread ≠ [] ∨ s.peerClosed = true)

instance (s : SocketConn) : Decidable s.Reported :=
  inferInstanceAs (Decidable (_ ∧ _))

/-- What a read can find on the socket. -/
def Finds (s : SocketConn) : ReadResult → Prop
  | .stored [] => s.unread = [] ∧ s.peerClosed = true
  | .stored (b :: data) => b :: data <+: s.unread
  | .failed => True

instance (s : SocketConn) : ∀ r, Decidable (s.Finds r)
  | .stored [] => inferInstanceAs (Decidable (_ ∧ _))
  | .stored (_ :: _) => inferInstanceAs (Decidable (_ <+: _))
  | .failed => isTrue trivial

def Op.Enabled (s : SocketConn) : Op → Prop
  | .arrive _ => s.peerClosed = false
  | .peerClose => True
  | .consume n => n ≤ s.conn.recvBuffer.readableBytes
  | .conn op =>
      op.Enabled s.conn ∧ (op.Readable → s.Reported ∧ s.Finds op.read)

instance (s : SocketConn) : ∀ op : Op, Decidable (op.Enabled s)
  | .arrive _ => inferInstanceAs (Decidable (_ = _))
  | .peerClose => isTrue trivial
  | .consume _ => inferInstanceAs (Decidable (_ ≤ _))
  | .conn _ => inferInstanceAs (Decidable (_ ∧ (_ → _)))

/-- The event leaves bytes on the socket: it takes none of them, or it closes the
connection over the rest. -/
def PassesOver (s : SocketConn) (op : ConnOp) : Prop :=
  op.Signals ∧ s.unread.drop (op.taken s.conn).length ≠ [] ∧
    (op.taken s.conn = [] ∨ (op.exec s.conn).state = .disconnected)

instance (s : SocketConn) (op : ConnOp) : Decidable (s.PassesOver op) :=
  inferInstanceAs (Decidable (_ ∧ _ ∧ _))

/-- Until `Shutdown`. -/
def settled (s : SocketConn) : SocketConn :=
  { s with sent := s.appended ++ s.unread, announced := s.appended }

def execConn (s : SocketConn) (op : ConnOp) : SocketConn :=
  let s' := { s with
    conn := op.exec s.conn
    unread := s.unread.drop (op.taken s.conn).length }
  if s.conn.state = .shutdown then
    { s' with
      announced :=
        if s'.conn.history.callbacks =
            s.conn.history.callbacks ++ [.onTcpReceivedData]
        then s'.appended else s.announced
      passedOver := s.passedOver || decide (s.PassesOver op) }
  else s'.settled

def exec (s : SocketConn) : Op → SocketConn
  | .arrive chunk =>
      { s with unread := s.unread ++ chunk, sent := s.sent ++ chunk }
  | .peerClose => { s with peerClosed := true }
  | .consume n =>
      { s with
        conn := { s.conn with recvBuffer := s.conn.recvBuffer.dropBytes n }
        consumed := s.consumed ++ s.conn.recvBuffer.toStringView.take n }
  | .conn op => s.execConn op

end SocketConn

/-- One connection with its peer and its poller. -/
def socketMachine : Machine SocketConn SocketConn.Op where
  enabled s op := op.Enabled s
  next := SocketConn.exec

instance (s : SocketConn) (op : SocketConn.Op) :
    Decidable (socketMachine.enabled s op) :=
  inferInstanceAs (Decidable (op.Enabled s))

namespace SocketConn

variable {s : SocketConn} {op : ConnOp}

/-- After `Shutdown` all that the peer sends goes to `recv_buffer`, in order, and
is announced.  No event comes back with the socket as it was or closes the
connection over what has not been read. -/
structure ReadsOn (s : SocketConn) : Prop where
  inOrder : s.conn.state = .shutdown → s.sent = s.appended ++ s.unread
  announced : s.conn.state = .shutdown → s.announced = s.appended
  noneMissed : s.passedOver = false

/-- An event of a connection that has been shut down finds nothing on the socket,
unless it is a merely writable one. -/
def FindsNothing (s : SocketConn) : Op → Prop
  | .conn op => op.Signals → s.conn.state = .shutdown → s.unread = []
  | _ => True

instance (s : SocketConn) : ∀ op, Decidable (s.FindsNothing op)
  | .conn _ => inferInstanceAs (Decidable (_ → _ → _))
  | .arrive _ => isTrue trivial
  | .peerClose => isTrue trivial
  | .consume _ => isTrue trivial

section ShutDown

variable {c : TcpConn}

/-- `OnChannelReadable` does nothing but on a connected connection. -/
theorem readable_exec (hop : op.Readable) (hc : c.isConnected = false) :
    op.exec c = c := by
  cases op with
  | handleEvent events o =>
      obtain ⟨hclose, hread⟩ := hop
      simp [ConnOp.exec, TcpConn.handleEvent, hclose, hread,
        TcpConn.onChannelReadable, hc]
  | send data => exact hop.elim
  | shutdown o => exact hop.elim
  | forceClose => exact hop.elim

theorem not_connected (hstate : c.state = .shutdown) : c.isConnected = false := by
  rw [TcpConn.isConnected, hstate]
  rfl

/-- Nothing is read and nothing announced after `Shutdown`. -/
theorem exec_shutDown (hstate : c.state = .shutdown) (op : ConnOp) :
    (op.exec c).state = .disconnected ∨
      (op.exec c).recvBuffer = c.recvBuffer ∧
        (op.exec c).history.callbacks = c.history.callbacks := by
  have hc := not_connected hstate
  cases op with
  | send data =>
      simp [ConnOp.exec, TcpConn.send, hc]
  | shutdown o =>
      simp only [ConnOp.exec, TcpConn.shutdown]
      split
      · exact Or.inl rfl
      · exact Or.inr ⟨rfl, rfl⟩
  | forceClose => exact Or.inl rfl
  | handleEvent events o =>
      simp only [ConnOp.exec, TcpConn.handleEvent]
      split
      · exact Or.inl rfl
      · split
        · simp [TcpConn.onChannelReadable, hc]
        · split
          · simp [TcpConn.onChannelWritable, hc]
          · exact Or.inl rfl

theorem taken_shutDown (hstate : c.state = .shutdown) (op : ConnOp) :
    op.taken c = [] := by
  rw [ConnOp.taken, if_neg]
  rw [not_connected hstate]
  exact fun h => absurd h.2 (by decide)

/-- So whatever is on the socket is passed over. -/
theorem passesOver_iff (hstate : s.conn.state = .shutdown) :
    s.PassesOver op ↔ op.Signals ∧ s.unread ≠ [] := by
  have htaken := taken_shutDown hstate op
  rw [PassesOver, htaken, List.length_nil, List.drop_zero]
  constructor
  · exact fun h => ⟨h.1, h.2.1⟩
  · exact fun h => ⟨h.1, h.2, Or.inl rfl⟩

/-- Level triggering repeats it: any number of such events leaves the connection
and its socket as they are, and the poller reports the next one. -/
theorem readable_repeats {t : SocketConn} {ops : List ConnOp}
    (hrun : socketMachine.Run s (ops.map .conn) t)
    (hops : ∀ op ∈ ops, op.Readable) (hstate : s.conn.state = .shutdown) :
    t.conn = s.conn ∧ t.unread = s.unread ∧ t.peerClosed = s.peerClosed := by
  induction ops generalizing s with
  | nil =>
      cases hrun
      exact ⟨rfl, rfl, rfl⟩
  | cons op ops ih =>
      cases hrun with
      | cons _ hrest =>
          have hsame := readable_exec (hops op List.mem_cons_self)
            (not_connected hstate)
          have hnext : (s.execConn op).conn = s.conn ∧
              (s.execConn op).unread = s.unread ∧
              (s.execConn op).peerClosed = s.peerClosed := by
            rw [execConn, if_pos hstate]
            simp [hsame, taken_shutDown hstate]
          obtain ⟨hconn, hunread, hclosed⟩ := hnext
          obtain ⟨hconn', hunread', hclosed'⟩ := ih hrest
            (fun op' hop' => hops op' (List.mem_cons_of_mem _ hop'))
            (hconn.symm ▸ hstate)
          exact ⟨hconn'.trans hconn, hunread'.trans hunread,
            hclosed'.trans hclosed⟩

end ShutDown

section Reading

variable {c : TcpConn} {o : Outside}

theorem onDataReceived_recvBuffer_valid (h : c.recvBuffer.Valid) (o : Outside) :
    (c.onDataReceived o).recvBuffer.Valid := by
  rw [TcpConn.onDataReceived]
  split
  · exact TlsConn.shutdown_recvBuffer_valid h o
  · exact h

theorem onChannelReadable_recvBuffer_valid (h : c.recvBuffer.Valid)
    {events : TcpConn.Events}
    (henabled : (ConnOp.handleEvent events o).Enabled c) :
    (c.onChannelReadable o).recvBuffer.Valid := by
  rw [TcpConn.onChannelReadable]
  split
  · split
    · rename_i hencrypted
      rw [ConnOp.Enabled, if_pos hencrypted] at henabled
      have hread := BufferOp.exec_valid h henabled.1
      simp only
      split
      · exact TlsConn.shutdown_recvBuffer_valid hread o
      · split
        · split
          · exact hread
          · exact (c.recvBuffer.readBytesFromSsl o.read).1.release_valid
        · exact onDataReceived_recvBuffer_valid hread o
    · rename_i hplain
      rw [ConnOp.Enabled, if_neg hplain] at henabled
      have hread := BufferOp.exec_valid h henabled.1
      simp only
      split
      · exact (c.recvBuffer.readBytesFromFd o.read).1.release_valid
      · exact onDataReceived_recvBuffer_valid hread o
  · exact h

theorem exec_recvBuffer_valid (h : c.recvBuffer.Valid)
    (henabled : op.Enabled c) : (op.exec c).recvBuffer.Valid := by
  by_cases hop : op.Readable
  · cases op with
    | handleEvent events o =>
        simp only [ConnOp.exec, TcpConn.handleEvent, hop.1, hop.2]
        exact onChannelReadable_recvBuffer_valid h henabled
    | send data => exact hop.elim
    | shutdown o => exact hop.elim
    | forceClose => exact hop.elim
  · obtain ⟨-, hstopped | hsame⟩ :=
      @TlsConn.exec_unread c op (ConnOp.noRead_of_not_readable hop)
    · exact hstopped.2 h
    · rw [hsame.2]
      exact h

end Reading

/-- What holds whatever the poller reports: nothing overtakes, and nothing that
was read is kept from the user. -/
structure Tracks (s : SocketConn) : Prop where
  valid : s.conn.recvBuffer.Valid
  inOrder : s.conn.state = .shutdown → s.sent = s.appended ++ s.unread
  announced : s.conn.state = .shutdown → s.announced = s.appended

theorem Tracks.execConn (h : s.Tracks) (henabled : op.Enabled s.conn) :
    (s.execConn op).Tracks := by
  have hvalid := exec_recvBuffer_valid h.valid henabled
  by_cases hstate : s.conn.state = .shutdown
  · rw [SocketConn.execConn, if_pos hstate]
    have htaken := taken_shutDown hstate op
    rcases exec_shutDown hstate op with hclosed | ⟨hrecv, hcalls⟩
    · have hnot : (op.exec s.conn).state ≠ .shutdown := by
        rw [hclosed]
        decide
      exact ⟨hvalid, fun h' => absurd h' hnot, fun h' => absurd h' hnot⟩
    · refine ⟨hvalid, fun _ => ?_, fun _ => ?_⟩
      · simp only [appended, hrecv, htaken, List.length_nil, List.drop_zero]
        exact h.inOrder hstate
      · rw [if_neg (by rw [hcalls]; exact TlsConn.not_announced _)]
        simp only [appended, hrecv]
        exact h.announced hstate
  · rw [SocketConn.execConn, if_neg hstate]
    exact ⟨hvalid, fun _ => rfl, fun _ => rfl⟩

theorem Tracks.exec (h : s.Tracks) {op : Op} (henabled : op.Enabled s) :
    (s.exec op).Tracks := by
  cases op with
  | arrive chunk =>
      refine ⟨h.valid, fun hstate => ?_, h.announced⟩
      change s.sent ++ chunk = s.appended ++ (s.unread ++ chunk)
      rw [h.inOrder hstate, List.append_assoc]
  | peerClose => exact ⟨h.valid, h.inOrder, h.announced⟩
  | consume n =>
      have happended : (s.exec (.consume n)).appended = s.appended := by
        change s.consumed ++ s.conn.recvBuffer.toStringView.take n ++
          (s.conn.recvBuffer.dropBytes n).toStringView = s.appended
        rw [BaseBuffer.dropBytes_toStringView h.valid, List.append_assoc,
          List.take_append_drop]
        rfl
      refine ⟨BaseBuffer.dropBytes_valid h.valid n, fun hstate => ?_,
        fun hstate => ?_⟩
      · rw [happended]
        exact h.inOrder hstate
      · rw [happended]
        exact h.announced hstate
  | conn op => exact h.execConn henabled.1

theorem init_tracks (isEncrypted : Bool) : (init isEncrypted).Tracks where
  valid := BaseBuffer.ofSize_valid 1024
  inOrder := fun _ => by simp [init, appended, TcpConn.ofClient, TcpConn.init]
  announced := fun _ => by simp [init, appended, TcpConn.ofClient, TcpConn.init]

/-- One step misses something exactly if it is an event that finds bytes on the
socket too late. -/
theorem passedOver_exec (hnone : s.passedOver = false) (op : Op) :
    (s.exec op).passedOver = false ↔ s.FindsNothing op := by
  cases op with
  | arrive chunk => exact iff_of_true hnone trivial
  | peerClose => exact iff_of_true hnone trivial
  | consume n => exact iff_of_true hnone trivial
  | conn op =>
      rw [FindsNothing]
      change (s.execConn op).passedOver = false ↔ _
      rw [execConn]
      split
      · rename_i hstate
        simp only [hnone, Bool.false_or, decide_eq_false_iff_not,
          passesOver_iff hstate, hstate, not_and, not_not, true_implies]
      · rename_i hstate
        exact iff_of_true hnone fun _ h => absurd h hstate

/-- Reading goes on after `Shutdown` exactly in the runs in which no event, but a
merely writable one, finds bytes on the socket then. -/
theorem readsOn_always_iff {isEncrypted : Bool} {ops : List Op}
    (hrun : socketMachine.Run (init isEncrypted) ops s) :
    socketMachine.Always ReadsOn (init isEncrypted) ops ↔
      (socketMachine.guard FindsNothing).Run (init isEncrypted) ops s := by
  have hreads {s : SocketConn} (h : s.Tracks) :
      s.ReadsOn ↔ s.passedOver = false :=
    ⟨ReadsOn.noneMissed, fun hnone => ⟨h.inOrder, h.announced, hnone⟩⟩
  have hinit := init_tracks isEncrypted
  refine hrun.always_iff_guard (I := Tracks) hinit ((hreads hinit).mpr rfl) ?_ ?_
  · exact fun s op htracks _ henabled _ => htracks.exec henabled
  · intro s op htracks hP henabled
    have hnext : (s.exec op).Tracks := htracks.exec henabled
    refine (hreads hnext).trans ?_
    exact passedOver_exec hP.noneMissed op

instance (s : SocketConn) (op : Op) :
    Decidable ((socketMachine.guard FindsNothing).enabled s op) :=
  inferInstanceAs (Decidable (_ ∧ _))

/-- A client sends, is read and is shut down, and closes. -/
theorem readsOn_always_iff_closed :
    let ops : List Op :=
      [.arrive [1, 2],
        .conn (.handleEvent ⟨false, true, false⟩
          { Outside.quiet with read := .stored [1, 2] }),
        .conn (.shutdown .quiet), .peerClose,
        .conn (.handleEvent ⟨true, true, false⟩ .quiet)]
    socketMachine.Always ReadsOn (init false) ops := by
  intro ops
  have hguard : (socketMachine.guard FindsNothing).Run (init false) ops
      (ops.foldl socketMachine.next (init false)) :=
    Machine.run_iff.mpr ⟨by decide +kernel, rfl⟩
  exact (readsOn_always_iff hguard.of_guard).mpr hguard

/-- A client that is shut down and then sends: the poller reports it, and what it
has sent stays on the socket.  If it has closed as well by then, the event closes
the connection. -/
theorem readsOn_always_iff_late :
    let late : List Op :=
      [.conn (.shutdown .quiet), .arrive [1],
        .conn (.handleEvent ⟨false, true, false⟩
          { Outside.quiet with read := .stored [1] })]
    let closing : List Op :=
      [.conn (.shutdown .quiet), .arrive [1], .peerClose,
        .conn (.handleEvent ⟨true, true, false⟩
          { Outside.quiet with read := .stored [1] })]
    (∃ s, socketMachine.Run (init false) late s ∧
      ¬ socketMachine.Always ReadsOn (init false) late) ∧
    (∃ s, socketMachine.Run (init false) closing s ∧
      ¬ socketMachine.Always ReadsOn (init false) closing) := by
  refine ⟨⟨_, Machine.run_iff.mpr ⟨by decide +kernel, rfl⟩, fun halways => ?_⟩,
    ⟨_, Machine.run_iff.mpr ⟨by decide +kernel, rfl⟩, fun halways => ?_⟩⟩
  · exact absurd halways.2.2.2.noneMissed (by decide +kernel)
  · exact absurd halways.2.2.2.2.noneMissed (by decide +kernel)

end SocketConn

end Jerry
