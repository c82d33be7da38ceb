/-
What becomes of the data that `Send` takes: it is written by later writable
events, and by none of them once `Shutdown` has been called.
-/
import Jerry.ConnLifeCycle
import Jerry.WsFeeding

namespace Jerry

/-- The connection is not connected any more. -/
def Outcome.Stops (outcome : Outcome) : Prop :=
  outcome = .shutsDown ∨ outcome = .closes

instance (outcome : Outcome) : Decidable outcome.Stops :=
  inferInstanceAs (Decidable (_ ∨ _))

theorem Outcome.ofShutdown_stops (o : Outside) : (ofShutdown o).Stops := by
  simp only [ofShutdown]
  split
  · exact Or.inr rfl
  · exact Or.inl rfl

/-- A call of the codec on its connection. -/
def ConnCall.toOp (o : Outside) : ConnCall → ConnOp
  | .send data => .send data
  | .shutdown => .shutdown o

namespace TcpConn

variable {c : TcpConn} {op : ConnOp}

/-- A connection that can send no more has written all it took. -/
def Sent (c : TcpConn) : Prop :=
  c.isConnected = false → c.history.written = c.history.accepted

/-- What was taken and not written is queued. -/
structure Queued (c : TcpConn) : Prop where
  plain : c.isEncrypted = false
  valid : c.sendBuffer.Valid
  accepted : c.isConnected = true →
    c.history.accepted = c.history.written ++ c.sendBuffer.toStringView

/-- No write fails, and nothing but `Shutdown` ends the connection. -/
def Undisturbed : ConnOp → Prop
  | .handleEvent events o =>
      events.close = false ∧
        if events.read then o.read ≠ .failed ∧ o.read ≠ .stored []
        else events.write = true ∧ o.write ≠ .failed
  | .forceClose => False
  | _ => True

instance : ∀ op, Decidable (Undisturbed op)
  | .handleEvent _ _ => inferInstanceAs (Decidable (_ ∧ ite _ _ _))
  | .forceClose => isFalse id
  | .send _ => isTrue trivial
  | .shutdown _ => isTrue trivial

/-- Whatever shuts the connection down finds nothing queued. -/
def FindsEmpty (c : TcpConn) (op : ConnOp) : Prop :=
  c.isConnected = true → (op.outcome c).Stops →
    c.sendBuffer.readableBytes = 0

instance (c : TcpConn) (op : ConnOp) : Decidable (c.FindsEmpty op) :=
  inferInstanceAs (Decidable (_ → _ → _))

/-- The runs of a plain connection that sends and is shut down. -/
def sendingMachine : Machine TcpConn ConnOp :=
  connMachine.guard fun _ op => Undisturbed op

section Stopped

/-- `c'` is `c` after it has been stopped. -/
structure StoppedFrom (c c' : TcpConn) : Prop where
  stopped : c'.isConnected = false
  accepted : c'.history.accepted = c.history.accepted
  written : c'.history.written = c.history.written
  encrypted : c'.isEncrypted = c.isEncrypted
  valid : c.sendBuffer.Valid → c'.sendBuffer.Valid

theorem onChannelClose_stopped (c : TcpConn) :
    StoppedFrom c c.onChannelClose where
  stopped := rfl
  accepted := rfl
  written := rfl
  encrypted := rfl
  valid := fun _ => c.sendBuffer.release_valid

theorem shutdown_stopped (c : TcpConn) (o : Outside) :
    StoppedFrom c (c.shutdown o) := by
  simp only [shutdown]
  split
  · exact
      { stopped := rfl
        accepted := rfl
        written := rfl
        encrypted := rfl
        valid := fun _ => c.sendBuffer.release_valid }
  · exact
      { stopped := rfl
        accepted := rfl
        written := rfl
        encrypted := rfl
        valid := id }

/-- What is not connected takes and writes nothing, whatever happens to it. -/
theorem exec_stopped (hc : c.isConnected = false) (op : ConnOp) :
    StoppedFrom c (op.exec c) := by
  have hsame : StoppedFrom c c := ⟨hc, rfl, rfl, rfl, id⟩
  cases op with
  | send data =>
      simp only [ConnOp.exec, send, hc]
      exact hsame
  | shutdown o => exact shutdown_stopped c o
  | forceClose => exact onChannelClose_stopped c
  | handleEvent events o =>
      simp only [ConnOp.exec, handleEvent]
      split
      · exact onChannelClose_stopped c
      · split
        · simp only [onChannelReadable, hc]
          exact hsame
        · split
          · simp only [onChannelWritable, hc]
            exact hsame
          · exact onChannelClose_stopped c

/-- For good. -/
theorem run_stopped {ops : List ConnOp} {c' : TcpConn}
    (hrun : connMachine.Run c ops c') (hc : c.isConnected = false) :
    c'.isConnected = false ∧ c'.history.accepted = c.history.accepted ∧
      c'.history.written = c.history.written := by
  apply hrun.invariant (P := fun d => d.isConnected = false ∧
    d.history.accepted = c.history.accepted ∧
    d.history.written = c.history.written) ⟨hc, rfl, rfl⟩
  rintro d op ⟨hd, haccepted, hwritten⟩ _
  have hstop := exec_stopped hd op
  exact ⟨hstop.stopped, hstop.accepted.trans haccepted,
    hstop.written.trans hwritten⟩

theorem send_connected (hc : c.isConnected = true) (data : List UInt8) :
    c.send data = { c with
      sendBuffer := c.sendBuffer.append data
      channel := c.channel.activateWriting
      history := { c.history with
        accepted := c.history.accepted ++ data } } := by
  rw [send, if_pos hc]

/-- Data that is sent right before `Shutdown` is never written. -/
theorem send_shutdown_run {ops : List ConnOp} {c' : TcpConn}
    {data : List UInt8} {o : Outside} (hc : c.isConnected = true)
    (hrun : connMachine.Run c (.send data :: .shutdown o :: ops) c') :
    c'.history.accepted = c.history.accepted ++ data ∧
      c'.history.written = c.history.written := by
  cases hrun with
  | cons _ hrun =>
      cases hrun with
      | cons _ hrun =>
          have hstop := shutdown_stopped (c.send data) o
          obtain ⟨_, haccepted, hwritten⟩ := run_stopped hrun hstop.stopped
          constructor
          · refine haccepted.trans (hstop.accepted.trans ?_)
            rw [send_connected hc]
          · refine hwritten.trans (hstop.written.trans ?_)
            rw [send_connected hc]

/-- When the codec shuts its connection down, what it sends before that, the 400
response or the close frame, is never written. -/
theorem decode_shutdown_run {env : HandshakeEnv} {w w' : WebsocketCodec}
    {out : Option WsReq} {more : List ConnCall} {ops : List ConnOp}
    {c' : TcpConn} {o : Outside} (hdecode : w.decode env = .ok (out, w'))
    (hcalls : w'.calls = w.calls ++ more) (hmore : .shutdown ∈ more)
    (hc : c.isConnected = true)
    (hrun : connMachine.Run c (more.map (ConnCall.toOp o) ++ ops) c') :
    ∃ text, more = [.send text, .shutdown] ∧
      c'.history.accepted = c.history.accepted ++ text ∧
      c'.history.written = c.history.written := by
  obtain ⟨more', hmore', hclosing⟩ :=
    WebsocketCodec.decodeLoop_calls hdecode
  rw [hcalls, List.append_cancel_left_eq] at hmore'
  obtain ⟨text, rfl⟩ := hclosing (hmore' ▸ hmore)
  subst hmore'
  exact ⟨text, rfl, send_shutdown_run hc hrun⟩

end Stopped

section Sending

variable {o : Outside} {events : Events} {data : List UInt8}

/-- Data is read, and announced or refused. -/
theorem onChannelReadable_stored (hc : c.isConnected = true)
    (hplain : c.isEncrypted = false) (hfailed : o.read ≠ .failed)
    (hend : o.read ≠ .stored []) :
    c.onChannelReadable o =
      ({ c with recvBuffer := (c.recvBuffer.readBytesFromFd o.read).1 } :
        TcpConn).onDataReceived o := by
  have hn : ¬ (c.recvBuffer.readBytesFromFd o.read).2 ≤ 0 := by
    rw [BaseBuffer.readBytesFromFd_snd]
    cases hread : o.read with
    | failed => exact absurd hread hfailed
    | stored data =>
        have hlength : data.length ≠ 0 := by
          intro hzero
          rw [List.length_eq_zero_iff.mp hzero] at hread
          exact hend hread
        simp only [ReadResult.toInt]
        omega
  simp only [onChannelReadable, hc, hplain, if_true, if_neg hn]
  rfl

/-- The bytes that were written leave the queue. -/
theorem onChannelWritable_wrote {n : Nat} (hc : c.isConnected = true)
    (hplain : c.isEncrypted = false) (hwrite : o.write = .wrote n)
    (hn : n ≤ BufferOp.maxRwCount) :
    c.onChannelWritable o =
      ({ c with
        sendBuffer := if n > 0 then c.sendBuffer.dropBytes n else c.sendBuffer
        history := { c.history with
          written := c.history.written ++ c.sendBuffer.toStringView.take n } } :
        TcpConn).deactivateIfDone := by
  have hlt : n < 2 ^ 31 := by
    simp only [BufferOp.maxRwCount] at hn
    omega
  have hneg : ¬ ((n : Int) < 0 ∧ (o.errno = .epipe ∨ o.errno = .econnreset)) :=
    fun h => absurd h.1 (by omega)
  simp only [onChannelWritable, hc, hplain, if_true, hwrite, taken]
  rw [BaseBuffer.writeBytesToFd_wrote _ hlt]
  simp only [if_neg hneg]
  rfl

theorem deactivateIfDone_isConnected (c : TcpConn) :
    c.deactivateIfDone.isConnected = c.isConnected := by
  simp only [deactivateIfDone]
  split <;> rfl

theorem Queued.deactivateIfDone (h : c.Queued) : c.deactivateIfDone.Queued := by
  simp only [TcpConn.deactivateIfDone]
  split
  · exact ⟨h.plain, h.valid, h.accepted⟩
  · exact h

/-- A connection goes on, and what it has taken is written or queued, or the
operation stops it. -/
def GoesOn (c : TcpConn) (op : ConnOp) : Prop :=
  (op.exec c).isConnected = true ∧ (op.exec c).Queued ∧ ¬ (op.outcome c).Stops

def Stopping (c : TcpConn) (op : ConnOp) : Prop :=
  StoppedFrom c (op.exec c) ∧ (op.outcome c).Stops

theorem Queued.send (h : c.Queued) (hc : c.isConnected = true)
    (data : List UInt8) : c.GoesOn (.send data) := by
  have hexec := send_connected hc data
  refine ⟨?_, ?_, ?_⟩
  · rw [ConnOp.exec, hexec]
    exact hc
  · rw [ConnOp.exec, hexec]
    refine ⟨h.plain, BaseBuffer.append_valid h.valid data, ?_⟩
    intro _
    simp only [h.accepted hc, BaseBuffer.append_toStringView h.valid,
      List.append_assoc]
  · rintro (hstop | hstop) <;> cases hstop

theorem Queued.read (h : c.Queued) (hc : c.isConnected = true)
    (hclose : events.close = false) (hread : events.read = true)
    (hfailed : o.read ≠ .failed) (hend : o.read ≠ .stored []) :
    c.GoesOn (.handleEvent events o) ∨ c.Stopping (.handleEvent events o) := by
  have hexec : (ConnOp.handleEvent events o).exec c =
      ({ c with recvBuffer := (c.recvBuffer.readBytesFromFd o.read).1 } :
        TcpConn).onDataReceived o := by
    simp only [ConnOp.exec, handleEvent, hclose, hread, if_true]
    exact onChannelReadable_stored hc h.plain hfailed hend
  have houtcome : (ConnOp.handleEvent events o).outcome c =
      if o.limited then .ofShutdown o else .announces := by
    simp only [ConnOp.outcome, hclose, hread, hc, if_true, Outcome.ofRead]
    rcases hcases : o.read with (_ | _) | _
    · exact absurd hcases hend
    · rfl
    · exact absurd hcases hfailed
  cases hlimited : o.limited with
  | true =>
      refine Or.inr ⟨?_, ?_⟩
      · rw [hexec, onDataReceived, if_pos hlimited]
        have hstop := shutdown_stopped ({ c with
          recvBuffer := (c.recvBuffer.readBytesFromFd o.read).1 } : TcpConn) o
        exact ⟨hstop.stopped, hstop.accepted, hstop.written, hstop.encrypted,
          hstop.valid⟩
      · rw [houtcome, if_pos hlimited]
        exact Outcome.ofShutdown_stops o
  | false =>
      refine Or.inl ⟨?_, ?_, ?_⟩
      · rw [hexec, onDataReceived, hlimited]
        exact hc
      · rw [hexec, onDataReceived, hlimited]
        exact ⟨h.plain, h.valid, h.accepted⟩
      · rw [houtcome, hlimited]
        rintro (hstop | hstop) <;> cases hstop

theorem Queued.write (h : c.Queued) (hc : c.isConnected = true)
    (hclose : events.close = false) (hread : events.read = false)
    (hwrite : events.write = true) (hfailed : o.write ≠ .failed)
    (henabled : (ConnOp.handleEvent events o).Enabled c) :
    c.GoesOn (.handleEvent events o) := by
  cases hresult : o.write with
  | failed => exact absurd hresult hfailed
  | wrote n =>
      simp only [ConnOp.Enabled, h.plain, hresult] at henabled
      obtain ⟨_, _, hn⟩ := henabled
      have hexec : (ConnOp.handleEvent events o).exec c =
          c.onChannelWritable o := by
        simp [ConnOp.exec, handleEvent, hclose, hread, hwrite]
      rw [onChannelWritable_wrote hc h.plain hresult hn] at hexec
      refine ⟨?_, ?_, ?_⟩
      · rw [hexec, deactivateIfDone_isConnected]
        exact hc
      · rw [hexec]
        apply Queued.deactivateIfDone
        refine ⟨h.plain, ?_, ?_⟩
        · simp only
          split
          · exact BaseBuffer.dropBytes_valid h.valid n
          · exact h.valid
        · intro _
          simp only [h.accepted hc, BufferOp.writeBytes_toStringView h.valid,
            List.append_assoc, List.take_append_drop]
      · have houtcome : (ConnOp.handleEvent events o).outcome c = .quiet := by
          simp [ConnOp.outcome, hclose, hread, hwrite, hc, Outcome.ofWrite,
            hresult, h.plain]
        rw [houtcome]
        rintro (hstop | hstop) <;> cases hstop

/-- What an operation does to a connected connection that nobody disturbs. -/
theorem Queued.exec_cases (h : c.Queued) (hc : c.isConnected = true)
    (henabled : op.Enabled c) (hop : Undisturbed op) :
    c.GoesOn op ∨ c.Stopping op := by
  cases op with
  | send data => exact Or.inl (h.send hc data)
  | shutdown o =>
      exact Or.inr ⟨shutdown_stopped c o, Outcome.ofShutdown_stops o⟩
  | forceClose => exact absurd hop id
  | handleEvent events o =>
      obtain ⟨hclose, hrest⟩ := hop
      cases hread : events.read with
      | true =>
          rw [hread] at hrest
          exact h.read hc hclose hread hrest.1 hrest.2
      | false =>
          rw [hread] at hrest
          exact Or.inl (h.write hc hclose hread hrest.1 hrest.2 henabled)

theorem Queued.exec (h : c.Queued) (henabled : op.Enabled c)
    (hop : Undisturbed op) : (op.exec c).Queued := by
  have hstopped (hstop : StoppedFrom c (op.exec c)) : (op.exec c).Queued := by
    refine ⟨hstop.encrypted.trans h.plain, hstop.valid h.valid, ?_⟩
    intro hconnected
    rw [hstop.stopped] at hconnected
    cases hconnected
  cases hc : c.isConnected with
  | false => exact hstopped (exec_stopped hc op)
  | true =>
      rcases h.exec_cases hc henabled hop with hgoes | hstop
      · exact hgoes.2.1
      · exact hstopped hstop.1

/-- A step keeps what was taken from being lost if it finds nothing queued or
does not stop the connection. -/
theorem Queued.sent_exec_iff (h : c.Queued) (hsent : c.Sent)
    (henabled : op.Enabled c) (hop : Undisturbed op) :
    (op.exec c).Sent ↔ c.FindsEmpty op := by
  cases hc : c.isConnected with
  | false =>
      have hstop := exec_stopped hc op
      constructor
      · intro _ hconnected
        rw [hc] at hconnected
        cases hconnected
      · intro _ _
        rw [hstop.written, hstop.accepted]
        exact hsent hc
  | true =>
      rcases h.exec_cases hc henabled hop with ⟨hon, _, hnot⟩ | ⟨hstop, hstops⟩
      · constructor
        · intro _ _ hstops
          exact absurd hstops hnot
        · intro _ hoff
          rw [hon] at hoff
          cases hoff
      · have hreadable := BaseBuffer.toStringView_length h.valid
        have hequal : c.history.written = c.history.accepted ↔
            c.sendBuffer.readableBytes = 0 := by
          rw [h.accepted hc, ← hreadable, List.length_eq_zero_iff]
          exact List.self_eq_append_right
        rw [Sent, hstop.written, hstop.accepted, hequal]
        constructor
        · intro hempty _ _
          exact hempty hstop.stopped
        · intro hempty _
          exact hempty hc hstops

/-- In every state of a run all that was taken before the connection was shut
down has been written, if and only if nothing was queued when it was. -/
theorem sent_always_iff {ops : List ConnOp}
    (hrun : sendingMachine.Run (ofClient false) ops c) :
    sendingMachine.Always Sent (ofClient false) ops ↔
      (sendingMachine.guard FindsEmpty).Run (ofClient false) ops c := by
  apply hrun.always_iff_guard (I := Queued)
  · exact ⟨rfl, BaseBuffer.ofSize_valid 1024, fun _ =>
      (BaseBuffer.ofSize_toStringView 1024).symm⟩
  · intro hstopped
    cases hstopped
  · rintro c op hqueued _ ⟨henabled, hop⟩ _
    exact hqueued.exec henabled hop
  · rintro c op hqueued hsent ⟨henabled, hop⟩
    exact hqueued.sent_exec_iff hsent henabled hop

instance (c : TcpConn) (op : ConnOp) :
    Decidable (sendingMachine.enabled c op) :=
  inferInstanceAs (Decidable (_ ∧ _))

instance (c : TcpConn) (op : ConnOp) :
    Decidable ((sendingMachine.guard FindsEmpty).enabled c op) :=
  inferInstanceAs (Decidable (_ ∧ _))

/-- Two writes, then `Shutdown`. -/
theorem sent_always_iff_written :
    let ops : List ConnOp :=
      [.send [1, 2, 3],
        .handleEvent ⟨false, true, false⟩
          { Outside.quiet with read := .stored [9] },
        .handleEvent ⟨false, false, true⟩
          { Outside.quiet with write := .wrote 2 },
        .send [4],
        .handleEvent ⟨false, false, true⟩
          { Outside.quiet with write := .wrote 2 },
        .shutdown .quiet]
    sendingMachine.Always Sent (ofClient false) ops := by
  intro ops
  have hguard : (sendingMachine.guard FindsEmpty).Run (ofClient false) ops
      (ops.foldl sendingMachine.next (ofClient false)) :=
    Machine.run_iff.mpr ⟨by decide +kernel, rfl⟩
  exact (sent_always_iff hguard.of_guard).mpr hguard

/-- The close frame of the codec is sent right before `Shutdown`. -/
theorem sent_always_iff_close :
    let ops : List ConnOp :=
      [.send (WebsocketCodec.encodeFrameHead [] .kClose), .shutdown .quiet]
    (∃ c, sendingMachine.Run (ofClient false) ops c ∧
      c.history.accepted = [0x88] ∧ c.history.written = []) ∧
    ¬ sendingMachine.Always Sent (ofClient false) ops := by
  intro ops
  constructor
  · exact ⟨_, Machine.run_iff.mpr ⟨by decide +kernel, rfl⟩,
      by decide +kernel, by decide +kernel⟩
  · rintro ⟨_, _, hsent⟩
    exact absurd (hsent rfl) (by decide +kernel)

end Sending

end TcpConn

end Jerry
