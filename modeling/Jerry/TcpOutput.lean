/-
The output of a plain connection over whole runs: what has been written is the
front of what `Send` has accepted, and the poller watches for room as long as
something is queued.
-/
import Jerry.TcpSending

namespace Jerry

namespace Channel

/-- The poller knows the interests of the channel. -/
def Synced (c : Channel) : Prop :=
  c.polled = some (c.reading, c.writing)

theorem activateWriting_synced {c : Channel} (h : c.Synced) :
    c.activateWriting.Synced ∧ c.activateWriting.writing = true := by
  unfold activateWriting
  split
  · rename_i hwriting
    exact ⟨h, hwriting⟩
  · refine ⟨?_, rfl⟩
    rw [Synced, updateChannel, h]
    rfl

theorem deactivateWriting_synced {c : Channel} (h : c.Synced) :
    c.deactivateWriting.Synced := by
  unfold deactivateWriting
  split
  · rw [Synced, updateChannel, h]
    rfl
  · exact h

end Channel

namespace TcpConn

variable {c c' : TcpConn} {op : ConnOp} {o : Outside} {accepted : List UInt8}

/-- The data an operation is given to send while the connection is connected. -/
def accept (c : TcpConn) : ConnOp → List UInt8
  | .send data => if c.isConnected then data else []
  | _ => []

/-- The same for a run. -/
def acceptedBy : TcpConn → List ConnOp → List UInt8
  | _, [] => []
  | c, op :: ops => c.accept op ++ acceptedBy (op.exec c) ops

/-- Of what was accepted, a front has been written.  While the connection is
connected the rest of it is queued, and the poller waits for room if there is a
rest. -/
structure Flows (c : TcpConn) (accepted : List UInt8) : Prop where
  plain : c.isEncrypted = false
  valid : c.sendBuffer.Valid
  written : c.history.written <+: accepted
  queued : c.isConnected = true →
    accepted = c.history.written ++ c.sendBuffer.toStringView
  synced : c.isConnected = true → c.channel.Synced
  active : c.isConnected = true → c.sendBuffer.readableBytes ≠ 0 →
    c.channel.writing = true

theorem ofClient_flows : (ofClient false).Flows [] where
  plain := rfl
  valid := BaseBuffer.ofSize_valid 1024
  written := List.prefix_refl _
  queued _ := (BaseBuffer.ofSize_toStringView 1024).symm
  synced _ := rfl
  active _ h := absurd rfl h

/-- A connection that was stopped writes no more. -/
theorem StoppedFrom.flows (h : StoppedFrom c c') (hflows : c.Flows accepted) :
    c'.Flows accepted := by
  have hoff (hc : c'.isConnected = true) : False := by
    rw [h.stopped] at hc
    cases hc
  exact
    { plain := h.encrypted.trans hflows.plain
      valid := h.valid hflows.valid
      written := h.written ▸ hflows.written
      queued := fun hc => (hoff hc).elim
      synced := fun hc => (hoff hc).elim
      active := fun hc => (hoff hc).elim }

/-- What does not concern the output. -/
structure Aside (c c' : TcpConn) : Prop where
  state : c'.state = c.state
  encrypted : c'.isEncrypted = c.isEncrypted
  sendBuffer : c'.sendBuffer = c.sendBuffer
  channel : c'.channel = c.channel
  written : c'.history.written = c.history.written

theorem Aside.flows (h : Aside c c') (hflows : c.Flows accepted) :
    c'.Flows accepted := by
  have hconnected : c'.isConnected = c.isConnected := by
    rw [isConnected, isConnected, h.state]
  refine ⟨h.encrypted.trans hflows.plain, ?_, ?_, ?_, ?_, ?_⟩
  · exact h.sendBuffer ▸ hflows.valid
  · exact h.written ▸ hflows.written
  · rw [hconnected, h.written, h.sendBuffer]
    exact hflows.queued
  · rw [hconnected, h.channel]
    exact hflows.synced
  · rw [hconnected, h.channel, h.sendBuffer]
    exact hflows.active

/-- A readable event stops the connection or leaves the output alone. -/
theorem onChannelReadable_plain (hc : c.isConnected = true)
    (hplain : c.isEncrypted = false) :
    StoppedFrom c (c.onChannelReadable o) ∨ Aside c (c.onChannelReadable o) := by
  rw [onChannelReadable, if_pos hc, if_neg (by rw [hplain]; decide)]
  generalize c.recvBuffer.readBytesFromFd o.read = r
  obtain ⟨recvBuffer, n⟩ := r
  simp only
  split
  · exact Or.inl
      { stopped := rfl
        accepted := rfl
        written := rfl
        encrypted := rfl
        valid := fun _ => c.sendBuffer.release_valid }
  · rw [onDataReceived]
    split
    · have hstop := shutdown_stopped { c with recvBuffer := recvBuffer } o
      exact Or.inl ⟨hstop.stopped, hstop.accepted, hstop.written,
        hstop.encrypted, hstop.valid⟩
    · exact Or.inr ⟨rfl, rfl, rfl, rfl, rfl⟩

/-- Without data to send the interest in writing ends, with data it stays. -/
theorem Flows.deactivateIfDone (hflows : c.Flows accepted) :
    c.deactivateIfDone.Flows accepted := by
  rw [TcpConn.deactivateIfDone]
  split
  · rename_i hempty
    exact
      { plain := hflows.plain
        valid := hflows.valid
        written := hflows.written
        queued := hflows.queued
        synced := fun hc => Channel.deactivateWriting_synced (hflows.synced hc)
        active := fun _ hne => absurd hempty hne }
  · exact hflows

theorem Flows.send (hflows : c.Flows accepted) (data : List UInt8) :
    (c.send data).Flows (accepted ++ c.accept (.send data)) := by
  cases hc : c.isConnected with
  | false =>
      simp only [TcpConn.send, accept, hc, Bool.false_eq_true, if_false,
        List.append_nil]
      exact hflows
  | true =>
      obtain ⟨hsynced, hwriting⟩ :=
        Channel.activateWriting_synced (hflows.synced hc)
      rw [send_connected hc, accept, hc, if_pos rfl]
      exact
        { plain := hflows.plain
          valid := BaseBuffer.append_valid hflows.valid data
          written := hflows.written.trans (List.prefix_append _ _)
          queued := fun _ => by
            rw [BaseBuffer.append_toStringView hflows.valid,
              ← List.append_assoc, ← hflows.queued hc]
          synced := fun _ => hsynced
          active := fun _ _ => hwriting }

/-- A write that fails leaves the queue as it is; an error that says the peer is
gone is announced. -/
theorem onChannelWritable_failed (hc : c.isConnected = true)
    (hplain : c.isEncrypted = false) (hwrite : o.write = .failed) :
    c.onChannelWritable o = c.deactivateIfDone ∨
      Aside c (c.onChannelWritable o) := by
  have hsame : { c with history := { c.history with
      written := c.history.written ++ [] } } = c := by
    rw [List.append_nil]
  rw [onChannelWritable, if_pos hc, if_neg (by rw [hplain]; decide)]
  simp only [hwrite, taken, BaseBuffer.writeBytesToFd_failed, hsame]
  split
  · exact Or.inr ⟨rfl, rfl, rfl, rfl, List.append_nil _⟩
  · exact Or.inl rfl

/-- A writable event takes what it writes from the front of the queue. -/
theorem Flows.write (hflows : c.Flows accepted) (hc : c.isConnected = true)
    (henabled : (BufferOp.writeBytesToFd o.write).Enabled c.sendBuffer) :
    (c.onChannelWritable o).Flows accepted := by
  cases hwrite : o.write with
  | failed =>
      rcases onChannelWritable_failed hc hflows.plain hwrite with heq | haside
      · exact heq ▸ hflows.deactivateIfDone
      · exact haside.flows hflows
  | wrote n =>
      rw [hwrite] at henabled
      rw [onChannelWritable_wrote hc hflows.plain hwrite henabled.2]
      have hview := BufferOp.writeBytes_toStringView hflows.valid n
      have hall : accepted = c.history.written ++
          c.sendBuffer.toStringView.take n ++
            (if n > 0 then c.sendBuffer.dropBytes n
              else c.sendBuffer).toStringView := by
        rw [hview, List.append_assoc, List.take_append_drop]
        exact hflows.queued hc
      have hvalid : (if n > 0 then c.sendBuffer.dropBytes n
          else c.sendBuffer).Valid := by
        split
        · exact BaseBuffer.dropBytes_valid hflows.valid n
        · exact hflows.valid
      apply Flows.deactivateIfDone
      refine ⟨hflows.plain, hvalid, ⟨_, hall.symm⟩, fun _ => hall, hflows.synced,
        ?_⟩
      -- what is left was queued before
      intro _ hne
      apply hflows.active hc
      rw [← BaseBuffer.toStringView_length hvalid, hview, List.length_drop] at hne
      rw [← BaseBuffer.toStringView_length hflows.valid]
      omega

/-- The step lemma. -/
theorem Flows.exec (hflows : c.Flows accepted) (henabled : op.Enabled c) :
    (op.exec c).Flows (accepted ++ c.accept op) := by
  have hnothing (h : c.accept op = []) (hexec : (op.exec c).Flows accepted) :
      (op.exec c).Flows (accepted ++ c.accept op) := by
    rwa [h, List.append_nil]
  cases op with
  | send data => exact hflows.send data
  | shutdown o => exact hnothing rfl ((shutdown_stopped c o).flows hflows)
  | forceClose => exact hnothing rfl ((onChannelClose_stopped c).flows hflows)
  | handleEvent events o =>
      apply hnothing rfl
      cases hc : c.isConnected with
      | false => exact (exec_stopped hc _).flows hflows
      | true =>
          rw [ConnOp.Enabled, if_neg (by rw [hflows.plain]; decide)] at henabled
          simp only [ConnOp.exec, handleEvent]
          split
          · exact (onChannelClose_stopped c).flows hflows
          · split
            · rcases onChannelReadable_plain (o := o) hc hflows.plain with
                hstop | haside
              · exact hstop.flows hflows
              · exact haside.flows hflows
            · split
              · exact hflows.write hc henabled.2
              · exact (onChannelClose_stopped c).flows hflows

/-- A run accepts more data and keeps it flowing. -/
theorem Flows.run {ops : List ConnOp} (hrun : connMachine.Run c ops c')
    (hflows : c.Flows accepted) : c'.Flows (accepted ++ c.acceptedBy ops) := by
  induction hrun generalizing accepted with
  | nil c =>
      rw [acceptedBy, List.append_nil]
      exact hflows
  | cons henabled _ ih =>
      rw [acceptedBy, ← List.append_assoc]
      exact ih (hflows.exec henabled)

/-- What has been written is a front of what was sent while connected, in the
order of the calls; on a connected connection the rest of it is in the buffer, and
while that is not empty the poller watches for room. -/
theorem output_in_order {ops : List ConnOp}
    (hrun : connMachine.Run (ofClient false) ops c) :
    c.history.written <+: (ofClient false).acceptedBy ops ∧
      (c.isConnected = true → (ofClient false).acceptedBy ops =
        c.history.written ++ c.sendBuffer.toStringView) ∧
      (c.isConnected = true → c.sendBuffer.readableBytes ≠ 0 →
        c.channel.polled = some (c.channel.reading, true)) := by
  have hflows := Flows.run hrun ofClient_flows
  rw [List.nil_append] at hflows
  refine ⟨hflows.written, hflows.queued, fun hc hne => ?_⟩
  have hsynced := hflows.synced hc
  rwa [Channel.Synced, hflows.active hc hne] at hsynced

/-- Partial writes, a write of nothing, an error, and data that comes too late. -/
theorem output_in_order_partial :
    let ops : List ConnOp :=
      [.send [1, 2, 3], .send [],
        .handleEvent ⟨false, false, true⟩
          { Outside.quiet with write := .wrote 2 },
        .handleEvent ⟨false, false, true⟩
          { Outside.quiet with write := .wrote 0 },
        .send [4, 5], .handleEvent ⟨false, false, true⟩ .quiet,
        .handleEvent ⟨false, false, true⟩
          { Outside.quiet with write := .wrote 2 },
        .handleEvent ⟨true, false, false⟩ .quiet, .send [6]]
    ∃ c, connMachine.Run (ofClient false) ops c ∧
      c.history.written = [1, 2, 3, 4] ∧
      c.history.written <+: (ofClient false).acceptedBy ops := by
  intro ops
  have hrun : connMachine.Run (ofClient false) ops
      (ops.foldl connMachine.next (ofClient false)) :=
    Machine.run_iff.mpr ⟨by decide +kernel, rfl⟩
  exact ⟨_, hrun, by decide +kernel, (output_in_order hrun).1⟩

end TcpConn

end Jerry
