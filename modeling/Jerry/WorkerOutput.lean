/-
The output of the connections of a worker.  Whatever its handlers call and
whichever connections have events, encrypted or not, what has been written on a
connection is the front of what `Send` has accepted on it.
-/
import Jerry.Registration

namespace Jerry

namespace TcpConn

/-- What has been accepted has been written in its order, and the rest of it waits
in the send buffer while the connection is connected. -/
structure Conveys (c : TcpConn) : Prop where
  valid : c.sendBuffer.Valid
  written : c.history.written <+: c.history.accepted
  queued : c.isConnected = true →
    c.history.accepted = c.history.written ++ c.sendBuffer.toStringView

theorem ofClient_conveys (isEncrypted : Bool) : (ofClient isEncrypted).Conveys where
  valid := BaseBuffer.ofSize_valid 1024
  written := List.prefix_refl _
  queued _ := (BaseBuffer.ofSize_toStringView 1024).symm

theorem Conveys.send {c : TcpConn} (h : c.Conveys) (data : List UInt8) :
    (c.send data).Conveys := by
  rw [TcpConn.send]
  split
  · rename_i hconnected
    refine ⟨BaseBuffer.append_valid h.valid data,
      h.written.trans (List.prefix_append _ _), fun _ => ?_⟩
    change c.history.accepted ++ data =
      c.history.written ++ (c.sendBuffer.append data).toStringView
    rw [BaseBuffer.append_toStringView h.valid, ← List.append_assoc,
      ← h.queued hconnected]
  · exact h

theorem conveys_kept : IOWorker.Kept False Conveys := by
  intro c c' h hchange
  cases hchange with
  | history history _ haccepted hwritten =>
      refine ⟨h.valid, ?_, fun hconnected => ?_⟩
      · change history.written <+: history.accepted
        rw [hwritten, haccepted]
        exact h.written
      · change history.accepted = history.written ++ c.sendBuffer.toStringView
        rw [hwritten, haccepted]
        exact h.queued hconnected
  | written b bytes hconnected _ hfront =>
      -- what is written was at the front of the queue
      obtain ⟨hvalid, hview⟩ := hfront h.valid
      have hall : c.history.accepted = c.history.written ++ bytes ++ b.toStringView := by
        rw [h.queued hconnected, hview, List.append_assoc]
      exact ⟨hvalid, ⟨_, hall.symm⟩, fun _ => hall⟩
  | send data => exact h.send data
  | deactivateIfDone =>
      rw [TcpConn.deactivateIfDone]
      split
      · exact ⟨h.valid, h.written, h.queued⟩
      · exact h
  | stopWriting =>
      refine ⟨h.valid, h.written, fun hconnected => ?_⟩
      cases hconnected
  | disconnect =>
      refine ⟨c.sendBuffer.release_valid, h.written, fun hconnected => ?_⟩
      cases hconnected
  | recvBuffer b => exact ⟨h.valid, h.written, h.queued⟩
  | removed hclosed => exact ⟨h.valid, h.written, h.queued⟩
  | sendBuffer b hdirect => exact hdirect.elim
  | channel op hdirect => exact hdirect.elim

end TcpConn

namespace IOWorker

variable {useSsl : Bool} {ops : List Op} {w : IOWorker}

/-- In every state of a run in which no handler works on a channel or a send buffer
itself, the bytes written on a connection are the front of those accepted on it; on a
connected one the rest is in the send buffer. -/
theorem output_always
    (hrun : (ioWorkerMachine.guard fun _ op => ¬ op.Direct).Run (init useSsl) ops w) :
    ∀ c ∈ w.conns, c.history.written <+: c.history.accepted ∧
      (c.isConnected = true →
        c.history.accepted = c.history.written ++ c.sendBuffer.toStringView) := by
  have h : w.Tracked TcpConn.Conveys := hrun.invariant (init_tracked _ useSsl)
    fun _ _ h henabled => h.exec TcpConn.conveys_kept TcpConn.ofClient_conveys
      henabled.1 henabled.2
  intro c hc
  exact ⟨(h.conns c hc).written, (h.conns c hc).queued⟩

/-- Two encrypted connections; the handler of the second sends on both of them, and
the first one has room for two bytes. -/
theorem output_always_encrypted :
    let ops : List Op := exampleAccept ++ [.resume, .resume] ++ exampleAccept ++
      [.call (.send 0 [97, 98, 99]), .call (.send 1 [100]), .resume, .resume,
        .poll [⟨.conn 0, ⟨false, false, true⟩⟩],
        .handleNext { Outside.quiet with write := .wrote 2 } true]
    let w := ops.foldl ioWorkerMachine.next (init true)
    ∀ c ∈ w.conns, c.isConnected = true →
      c.history.accepted = c.history.written ++ c.sendBuffer.toStringView := by
  intro ops w c hc
  have hrun : (ioWorkerMachine.guard fun _ op => ¬ op.Direct).Run (init true) ops w :=
    Machine.run_iff.mpr ⟨by decide +kernel, rfl⟩
  exact (output_always hrun c hc).2

end IOWorker

end Jerry
