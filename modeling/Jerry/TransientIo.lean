/-
Results of a read or write that only ask to try again, on the four paths that a
connection has for them.
-/
import Jerry.TcpConn

namespace Jerry

namespace TcpConn

/-- The event of a channel that leads to a read or a write. -/
inductive IoCall where
  | onChannelReadable | onChannelWritable
deriving DecidableEq, Repr

def IoCall.exec (c : TcpConn) (o : Outside) : IoCall → TcpConn
  | .onChannelReadable => c.onChannelReadable o
  | .onChannelWritable => c.onChannelWritable o

/-- What the call returned says no more than that it should be made again:
`EAGAIN` or `EINTR` behind a -1 of `readv` or `write`, `SSL_ERROR_WANT_READ` or
`SSL_ERROR_WANT_WRITE` behind a result of `SSL_read` or `SSL_write` that is not
positive. -/
def TryAgain (c : TcpConn) (o : Outside) : IoCall → Prop
  | .onChannelReadable =>
      if c.isEncrypted then
        (o.read = .failed ∨ o.read = .stored []) ∧
          (o.sslError = .wantRead ∨ o.sslError = .wantWrite)
      else o.read = .failed ∧ (o.errno = .eagain ∨ o.errno = .eintr)
  | .onChannelWritable =>
      if c.isEncrypted then
        (o.write = .failed ∨ o.write = .wrote 0) ∧
          (o.sslError = .wantRead ∨ o.sslError = .wantWrite)
      else o.write = .failed ∧ (o.errno = .eagain ∨ o.errno = .eintr)

instance (c : TcpConn) (o : Outside) : ∀ call, Decidable (c.TryAgain o call)
  | .onChannelReadable => inferInstanceAs (Decidable (ite _ _ _))
  | .onChannelWritable => inferInstanceAs (Decidable (ite _ _ _))

/-- The connection goes on as if nothing had happened, and what is queued is still
watched for. -/
structure Keeps (c c' : TcpConn) : Prop where
  state : c'.state = .connected
  sendBuffer : c'.sendBuffer.toStringView = c.sendBuffer.toStringView
  recvBuffer : c'.recvBuffer.toStringView = c.recvBuffer.toStringView
  polled : c'.channel.polled.isSome = c.channel.polled.isSome
  inIOWorker : c'.inIOWorker = c.inIOWorker
  callbacks : c'.history.callbacks = c.history.callbacks
  watched : c.sendBuffer.toStringView ≠ [] → c'.channel = c.channel

/-- The results that the code takes for what they are. -/
def Recognized (c : TcpConn) (o : Outside) : IoCall → Prop
  | .onChannelReadable =>
      c.isEncrypted = true ∧ o.read = .failed ∧ o.sslError = .wantRead
  | .onChannelWritable => c.isEncrypted = false

instance (c : TcpConn) (o : Outside) : ∀ call, Decidable (c.Recognized o call)
  | .onChannelReadable => inferInstanceAs (Decidable (_ ∧ _ ∧ _))
  | .onChannelWritable => inferInstanceAs (Decidable (_ = _))

variable {c : TcpConn} {o : Outside}

theorem forceClose_not_keeps (c c' : TcpConn) : ¬ c.Keeps c'.forceClose :=
  fun h => by cases h.state

theorem shutdown_not_keeps (c c' : TcpConn) (o : Outside) :
    ¬ c.Keeps (c'.shutdown o) := by
  rw [shutdown]
  split
  · exact forceClose_not_keeps c _
  · exact fun h => by cases h.state

/-- The check for more data to send does no harm. -/
theorem Keeps.deactivateIfDone {c' : TcpConn} (h : c.Keeps c')
    (hsend : c'.sendBuffer.Valid) : c.Keeps c'.deactivateIfDone := by
  rw [TcpConn.deactivateIfDone]
  split
  · rename_i hdone
    refine ⟨h.state, h.sendBuffer, h.recvBuffer, ?_, h.inIOWorker, h.callbacks,
      fun hpending => ?_⟩
    · rw [← h.polled]
      simp only [Channel.deactivateWriting]
      split
      · simp [Channel.updateChannel]
      · rfl
    · rw [← BaseBuffer.toStringView_length hsend, List.length_eq_zero_iff,
        h.sendBuffer] at hdone
      exact absurd hdone hpending
  · exact h

theorem onChannelReadable_keeps_iff (hconn : c.isConnected = true)
    (hrecv : c.recvBuffer.Valid) (hagain : c.TryAgain o .onChannelReadable) :
    c.Keeps (c.onChannelReadable o) ↔ c.Recognized o .onChannelReadable := by
  have hstate : c.state = .connected := of_decide_eq_true hconn
  rw [onChannelReadable, if_pos hconn, Recognized]
  rw [TryAgain] at hagain
  cases hencrypted : c.isEncrypted with
  | true =>
      rw [hencrypted] at hagain
      rcases hagain.1 with hread | hread
      · by_cases hwant : o.sslError = .wantRead
        · refine iff_of_true ?_ ⟨rfl, hread, hwant⟩
          simp only [hread, BaseBuffer.readBytesFromSsl_failed, hwant]
          exact ⟨hstate, rfl, BaseBuffer.ensureWritableSpace_toStringView hrecv _, rfl,
            rfl, rfl, fun _ => rfl⟩
        · refine iff_of_false ?_ fun h => hwant h.2.2
          simp only [hread, BaseBuffer.readBytesFromSsl_failed, if_neg hwant]
          exact forceClose_not_keeps c _
      · refine iff_of_false ?_ fun h => ?_
        · simp only [hread, BaseBuffer.readBytesFromSsl, ReadResult.toInt]
          exact shutdown_not_keeps c _ o
        · rw [hread] at h
          exact absurd h.2.1 (by decide)
  | false =>
      rw [hencrypted] at hagain
      refine iff_of_false ?_ fun h => absurd h.1 (by decide)
      simp only [hagain.1, BaseBuffer.readBytesFromFd, ReadResult.toInt]
      exact forceClose_not_keeps c _

theorem onChannelWritable_keeps_iff (hconn : c.isConnected = true)
    (hsend : c.sendBuffer.Valid) (hagain : c.TryAgain o .onChannelWritable) :
    c.Keeps (c.onChannelWritable o) ↔ c.Recognized o .onChannelWritable := by
  have hstate : c.state = .connected := of_decide_eq_true hconn
  rw [onChannelWritable, if_pos hconn, Recognized]
  rw [TryAgain] at hagain
  cases hencrypted : c.isEncrypted with
  | true =>
      rw [hencrypted] at hagain
      refine iff_of_false (fun h => ?_) (by decide)
      have hclosed : ∀ c' : TcpConn, c'.forceClose.deactivateIfDone.state =
          .disconnected := by
        intro c'
        rw [deactivateIfDone]
        split <;> rfl
      have hstate' := h.state
      rcases hagain.1 with hwrite | hwrite
      · simp only [hwrite, BaseBuffer.writeBytesToSsl_failed] at hstate'
        exact absurd ((hclosed _).symm.trans hstate') (by decide)
      · simp only [hwrite, BaseBuffer.writeBytesToSsl_wrote] at hstate'
        exact absurd ((hclosed _).symm.trans hstate') (by decide)
  | false =>
      rw [hencrypted] at hagain
      refine iff_of_true ?_ rfl
      obtain ⟨hwrite, herrno⟩ := hagain
      have hstays : ¬ (o.errno = .epipe ∨ o.errno = .econnreset) := by
        rcases herrno with herrno | herrno <;> rw [herrno] <;> decide
      simp only [hwrite, BaseBuffer.writeBytesToFd_failed, hstays, and_false, if_false]
      simp only [Bool.false_eq_true, if_false]
      exact Keeps.deactivateIfDone ⟨hstate, rfl, rfl, rfl, rfl, rfl, fun _ => rfl⟩
        hsend

/-- A result that asks to try again keeps the connection as it is if and only if
the code recognizes it. -/
theorem keeps_iff_recognized {call : IoCall} (hconn : c.isConnected = true)
    (hrecv : c.recvBuffer.Valid) (hsend : c.sendBuffer.Valid)
    (hagain : c.TryAgain o call) :
    c.Keeps (call.exec c o) ↔ c.Recognized o call := by
  cases call with
  | onChannelReadable => exact onChannelReadable_keeps_iff hconn hrecv hagain
  | onChannelWritable => exact onChannelWritable_keeps_iff hconn hsend hagain

/-- `write` on a plain connection with data to send returns -1 with `EAGAIN`. -/
theorem keeps_iff_recognized_write :
    let c := (ofClient false).send [1, 2, 3]
    c.Keeps (c.onChannelWritable .quiet) := by
  intro c
  have hrecv : c.recvBuffer.Valid := ⟨by decide +kernel, by decide +kernel⟩
  have hsend : c.sendBuffer.Valid := ⟨by decide +kernel, by decide +kernel⟩
  exact (@keeps_iff_recognized c .quiet .onChannelWritable (by decide +kernel) hrecv
    hsend (by decide +kernel)).mpr (by decide +kernel)

/-- `readv` is interrupted on a plain connection, `SSL_read` wants to write, and
`SSL_write` wants to be called again: the connection is closed. -/
theorem keeps_iff_recognized_closed :
    let plain := (ofClient false).send [1, 2, 3]
    let encrypted := (ofClient true).send [1, 2, 3]
    let interrupted := { Outside.quiet with errno := .eintr }
    let wantWrite := { Outside.quiet with sslError := .wantWrite }
    (plain.TryAgain interrupted .onChannelReadable ∧
      ¬ plain.Keeps (plain.onChannelReadable interrupted)) ∧
    (encrypted.TryAgain wantWrite .onChannelReadable ∧
      ¬ encrypted.Keeps (encrypted.onChannelReadable wantWrite)) ∧
    (encrypted.TryAgain wantWrite .onChannelWritable ∧
      ¬ encrypted.Keeps (encrypted.onChannelWritable wantWrite)) := by
  intro plain encrypted interrupted wantWrite
  refine ⟨⟨by decide +kernel, fun h => ?_⟩, ⟨by decide +kernel, fun h => ?_⟩,
    ⟨by decide +kernel, fun h => ?_⟩⟩
  · exact absurd h.state (by decide +kernel)
  · exact absurd h.state (by decide +kernel)
  · exact absurd h.state (by decide +kernel)

end TcpConn

end Jerry
