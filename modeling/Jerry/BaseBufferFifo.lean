/-
`BaseBuffer` refines a first-in first-out byte queue: every public operation,
with every result the kernel or OpenSSL may report, acts on the readable window
as one queue effect.
-/
import Jerry.BaseBuffer
import Jerry.Fifo

namespace Jerry

/-- One call on a buffer.  An iterator passed to `DropBytesUntil` is given by
its distance from `BeginOfReadable`. -/
inductive BufferOp where
  | append (data : List UInt8)
  | dropBytes (n : Nat)
  | dropAllBytes
  | dropBytesUntil (offset : Nat)
  | release
  | readBytesFromFd (r : ReadResult)
  | readBytesFromSsl (r : ReadResult)
  | writeBytesToFd (w : WriteResult)
  | writeBytesToSsl (w : WriteResult)
deriving DecidableEq, Repr

namespace BufferOp

open BaseBuffer

/-- The most `write(2)` transfers in one call on Linux (`MAX_RW_COUNT`). -/
def maxRwCount : Nat := 0x7ffff000

/-- What the caller may pass and what the system call may report in a state:
an iterator inside the readable window, no more bytes than there is room for,
no more bytes than were offered. -/
def Enabled (b : BaseBuffer) : BufferOp → Prop
  | .dropBytesUntil offset => offset ≤ b.readableBytes
  | .readBytesFromFd (.stored data) => data.length ≤ b.iovecBytes
  | .readBytesFromSsl (.stored data) =>
      data.length ≤ (b.ensureWritableSpace sslReserve).writableBytes
  | .writeBytesToFd (.wrote n) => n ≤ b.readableBytes ∧ n ≤ maxRwCount
  | .writeBytesToSsl (.wrote n) => n ≤ b.readableBytes
  | _ => True

instance (b : BaseBuffer) (op : BufferOp) : Decidable (op.Enabled b) := by
  unfold Enabled
  split <;> infer_instance

/-- The new buffer and, for the operations that return one, the result. -/
def exec (b : BaseBuffer) : BufferOp → BaseBuffer × Option Int
  | .append data => (b.append data, none)
  | .dropBytes n => (b.dropBytes n, none)
  | .dropAllBytes => (b.dropAllBytes, none)
  | .dropBytesUntil offset =>
      ((b.dropBytesUntil (b.readIdx + offset)).getD b, none)
  | .release => (b.release, none)
  | .readBytesFromFd r => (b.readBytesFromFd r).map id some
  | .readBytesFromSsl r => (b.readBytesFromSsl r).map id some
  | .writeBytesToFd w => (b.writeBytesToFd w).map id some
  | .writeBytesToSsl w => (b.writeBytesToSsl w).map id some

/-- The queue effect an operation stands for. -/
def effect : BufferOp → Fifo.Op UInt8
  | .append data => .enqueue data
  | .dropBytes n => .dequeue n
  | .dropAllBytes => .clear
  | .dropBytesUntil offset => .dequeue offset
  | .release => .clear
  | .readBytesFromFd (.stored data) => .enqueue data
  | .readBytesFromSsl (.stored data) => .enqueue data
  | .writeBytesToFd (.wrote n) => .dequeue n
  | .writeBytesToSsl (.wrote n) => .dequeue n
  | _ => .dequeue 0

theorem writeBytes_toStringView {b : BaseBuffer} (hb : b.Valid) (n : Nat) :
    (if n > 0 then b.dropBytes n else b).toStringView =
      b.toStringView.drop n := by
  split
  · exact dropBytes_toStringView hb n
  · have hzero : n = 0 := by omega
    rw [hzero, List.drop_zero]

theorem exec_valid {b : BaseBuffer} (hb : b.Valid) {op : BufferOp}
    (hop : op.Enabled b) : (op.exec b).1.Valid := by
  cases op with
  | append data => exact append_valid hb data
  | dropBytes n => exact dropBytes_valid hb n
  | dropAllBytes => exact b.dropAllBytes_valid
  | dropBytesUntil offset =>
      have hread := hb.read_le_write
      simp only [Enabled, readableBytes] at hop
      simp only [exec, dropBytesUntil_eq (Nat.le_add_right _ offset),
        Option.getD_some]
      exact ⟨by simp only; omega, hb.write_le_size⟩
  | release => exact b.release_valid
  | readBytesFromFd r => exact readBytesFromFd_valid hb r
  | readBytesFromSsl r =>
      apply readBytesFromSsl_valid hb
      rintro data rfl
      exact hop
  | writeBytesToFd w => exact writeBytesToFd_valid hb w
  | writeBytesToSsl w => exact writeBytesToSsl_valid hb w

/-- One operation acts on the readable window as its queue effect. -/
theorem exec_toStringView {b : BaseBuffer} (hb : b.Valid) {op : BufferOp}
    (hop : op.Enabled b) :
    (op.exec b).1.toStringView = Fifo.next b.toStringView op.effect := by
  cases op with
  | append data => exact append_toStringView hb data
  | dropBytes n => exact dropBytes_toStringView hb n
  | dropAllBytes => exact b.dropAllBytes_toStringView
  | dropBytesUntil offset =>
      simp only [exec, dropBytesUntil_eq (Nat.le_add_right _ offset),
        Option.getD_some]
      exact Window.slice_add _ _ _ _
  | release => exact b.release_toStringView
  | readBytesFromFd r =>
      cases r with
      | stored data => exact readBytesFromFd_stored_toStringView hb data
      | failed => rfl
  | readBytesFromSsl r =>
      cases r with
      | stored data => exact readBytesFromSsl_stored_toStringView hb hop
      | failed => exact ensureWritableSpace_toStringView hb sslReserve
  | writeBytesToFd w =>
      cases w with
      | wrote n =>
          have hn : n < 2 ^ 31 := by
            simp only [Enabled, maxRwCount] at hop
            omega
          simp only [exec, writeBytesToFd_wrote b hn]
          exact writeBytes_toStringView hb n
      | failed => simp [exec, effect, Fifo.next]
  | writeBytesToSsl w =>
      cases w with
      | wrote n =>
          simp only [exec, writeBytesToSsl_wrote]
          exact writeBytes_toStringView hb n
      | failed => simp [exec, effect, Fifo.next]

/-- A read or write that reports nothing leaves the window alone. -/
theorem exec_toStringView_of_nonpos {b : BaseBuffer} (hb : b.Valid)
    {op : BufferOp} (hop : op.Enabled b) {n : Int}
    (hresult : (op.exec b).2 = some n) (hn : n ≤ 0) :
    (op.exec b).1.toStringView = b.toStringView := by
  have hread (r : ReadResult) (hr : r.toInt ≤ 0) :
      r = .failed ∨ r = .stored [] := by
    cases r with
    | failed => exact Or.inl rfl
    | stored data =>
        simp only [ReadResult.toInt, Int.natCast_nonpos_iff] at hr
        rw [List.length_eq_zero_iff.mp hr]
        exact Or.inr rfl
  rw [exec_toStringView hb hop]
  cases op with
  | readBytesFromFd r =>
      have hr : r.toInt = n := by
        simpa [exec, readBytesFromFd_snd] using hresult
      rcases hread r (hr ▸ hn) with rfl | rfl <;> simp [effect, Fifo.next]
  | readBytesFromSsl r =>
      have hr : r.toInt = n := by
        simpa [exec, readBytesFromSsl_snd] using hresult
      rcases hread r (hr ▸ hn) with rfl | rfl <;> simp [effect, Fifo.next]
  | writeBytesToFd w =>
      cases w with
      | failed => simp [effect, Fifo.next]
      | wrote k =>
          have hk : k < 2 ^ 31 := by
            simp only [Enabled, maxRwCount] at hop
            omega
          simp only [exec, writeBytesToFd_wrote b hk, Prod.map_apply,
            Option.some.injEq] at hresult
          have hzero : k = 0 := by omega
          simp [hzero, effect, Fifo.next]
  | writeBytesToSsl w =>
      cases w with
      | failed => simp [effect, Fifo.next]
      | wrote k =>
          simp only [exec, writeBytesToSsl_wrote, Prod.map_apply,
            Option.some.injEq] at hresult
          have hzero : k = 0 := by omega
          simp [hzero, effect, Fifo.next]
  | _ => simp [exec] at hresult

end BufferOp

/-- A buffer in the hands of its callers, the kernel and OpenSSL. -/
def bufferMachine : Machine BaseBuffer BufferOp where
  enabled b op := op.Enabled b
  next b op := (op.exec b).1

instance (b : BaseBuffer) (op : BufferOp) :
    Decidable (bufferMachine.enabled b op) :=
  inferInstanceAs (Decidable (op.Enabled b))

/-- The refinement relation: a well-formed representation whose readable window
is the abstract queue. -/
def BaseBuffer.Represents (b : BaseBuffer) (queue : List UInt8) : Prop :=
  b.Valid ∧ b.toStringView = queue

theorem bufferMachine_simulates {initSize : Nat} {ops : List BufferOp}
    {b : BaseBuffer}
    (hrun : bufferMachine.Run (.ofSize initSize) ops b) :
    ∃ queue, (Fifo.machine UInt8).Run [] (ops.map BufferOp.effect) queue ∧
      b.Represents queue := by
  apply hrun.simulates (R := BaseBuffer.Represents)
    ⟨BaseBuffer.ofSize_valid initSize, BaseBuffer.ofSize_toStringView initSize⟩
  rintro b queue op ⟨hvalid, rfl⟩ hop
  exact ⟨trivial, BufferOp.exec_valid hvalid hop,
    BufferOp.exec_toStringView hvalid hop⟩

/-- In every state of every run the cursors are in order, the readable bytes
are the queue the effects leave behind, everything that entered is what left
followed by what is readable, and a read or write that reports `n ≤ 0` changes
no readable byte. -/
theorem bufferMachine_refines_fifo {initSize : Nat} {ops : List BufferOp}
    {b : BaseBuffer}
    (hrun : bufferMachine.Run (.ofSize initSize) ops b) :
    b.Valid ∧
    (Fifo.machine UInt8).Run [] (ops.map BufferOp.effect) b.toStringView ∧
    Fifo.entered (ops.map BufferOp.effect) =
      Fifo.left [] (ops.map BufferOp.effect) ++ b.toStringView ∧
    ∀ (op : BufferOp) (n : Int), op.Enabled b → (op.exec b).2 = some n →
      n ≤ 0 → (op.exec b).1.toStringView = b.toStringView := by
  obtain ⟨queue, hqueue, hvalid, rfl⟩ := bufferMachine_simulates hrun
  refine ⟨hvalid, hqueue, ?_, ?_⟩
  · have hsplit := Fifo.conservation [] (ops.map BufferOp.effect)
    rw [List.nil_append] at hsplit
    rw [hsplit, hqueue.eq_foldl]
    rfl
  · intro op n hop hresult hn
    exact BufferOp.exec_toStringView_of_nonpos hvalid hop hresult hn

/-- A run over all four space-making paths: fits, compaction, growth, and a
read that spills. -/
theorem bufferMachine_refines_fifo_run :
    let ops : List BufferOp :=
      [.append [1, 2, 3], .dropBytes 2, .append [4, 5], .append [6, 7, 8],
        .writeBytesToFd (.wrote 2), .readBytesFromFd (.stored [9, 10, 11, 12])]
    ∃ b : BaseBuffer, b.toStringView = [5, 6, 7, 8, 9, 10, 11, 12] ∧
      Fifo.entered (ops.map BufferOp.effect) =
        Fifo.left [] (ops.map BufferOp.effect) ++ b.toStringView := by
  intro ops
  have hrun : bufferMachine.Run (.ofSize 4) ops
      (ops.foldl bufferMachine.next (.ofSize 4)) :=
    Machine.run_iff.mpr ⟨by decide, rfl⟩
  exact ⟨_, by decide, (bufferMachine_refines_fifo hrun).2.2.1⟩

end Jerry
