/-
How large the vector of a `BaseBuffer` becomes: it grows only when the readable
bytes and the requested ones do not fit into it, the space of the dropped bytes
included, and then to less than twice of what they need.
-/
import Jerry.BaseBufferFifo

namespace Jerry

namespace BufferOp

open BaseBuffer Window

/-- The call of `EnsureWritableSpace` that an operation makes: on which buffer,
and for how many bytes.  A read that spills has filled the vector by then. -/
def spaceCall (b : BaseBuffer) : BufferOp → Option (BaseBuffer × Nat)
  | .append data => if data.length = 0 then none else some (b, data.length)
  | .readBytesFromFd (.stored data) =>
      let writable := b.writableBytes
      if data.length ≤ writable then none
      else
        some ({ b with
          buffer := overwrite b.buffer b.writeIdx (data.take writable)
          writeIdx := b.buffer.length }, data.length - writable)
  | .readBytesFromSsl _ => some (b, sslReserve)
  | _ => none

/-- Readable bytes and bytes requested at that call. -/
def demand (b : BaseBuffer) (op : BufferOp) : Nat :=
  match op.spaceCall b with
  | none => 0
  | some (called, len) => called.readableBytes + len

/-- The largest demand of a run. -/
def peak : BaseBuffer → List BufferOp → Nat
  | _, [] => 0
  | b, op :: ops => max (op.demand b) (peak (op.exec b).1 ops)

end BufferOp

namespace BaseBuffer

variable {b : BaseBuffer}

/-- `EnsureWritableSpace` keeps the vector, or grows it because the readable
bytes and the requested ones are more than it holds. -/
theorem ensureWritableSpace_size (hb : b.Valid) (len : Nat) :
    (b.ensureWritableSpace len).buffer.length = b.buffer.length ∨
      b.buffer.length < b.readableBytes + len ∧
        (b.ensureWritableSpace len).buffer.length ≤
          2 * (b.readableBytes + len) := by
  have hread := hb.read_le_write
  have hwrite := hb.write_le_size
  rcases ensureWritableSpace_cases b len with
    ⟨_, heq⟩ | ⟨_, heq⟩ | ⟨hlt, heq⟩
  · exact Or.inl (by rw [heq])
  · left
    rw [heq]
    exact Window.overwrite_length _ _ _
  · right
    rw [heq]
    simp only [writableBytes, readableBytes, List.length_append,
      List.length_replicate] at hlt ⊢
    omega

theorem append_size (b : BaseBuffer) {data : List UInt8} (hdata : data.length ≠ 0) :
    (b.append data).buffer.length =
      (b.ensureWritableSpace data.length).buffer.length := by
  rw [append, if_neg hdata]
  exact Window.overwrite_length _ _ _

theorem dropBytes_size (b : BaseBuffer) (n : Nat) :
    (b.dropBytes n).buffer.length = b.buffer.length := by
  rw [dropBytes]
  split <;> rfl

theorem readBytesFromFd_fits {data : List UInt8}
    (hfits : data.length ≤ b.writableBytes) :
    (b.readBytesFromFd (.stored data)).1 =
      { b with
        buffer := Window.overwrite b.buffer b.writeIdx
          (data.take b.writableBytes)
        writeIdx := b.writeIdx + data.length } := by
  simp only [readBytesFromFd, hfits, if_true]

theorem readBytesFromFd_spills {data : List UInt8}
    (hspill : ¬ data.length ≤ b.writableBytes) :
    (b.readBytesFromFd (.stored data)).1 =
      BaseBuffer.append
        { b with
          buffer := Window.overwrite b.buffer b.writeIdx
            (data.take b.writableBytes)
          writeIdx := b.buffer.length }
        (data.drop b.writableBytes) := by
  simp only [readBytesFromFd, hspill, if_false]

theorem writeBytesToFd_size (b : BaseBuffer) (w : WriteResult) :
    (b.writeBytesToFd w).1.buffer.length = b.buffer.length := by
  simp only [writeBytesToFd]
  split
  · exact dropBytes_size b _
  · rfl

theorem writeBytesToSsl_size (b : BaseBuffer) (w : WriteResult) :
    (b.writeBytesToSsl w).1.buffer.length = b.buffer.length := by
  simp only [writeBytesToSsl]
  split
  · exact dropBytes_size b _
  · rfl

end BaseBuffer

namespace BufferOp

open BaseBuffer

variable {b : BaseBuffer} {op : BufferOp}

/-- The buffer of the call is well formed and has the vector's size. -/
theorem spaceCall_valid (hb : b.Valid) {called : BaseBuffer} {len : Nat}
    (hcall : op.spaceCall b = some (called, len)) :
    called.Valid ∧ called.buffer.length = b.buffer.length := by
  have hread := hb.read_le_write
  have hwrite := hb.write_le_size
  cases op with
  | append data =>
      simp only [spaceCall, Option.ite_none_left_eq_some, Option.some.injEq,
        Prod.mk.injEq] at hcall
      obtain ⟨_, rfl, _⟩ := hcall
      exact ⟨hb, rfl⟩
  | readBytesFromSsl r =>
      simp only [spaceCall, Option.some.injEq, Prod.mk.injEq] at hcall
      obtain ⟨rfl, _⟩ := hcall
      exact ⟨hb, rfl⟩
  | readBytesFromFd r =>
      cases r with
      | failed => simp [spaceCall] at hcall
      | stored data =>
          simp only [spaceCall, Option.ite_none_left_eq_some,
            Option.some.injEq, Prod.mk.injEq] at hcall
          obtain ⟨_, rfl, _⟩ := hcall
          have hlength := Window.overwrite_length b.buffer b.writeIdx
            (data.take b.writableBytes)
          exact ⟨⟨Nat.le_trans hread hwrite, Nat.le_of_eq hlength.symm⟩, hlength⟩
  | dropBytes | dropAllBytes | dropBytesUntil | release | writeBytesToFd |
      writeBytesToSsl =>
      simp [spaceCall] at hcall

/-- An operation leaves the vector as large as its call made it. -/
theorem exec_size_of_call {called : BaseBuffer} {len : Nat}
    (hcall : op.spaceCall b = some (called, len)) :
    (op.exec b).1.buffer.length =
      (called.ensureWritableSpace len).buffer.length := by
  cases op with
  | append data =>
      simp only [spaceCall, Option.ite_none_left_eq_some, Option.some.injEq,
        Prod.mk.injEq] at hcall
      obtain ⟨hdata, rfl, rfl⟩ := hcall
      exact append_size b hdata
  | readBytesFromSsl r =>
      simp only [spaceCall, Option.some.injEq, Prod.mk.injEq] at hcall
      obtain ⟨rfl, rfl⟩ := hcall
      cases r with
      | failed => rfl
      | stored data =>
          exact Window.overwrite_length _ _ _
  | readBytesFromFd r =>
      cases r with
      | failed => simp [spaceCall] at hcall
      | stored data =>
          simp only [spaceCall, Option.ite_none_left_eq_some,
            Option.some.injEq, Prod.mk.injEq] at hcall
          obtain ⟨hspill, rfl, rfl⟩ := hcall
          have hrest : (data.drop b.writableBytes).length =
              data.length - b.writableBytes := List.length_drop
          simp only [exec, Prod.map_fst, id]
          rw [readBytesFromFd_spills hspill,
            append_size _ (by rw [hrest]; omega), hrest]
  | dropBytes | dropAllBytes | dropBytesUntil | release | writeBytesToFd |
      writeBytesToSsl =>
      simp [spaceCall] at hcall

/-- Without a call the vector does not grow. -/
theorem exec_size_of_none (hcall : op.spaceCall b = none) :
    (op.exec b).1.buffer.length ≤ b.buffer.length := by
  cases op with
  | append data =>
      have hempty : data.length = 0 := by
        by_contra hdata
        simp [spaceCall, hdata] at hcall
      have heq : b.append data = b := by
        rw [BaseBuffer.append, if_pos hempty]
      exact Nat.le_of_eq (congrArg (fun b => b.buffer.length) heq)
  | readBytesFromSsl r => simp [spaceCall] at hcall
  | readBytesFromFd r =>
      cases r with
      | failed => exact Nat.le_refl _
      | stored data =>
          have hfits : data.length ≤ b.writableBytes := by
            by_contra hspill
            simp [spaceCall, hspill] at hcall
          simp only [exec, Prod.map_fst, id]
          rw [readBytesFromFd_fits hfits]
          exact Nat.le_of_eq (Window.overwrite_length _ _ _)
  | dropBytes n => exact Nat.le_of_eq (dropBytes_size b n)
  | dropAllBytes => exact Nat.le_refl _
  | dropBytesUntil offset =>
      simp only [exec, dropBytesUntil_eq (Nat.le_add_right _ offset),
        Option.getD_some, Nat.le_refl]
  | release => exact Nat.zero_le _
  | writeBytesToFd w => exact Nat.le_of_eq (writeBytesToFd_size b w)
  | writeBytesToSsl w => exact Nat.le_of_eq (writeBytesToSsl_size b w)

/-- One operation keeps the size or lowers it, or there is more to hold than the
vector can, and twice of that is the limit. -/
theorem exec_size (hb : b.Valid) :
    (op.exec b).1.buffer.length ≤ b.buffer.length ∨
      b.buffer.length < op.demand b ∧
        (op.exec b).1.buffer.length ≤ 2 * op.demand b := by
  cases hcall : op.spaceCall b with
  | none => exact Or.inl (exec_size_of_none hcall)
  | some call =>
      obtain ⟨called, len⟩ := call
      obtain ⟨hvalid, hsize⟩ := spaceCall_valid hb hcall
      have hexec := exec_size_of_call hcall
      rw [demand, hcall]
      rw [hexec, ← hsize]
      rcases ensureWritableSpace_size hvalid len with heq | hgrown
      · exact Or.inl (Nat.le_of_eq heq)
      · exact Or.inr hgrown

/-- No operation of a run demands more than its peak. -/
theorem run_demand_le {b c : BaseBuffer} {ops : List BufferOp}
    (hrun : bufferMachine.Run b ops c) {limit : Nat} (hpeak : peak b ops ≤ limit) :
    (bufferMachine.guard fun b op => op.demand b ≤ limit).Run b ops c := by
  induction hrun with
  | nil b => exact .nil b
  | @cons b c op ops hop hrest ih =>
      obtain ⟨hfirst, hlater⟩ := Nat.max_le.mp hpeak
      exact .cons ⟨hop, hfirst⟩ (ih hlater)

end BufferOp

open BufferOp

/-- The vector never exceeds its first size and twice the peak of the run, and
an operation that makes it grow has more to hold than all of it, the dropped
bytes in front included. -/
theorem BaseBuffer.size_bounded {initSize : Nat} {ops : List BufferOp}
    {b : BaseBuffer} (hrun : bufferMachine.Run (.ofSize initSize) ops b) :
    bufferMachine.Always
      (fun b => b.buffer.length ≤ max initSize (2 * peak (.ofSize initSize) ops))
      (.ofSize initSize) ops ∧
    ∀ op : BufferOp, op.Enabled b →
      b.buffer.length < (op.exec b).1.buffer.length →
      b.buffer.length < op.demand b := by
  have hguard := run_demand_le hrun (Nat.le_refl _)
  constructor
  · apply hguard.always_of_guard (I := fun b => b.Valid ∧
      b.buffer.length ≤ max initSize (2 * peak (.ofSize initSize) ops))
    · have hfirst : (ofSize initSize).buffer.length = initSize :=
        List.length_replicate
      exact ⟨ofSize_valid initSize, by rw [hfirst]; exact Nat.le_max_left _ _⟩
    · exact fun _ h => h.2
    · rintro b op ⟨hb, hsize⟩ hop hdemand
      refine ⟨exec_valid hb hop, ?_⟩
      have hexec : (op.exec b).1.buffer.length ≤ b.buffer.length ∨ _ := exec_size hb
      change (op.exec b).1.buffer.length ≤ _
      rcases hexec with hkept | ⟨_, hgrown⟩ <;> omega
  · intro op hop hgrows
    have hb : b.Valid := hrun.invariant (ofSize_valid initSize)
      fun _ _ hb hop => exec_valid hb hop
    have hexec : (op.exec b).1.buffer.length ≤ b.buffer.length ∨ _ := exec_size hb
    rcases hexec with hkept | ⟨hlt, _⟩
    · exact absurd hgrows (Nat.not_lt.mpr hkept)
    · exact hlt

/-- Twelve bytes pass through a vector of four: the fifth makes it grow, and the
later ones take the place of those that were dropped. -/
theorem BaseBuffer.size_bounded_passing :
    let ops : List BufferOp :=
      [.append [1, 2, 3], .append [4, 5], .writeBytesToFd (.wrote 4),
        .readBytesFromFd (.stored [6, 7, 8, 9]), .dropBytes 3, .append [10, 11, 12]]
    peak (.ofSize 4) ops = 5 ∧
    bufferMachine.Always (fun b => b.buffer.length ≤ 10) (.ofSize 4) ops := by
  intro ops
  have hrun : bufferMachine.Run (.ofSize 4) ops
      (ops.foldl bufferMachine.next (.ofSize 4)) :=
    Machine.run_iff.mpr ⟨by decide, rfl⟩
  exact ⟨by decide, (BaseBuffer.size_bounded hrun).1⟩

end Jerry
