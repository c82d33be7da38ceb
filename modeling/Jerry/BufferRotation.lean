/-
The rotation of the buffers: which pointer `Append` and `FlushThread` follow,
fill, push or move in each of their steps, and that it is never null.  Messages
may have any length here; one that no buffer can hold is dropped.
-/
import Jerry.AsyncLogging

namespace Jerry

namespace AsyncFileAppender

variable {size : Nat}

/-- `Append` finds a current buffer, and an empty one if it switches. -/
def AppendInBounds (s : AsyncFileAppender size) (msg : List UInt8) : Prop :=
  ∃ buffer, s.curBuffer = some buffer ∧
    (buffer.availableBytes < msg.length → s.switchBuffer.curBuffer = some .new)

/-- `FlushThread` pushes a current buffer and puts an empty one in its place. -/
def SwapInBounds (s : AsyncFileAppender size) : Prop :=
  s.curBuffer.isSome = true ∧ s.swapBuffers.curBuffer = some .new

/-- What is left of the written buffers has those that are taken back, and a
round ends as it began. -/
def RecycleInBounds (s : AsyncFileAppender size) : Prop :=
  let kept := s.buffersToWrite.take 2
  (s.tmpBuffer1 = none → ∃ buffer, kept[0]? = some (some buffer)) ∧
    (s.tmpBuffer2 = none → ∃ buffer, kept[1]? = some (some buffer)) ∧
    s.recycle.tmpBuffer1.isSome = true ∧ s.recycle.tmpBuffer2.isSome = true ∧
    s.recycle.buffersToWrite = []

end AsyncFileAppender

namespace LogStep

variable {size : Nat}

/-- As `Enabled`, for messages of any length. -/
def Offered (s : AsyncFileAppender size) : LogStep → Prop
  | .append _ => True
  | step => step.Enabled s

instance (s : AsyncFileAppender size) (step : LogStep) :
    Decidable (step.Offered s) := by
  cases step <;> unfold Offered <;> infer_instance

/-- The pointers that a step follows are not null. -/
def InBounds (s : AsyncFileAppender size) : LogStep → Prop
  | .append msg => s.AppendInBounds msg
  | .lock => s.fulledBuffers ≠ [] → s.SwapInBounds
  | .wake _ => s.SwapInBounds
  | .writeBuffer => ∀ i, s.point = .writing i →
      ∃ buffer, s.buffersToWrite[i]? = some (some buffer)
  | .recycle => s.RecycleInBounds
  | .flush => True
  | .storeStop => True
  | .checkStop => True

end LogStep

/-- The appender under messages of any length. -/
def rotationMachine (size : Nat) : Machine (AsyncFileAppender size) LogStep where
  enabled s step := step.Offered s
  next s step := step.exec s

instance {size : Nat} (s : AsyncFileAppender size) (step : LogStep) :
    Decidable ((rotationMachine size).enabled s step) :=
  inferInstanceAs (Decidable (step.Offered s))

namespace AsyncFileAppender

variable {size : Nat} {s : AsyncFileAppender size}

theorem append_inBounds (h : s.Rep) (msg : List UInt8) : s.AppendInBounds msg := by
  obtain ⟨buffer, hcur⟩ := Option.isSome_iff_exists.mp h.cur
  refine ⟨buffer, hcur, fun _ => ?_⟩
  rcases h.next with hnext | ⟨hnext, _⟩
  · rw [switchBuffer, hnext]
    rfl
  · rw [switchBuffer, hnext]
    rfl

theorem swapBuffers_cur (s : AsyncFileAppender size) :
    s.swapBuffers.curBuffer = s.tmpBuffer1 := by
  cases hnext : s.nextBuffer <;> simp [swapBuffers, hnext]

theorem swap_inBounds (h : s.Rep) (hswap : s.AboutToSwap) : s.SwapInBounds := by
  obtain ⟨_, h₁, _⟩ := stocked_outside h hswap.not_writing
  exact ⟨h.cur, (swapBuffers_cur s).trans h₁⟩

/-- A spare buffer that was given away went to a current or next buffer, and
the buffer it replaced is among those written. -/
theorem recycle_inBounds (h : s.Rep) {i : Nat} (hpoint : s.point = .writing i) :
    s.RecycleInBounds := by
  have heq := recycle_eq h hpoint
  have hstocked := h.stocked
  simp only [Stocked, hpoint] at hstocked
  obtain ⟨_, _, _, hpos, h₂⟩ := hstocked
  have hentry : ∀ j, j < s.buffersToWrite.length → j < 2 →
      ∃ buffer, (s.buffersToWrite.take 2)[j]? = some (some buffer) := by
    intro j hj hj2
    rw [List.getElem?_take_of_lt hj2]
    exact getElem?_buffersToWrite h hpoint hj
  refine ⟨fun _ => hentry 0 hpos (by omega), fun hnone => ?_, ?_⟩
  · rcases h₂ with hfull | ⟨_, hlength⟩
    · rw [hnone] at hfull
      cases hfull
    · exact hentry 1 hlength (by omega)
  · rw [heq]
    exact ⟨rfl, rfl, rfl⟩

end AsyncFileAppender

namespace LogStep

variable {size : Nat} {s : AsyncFileAppender size} {step : LogStep}

theorem offered_iff :
    step.Offered s ↔ (∃ msg, step = .append msg) ∨ step.Enabled s := by
  cases step <;> simp [Offered]

theorem offered_exec_rep (h : s.Rep) (hoffered : step.Offered s) :
    (step.exec s).Rep := by
  rcases offered_iff.mp hoffered with ⟨msg, rfl⟩ | henabled
  · exact AsyncFileAppender.append_rep h msg
  · exact (exec_advances h henabled).rep

theorem offered_inBounds (h : s.Rep) (hoffered : step.Offered s) :
    step.InBounds s := by
  cases step with
  | append msg => exact AsyncFileAppender.append_inBounds h msg
  | lock => exact fun _ => AsyncFileAppender.swap_inBounds h (Or.inl hoffered)
  | wake timeout => exact AsyncFileAppender.swap_inBounds h (Or.inr hoffered.1)
  | writeBuffer =>
      obtain ⟨i, hi, hpoint⟩ := hoffered
      intro j hj
      cases hpoint.symm.trans hj
      exact AsyncFileAppender.getElem?_buffersToWrite h hpoint hi
  | recycle => exact AsyncFileAppender.recycle_inBounds h hoffered
  | flush | storeStop | checkStop => exact trivial

end LogStep

namespace AsyncFileAppender

variable {size : Nat} {s : AsyncFileAppender size} {steps : List LogStep}

theorem rotation_rep (hrun : (rotationMachine size).Run (init size) steps s) :
    s.Rep :=
  hrun.invariant (init_rep size) fun _ _ h henabled =>
    LogStep.offered_exec_rep h henabled

/-- In every reachable state, every step that may come next follows, fills,
pushes and moves buffers that are there. -/
theorem rotation_inBounds (hrun : (rotationMachine size).Run (init size) steps s)
    (step : LogStep) (hoffered : step.Offered s) :
    step.InBounds s ∧ (step.exec s).faulted = false :=
  have hrep := rotation_rep hrun
  ⟨LogStep.offered_inBounds hrep hoffered,
    (LogStep.offered_exec_rep hrep hoffered).sound⟩

/-- A burst fills two buffers before the flush thread comes round, and a message
is dropped: both tmp buffers are given away, and both are taken back from the
three buffers written. -/
theorem rotation_inBounds_burst :
    ∃ s : AsyncFileAppender 2,
      (rotationMachine 2).Run (init 2)
        [.append [1, 2], .append [3, 4], .append [5, 6, 7], .checkStop, .lock,
          .append [8], .writeBuffer, .writeBuffer, .writeBuffer] s ∧
      s.tmpBuffer1 = none ∧ s.tmpBuffer2 = none ∧ s.RecycleInBounds := by
  have hrun : (rotationMachine 2).Run (init 2)
      [.append [1, 2], .append [3, 4], .append [5, 6, 7], .checkStop, .lock,
        .append [8], .writeBuffer, .writeBuffer, .writeBuffer] _ :=
    Machine.run_iff.mpr ⟨by decide, rfl⟩
  exact ⟨_, hrun, by decide, by decide,
    (rotation_inBounds hrun .recycle (by decide)).1⟩

end AsyncFileAppender

end Jerry
