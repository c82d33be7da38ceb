/-
What becomes of the messages: file, buffers to write, full buffers and current
buffer hold them in the order of their `Append` steps, and `Stop` waits for the
ones that the flush thread has still to take over.
-/
import Jerry.AsyncFileAppender
import Mathlib.Data.List.Infix

namespace Jerry

def BufferPtr.bytes {size : Nat} : BufferPtr size → List UInt8
  | none => []
  | some buffer => buffer.bytes

namespace AsyncFileAppender

variable {size : Nat}

/-- How many of the buffers to write have been written. -/
def written (s : AsyncFileAppender size) : Nat :=
  match s.point with
  | .writing i => i
  | _ => 0

/-- What the flush thread has taken over and not written yet. -/
def unwritten (s : AsyncFileAppender size) : List UInt8 :=
  (s.buffersToWrite.drop s.written).flatMap BufferPtr.bytes

/-- What waits to be taken over. -/
def waitingBytes (s : AsyncFileAppender size) : List UInt8 :=
  s.fulledBuffers.flatMap BufferPtr.bytes ++ BufferPtr.bytes s.curBuffer

/-- The spare buffers are empty.  Outside of its writing loop the flush thread
holds two of them and nothing to write; in the loop it has as many buffers to
write as it has given spare ones away. -/
def Stocked (s : AsyncFileAppender size) : Prop :=
  match s.point with
  | .writing i =>
      i ≤ s.buffersToWrite.length ∧
        (∀ buffer ∈ s.buffersToWrite, buffer.isSome = true) ∧
        s.tmpBuffer1 = none ∧ 1 ≤ s.buffersToWrite.length ∧
        (s.tmpBuffer2 = some .new ∨
          s.tmpBuffer2 = none ∧ 2 ≤ s.buffersToWrite.length)
  | _ => s.buffersToWrite = [] ∧ s.tmpBuffer1 = some .new ∧
      s.tmpBuffer2 = some .new

/-- There is always a buffer to append to, and the next one is missing only
while another one is full. -/
structure Rep (s : AsyncFileAppender size) : Prop where
  sound : s.faulted = false
  cur : s.curBuffer.isSome = true
  next : s.nextBuffer = some .new ∨
    s.nextBuffer = none ∧ s.fulledBuffers ≠ []
  fulled : ∀ buffer ∈ s.fulledBuffers, buffer.isSome = true
  stocked : s.Stocked

theorem init_rep (size : Nat) : (init size).Rep where
  sound := rfl
  cur := rfl
  next := Or.inl rfl
  fulled _ h := nomatch h
  stocked := ⟨rfl, rfl, rfl⟩

end AsyncFileAppender

namespace FixedBuffer

variable {size : Nat}

/-- An empty buffer has room for any message that fits at all. -/
theorem new_append {msg : List UInt8} (hmsg : msg.length ≤ size) :
    ((new : FixedBuffer size).append msg).bytes = msg := by
  rw [append, dif_pos (by rw [availableBytes]; exact hmsg)]
  rfl

theorem append_bytes {b : FixedBuffer size} {msg : List UInt8}
    (hroom : b.availableBytes ≥ msg.length) :
    (b.append msg).bytes = b.bytes ++ msg := by
  rw [append, dif_pos hroom]

end FixedBuffer

namespace AsyncFileAppender

variable {size : Nat} {s s' : AsyncFileAppender size} {msg : List UInt8}

/-- Outside of its loop, the flush thread has its spare buffers. -/
theorem stocked_outside (h : s.Rep) (hpoint : ∀ i, s.point ≠ .writing i) :
    s.buffersToWrite = [] ∧ s.tmpBuffer1 = some .new ∧
      s.tmpBuffer2 = some .new := by
  have hstocked := h.stocked
  cases hcases : s.point with
  | writing i => exact absurd hcases (hpoint i)
  | checking | locking | waiting | ended =>
      simpa only [Stocked, hcases] using hstocked

theorem fulled_cur (h : s.Rep) :
    ∀ buffer ∈ s.fulledBuffers ++ [s.curBuffer], buffer.isSome = true := by
  intro buffer hbuffer
  rcases List.mem_append.mp hbuffer with hbuffer | hbuffer
  · exact h.fulled buffer hbuffer
  · rw [List.mem_singleton.mp hbuffer]
    exact h.cur

/-- The flush thread has found `stop` unset and will take over what waits. -/
def AboutToSwap (s : AsyncFileAppender size) : Prop :=
  s.point = .locking ∨ s.point = .waiting

instance (s : AsyncFileAppender size) : Decidable s.AboutToSwap :=
  inferInstanceAs (Decidable (_ ∨ _))

theorem AboutToSwap.not_writing (h : s.AboutToSwap) (i : Nat) :
    s.point ≠ .writing i := by
  intro hi
  rcases h with hs | hs <;> rw [hi] at hs <;> cases hs

/-- In the writing loop there is a buffer in every place. -/
theorem getElem?_buffersToWrite (h : s.Rep) {i j : Nat}
    (hpoint : s.point = .writing i) (hj : j < s.buffersToWrite.length) :
    ∃ buffer, s.buffersToWrite[j]? = some (some buffer) := by
  have hstocked := h.stocked
  simp only [Stocked, hpoint] at hstocked
  obtain ⟨buffer, hbuffer⟩ := Option.isSome_iff_exists.mp
    (hstocked.2.1 _ (List.getElem_mem hj))
  exact ⟨buffer, by rw [List.getElem?_eq_getElem hj, hbuffer]⟩

/-- What the flush thread has taken over so far, written or not. -/
def takenOver (s : AsyncFileAppender size) : List UInt8 :=
  s.logFile ++ s.unwritten

/-- What any step does: the bytes of its message join the others at the end,
those that were taken over stay so, and the ones that wait are taken over once
the flush thread is about to, and not without that when it is to stop. -/
structure Advances (s s' : AsyncFileAppender size) (msg : List UInt8) :
    Prop where
  rep : s'.Rep
  stop : s.stop = true → s'.stop = true
  lossless : s'.takenOver ++ s'.waitingBytes =
    s.takenOver ++ s.waitingBytes ++ msg
  kept : s.takenOver <+: s'.takenOver
  swaps : s.AboutToSwap → s'.AboutToSwap ∨
    s'.takenOver = s.takenOver ++ s.waitingBytes
  stays : s.stop = true → ¬ s.AboutToSwap →
    ¬ s'.AboutToSwap ∧ s'.takenOver = s.takenOver

/-- Steps that leave the flush thread alone. -/
theorem advances_of_apart (hrep : s'.Rep) (hstop : s.stop = true → s'.stop = true)
    (hpoint : s'.point = s.point) (hfile : s'.logFile = s.logFile)
    (hwrite : s'.buffersToWrite = s.buffersToWrite)
    (hwaiting : s'.waitingBytes = s.waitingBytes ++ msg) :
    s.Advances s' msg := by
  have htaken : s'.takenOver = s.takenOver := by
    simp only [takenOver, unwritten, written, hpoint, hfile, hwrite]
  have hswap : s'.AboutToSwap ↔ s.AboutToSwap := by
    simp only [AboutToSwap, hpoint]
  refine ⟨hrep, hstop, ?_, ?_, ?_, ?_⟩
  · rw [htaken, hwaiting, List.append_assoc]
  · rw [htaken]
  · exact fun h => Or.inl (hswap.mpr h)
  · exact fun _ h => ⟨fun h' => h (hswap.mp h'), htaken⟩

theorem flush_advances (h : s.Rep) : s.Advances s.flush [] :=
  advances_of_apart ⟨h.sound, h.cur, h.next, h.fulled, h.stocked⟩ id rfl rfl rfl
    (List.append_nil _).symm

theorem storeStop_advances (h : s.Rep) :
    s.Advances { s with stop := true } [] :=
  advances_of_apart ⟨h.sound, h.cur, h.next, h.fulled, h.stocked⟩
    (fun _ => rfl) rfl rfl rfl (List.append_nil _).symm

/-- `Append` fills the current buffer, or a fresh one if there is no room. -/
theorem append_cases (h : s.Rep) {buffer : FixedBuffer size}
    (hcur : s.curBuffer = some buffer) (msg : List UInt8) :
    (buffer.availableBytes ≥ msg.length ∧
      s.append msg = { s with curBuffer := some (buffer.append msg) }) ∨
    (buffer.availableBytes < msg.length ∧
      s.append msg = flush { s with
        fulledBuffers := s.fulledBuffers ++ [s.curBuffer]
        curBuffer := some (FixedBuffer.new.append msg)
        nextBuffer := none }) := by
  rw [append, hcur]
  simp only
  split
  · rename_i hroom
    refine Or.inl ⟨hroom, ?_⟩
    rw [appendToCur, hcur]
  · rename_i hroom
    refine Or.inr ⟨Nat.lt_of_not_le hroom, ?_⟩
    have hnext : s.nextBuffer.getD .new = .new := by
      rcases h.next with hnext | ⟨hnext, _⟩ <;> rw [hnext] <;> rfl
    simp only [appendToCur, switchBuffer, hnext, hcur]

theorem append_rep (h : s.Rep) (msg : List UInt8) : (s.append msg).Rep := by
  obtain ⟨buffer, hcur⟩ := Option.isSome_iff_exists.mp h.cur
  rcases append_cases h hcur msg with ⟨_, heq⟩ | ⟨_, heq⟩
  · rw [heq]
    exact ⟨h.sound, rfl, h.next, h.fulled, h.stocked⟩
  · rw [heq]
    exact ⟨h.sound, rfl, Or.inr ⟨rfl, by simp [flush]⟩, fulled_cur h, h.stocked⟩

/-- The message goes behind everything that waits, into the buffer that is
being filled or into a fresh one. -/
theorem append_advances (h : s.Rep) (hmsg : msg.length ≤ size) :
    s.Advances (s.append msg) msg := by
  obtain ⟨buffer, hcur⟩ := Option.isSome_iff_exists.mp h.cur
  have hrep := append_rep h msg
  rcases append_cases h hcur msg with ⟨hroom, heq⟩ | ⟨_, heq⟩
  · rw [heq] at hrep ⊢
    refine advances_of_apart hrep id rfl rfl rfl ?_
    simp only [waitingBytes, hcur, BufferPtr.bytes,
      FixedBuffer.append_bytes hroom, List.append_assoc]
  · rw [heq] at hrep ⊢
    refine advances_of_apart hrep id rfl rfl rfl ?_
    simp only [flush, waitingBytes, List.flatMap_append,
      List.flatMap_singleton, BufferPtr.bytes, FixedBuffer.new_append hmsg]

/-- Outside of its loop, the flush thread goes from one point to another. -/
theorem point_advances (h : s.Rep) (notified : Bool)
    {point : FlushThread.Point} (hfrom : ∀ i, s.point ≠ .writing i)
    (hto : ∀ i, point ≠ .writing i)
    (hswap : s.AboutToSwap → point = .locking ∨ point = .waiting)
    (hstay : s.stop = true → ¬ s.AboutToSwap →
      ¬ (point = .locking ∨ point = .waiting)) :
    s.Advances { s with point := point, notified := notified } [] := by
  have hstocked := stocked_outside h hfrom
  have htaken : takenOver { s with point := point, notified := notified } =
      s.takenOver := by
    simp [takenOver, unwritten, hstocked.1]
  refine ⟨⟨h.sound, h.cur, h.next, h.fulled, ?_⟩, id, ?_, ?_, ?_, ?_⟩
  · cases point with
    | writing i => exact absurd rfl (hto i)
    | checking | locking | waiting | ended => exact hstocked
  · rw [htaken, List.append_nil]
    rfl
  · rw [htaken]
  · exact fun hs => Or.inl (hswap hs)
  · exact fun hs hn => ⟨hstay hs hn, htaken⟩

/-- Everything that waits is taken over. -/
theorem swapBuffers_advances (h : s.Rep) (hswap : s.AboutToSwap) :
    s.Advances s.swapBuffers [] := by
  obtain ⟨hnone, h₁, h₂⟩ := stocked_outside h hswap.not_writing
  have hlength : (s.fulledBuffers ++ [s.curBuffer]).length =
      s.fulledBuffers.length + 1 := by simp
  -- the next buffer is replaced if it is missing, and another one is full then
  have hrest : ∃ next tmp : BufferPtr size, next = some .new ∧
      (tmp = some .new ∨
        tmp = none ∧ 2 ≤ (s.fulledBuffers ++ [s.curBuffer]).length) ∧
      s.swapBuffers = { s with
        fulledBuffers := []
        curBuffer := some .new
        nextBuffer := next
        tmpBuffer1 := none
        tmpBuffer2 := tmp
        buffersToWrite := s.fulledBuffers ++ [s.curBuffer]
        point := .writing 0
        notified := false } := by
    rcases h.next with hnext | ⟨hnext, hne⟩
    · refine ⟨_, _, hnext, Or.inl h₂, ?_⟩
      simp only [swapBuffers, hnext, hnone, h₁]
      rfl
    · have hpos := List.length_pos_iff.mpr hne
      refine ⟨_, none, rfl, Or.inr ⟨rfl, by rw [hlength]; omega⟩, ?_⟩
      simp only [swapBuffers, hnext, hnone, h₁, h₂]
      rfl
  obtain ⟨next, tmp, hnext, htmp, heq⟩ := hrest
  have htaken : s.swapBuffers.takenOver = s.takenOver ++ s.waitingBytes := by
    rw [heq]
    simp [takenOver, unwritten, written, waitingBytes, hnone]
  have hwaiting : s.swapBuffers.waitingBytes = [] := by
    rw [heq]
    rfl
  refine ⟨?_, ?_, ?_, ?_, fun _ => Or.inr htaken, fun _ hn => absurd hswap hn⟩
  · rw [heq]
    refine ⟨h.sound, rfl, Or.inl hnext, (fun _ hb => nomatch hb), ?_⟩
    exact ⟨Nat.zero_le _, fulled_cur h, rfl, by rw [hlength]; omega, htmp⟩
  · rw [heq]
    exact id
  · rw [htaken, hwaiting]
  · exact htaken ▸ List.prefix_append _ _

/-- In its loop, the flush thread writes what it has taken over. -/
theorem advances_of_loop {i : Nat} (hpoint : s.point = .writing i)
    (htaken : s'.takenOver = s.takenOver) (hrep : s'.Rep)
    (hstop : s'.stop = s.stop) (hwaiting : s'.waitingBytes = s.waitingBytes)
    (hswap : ¬ s'.AboutToSwap) : s.Advances s' [] := by
  refine ⟨hrep, hstop ▸ id, ?_, ?_, ?_, fun _ _ => ⟨hswap, htaken⟩⟩
  · rw [htaken, hwaiting, List.append_nil]
  · rw [htaken]
  · exact fun hs => absurd hpoint (hs.not_writing i)

/-- A round of the writing loop. -/
theorem writeBuffer_advances (h : s.Rep) {i : Nat} (hpoint : s.point = .writing i)
    (hi : i < s.buffersToWrite.length) : s.Advances (s.writeBuffer i) [] := by
  have hstocked := h.stocked
  simp only [Stocked, hpoint] at hstocked
  obtain ⟨_, hsome, h₁, hpos, h₂⟩ := hstocked
  obtain ⟨buffer, hget⟩ := getElem?_buffersToWrite h hpoint hi
  have hbuffer : s.buffersToWrite[i] = some buffer :=
    (List.getElem_eq_iff hi).mpr hget
  have heq : s.writeBuffer i = { s with
      logFile := s.logFile ++ buffer.bytes
      point := .writing (i + 1) } := by
    simp only [writeBuffer, hget]
  have htaken : (s.writeBuffer i).takenOver = s.takenOver := by
    rw [heq]
    simp only [takenOver, unwritten, written, hpoint]
    rw [List.drop_eq_getElem_cons hi, hbuffer, List.flatMap_cons,
      List.append_assoc]
    rfl
  apply advances_of_loop hpoint htaken
  · rw [heq]
    exact ⟨h.sound, h.cur, h.next, h.fulled, hi, hsome, h₁, hpos, h₂⟩
  · rw [heq]
  · rw [heq]
    rfl
  · rw [heq]
    exact fun hs => hs.not_writing (i + 1) rfl

/-- The spare buffers are back, whichever of them were given away. -/
theorem recycle_eq (h : s.Rep) {i : Nat} (hpoint : s.point = .writing i) :
    s.recycle = { s with
      tmpBuffer1 := some .new
      tmpBuffer2 := some .new
      buffersToWrite := []
      point := .checking } := by
  have hstocked := h.stocked
  simp only [Stocked, hpoint] at hstocked
  obtain ⟨_, hsome, h₁, hpos, h₂⟩ := hstocked
  have hsound := h.sound
  obtain ⟨stop, logFile, curBuffer, nextBuffer, fulledBuffers, tmpBuffer1,
    tmpBuffer2, buffersToWrite, point, notified, faulted⟩ := s
  simp only at hsome h₁ hpos h₂ hsound
  subst h₁ hsound
  rcases buffersToWrite with _ | ⟨b₀, rest⟩
  · simp at hpos
  obtain ⟨b₀, rfl⟩ := Option.isSome_iff_exists.mp (hsome b₀ List.mem_cons_self)
  rcases h₂ with rfl | ⟨rfl, hlength⟩
  · rcases rest with _ | ⟨b₁, _ | ⟨b₂, rest⟩⟩ <;> rfl
  · rcases rest with _ | ⟨b₁, rest⟩
    · simp at hlength
    obtain ⟨b₁, rfl⟩ := Option.isSome_iff_exists.mp (hsome b₁ (by simp))
    rcases rest with _ | ⟨b₂, rest⟩ <;> rfl

theorem recycle_advances (h : s.Rep)
    (hpoint : s.point = .writing s.buffersToWrite.length) :
    s.Advances s.recycle [] := by
  have heq := recycle_eq h hpoint
  apply advances_of_loop hpoint
  · rw [heq]
    simp [takenOver, unwritten, written, hpoint]
  · rw [heq]
    exact ⟨h.sound, h.cur, h.next, h.fulled, rfl, rfl, rfl⟩
  · rw [heq]
  · rw [heq]
    rfl
  · rw [heq]
    rintro (hs | hs) <;> cases hs

end AsyncFileAppender

theorem LogStep.messages_append (steps steps' : List LogStep) :
    messages (steps ++ steps') = messages steps ++ messages steps' :=
  List.filterMap_append

/-- Every step of the machine advances the pipeline by its message. -/
theorem LogStep.exec_advances {size : Nat} {s : AsyncFileAppender size}
    {step : LogStep} (h : s.Rep) (henabled : (logMachine size).enabled s step) :
    s.Advances ((logMachine size).next s step) (messages [step]).flatten := by
  change s.Advances (step.exec s) _
  cases step with
  | append msg =>
      rw [show (messages [.append msg]).flatten = msg by simp [messages]]
      exact AsyncFileAppender.append_advances h henabled
  | flush => exact AsyncFileAppender.flush_advances h
  | storeStop => exact AsyncFileAppender.storeStop_advances h
  | checkStop =>
      have hchecking : s.point = .checking := henabled
      have hnot : ¬ s.AboutToSwap := by
        rintro (hs | hs) <;> rw [hchecking] at hs <;> cases hs
      apply AsyncFileAppender.point_advances h s.notified
      · simp [hchecking]
      · intro i
        split <;> simp
      · exact fun hs => absurd hs hnot
      · intro hstop _
        simp [hstop]
  | lock =>
      have hlocking : s.point = .locking := henabled
      simp only [exec, AsyncFileAppender.lock]
      split
      · apply AsyncFileAppender.point_advances h false
        · simp [hlocking]
        · simp
        · exact fun _ => Or.inr rfl
        · exact fun _ hnot => absurd (Or.inl hlocking) hnot
      · exact AsyncFileAppender.swapBuffers_advances h (Or.inl hlocking)
  | wake timeout =>
      exact AsyncFileAppender.swapBuffers_advances h (Or.inr henabled.1)
  | writeBuffer =>
      obtain ⟨i, hi, hpoint⟩ := henabled
      simp only [exec, hpoint]
      exact AsyncFileAppender.writeBuffer_advances h hpoint hi
  | recycle => exact AsyncFileAppender.recycle_advances h henabled

namespace AsyncFileAppender

open LogStep

variable {size : Nat} {s : AsyncFileAppender size} {steps : List LogStep}

/-- In every state of a run the messages so far are taken over or wait, in the
order of their `Append` steps. -/
theorem run_lossless (hrun : (logMachine size).Run (init size) steps s) :
    s.Rep ∧ s.takenOver ++ s.waitingBytes = (messages steps).flatten := by
  apply hrun.history (P := fun steps s =>
    s.Rep ∧ s.takenOver ++ s.waitingBytes = (messages steps).flatten)
  · exact ⟨init_rep size, rfl⟩
  · rintro steps s step ⟨hrep, hall⟩ henabled
    have hadvances := exec_advances hrep henabled
    refine ⟨hadvances.rep, hadvances.lossless.trans ?_⟩
    rw [hall, messages_append, List.flatten_append]

/-- The pipeline is a first-in first-out queue of bytes, and no pointer in it is
followed while it is null. -/
theorem pipeline_fifo (hrun : (logMachine size).Run (init size) steps s) :
    s.faulted = false ∧
      s.logFile ++ s.unwritten ++ s.fulledBuffers.flatMap BufferPtr.bytes ++
        BufferPtr.bytes s.curBuffer = (messages steps).flatten := by
  obtain ⟨hrep, hall⟩ := run_lossless hrun
  refine ⟨hrep.sound, ?_⟩
  rw [List.append_assoc]
  exact hall

/-- Buffers of two bytes: one is full and a second one has been started when
the flush thread takes both over, and its spare buffers are filled again. -/
theorem pipeline_fifo_rotation :
    let steps : List LogStep :=
      [.checkStop, .append [1], .append [2], .append [3, 4], .append [5], .lock,
        .append [6, 7], .append [8], .append [9, 10], .writeBuffer, .writeBuffer,
        .writeBuffer, .recycle, .checkStop, .lock, .append [11], .writeBuffer]
    ∃ s : AsyncFileAppender 2, (logMachine 2).Run (init 2) steps s ∧
      s.logFile = [1, 2, 3, 4, 5, 6, 7] ∧
      s.logFile ++ s.unwritten ++ s.fulledBuffers.flatMap BufferPtr.bytes ++
        BufferPtr.bytes s.curBuffer = [1, 2, 3, 4, 5, 6, 7, 8, 9, 10, 11] := by
  intro steps
  have hrun : (logMachine 2).Run (init 2) steps
      (steps.foldl (logMachine 2).next (init 2)) :=
    Machine.run_iff.mpr ⟨by decide +kernel, rfl⟩
  exact ⟨_, hrun, by decide +kernel, (pipeline_fifo hrun).2⟩

/-- A flush thread that is about to swap takes over what waits before it can
end. -/
theorem run_takesOver {s₁ : AsyncFileAppender size} {bytes : List UInt8}
    (hrun : (logMachine size).Run s₁ steps s) (hrep : s₁.Rep)
    (hbytes : bytes <+: s₁.takenOver ++ s₁.waitingBytes)
    (hwill : s₁.AboutToSwap ∨ bytes <+: s₁.takenOver) :
    s.AboutToSwap ∨ bytes <+: s.takenOver := by
  have hinv := hrun.invariant (P := fun s : AsyncFileAppender size => s.Rep ∧
    bytes <+: s.takenOver ++ s.waitingBytes ∧
    (s.AboutToSwap ∨ bytes <+: s.takenOver)) ⟨hrep, hbytes, hwill⟩
  refine (hinv ?_).2.2
  rintro s step ⟨hrep, hbytes, hwill⟩ henabled
  have hadvances := exec_advances hrep henabled
  refine ⟨hadvances.rep, ?_, ?_⟩
  · rw [hadvances.lossless]
    exact hbytes.trans (List.prefix_append _ _)
  · rcases hwill with hswap | hdone
    · rcases hadvances.swaps hswap with hswap' | htaken
      · exact Or.inl hswap'
      · rw [htaken]
        exact Or.inr hbytes
    · exact Or.inr (hdone.trans hadvances.kept)

/-- A flush thread that is to stop and is not about to swap takes over no
more. -/
theorem run_stays {s₁ : AsyncFileAppender size}
    (hrun : (logMachine size).Run s₁ steps s) (hrep : s₁.Rep)
    (hstop : s₁.stop = true) (hnot : ¬ s₁.AboutToSwap) :
    s.takenOver = s₁.takenOver := by
  have hinv := hrun.invariant (P := fun s : AsyncFileAppender size => s.Rep ∧
    s.stop = true ∧ ¬ s.AboutToSwap ∧ s.takenOver = s₁.takenOver)
    ⟨hrep, hstop, hnot, rfl⟩
  refine (hinv ?_).2.2.2
  rintro s step ⟨hrep, hstop, hnot, htaken⟩ henabled
  have hadvances := exec_advances hrep henabled
  obtain ⟨hnot', htaken'⟩ := hadvances.stays hstop hnot
  exact ⟨hadvances.rep, hadvances.stop hstop, hnot', htaken'.trans htaken⟩

/-- `Stop` is called behind the steps `before`, and sets its flag in the state
`s₁`.  When the flush thread has ended, everything from before is in the file if
and only if in `s₁` it was about to swap or had taken all that over. -/
theorem stop_writes_iff {before during after : List LogStep}
    {s₀ s₁ s : AsyncFileAppender size}
    (hbefore : (logMachine size).Run (init size) before s₀)
    (hduring : (logMachine size).Run s₀ (.flush :: during) s₁)
    (hafter : (logMachine size).Run s₁ (.storeStop :: after) s)
    (hended : s.point = .ended) :
    (messages before).flatten <+: s.logFile ↔
      s₁.AboutToSwap ∨ (messages before).flatten <+: s₁.takenOver := by
  obtain ⟨hrep, hall⟩ := run_lossless (hbefore.append hduring)
  have hfile : s.takenOver = s.logFile := by
    have hrep' := (run_lossless
      ((hbefore.append hduring).append hafter)).1
    have hstocked := stocked_outside hrep' (by simp [hended])
    simp [takenOver, unwritten, hstocked.1]
  have hnot : ¬ s.AboutToSwap := by
    rintro (hs | hs) <;> rw [hended] at hs <;> cases hs
  constructor
  · intro hwritten
    by_contra hmissed
    rw [not_or] at hmissed
    cases hafter with
    | cons _ hrun =>
        have hstays := run_stays hrun (storeStop_advances hrep).rep rfl hmissed.1
        rw [← hfile, hstays] at hwritten
        exact hmissed.2 hwritten
  · intro hwill
    have hbytes : (messages before).flatten <+:
        s₁.takenOver ++ s₁.waitingBytes := by
      rw [hall, messages_append, List.flatten_append]
      exact List.prefix_append _ _
    have hdone := (run_takesOver hafter hrep hbytes hwill).resolve_left hnot
    rwa [hfile] at hdone

/-- The flush thread is waiting when `Stop` is called. -/
theorem stop_writes_iff_waiting :
    let steps := [.flush, .storeStop, .wake true, .writeBuffer, .recycle,
      .checkStop]
    ∃ s : AsyncFileAppender kFixedBufferSize,
      (logMachine kFixedBufferSize).Run (init kFixedBufferSize)
        ([.checkStop, .lock, .append [97]] ++ steps) s ∧
      s.point = .ended ∧ [97] <+: s.logFile := by
  intro steps
  let M := logMachine kFixedBufferSize
  let s₀ := [.checkStop, .lock, .append [97]].foldl M.next (init _)
  let s₁ := [.flush].foldl M.next s₀
  let s := steps.tail.foldl M.next s₁
  have hbefore : M.Run (init _) [.checkStop, .lock, .append [97]] s₀ :=
    Machine.run_iff.mpr ⟨by decide +kernel, rfl⟩
  have hduring : M.Run s₀ [.flush] s₁ :=
    Machine.run_iff.mpr ⟨by decide +kernel, rfl⟩
  have hafter : M.Run s₁ steps.tail s :=
    Machine.run_iff.mpr ⟨by decide +kernel, rfl⟩
  have hended : s.point = .ended := by decide +kernel
  exact ⟨s, hbefore.append (hduring.append hafter), hended,
    (stop_writes_iff hbefore hduring hafter hended).mpr (by decide +kernel)⟩

/-- The flush thread is writing when a message comes and `Stop` is called: the
notification meets nobody, and the message is never written. -/
theorem stop_writes_iff_writing :
    ∃ s₀ s : AsyncFileAppender kFixedBufferSize,
      (logMachine kFixedBufferSize).Run (init kFixedBufferSize)
        [.append [97], .checkStop, .lock, .wake true, .append [98]] s₀ ∧
      (logMachine kFixedBufferSize).Run s₀
        [.flush, .storeStop, .writeBuffer, .recycle, .checkStop] s ∧
      s.point = .ended ∧ s.logFile = [97] ∧ ¬ [97, 98] <+: s.logFile := by
  let M := logMachine kFixedBufferSize
  let s₀ := [.append [97], .checkStop, .lock, .wake true, .append [98]].foldl
    M.next (init _)
  let s := [.flush, .storeStop, .writeBuffer, .recycle, .checkStop].foldl
    M.next s₀
  exact ⟨s₀, s, Machine.run_iff.mpr ⟨by decide +kernel, rfl⟩,
    Machine.run_iff.mpr ⟨by decide +kernel, rfl⟩, by decide +kernel,
    by decide +kernel, by decide +kernel⟩

end AsyncFileAppender

end Jerry
