/-
`logger/AsyncFileAppender`: the buffers that `Append` fills, the ones that the
flush thread takes over and writes, and `Stop`.  A critical section under `mtx`
is one step, and so is the writing of one buffer.
-/
import Jerry.Machine
import Mathlib.Logic.Basic

namespace Jerry

def kFixedBufferSize : Nat := 1024 * 1024 * 4

/-- The bytes from `data` to `cur`; those behind `cur` are never read. -/
structure FixedBuffer (size : Nat) where
  bytes : List UInt8
  fits : bytes.length ≤ size
deriving DecidableEq, Repr

namespace FixedBuffer

variable {size : Nat}

def new : FixedBuffer size :=
  ⟨[], Nat.zero_le size⟩

def availableBytes (b : FixedBuffer size) : Nat :=
  size - b.bytes.length

/-- A message that does not fit is dropped. -/
def append (b : FixedBuffer size) (msg : List UInt8) : FixedBuffer size :=
  if h : b.availableBytes ≥ msg.length then
    { bytes := b.bytes ++ msg
      fits := by
        have hfits := b.fits
        rw [availableBytes] at h
        rw [List.length_append]
        omega }
  else b

def reset (_ : FixedBuffer size) : FixedBuffer size :=
  new

end FixedBuffer

/-- A `unique_ptr`; moving from it leaves null. -/
abbrev BufferPtr (size : Nat) :=
  Option (FixedBuffer size)

/-- What the flush thread does next. -/
inductive FlushThread.Point where
  | checking
  | locking
  | waiting
  | writing (i : Nat)
  | ended
deriving DecidableEq, Repr

/-- The appender and the locals of its flush thread.  `faulted` is not in the
source: a null pointer was followed, or a vector read behind its end. -/
structure AsyncFileAppender (size : Nat) where
  stop : Bool
  logFile : List UInt8
  curBuffer : BufferPtr size
  nextBuffer : BufferPtr size
  fulledBuffers : List (BufferPtr size)
  tmpBuffer1 : BufferPtr size
  tmpBuffer2 : BufferPtr size
  buffersToWrite : List (BufferPtr size)
  point : FlushThread.Point
  notified : Bool
  faulted : Bool
deriving DecidableEq, Repr

namespace AsyncFileAppender

variable {size : Nat}

/-- The constructor, with the flush thread about to enter its loop. -/
def init (size : Nat) : AsyncFileAppender size :=
  { stop := false
    logFile := []
    curBuffer := some .new
    nextBuffer := some .new
    fulledBuffers := []
    tmpBuffer1 := some .new
    tmpBuffer2 := some .new
    buffersToWrite := []
    point := .checking
    notified := false
    faulted := false }

/-- `cond.notify_one()`. -/
def flush (s : AsyncFileAppender size) : AsyncFileAppender size :=
  { s with notified := s.notified || decide (s.point = .waiting) }

/-- `cur_buffer->Append(msg, len)`. -/
def appendToCur (s : AsyncFileAppender size) (msg : List UInt8) :
    AsyncFileAppender size :=
  match s.curBuffer with
  | none => { s with faulted := true }
  | some buffer => { s with curBuffer := some (buffer.append msg) }

/-- The current buffer is full, switch to the next one. -/
def switchBuffer (s : AsyncFileAppender size) : AsyncFileAppender size :=
  { s with
    fulledBuffers := s.fulledBuffers ++ [s.curBuffer]
    curBuffer := some (s.nextBuffer.getD .new)
    nextBuffer := none }

def append (s : AsyncFileAppender size) (msg : List UInt8) :
    AsyncFileAppender size :=
  match s.curBuffer with
  | none => { s with faulted := true }
  | some buffer =>
      if buffer.availableBytes ≥ msg.length then s.appendToCur msg
      else (s.switchBuffer.appendToCur msg).flush

/-- The rest of the critical section of `FlushThread` behind the wait. -/
def swapBuffers (s : AsyncFileAppender size) : AsyncFileAppender size :=
  let s := { s with
    fulledBuffers := s.fulledBuffers ++ [s.curBuffer]
    curBuffer := s.tmpBuffer1
    tmpBuffer1 := none }
  let s :=
    if s.nextBuffer.isNone then
      { s with nextBuffer := s.tmpBuffer2, tmpBuffer2 := none }
    else s
  { s with
    fulledBuffers := s.buffersToWrite
    buffersToWrite := s.fulledBuffers
    point := .writing 0
    notified := false }

/-- The mutex is taken, and given up again by `wait_for` if no buffer is
full. -/
def lock (s : AsyncFileAppender size) : AsyncFileAppender size :=
  if s.fulledBuffers.isEmpty then
    { s with point := .waiting, notified := false }
  else s.swapBuffers

/-- One `log_file.write`. -/
def writeBuffer (s : AsyncFileAppender size) (i : Nat) :
    AsyncFileAppender size :=
  match s.buffersToWrite[i]? with
  | some (some buffer) =>
      { s with
        logFile := s.logFile ++ buffer.bytes
        point := .writing (i + 1) }
  | _ => { s with faulted := true, point := .writing (i + 1) }

/-- `buffers_to_write[i]`, emptied for its next use. -/
def reuse (s : AsyncFileAppender size) (i : Nat) : BufferPtr size :=
  s.buffersToWrite[i]?.join.map FixedBuffer.reset

/-- Only two buffers are kept, and the tmp buffers are taken from them. -/
def recycle (s : AsyncFileAppender size) : AsyncFileAppender size :=
  let s :=
    if s.buffersToWrite.length > 2 then
      { s with buffersToWrite := s.buffersToWrite.take 2 }
    else s
  let s :=
    if s.tmpBuffer1.isNone then
      { s with
        tmpBuffer1 := s.reuse 0
        buffersToWrite := s.buffersToWrite.set 0 none
        faulted := s.faulted || (s.reuse 0).isNone }
    else s
  let s :=
    if s.tmpBuffer2.isNone then
      { s with
        tmpBuffer2 := s.reuse 1
        buffersToWrite := s.buffersToWrite.set 1 none
        faulted := s.faulted || (s.reuse 1).isNone }
    else s
  { s with buffersToWrite := [], point := .checking }

end AsyncFileAppender

/-- One atomic step of a thread that logs, of the flush thread or of `Stop`.
`Stop` is a `flush`, a `storeStop` and the wait for the flush thread to end. -/
inductive LogStep where
  | append (msg : List UInt8)
  | flush
  | storeStop
  | checkStop
  | lock
  | wake (timeout : Bool)
  | writeBuffer
  | recycle
deriving DecidableEq, Repr

namespace LogStep

variable {size : Nat}

/-- Messages fit into a buffer, and the flush thread goes round its loop.
`wait_for` ends at a notification, or at any time without one. -/
def Enabled (s : AsyncFileAppender size) : LogStep → Prop
  | .append msg => msg.length ≤ size
  | .flush => True
  | .storeStop => True
  | .checkStop => s.point = .checking
  | .lock => s.point = .locking
  | .wake timeout => s.point = .waiting ∧ (timeout = true ∨ s.notified = true)
  | .writeBuffer => ∃ i < s.buffersToWrite.length, s.point = .writing i
  | .recycle => s.point = .writing s.buffersToWrite.length

instance (s : AsyncFileAppender size) : ∀ step : LogStep,
    Decidable (step.Enabled s)
  | .append _ => inferInstanceAs (Decidable (_ ≤ _))
  | .flush => isTrue trivial
  | .storeStop => isTrue trivial
  | .checkStop => inferInstanceAs (Decidable (_ = _))
  | .lock => inferInstanceAs (Decidable (_ = _))
  | .wake _ => inferInstanceAs (Decidable (_ ∧ _))
  | .writeBuffer => inferInstanceAs (Decidable (∃ _ < _, _))
  | .recycle => inferInstanceAs (Decidable (_ = _))

def exec (s : AsyncFileAppender size) : LogStep → AsyncFileAppender size
  | .append msg => s.append msg
  | .flush => s.flush
  | .storeStop => { s with stop := true }
  | .checkStop => { s with point := if s.stop then .ended else .locking }
  | .lock => s.lock
  | .wake _ => s.swapBuffers
  | .writeBuffer =>
      match s.point with
      | .writing i => s.writeBuffer i
      | _ => s
  | .recycle => s.recycle

/-- The messages of the `Append` steps, in their order. -/
def messages (steps : List LogStep) : List (List UInt8) :=
  steps.filterMap fun
    | .append msg => some msg
    | _ => none

end LogStep

/-- The appender, its users and its flush thread. -/
def logMachine (size : Nat) : Machine (AsyncFileAppender size) LogStep where
  enabled s step := step.Enabled s
  next s step := step.exec s

instance {size : Nat} (s : AsyncFileAppender size) (step : LogStep) :
    Decidable ((logMachine size).enabled s step) :=
  inferInstanceAs (Decidable (step.Enabled s))

end Jerry
