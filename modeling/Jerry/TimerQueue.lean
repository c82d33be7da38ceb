/-
`net/TimerQueue`: timers by address, the priority queue of those in waiting, the
map from ids to timers and the timer fd.  `OnTimeout` is cut where it leaves a
critical section or calls a user's function, so that adding and cancelling can
happen in between.
-/
import Jerry.DateTime
import Jerry.HeapOps
import Jerry.Machine
import Mathlib.Logic.Function.Basic

namespace Jerry

abbrev TimerId := Int

/-- The address of a `TimerStruct`. -/
abbrev TimerPtr := Nat

/-- A bound `std::function`, by name. -/
abbrev Callback := Nat

structure TimerStruct where
  task : Option Callback
  stopCondition : Option Callback
  canceled : Bool
  tid : TimerId
  expire : DateTime
  repeatTimes : Nat
  repeatInterval : Int
deriving DecidableEq, Repr

/-- What the timer fd was last set to.  The moment it was armed at is the clock
reading its timeout was computed from. -/
structure TimerFd where
  armedAt : DateTime
  deadline : DateTime
deriving DecidableEq, Repr

def kMicroSecondsPerSecond : Int := 1000000

/-- `SetTimerFd`: the value is split into seconds and nanoseconds, and the fd
expires when they have passed. -/
def setTimerFd (now : DateTime) (expiredUs : Int) : TimerFd :=
  let expiredUs := if expiredUs > 100 then expiredUs else 100
  let tvSec := expiredUs / kMicroSecondsPerSecond
  let tvNsec := expiredUs % kMicroSecondsPerSecond * 1000
  ⟨now, now + (tvSec * kMicroSecondsPerSecond + tvNsec / 1000)⟩

/-- How far `OnTimeout` has come. -/
inductive TimerQueue.Progress where
  | idle
  | entered
  | popped (expired : List TimerPtr)
  | handling (expired : List TimerPtr)
  | testing (timer : TimerPtr) (rest : List TimerPtr)
  | running (timer : TimerPtr) (rest : List TimerPtr)
deriving DecidableEq, Repr

/-- The queue and the objects its pointers lead to.  `clock` is the last reading
of `DateTime::Now`. -/
structure TimerQueue where
  timers : TimerPtr → TimerStruct
  allocated : List TimerPtr
  fresh : TimerPtr
  timersMap : TimerId → Option TimerPtr
  waitingTimers : List TimerPtr
  nextTimerId : TimerId
  timerFd : Option TimerFd
  progress : TimerQueue.Progress
  clock : DateTime

namespace TimerQueue

/-- The constructor.  Other queues of the process may have taken ids before. -/
def init (nextTimerId : Nat) (clock : DateTime) : TimerQueue :=
  { timers := fun _ => ⟨none, none, false, -1, 0, 0, 0⟩
    allocated := []
    fresh := 0
    timersMap := fun _ => none
    waitingTimers := []
    nextTimerId := nextTimerId
    timerFd := none
    progress := .idle
    clock := clock }

/-- The key `TimerCmp` compares by. -/
def expireOf (s : TimerQueue) (p : TimerPtr) : DateTime :=
  (s.timers p).expire

/-- `new TimerStruct()`, with the fields the overload sets. -/
def newTimer (s : TimerQueue) (timer : TimerStruct) : TimerQueue :=
  { s with
    timers := Function.update s.timers s.fresh timer
    allocated := s.fresh :: s.allocated
    fresh := s.fresh + 1 }

/-- Fields of the object behind a pointer change. -/
def modifyTimer (s : TimerQueue) (p : TimerPtr)
    (f : TimerStruct → TimerStruct) : TimerQueue :=
  { s with timers := Function.update s.timers p (f (s.timers p)) }

/-- `delete timer`. -/
def deleteTimer (s : TimerQueue) (p : TimerPtr) : TimerQueue :=
  { s with allocated := s.allocated.erase p }

section Operations

variable (ops : HeapOps TimerPtr DateTime)

/-- `GetNextTimeout`; -1 without timers. -/
def getNextTimeout (s : TimerQueue) (now : DateTime) : Int :=
  match s.waitingTimers with
  | [] => -1
  | top :: _ =>
      let timeout := s.expireOf top - now
      if timeout > 0 then timeout else 0

/-- The loop of `PopExpiredTimers` from round `i` on, watched for `fuel`
rounds.  The bound is compared with the queue as it shrinks. -/
def popExpiredLoop (now : DateTime) : Nat → Nat → TimerQueue →
    TimerQueue × List TimerPtr
  | 0, _, s => (s, [])
  | fuel + 1, i, s =>
      match s.waitingTimers with
      | [] => (s, [])
      | timer :: _ =>
          if i < s.waitingTimers.length then
            if s.expireOf timer > now then (s, [])
            else
              let s' := { s with
                waitingTimers := ops.pop s.expireOf s.waitingTimers
                timersMap := Function.update s.timersMap
                  (s.timers timer).tid none }
              ((popExpiredLoop now fuel (i + 1) s').1,
                timer :: (popExpiredLoop now fuel (i + 1) s').2)
          else (s, [])

/-- Every round takes one timer off the queue. -/
def popExpiredTimers (s : TimerQueue) (now : DateTime) :
    TimerQueue × List TimerPtr :=
  popExpiredLoop ops now s.waitingTimers.length 0 s

/-- Whether `AddTimer` sets the timer fd for a timer. -/
def comesFirst (s : TimerQueue) (p : TimerPtr) : Bool :=
  match s.waitingTimers with
  | [] => true
  | top :: _ => decide (s.expireOf p < s.expireOf top)

/-- The part of `AddTimer` that updates the wakeup time. -/
def setWakeup (s : TimerQueue) (p : TimerPtr) (now : DateTime) : TimerQueue :=
  if s.comesFirst p then
    { s with timerFd := some (setTimerFd now (s.expireOf p - now)) }
  else s

/-- The part of `AddTimer` that gives an id to a new timer. -/
def giveId (s : TimerQueue) (p : TimerPtr) : TimerQueue :=
  if (s.timers p).tid = -1 then
    { s.modifyTimer p (fun timer => { timer with tid := s.nextTimerId }) with
      nextTimerId := s.nextTimerId + 1 }
  else s

/-- `waiting_timers.emplace(timer)` and `timers_map.emplace(tid, timer)`, which
keeps an entry that is there. -/
def enqueue (s : TimerQueue) (p : TimerPtr) : TimerQueue :=
  { s with
    waitingTimers := ops.push s.expireOf p s.waitingTimers
    timersMap :=
      if s.timersMap (s.timers p).tid = none then
        Function.update s.timersMap (s.timers p).tid (some p)
      else s.timersMap }

/-- `AddTimer(TimerStruct*)`, with its two clock readings. -/
def addTimerStruct (s : TimerQueue) (p : TimerPtr) (now now' : DateTime) :
    TimerQueue × TimerId :=
  if s.expireOf p ≤ now then (s, -1)
  else
    let s := (s.setWakeup p now').giveId p
    (s.enqueue ops p, (s.timers p).tid)

/-- `AddTimer(when, task)`. -/
def addTimerAt (s : TimerQueue) (expire : DateTime) (task : Option Callback)
    (now now' : DateTime) : TimerQueue × TimerId :=
  addTimerStruct ops (s.newTimer ⟨task, none, false, -1, expire, 0, 0⟩)
    s.fresh now now'

/-- `AddTimer(interval, repeat_times, task)`. -/
def addTimerRepeated (s : TimerQueue) (interval : Int) (repeatTimes : Nat)
    (task : Option Callback) (made now now' : DateTime) :
    TimerQueue × TimerId :=
  addTimerStruct ops
    (s.newTimer ⟨task, none, false, -1, made + interval, repeatTimes, interval⟩)
    s.fresh now now'

/-- `AddTimer(interval, until, task)`. -/
def addTimerUntil (s : TimerQueue) (interval : Int)
    (stopCondition task : Option Callback) (made now now' : DateTime) :
    TimerQueue × TimerId :=
  addTimerStruct ops
    (s.newTimer ⟨task, stopCondition, false, -1, made + interval, 0, interval⟩)
    s.fresh now now'

def cancelTimer (s : TimerQueue) (tid : TimerId) : TimerQueue × Bool :=
  match s.timersMap tid with
  | none => (s, false)
  | some p =>
      (s.modifyTimer p fun timer => { timer with canceled := true }, true)

/-- The next of the expired timers, or the end of `OnTimeout`. -/
def continueWith (s : TimerQueue) (rest : List TimerPtr) : TimerQueue :=
  { s with progress := if rest = [] then .idle else .handling rest }

/-- `GetNextTimeout` and `SetTimerFd`. -/
def setNextTimeout (s : TimerQueue) (now : DateTime) : TimerQueue :=
  let nextTimeout := s.getNextTimeout now
  if nextTimeout ≠ -1 then
    { s with timerFd := some (setTimerFd now nextTimeout) }
  else s

/-- `timers_map.erase(timer->tid); delete timer`. -/
def removeTimer (s : TimerQueue) (p : TimerPtr) : TimerQueue :=
  { s with timersMap := Function.update s.timersMap (s.timers p).tid none
    }.deleteTimer p

/-- `HandleTimer` up to the first call of a user's function. -/
def handleTimer (s : TimerQueue) (p : TimerPtr) (rest : List TimerPtr) :
    TimerQueue :=
  if (s.timers p).canceled then (s.removeTimer p).continueWith rest
  else if (s.timers p).stopCondition.isSome then
    { s with progress := .testing p rest }
  else { s with progress := .running p rest }

/-- `HandleTimer` behind the stop condition. -/
def stopConditionReturns (s : TimerQueue) (p : TimerPtr) (rest : List TimerPtr)
    (result : Bool) : TimerQueue :=
  if result then (s.removeTimer p).continueWith rest
  else { s with progress := .running p rest }

/-- `HandleTimer` behind the task. -/
def taskReturns (s : TimerQueue) (p : TimerPtr) (rest : List TimerPtr)
    (made now now' : DateTime) : TimerQueue :=
  if (s.timers p).repeatTimes > 0 then
    let s := s.modifyTimer p fun timer =>
      { timer with
        repeatTimes := timer.repeatTimes - 1
        expire := made + timer.repeatInterval }
    (addTimerStruct ops s p now now').1.continueWith rest
  else (s.deleteTimer p).continueWith rest

end Operations

end TimerQueue

/-- One atomic step on a queue, with the clock readings it makes: calls by any
user's function or thread, another queue taking an id, and the pieces of
`OnTimeout`. -/
inductive TimerOp where
  | addTimerAt (expire : DateTime) (task : Option Callback)
      (now now' : DateTime)
  | addTimerRepeated (interval : Int) (repeatTimes : Nat)
      (task : Option Callback) (made now now' : DateTime)
  | addTimerUntil (interval : Int) (stopCondition task : Option Callback)
      (made now now' : DateTime)
  | cancelTimer (tid : TimerId)
  | takeTimerId
  | readTimerFd (now : DateTime)
  | popExpiredTimers (now : DateTime)
  | setNextTimeout (now : DateTime)
  | handleTimer
  | stopConditionReturns (result : Bool)
  | taskReturns (made now now' : DateTime)
deriving DecidableEq, Repr

namespace TimerOp

open TimerQueue

/-- The readings of the clock in the order they are made. -/
def readings : TimerOp → List DateTime
  | .addTimerAt _ _ now now' => [now, now']
  | .addTimerRepeated _ _ _ made now now' => [made, now, now']
  | .addTimerUntil _ _ _ made now now' => [made, now, now']
  | .readTimerFd now => [now]
  | .popExpiredTimers now => [now]
  | .setNextTimeout now => [now]
  | .taskReturns made now now' => [made, now, now']
  | _ => []

/-- Where in `OnTimeout` a piece of it comes next.  The fd is readable once its
deadline has passed. -/
def Follows (s : TimerQueue) : TimerOp → Prop
  | .readTimerFd now => s.progress = .idle ∧
      ∃ fd ∈ s.timerFd, fd.deadline ≤ now
  | .popExpiredTimers _ => s.progress = .entered
  | .setNextTimeout _ => ∃ expired, s.progress = .popped expired
  | .handleTimer => ∃ p rest, s.progress = .handling (p :: rest)
  | .stopConditionReturns _ => ∃ p rest, s.progress = .testing p rest
  | .taskReturns _ _ _ => ∃ p rest, s.progress = .running p rest
  | _ => True

/-- The same on any clock: the fd may become readable at any time. -/
def Comes (s : TimerQueue) : TimerOp → Prop
  | .readTimerFd _ => s.progress = .idle
  | op => op.Follows s

/-- The clock does not go back. -/
def Enabled (s : TimerQueue) (op : TimerOp) : Prop :=
  op.Follows s ∧ (s.clock :: op.readings).Pairwise (· ≤ ·)

/-- What a step does to the queue. -/
def exec (ops : HeapOps TimerPtr DateTime) (s : TimerQueue) :
    TimerOp → TimerQueue
  | .addTimerAt expire task now now' =>
      (s.addTimerAt ops expire task now now').1
  | .addTimerRepeated interval repeatTimes task made now now' =>
      (s.addTimerRepeated ops interval repeatTimes task made now now').1
  | .addTimerUntil interval stopCondition task made now now' =>
      (s.addTimerUntil ops interval stopCondition task made now now').1
  | .cancelTimer tid => (s.cancelTimer tid).1
  | .takeTimerId => { s with nextTimerId := s.nextTimerId + 1 }
  | .readTimerFd _ => { s with timerFd := none, progress := .entered }
  | .popExpiredTimers now =>
      { (s.popExpiredTimers ops now).1 with
        progress := .popped (s.popExpiredTimers ops now).2 }
  | .setNextTimeout now =>
      match s.progress with
      | .popped expired => (s.setNextTimeout now).continueWith expired
      | _ => s
  | .handleTimer =>
      match s.progress with
      | .handling (p :: rest) => s.handleTimer p rest
      | _ => s
  | .stopConditionReturns result =>
      match s.progress with
      | .testing p rest => s.stopConditionReturns p rest result
      | _ => s
  | .taskReturns made now now' =>
      match s.progress with
      | .running p rest => s.taskReturns ops p rest made now now'
      | _ => s

end TimerOp

/-- A timer queue in the hands of its users, the clock and the kernel. -/
def timerMachine (ops : HeapOps TimerPtr DateTime) :
    Machine TimerQueue TimerOp where
  enabled s op := op.Enabled s
  next s op := { op.exec ops s with
    clock := op.readings.getLast?.getD s.clock }

/-- The queue is what some run from the constructor has made of it. -/
def TimerQueue.Reachable (ops : HeapOps TimerPtr DateTime) (s : TimerQueue) :
    Prop :=
  ∃ nextTimerId clock steps,
    (timerMachine ops).Run (.init nextTimerId clock) steps s

end Jerry
