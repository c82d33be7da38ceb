/-
The life of one timer from `AddTimer` to its deletion: its stages, the events that
lead from one to the next, and that every step of a queue is for each of its timers
such an event or nothing.
-/
import Jerry.TimerIds

namespace Jerry

/-- Where a timer is between two steps.  One is gone when it is neither in the
queue nor in the hands of `OnTimeout`. -/
inductive TimerStage where
  | waiting
  | due
  | testing
  | running
  | gone
deriving DecidableEq, Repr

/-- What has happened to a timer since `AddTimer` accepted it.  `granted` is the
`repeat_times` it was added with, `results` what its stop condition has returned,
`returned` the clock reading behind its last task. -/
structure TimerStory where
  granted : Nat
  canceled : Bool
  expiries : Nat
  results : List Bool
  executions : Nat
  returned : Option DateTime
deriving DecidableEq, Repr

structure TimerLife extends TimerStory where
  stage : TimerStage
  timer : TimerStruct
deriving DecidableEq, Repr

/-- What can happen to a timer. -/
inductive TimerEvent where
  | added (timer : TimerStruct) (tid : TimerId)
  | canceled
  | expired
  | dropped
  | tested
  | began
  | answered (result : Bool)
  | repeated (made : DateTime)
  | lost (made : DateTime)
  | finished (made : DateTime)
deriving DecidableEq, Repr

namespace TimerStory

def init : TimerStory :=
  ⟨0, false, 0, [], 0, none⟩

/-- A timer without a task executes nothing. -/
def execute (h : TimerStory) (timer : TimerStruct) : TimerStory :=
  if timer.task.isSome then { h with executions := h.executions + 1 } else h

def note (h : TimerStory) (timer : TimerStruct) : TimerEvent → TimerStory
  | .added timer _ => { init with granted := timer.repeatTimes }
  | .canceled => { h with canceled := true }
  | .expired => { h with expiries := h.expiries + 1 }
  | .began => h.execute timer
  | .answered true => { h with results := h.results ++ [true] }
  | .answered false =>
      execute { h with results := h.results ++ [false] } timer
  | .repeated made => { h with returned := some made }
  | .lost made => { h with returned := some made }
  | .finished made => { h with returned := some made }
  | .dropped => h
  | .tested => h

section Execute

variable (h : TimerStory) (timer : TimerStruct)

@[simp] theorem execute_canceled : (h.execute timer).canceled = h.canceled := by
  rw [execute]
  split <;> rfl

@[simp] theorem execute_granted : (h.execute timer).granted = h.granted := by
  rw [execute]
  split <;> rfl

@[simp] theorem execute_expiries : (h.execute timer).expiries = h.expiries := by
  rw [execute]
  split <;> rfl

@[simp] theorem execute_results : (h.execute timer).results = h.results := by
  rw [execute]
  split <;> rfl

variable {timer}

@[simp] theorem execute_executions (htask : timer.task.isSome = true) :
    (h.execute timer).executions = h.executions + 1 := by
  rw [execute, if_pos htask]

end Execute

end TimerStory

namespace TimerEvent

/-- The next repetition of a timer. -/
def again (timer : TimerStruct) (made : DateTime) : TimerStruct :=
  { timer with
    repeatTimes := timer.repeatTimes - 1
    expire := made + timer.repeatInterval }

def stage (before : TimerStage) : TimerEvent → TimerStage
  | .added _ _ => .waiting
  | .canceled => before
  | .expired => .due
  | .dropped => .gone
  | .tested => .testing
  | .began => .running
  | .answered result => if result then .gone else .running
  | .repeated _ => .waiting
  | .lost _ => .gone
  | .finished _ => .gone

def timer (before : TimerStruct) : TimerEvent → TimerStruct
  | .added timer tid => { timer with tid := tid }
  | .canceled => { before with canceled := true }
  | .repeated made => again before made
  | .lost made => again before made
  | _ => before

/-- Which event can come when. -/
def Comes (stage : TimerStage) (before : TimerStruct) : TimerEvent → Prop
  | .added timer _ => stage = .gone ∧ before.tid = -1 ∧
      timer.canceled = false ∧
      (timer.stopCondition.isSome → timer.repeatTimes = 0)
  | .canceled => stage = .waiting
  | .expired => stage = .waiting
  | .dropped => stage = .due ∧ before.canceled = true
  | .tested => stage = .due ∧ before.canceled = false ∧
      before.stopCondition.isSome = true
  | .began => stage = .due ∧ before.canceled = false ∧
      before.stopCondition.isSome = false
  | .answered _ => stage = .testing
  | .repeated _ => stage = .running ∧ 0 < before.repeatTimes
  | .lost _ => stage = .running ∧ 0 < before.repeatTimes
  | .finished _ => stage = .running ∧ before.repeatTimes = 0

end TimerEvent

namespace TimerLife

/-- A life goes on with an event. -/
def next (l : TimerLife) (e : TimerEvent) : TimerLife :=
  { l.toTimerStory.note l.timer e with
    stage := e.stage l.stage
    timer := e.timer l.timer }

@[simp] theorem next_stage (l : TimerLife) (e : TimerEvent) :
    (l.next e).stage = e.stage l.stage := rfl

@[simp] theorem next_timer (l : TimerLife) (e : TimerEvent) :
    (l.next e).timer = e.timer l.timer := rfl

@[simp] theorem next_story (l : TimerLife) (e : TimerEvent) :
    (l.next e).toTimerStory = l.toTimerStory.note l.timer e := rfl

/-- How a timer answers to its story: a cancellation is marked on it and does not
come while it is tested or executed, what is left of its repetitions makes up
what it was granted, and one with a stop condition has none. -/
structure Sound (l : TimerLife) : Prop where
  marked : l.stage ≠ .gone → l.timer.canceled = l.canceled
  kept : l.stage = .testing ∨ l.stage = .running → l.canceled = false
  tested : l.stage = .testing → l.timer.stopCondition.isSome = true
  left : l.timer.task.isSome = true → l.stage ≠ .gone →
    l.executions + l.timer.repeatTimes =
      l.granted + if l.stage = .running then 1 else 0
  once : l.timer.stopCondition.isSome = true → l.timer.repeatTimes = 0

theorem Sound.added {l : TimerLife} {timer : TimerStruct} {tid : TimerId}
    (hcomes : (TimerEvent.added timer tid).Comes l.stage l.timer) :
    (l.next (.added timer tid)).Sound := by
  obtain ⟨-, -, hcanceled, honce⟩ := hcomes
  constructor
  · exact fun _ => hcanceled
  · exact fun _ => rfl
  · intro hstage
    cases hstage
  · exact fun _ _ => Nat.add_comm _ _
  · exact honce

/-- An execution is one of those that were left. -/
theorem execute_left {timer : TimerStruct} {h : TimerStory}
    (htask : timer.task.isSome = true)
    (hleft : h.executions + timer.repeatTimes = h.granted + 0) :
    (h.execute timer).executions + timer.repeatTimes =
      (h.execute timer).granted + 1 := by
  rw [TimerStory.execute_executions h htask, TimerStory.execute_granted]
  omega

theorem Sound.next {l : TimerLife} {e : TimerEvent} (h : l.Sound)
    (hcomes : e.Comes l.stage l.timer) : (l.next e).Sound := by
  obtain ⟨hmarked, hkept, htested, hleft, honce⟩ := h
  cases e with
  | added timer tid => exact Sound.added hcomes
  | canceled =>
      have hstage : l.stage = .waiting := hcomes
      constructor <;> simp_all [TimerEvent.stage, TimerEvent.timer,
        TimerStory.note]
  | expired =>
      have hstage : l.stage = .waiting := hcomes
      constructor <;> simp_all [TimerEvent.stage, TimerEvent.timer,
        TimerStory.note]
  | dropped => constructor <;> simp_all [TimerEvent.stage, TimerEvent.timer]
  | tested =>
      obtain ⟨hstage, hcanceled, hstop⟩ := hcomes
      constructor <;> simp_all [TimerEvent.stage, TimerEvent.timer,
        TimerStory.note]
  | began =>
      obtain ⟨hstage, hcanceled, hstop⟩ := hcomes
      constructor
      · simp_all [TimerEvent.timer, TimerStory.note]
      · simp_all [TimerStory.note]
      · simp [TimerEvent.stage]
      · intro htask _
        have hbefore := hleft htask (by simp [hstage])
        simp only [hstage, reduceCtorEq, if_false] at hbefore
        exact execute_left htask hbefore
      · exact honce
  | answered result =>
      have hstage : l.stage = .testing := hcomes
      cases result with
      | true => constructor <;> simp_all [TimerEvent.stage, TimerEvent.timer]
      | false =>
          constructor
          · simp_all [TimerEvent.timer, TimerStory.note]
          · simp_all [TimerStory.note]
          · simp [TimerEvent.stage]
          · intro htask _
            have hbefore := hleft htask (by simp [hstage])
            simp only [hstage, reduceCtorEq, if_false] at hbefore
            exact @execute_left l.timer
              { l.toTimerStory with results := l.results ++ [false] } htask
              hbefore
          · exact honce
  | repeated made =>
      obtain ⟨hstage, hmore⟩ := hcomes
      constructor
      · simp_all [TimerEvent.timer, TimerEvent.again, TimerStory.note]
      · simp [TimerEvent.stage]
      · simp [TimerEvent.stage]
      · intro htask _
        have hbefore := hleft htask (by simp [hstage])
        simp only [hstage, if_true] at hbefore
        simp only [next_stage, next_timer, next_story, TimerEvent.stage,
          TimerEvent.timer, TimerEvent.again, TimerStory.note, reduceCtorEq,
          if_false]
        omega
      · intro hstop
        exact absurd (honce hstop) (Nat.ne_of_gt hmore)
  | lost made =>
      obtain ⟨hstage, hmore⟩ := hcomes
      refine ⟨?_, ?_, ?_, ?_, fun hstop => ?_⟩
      · simp [TimerEvent.stage]
      · simp [TimerEvent.stage]
      · simp [TimerEvent.stage]
      · simp [TimerEvent.stage]
      · exact absurd (honce hstop) (Nat.ne_of_gt hmore)
  | finished made => constructor <;> simp_all [TimerEvent.stage, TimerEvent.timer]

end TimerLife

namespace TimerOp

/-- The object that an overload of `AddTimer` makes, and the first clock reading
of the `AddTimer` it goes through. -/
def adds : TimerOp → Option (TimerStruct × DateTime × DateTime)
  | .addTimerAt expire task now now' =>
      some (⟨task, none, false, -1, expire, 0, 0⟩, now, now')
  | .addTimerRepeated interval repeatTimes task made now now' =>
      some (⟨task, none, false, -1, made + interval, repeatTimes, interval⟩,
        now, now')
  | .addTimerUntil interval stopCondition task made now now' =>
      some (⟨task, stopCondition, false, -1, made + interval, 0, interval⟩,
        now, now')
  | _ => none

end TimerOp

namespace TimerQueue

/-- What `HandleTimer` does first with a timer. -/
def handling (timer : TimerStruct) : TimerEvent :=
  if timer.canceled then .dropped
  else if timer.stopCondition.isSome then .tested
  else .began

/-- What `HandleTimer` does with a timer behind its task. -/
def returning (timer : TimerStruct) (made now : DateTime) : TimerEvent :=
  if timer.repeatTimes > 0 then
    if made + timer.repeatInterval ≤ now then .lost made else .repeated made
  else .finished made

def Progress.stageOf (p : TimerPtr) : Progress → TimerStage
  | .popped expired => if p ∈ expired then .due else .gone
  | .handling expired => if p ∈ expired then .due else .gone
  | .testing timer rest =>
      if p = timer then .testing else if p ∈ rest then .due else .gone
  | .running timer rest =>
      if p = timer then .running else if p ∈ rest then .due else .gone
  | _ => .gone

def stageOf (s : TimerQueue) (p : TimerPtr) : TimerStage :=
  if p ∈ s.waitingTimers then .waiting else s.progress.stageOf p

/-- The life of the timer at an address, with its story `h`. -/
def life (s : TimerQueue) (h : TimerStory) (p : TimerPtr) : TimerLife :=
  { h with stage := s.stageOf p, timer := s.timers p }

end TimerQueue

namespace TimerOp

open TimerQueue

variable (ops : HeapOps TimerPtr DateTime)

/-- What a step is for the timer at an address. -/
def event (s : TimerQueue) (p : TimerPtr) : TimerOp → Option TimerEvent
  | .cancelTimer tid => if s.timersMap tid = some p then some .canceled else none
  | .popExpiredTimers now =>
      if p ∈ (s.popExpiredTimers ops now).2 then some .expired else none
  | .handleTimer =>
      match s.progress with
      | .handling (q :: _) => if p = q then some (handling (s.timers q)) else none
      | _ => none
  | .stopConditionReturns result =>
      match s.progress with
      | .testing q _ => if p = q then some (.answered result) else none
      | _ => none
  | .taskReturns made now _ =>
      match s.progress with
      | .running q _ =>
          if p = q then some (returning (s.timers q) made now) else none
      | _ => none
  | op =>
      match op.adds with
      | some (timer, now, _) =>
          if p = s.fresh ∧ now < timer.expire then
            some (.added timer s.nextTimerId)
          else none
      | none => none

/-- The stories of all timers go on with a step. -/
def tell (s : TimerQueue) (h : TimerPtr → TimerStory) (op : TimerOp) :
    TimerPtr → TimerStory :=
  fun p => (op.event ops s p).elim (h p) ((h p).note (s.timers p))

end TimerOp

/-- A timer queue under any clock readings, with the stories of its timers. -/
def lifeMachine (ops : HeapOps TimerPtr DateTime) :
    Machine (TimerQueue × (TimerPtr → TimerStory)) TimerOp where
  enabled s op := op.Comes s.1
  next s op := (op.exec ops s.1, op.tell ops s.1 s.2)

namespace TimerQueue

variable {ops : HeapOps TimerPtr DateTime} {s s' : TimerQueue} {p q : TimerPtr}
  {rest : List TimerPtr}

section Stages

theorem stageOf_waiting (hp : p ∈ s.waitingTimers) : s.stageOf p = .waiting := by
  rw [stageOf, if_pos hp]

theorem stageOf_not_waiting (hp : p ∉ s.waitingTimers) :
    s.stageOf p = s.progress.stageOf p := by
  rw [stageOf, if_neg hp]

theorem stageOf_gone (hp : p ∉ s.waitingTimers ++ s.progress.inHand) :
    s.stageOf p = .gone := by
  rw [List.mem_append, not_or] at hp
  rw [stageOf_not_waiting hp.1]
  obtain ⟨-, hp⟩ := hp
  cases hprogress : s.progress with
  | idle | entered => rfl
  | popped expired | handling expired =>
      rw [hprogress] at hp
      exact if_neg hp
  | testing timer rest | running timer rest =>
      rw [hprogress] at hp
      simp only [Progress.inHand, List.mem_cons, not_or] at hp
      simp only [Progress.stageOf, hp.1, hp.2, if_false]

/-- What the stage of a timer looks at. -/
theorem stageOf_congr (hwaiting : p ∈ s'.waitingTimers ↔ p ∈ s.waitingTimers)
    (hprogress : s'.progress.stageOf p = s.progress.stageOf p) :
    s'.stageOf p = s.stageOf p := by
  simp only [stageOf, hwaiting, hprogress]

/-- A timer is handled and others come behind it. -/
def Progress.Handles (q : TimerPtr) (rest : List TimerPtr)
    (progress : Progress) : Prop :=
  progress = .handling (q :: rest) ∨ progress = .testing q rest ∨
    progress = .running q rest

/-- The others are as if it was not there. -/
theorem Progress.Handles.stageOf_of_ne {progress : Progress}
    (h : progress.Handles q rest) (hp : p ≠ q) :
    progress.stageOf p = (Progress.handling rest).stageOf p := by
  rcases h with rfl | rfl | rfl <;> simp [Progress.stageOf, hp]

theorem Progress.Handles.inHand {progress : Progress}
    (h : progress.Handles q rest) : progress.inHand = q :: rest := by
  rcases h with rfl | rfl | rfl <;> rfl

theorem continueWith_stageOf (s : TimerQueue) (rest : List TimerPtr)
    (p : TimerPtr) : (s.continueWith rest).progress.stageOf p =
      (Progress.handling rest).stageOf p := by
  rw [continueWith]
  split
  · rename_i hnil
    simp [hnil, Progress.stageOf]
  · rfl

end Stages

section Step

/-- What a step is for one timer: an event that can come there, or nothing. -/
def Goes (s s' : TimerQueue) (p : TimerPtr) : Option TimerEvent → Prop
  | none => s'.stageOf p = s.stageOf p ∧ s'.timers p = s.timers p
  | some e => e.Comes (s.stageOf p) (s.timers p) ∧
      s'.stageOf p = e.stage (s.stageOf p) ∧
      s'.timers p = e.timer (s.timers p)

/-- A new timer is rejected, without an id, or it is waiting. -/
theorem addNew_goes (hrep : s.Rep ops s.progress.inHand)
    (hunborn : s.Unborn) {timer : TimerStruct} (htid : timer.tid = -1)
    (hcanceled : timer.canceled = false)
    (hstop : timer.stopCondition.isSome → timer.repeatTimes = 0)
    (now now' : DateTime)
    (hp : (addTimerStruct ops (s.newTimer timer) s.fresh now now').1.tidOf p ≠
      -1) :
    s.Goes (addTimerStruct ops (s.newTimer timer) s.fresh now now').1 p
      (if p = s.fresh ∧ now < timer.expire then
        some (.added timer s.nextTimerId) else none) := by
  have hexpire : (s.newTimer timer).expireOf s.fresh = timer.expire := by
    simp [expireOf, newTimer]
  have hother (hne : p ≠ s.fresh) : (s.newTimer timer).timers p = s.timers p :=
    Function.update_of_ne hne _ _
  by_cases hlate : now < timer.expire
  · rw [addTimerStruct, if_neg (by rw [hexpire]; exact Int.not_le.mpr hlate),
      setWakeup_eq]
    by_cases hfresh : p = s.fresh
    · subst hfresh
      rw [if_pos ⟨rfl, hlate⟩]
      have hnone : (s.timers s.fresh).tid = -1 := hunborn s.fresh (Nat.le_refl _)
      refine ⟨⟨stageOf_gone hrep.fresh_not_mem, hnone, hcanceled, hstop⟩, ?_, ?_⟩
      · apply stageOf_waiting
        simp [enqueue, ops.mem_push]
      · simp [enqueue, giveId, modifyTimer, htid, TimerEvent.timer, newTimer]
    · rw [if_neg (fun h => hfresh h.1)]
      refine ⟨stageOf_congr ?_ ?_, ?_⟩
      · simp [enqueue, ops.mem_push, giveId_waitingTimers, hfresh, newTimer]
      · simp only [enqueue, giveId]
        split <;> rfl
      · simp [enqueue, giveId, modifyTimer, htid, newTimer,
          Function.update_of_ne hfresh]
  · have hreject := @addTimerStruct_rejected ops (s.newTimer timer) s.fresh now now'
      (by rw [hexpire]; exact Int.not_lt.mp hlate)
    rw [hreject] at hp ⊢
    rw [if_neg (fun h => hlate h.2)]
    have hne : p ≠ s.fresh := by
      rintro rfl
      exact hp (by simp [tidOf, newTimer, htid])
    exact ⟨stageOf_congr Iff.rfl rfl, hother hne⟩

theorem cancelTimer_goes (hrep : s.Rep ops s.progress.inHand) (tid : TimerId) :
    s.Goes (s.cancelTimer tid).1 p
      (if s.timersMap tid = some p then some .canceled else none) := by
  rw [cancelTimer]
  split
  · rename_i hnone
    rw [if_neg (by simp [hnone])]
    exact ⟨rfl, rfl⟩
  · rename_i q hq
    by_cases hp : p = q
    · subst hp
      rw [if_pos hq]
      refine ⟨stageOf_waiting ((hrep.mapped tid p).mp hq).1,
        stageOf_congr Iff.rfl rfl, ?_⟩
      simp [modifyTimer, TimerEvent.timer]
    · rw [if_neg (by simpa [hq] using Ne.symm hp)]
      exact ⟨stageOf_congr Iff.rfl rfl, Function.update_of_ne hp _ _⟩

theorem popExpiredTimers_goes (hrep : s.Rep ops []) (now : DateTime)
    (hprogress : s.progress = .entered) :
    s.Goes { (s.popExpiredTimers ops now).1 with
        progress := .popped (s.popExpiredTimers ops now).2 } p
      (if p ∈ (s.popExpiredTimers ops now).2 then some .expired else none) := by
  have hperm := popExpiredLoop_perm ops now s.waitingTimers.length 0 s
  have hpopped := popExpiredLoop_rep now s.waitingTimers.length 0 hrep
  obtain ⟨htimers, -⟩ :=
    popExpiredLoop_pops ops now s.waitingTimers.length 0 s
  rw [List.nil_append] at hpopped
  change ((s.popExpiredTimers ops now).1.waitingTimers ++
    (s.popExpiredTimers ops now).2).Perm s.waitingTimers at hperm
  change Rep ops (s.popExpiredTimers ops now).1
    (s.popExpiredTimers ops now).2 at hpopped
  by_cases hp : p ∈ (s.popExpiredTimers ops now).2
  · rw [if_pos hp]
    have hwaiting : p ∈ s.waitingTimers :=
      hperm.mem_iff.mp (List.mem_append_right _ hp)
    have hleft : p ∉ (s.popExpiredTimers ops now).1.waitingTimers :=
      fun hmem => hpopped.not_mem_pending hmem hp
    refine ⟨stageOf_waiting hwaiting, ?_, congrFun htimers p⟩
    exact Eq.trans (stageOf_not_waiting hleft) (if_pos hp)
  · rw [if_neg hp]
    have hsame : p ∈ (s.popExpiredTimers ops now).1.waitingTimers ↔
        p ∈ s.waitingTimers := by
      rw [← hperm.mem_iff, List.mem_append, or_iff_left hp]
    refine ⟨stageOf_congr hsame ?_, congrFun htimers p⟩
    rw [hprogress]
    exact if_neg hp

theorem setNextTimeout_goes {expired : List TimerPtr} (now : DateTime)
    (hprogress : s.progress = .popped expired) :
    s.Goes ((s.setNextTimeout now).continueWith expired) p none := by
  have hsame : (s.setNextTimeout now).timers = s.timers ∧
      (s.setNextTimeout now).waitingTimers = s.waitingTimers := by
    rw [setNextTimeout]
    split
    · exact ⟨rfl, rfl⟩
    · exact ⟨rfl, rfl⟩
  refine ⟨stageOf_congr ?_ ?_, congrFun hsame.1 p⟩
  · exact Iff.of_eq (congrArg (p ∈ ·) hsame.2)
  · rw [continueWith_stageOf, hprogress]
    rfl

/-- Nothing happens to the timers that are not the one in hand. -/
theorem others_goes (hhandles : s.progress.Handles q rest) (hp : p ≠ q)
    (hwaiting : p ∈ s'.waitingTimers ↔ p ∈ s.waitingTimers)
    (hprogress : s'.progress.stageOf p = (Progress.handling rest).stageOf p)
    (htimers : s'.timers p = s.timers p) : s.Goes s' p none :=
  ⟨stageOf_congr hwaiting
    (hprogress.trans (hhandles.stageOf_of_ne hp).symm), htimers⟩

/-- A timer in hand is not in the queue. -/
theorem Rep.stageOf_hand (hrep : s.Rep ops (q :: rest))
    (hwaiting : s'.waitingTimers = s.waitingTimers) :
    s'.stageOf q = s'.progress.stageOf q := by
  apply stageOf_not_waiting
  rw [hwaiting]
  exact fun hmem => hrep.not_mem_rest (List.mem_append_left _ hmem)

/-- A timer is let go of without going back into the queue. -/
theorem Rep.stageOf_left (hrep : s.Rep ops (q :: rest))
    (hwaiting : s'.waitingTimers = s.waitingTimers) :
    (s'.continueWith rest).stageOf q = .gone := by
  have hstage := @Rep.stageOf_hand ops s (s'.continueWith rest) q rest hrep
    hwaiting
  rw [hstage, continueWith_stageOf]
  exact if_neg fun hmem => hrep.not_mem_rest (List.mem_append_right _ hmem)

theorem handleTimer_goes (hprogress : s.progress = .handling (q :: rest))
    (hrep : s.Rep ops (q :: rest)) :
    s.Goes (s.handleTimer q rest) p
      (if p = q then some (handling (s.timers q)) else none) := by
  by_cases hp : p = q
  · subst hp
    have hdue : s.stageOf p = .due := by
      rw [hrep.stageOf_hand rfl, hprogress]
      exact if_pos List.mem_cons_self
    rw [if_pos rfl, handleTimer, handling]
    by_cases hcanceled : (s.timers p).canceled = true
    · rw [if_pos hcanceled, if_pos hcanceled]
      exact ⟨⟨hdue, hcanceled⟩, hrep.stageOf_left rfl, rfl⟩
    · have hkept := Bool.eq_false_of_not_eq_true hcanceled
      rw [if_neg hcanceled, if_neg hcanceled]
      by_cases hstop : (s.timers p).stopCondition.isSome = true
      · rw [if_pos hstop, if_pos hstop]
        refine ⟨⟨hdue, hkept, hstop⟩, ?_, rfl⟩
        exact Eq.trans (hrep.stageOf_hand rfl) (if_pos rfl)
      · rw [if_neg hstop, if_neg hstop]
        refine ⟨⟨hdue, hkept, Bool.eq_false_of_not_eq_true hstop⟩, ?_, rfl⟩
        exact Eq.trans (hrep.stageOf_hand rfl) (if_pos rfl)
  · rw [if_neg hp, handleTimer]
    have hhandles : s.progress.Handles q rest := Or.inl hprogress
    split
    · exact others_goes hhandles hp Iff.rfl (continueWith_stageOf _ _ _) rfl
    · split
      · exact others_goes hhandles hp Iff.rfl
          (Progress.Handles.stageOf_of_ne (Or.inr (Or.inl rfl)) hp) rfl
      · exact others_goes hhandles hp Iff.rfl
          (Progress.Handles.stageOf_of_ne (Or.inr (Or.inr rfl)) hp) rfl

theorem stopConditionReturns_goes (hprogress : s.progress = .testing q rest)
    (hrep : s.Rep ops (q :: rest)) (result : Bool) :
    s.Goes (s.stopConditionReturns q rest result) p
      (if p = q then some (.answered result) else none) := by
  by_cases hp : p = q
  · subst hp
    have htesting : s.stageOf p = .testing := by
      rw [hrep.stageOf_hand rfl, hprogress]
      exact if_pos rfl
    rw [if_pos rfl, stopConditionReturns]
    cases result with
    | true => exact ⟨htesting, hrep.stageOf_left rfl, rfl⟩
    | false =>
        exact ⟨htesting, Eq.trans (hrep.stageOf_hand rfl) (if_pos rfl), rfl⟩
  · rw [if_neg hp, stopConditionReturns]
    have hhandles : s.progress.Handles q rest := Or.inr (Or.inl hprogress)
    split
    · exact others_goes hhandles hp Iff.rfl (continueWith_stageOf _ _ _) rfl
    · exact others_goes hhandles hp Iff.rfl
        (Progress.Handles.stageOf_of_ne (Or.inr (Or.inr rfl)) hp) rfl

/-- A timer that has an id comes into the queue as it is. -/
theorem addTimerStruct_again {now now' : DateTime} (hid : (s.timers q).tid ≠ -1)
    (hlate : ¬ s.expireOf q ≤ now) :
    ∃ fd, (addTimerStruct ops s q now now').1 =
      enqueue ops { s with timerFd := fd } q := by
  rw [addTimerStruct, if_neg hlate, setWakeup_eq]
  exact ⟨_, congrArg (fun t => enqueue ops t q) (if_neg hid)⟩

theorem taskReturns_goes (hprogress : s.progress = .running q rest)
    (hrep : s.Rep ops (q :: rest)) (made now now' : DateTime) :
    s.Goes (s.taskReturns ops q rest made now now') p
      (if p = q then some (returning (s.timers q) made now) else none) := by
  have hhandles : s.progress.Handles q rest := Or.inr (Or.inr hprogress)
  have hrunning : s.stageOf q = .running := by
    rw [hrep.stageOf_hand rfl, hprogress]
    exact if_pos rfl
  rw [taskReturns]
  by_cases hagain : (s.timers q).repeatTimes > 0
  · rw [if_pos hagain]
    change s.Goes ((addTimerStruct ops (s.modifyTimer q fun timer =>
      TimerEvent.again timer made) q now now').1.continueWith rest) p _
    have hself : (s.modifyTimer q fun timer => TimerEvent.again timer
        made).timers q = TimerEvent.again (s.timers q) made :=
      Function.update_self _ _ _
    have hkey : (s.modifyTimer q fun timer => TimerEvent.again timer
        made).expireOf q = made + (s.timers q).repeatInterval := by
      rw [expireOf, hself, TimerEvent.again]
    have hid : ((s.modifyTimer q fun timer => TimerEvent.again timer made).timers
        q).tid ≠ -1 := by
      rw [hself]
      exact hrep.tid_ne (by simp)
    by_cases hdue : made + (s.timers q).repeatInterval ≤ now
    · rw [addTimerStruct_rejected (hkey ▸ hdue)]
      by_cases hp : p = q
      · subst hp
        rw [if_pos rfl, returning, if_pos hagain, if_pos hdue]
        exact ⟨⟨hrunning, hagain⟩, hrep.stageOf_left rfl, hself⟩
      · rw [if_neg hp]
        exact others_goes hhandles hp Iff.rfl (continueWith_stageOf _ _ _)
          (Function.update_of_ne hp _ _)
    · obtain ⟨fd, hadd⟩ := @addTimerStruct_again ops _ q now now' hid
        (hkey ▸ hdue)
      rw [hadd]
      by_cases hp : p = q
      · subst hp
        rw [if_pos rfl, returning, if_pos hagain, if_neg hdue]
        refine ⟨⟨hrunning, hagain⟩, stageOf_waiting ?_, hself⟩
        exact ops.mem_push.mpr (Or.inl rfl)
      · rw [if_neg hp]
        refine others_goes hhandles hp ?_ (continueWith_stageOf _ _ _)
          (Function.update_of_ne hp _ _)
        exact ops.mem_push.trans (or_iff_right hp)
  · rw [if_neg hagain]
    by_cases hp : p = q
    · subst hp
      rw [if_pos rfl, returning, if_neg hagain]
      exact ⟨⟨hrunning, Nat.eq_zero_of_not_pos hagain⟩, hrep.stageOf_left rfl,
        rfl⟩
    · rw [if_neg hp]
      exact others_goes hhandles hp Iff.rfl (continueWith_stageOf _ _ _) rfl

/-- Every step is for each timer with an id the event that is recorded. -/
theorem timerExec_goes {op : TimerOp} (hrep : s.Rep ops s.progress.inHand)
    (hunborn : s.Unborn) (hop : op.Comes s) (hp : (op.exec ops s).tidOf p ≠ -1) :
    s.Goes (op.exec ops s) p (op.event ops s p) := by
  cases op with
  | addTimerAt expire task now now' =>
      exact addNew_goes hrep hunborn rfl rfl (fun _ => rfl) now now' hp
  | addTimerRepeated interval repeatTimes task made now now' =>
      exact addNew_goes hrep hunborn rfl rfl
        (fun hstop => absurd hstop (by simp)) now now' hp
  | addTimerUntil interval stopCondition task made now now' =>
      exact addNew_goes hrep hunborn rfl rfl (fun _ => rfl) now now' hp
  | cancelTimer tid => exact cancelTimer_goes hrep tid
  | takeTimerId => exact ⟨stageOf_congr Iff.rfl rfl, rfl⟩
  | readTimerFd now =>
      have hidle : s.progress = .idle := hop
      refine ⟨stageOf_congr Iff.rfl ?_, rfl⟩
      rw [hidle]
      rfl
  | popExpiredTimers now =>
      have hentered : s.progress = .entered := hop
      rw [hentered] at hrep
      exact popExpiredTimers_goes hrep now hentered
  | setNextTimeout now =>
      obtain ⟨expired, hprogress⟩ := hop
      simp only [TimerOp.exec, hprogress]
      exact setNextTimeout_goes now hprogress
  | handleTimer =>
      obtain ⟨q, rest, hprogress⟩ := hop
      rw [hprogress] at hrep
      simp only [TimerOp.exec, TimerOp.event, hprogress]
      exact handleTimer_goes hprogress hrep
  | stopConditionReturns result =>
      obtain ⟨q, rest, hprogress⟩ := hop
      rw [hprogress] at hrep
      simp only [TimerOp.exec, TimerOp.event, hprogress]
      exact stopConditionReturns_goes hprogress hrep result
  | taskReturns made now now' =>
      obtain ⟨q, rest, hprogress⟩ := hop
      rw [hprogress] at hrep
      simp only [TimerOp.exec, TimerOp.event, hprogress]
      exact taskReturns_goes hprogress hrep made now now'

end Step

/-- Which step an event is, where it is one of `OnTimeout` behind its batch. -/
theorem event_cases {op : TimerOp} {e : TimerEvent}
    (hevent : op.event ops s p = some e) :
    (∃ timer tid, e = .added timer tid) ∨ e = .canceled ∨ e = .expired ∨
      e = handling (s.timers p) ∨
      (∃ result, op = .stopConditionReturns result ∧ e = .answered result) ∨
      ∃ made now now' rest, op = .taskReturns made now now' ∧
        s.progress = .running p rest ∧ e = returning (s.timers p) made now := by
  cases op with
  | cancelTimer tid =>
      simp only [TimerOp.event] at hevent
      split at hevent
      · cases hevent
        exact Or.inr (Or.inl rfl)
      · cases hevent
  | popExpiredTimers now =>
      simp only [TimerOp.event] at hevent
      split at hevent
      · cases hevent
        exact Or.inr (Or.inr (Or.inl rfl))
      · cases hevent
  | handleTimer =>
      simp only [TimerOp.event] at hevent
      split at hevent
      · split at hevent
        · rename_i hpq
          subst hpq
          cases hevent
          exact Or.inr (Or.inr (Or.inr (Or.inl rfl)))
        · cases hevent
      · cases hevent
  | stopConditionReturns result =>
      simp only [TimerOp.event] at hevent
      split at hevent
      · split at hevent
        · cases hevent
          exact Or.inr (Or.inr (Or.inr (Or.inr (Or.inl ⟨result, rfl, rfl⟩))))
        · cases hevent
      · cases hevent
  | taskReturns made now now' =>
      simp only [TimerOp.event] at hevent
      split at hevent
      · rename_i q rest hprogress
        split at hevent
        · rename_i hpq
          subst hpq
          cases hevent
          exact Or.inr (Or.inr (Or.inr (Or.inr (Or.inr
            ⟨made, now, now', rest, rfl, hprogress, rfl⟩))))
        · cases hevent
      · cases hevent
  | addTimerAt | addTimerRepeated | addTimerUntil =>
      simp only [TimerOp.event, TimerOp.adds] at hevent
      split at hevent
      · cases hevent
        exact Or.inl ⟨_, _, rfl⟩
      · cases hevent
  | takeTimerId | readTimerFd | setNextTimeout =>
      simp only [TimerOp.event, TimerOp.adds] at hevent
      cases hevent

theorem handling_cases (timer : TimerStruct) :
    handling timer = .dropped ∨ handling timer = .tested ∨
      handling timer = .began := by
  rw [handling]
  split
  · exact Or.inl rfl
  · split
    · exact Or.inr (Or.inl rfl)
    · exact Or.inr (Or.inr rfl)

section Lives

variable {I : TimerLife → Prop} {h : TimerPtr → TimerStory} {op : TimerOp}

theorem life_quiet (hgoes : s.Goes s' p none) (story : TimerStory) :
    s'.life story p = s.life story p := by
  rw [life, life, hgoes.1, hgoes.2]

theorem life_next {e : TimerEvent} (hgoes : s.Goes s' p (some e))
    (story : TimerStory) :
    s'.life (story.note (s.timers p) e) p = (s.life story p).next e := by
  rw [life, hgoes.2.1, hgoes.2.2]
  rfl

/-- The life behind a step on which nothing happens to the timer. -/
theorem life_exec_quiet (hgoes : s.Goes (op.exec ops s) p (op.event ops s p))
    (hevent : op.event ops s p = none) :
    (op.exec ops s).life (op.tell ops s h p) p = s.life (h p) p := by
  rw [hevent] at hgoes
  rw [TimerOp.tell, hevent]
  exact life_quiet hgoes (h p)

/-- The life behind a step that is an event for the timer. -/
theorem life_exec_next (hgoes : s.Goes (op.exec ops s) p (op.event ops s p))
    {e : TimerEvent} (hevent : op.event ops s p = some e) :
    e.Comes (s.stageOf p) (s.timers p) ∧
      (op.exec ops s).life (op.tell ops s h p) p = (s.life (h p) p).next e := by
  rw [hevent] at hgoes
  rw [TimerOp.tell, hevent]
  exact ⟨hgoes.1, life_next hgoes (h p)⟩

/-- An id comes to a timer only when `AddTimer` accepts it. -/
theorem Goes.added {event : Option TimerEvent} (hgoes : s.Goes s' p event)
    (hold : s.tidOf p = -1) (hp : s'.tidOf p ≠ -1) :
    ∃ timer tid, event = some (.added timer tid) := by
  cases event with
  | none =>
      rw [tidOf, hgoes.2] at hp
      exact absurd hold hp
  | some e =>
      rw [tidOf, hgoes.2.2] at hp
      cases e with
      | added timer tid => exact ⟨timer, tid, rfl⟩
      | _ => exact absurd hold hp

/-- Something is true of the life of every timer that has an id. -/
def Lives (I : TimerLife → Prop) (s : TimerQueue) (h : TimerPtr → TimerStory) :
    Prop :=
  ∀ p, s.tidOf p ≠ -1 → I (s.life (h p) p)

/-- What the events of a life keep is kept by every step. -/
theorem Lives.exec (hI : Lives I s h) (hrep : s.Rep ops s.progress.inHand)
    (hunborn : s.Unborn) (hop : op.Comes s)
    (hadded : ∀ (l : TimerLife) timer tid,
      (TimerEvent.added timer tid).Comes l.stage l.timer →
        I (l.next (.added timer tid)))
    (hnext : ∀ e, s.tidOf p ≠ -1 → op.event ops s p = some e →
      e.Comes (s.stageOf p) (s.timers p) → I ((s.life (h p) p).next e))
    (hp : (op.exec ops s).tidOf p ≠ -1) :
    I ((op.exec ops s).life (op.tell ops s h p) p) := by
  have hgoes := timerExec_goes hrep hunborn hop hp
  by_cases hold : s.tidOf p = -1
  · obtain ⟨timer, tid, hevent⟩ := hgoes.added hold hp
    obtain ⟨hcomes, hlife⟩ := @life_exec_next ops s p h op hgoes _ hevent
    rw [hlife]
    exact hadded _ timer tid hcomes
  · cases hevent : op.event ops s p with
    | none =>
        rw [life_exec_quiet hgoes hevent]
        exact hI p hold
    | some e =>
        obtain ⟨hcomes, hlife⟩ := @life_exec_next ops s p h op hgoes _ hevent
        rw [hlife]
        exact hnext e hold hevent hcomes

/-- The queue is well formed, and its timers answer to their stories. -/
structure Answers (ops : HeapOps TimerPtr DateTime)
    (s : TimerQueue × (TimerPtr → TimerStory)) : Prop where
  rep : s.1.Rep ops s.1.progress.inHand
  unborn : s.1.Unborn
  sound : Lives TimerLife.Sound s.1 s.2

/-- A new queue, before anything has happened to timers of it. -/
def untold (nextTimerId : Nat) (clock : DateTime) :
    TimerQueue × (TimerPtr → TimerStory) :=
  (init nextTimerId clock, fun _ => .init)

theorem untold_lives (I : TimerLife → Prop) (nextTimerId : Nat)
    (clock : DateTime) :
    Lives I (untold nextTimerId clock).1 (untold nextTimerId clock).2 :=
  fun _ hp => absurd rfl hp

theorem untold_answers (nextTimerId : Nat) (clock : DateTime) :
    Answers ops (untold nextTimerId clock) :=
  ⟨init_rep nextTimerId clock, fun _ _ => rfl,
    untold_lives _ nextTimerId clock⟩

/-- A timer that has an id keeps it. -/
theorem Answers.tid_exec {t : TimerQueue × (TimerPtr → TimerStory)}
    (ht : Answers ops t) (hop : op.Comes t.1) (hp : t.1.tidOf p ≠ -1) :
    (op.exec ops t.1).tidOf p ≠ -1 := by
  rcases (timerExec_identifies ht.rep ht.unborn hop).kept p with hsame | hnew
  · rwa [hsame]
  · exact absurd hnew.1 hp

/-- The life of a timer behind a step that is an event for it. -/
theorem Answers.life_next {t : TimerQueue × (TimerPtr → TimerStory)}
    (ht : Answers ops t) (hop : op.Comes t.1) (hp : t.1.tidOf p ≠ -1)
    {e : TimerEvent} (hevent : op.event ops t.1 p = some e) :
    e.Comes (t.1.stageOf p) (t.1.timers p) ∧
      ((lifeMachine ops).next t op).1.life
        (((lifeMachine ops).next t op).2 p) p = (t.1.life (t.2 p) p).next e :=
  life_exec_next (timerExec_goes ht.rep ht.unborn hop (ht.tid_exec hop hp)) hevent

/-- The timer in hand has an id. -/
theorem Answers.tid_hand {t : TimerQueue × (TimerPtr → TimerStory)}
    (ht : Answers ops t) (hhandles : t.1.progress.Handles p rest) :
    t.1.tidOf p ≠ -1 := by
  apply ht.rep.tid_ne
  rw [hhandles.inHand]
  exact List.mem_append_right _ List.mem_cons_self

theorem Answers.exec {t : TimerQueue × (TimerPtr → TimerStory)}
    (ht : Answers ops t) (hop : op.Comes t.1) :
    Answers ops ((lifeMachine ops).next t op) where
  rep := timerExec_rep ht.rep hop
  unborn := ht.unborn.next (timerExec_identifies ht.rep ht.unborn hop)
  sound p hp := ht.sound.exec ht.rep ht.unborn hop (fun _ _ _ => .added)
    (fun _ hid _ => (ht.sound p hid).next) hp

end Lives

end TimerQueue

end Jerry
