/-
`CancelTimer` and what it can still prevent.  It looks a timer up among those in
waiting, so it fails for one that has timed out already: how often the task of such
a timer is started behind the call, in any run.
-/
import Jerry.TimerLife

namespace Jerry

/-- How often the task of a timer can still be started.  A timer in waiting or in
a batch that is marked as canceled will be removed instead. -/
def TimerStage.owes (timer : TimerStruct) : TimerStage → Nat
  | .waiting => if timer.canceled then 0 else timer.repeatTimes + 1
  | .due => if timer.canceled then 0 else timer.repeatTimes + 1
  | .testing => timer.repeatTimes + 1
  | .running => timer.repeatTimes
  | .gone => 0

def TimerLife.owed (l : TimerLife) : Nat :=
  l.stage.owes l.timer

namespace TimerOp

/-- What a call of `AddTimer` returns. -/
def returned (ops : HeapOps TimerPtr DateTime) (s : TimerQueue) :
    TimerOp → Option TimerId
  | .addTimerAt expire task now now' =>
      some (s.addTimerAt ops expire task now now').2
  | .addTimerRepeated interval repeatTimes task made now now' =>
      some (s.addTimerRepeated ops interval repeatTimes task made now now').2
  | .addTimerUntil interval stopCondition task made now now' =>
      some (s.addTimerUntil ops interval stopCondition task made now now').2
  | _ => none

end TimerOp

namespace TimerLife

variable {l : TimerLife} {e : TimerEvent}

theorem execute_executions_le (h : TimerStory) (timer : TimerStruct) :
    (h.execute timer).executions ≤ h.executions + 1 := by
  rw [TimerStory.execute]
  split
  · exact Nat.le_refl _
  · exact Nat.le_succ _

@[simp] theorem next_owed (l : TimerLife) (e : TimerEvent) :
    (l.next e).owed = (e.stage l.stage).owes (e.timer l.timer) := rfl

/-- Every start of the task is one of those that were owed. -/
theorem executions_owed_le (hcomes : e.Comes l.stage l.timer)
    (hid : l.timer.tid ≠ -1) :
    (l.next e).executions + (l.next e).owed ≤ l.executions + l.owed := by
  rw [next_owed, next_story, owed]
  cases e with
  | added timer tid => exact absurd hcomes.2.1 hid
  | canceled =>
      have hstage : l.stage = .waiting := hcomes
      simp [TimerStage.owes, TimerEvent.stage, TimerEvent.timer, TimerStory.note,
        hstage]
  | expired =>
      have hstage : l.stage = .waiting := hcomes
      rw [hstage]
      exact Nat.le_refl _
  | dropped => exact Nat.le_add_right _ _
  | tested =>
      obtain ⟨hstage, hkept, -⟩ := hcomes
      simp [TimerStage.owes, TimerEvent.stage, TimerEvent.timer, TimerStory.note,
        hstage, hkept]
  | began =>
      obtain ⟨hstage, hkept, -⟩ := hcomes
      have hstart := execute_executions_le l.toTimerStory l.timer
      simp only [TimerStage.owes, TimerEvent.stage, TimerEvent.timer,
        TimerStory.note, hstage, hkept, Bool.false_eq_true, if_false]
      omega
  | answered result =>
      have hstage : l.stage = .testing := hcomes
      cases result with
      | true => exact Nat.le_add_right _ _
      | false =>
          have hstart := execute_executions_le
            { l.toTimerStory with results := l.results ++ [false] } l.timer
          simp only [TimerStage.owes, TimerEvent.stage, TimerEvent.timer,
            TimerStory.note, hstage, Bool.false_eq_true, if_false]
          simp only at hstart
          omega
  | repeated made =>
      obtain ⟨hstage, hmore⟩ := hcomes
      have hagain : (TimerEvent.stage .running (.repeated made)).owes
          (TimerEvent.again l.timer made) ≤ l.timer.repeatTimes := by
        rw [TimerEvent.stage, TimerStage.owes]
        split
        · exact Nat.zero_le _
        · exact Nat.le_of_eq (Nat.sub_add_cancel hmore)
      rw [hstage]
      exact Nat.add_le_add_left hagain _
  | lost made => exact Nat.le_add_right _ _
  | finished made => exact Nat.le_add_right _ _

end TimerLife

namespace TimerQueue

variable {ops : HeapOps TimerPtr DateTime} {s : TimerQueue} {p : TimerPtr}
  {op : TimerOp} {tid : TimerId} {t u : TimerQueue × (TimerPtr → TimerStory)}

/-- The id that `AddTimer` returns is the one on the timer. -/
theorem addTimerStruct_returned {now now' : DateTime}
    (hid : (addTimerStruct ops s p now now').2 ≠ -1) :
    (addTimerStruct ops s p now now').1.tidOf p =
      (addTimerStruct ops s p now now').2 := by
  rw [addTimerStruct] at hid ⊢
  split at hid
  · exact absurd rfl hid
  · rename_i hlate
    rw [if_neg hlate]
    rfl

/-- So is that of every overload, with the new timer. -/
theorem tidOf_returned (hid : op.returned ops s = some tid) (hvalid : tid ≠ -1) :
    (op.exec ops s).tidOf s.fresh = tid := by
  cases op with
  | addTimerAt expire task now now' =>
      cases hid
      exact addTimerStruct_returned hvalid
  | addTimerRepeated interval repeatTimes task made now now' =>
      cases hid
      exact addTimerStruct_returned hvalid
  | addTimerUntil interval stopCondition task made now now' =>
      cases hid
      exact addTimerStruct_returned hvalid
  | _ => cases hid

/-- A timer keeps the id it was given. -/
theorem tidOf_run {labels : List TimerOp} (ht : Answers ops t)
    (hid : t.1.tidOf p = tid) (hvalid : tid ≠ -1)
    (hrun : (lifeMachine ops).Run t labels u) :
    Answers ops u ∧ u.1.tidOf p = tid := by
  refine hrun.invariant (P := fun u => Answers ops u ∧ u.1.tidOf p = tid)
    ⟨ht, hid⟩ ?_
  rintro u op ⟨hu, huid⟩ hop
  refine ⟨hu.exec hop, ?_⟩
  rcases (timerExec_identifies hu.rep hu.unborn hop).kept p with hsame | hnew
  · exact hsame.trans huid
  · exact absurd (huid.symm.trans hnew.1) hvalid

/-- One step of the queue, seen by one timer. -/
theorem owed_exec (ht : Answers ops t) (hop : op.Comes t.1)
    (hid : t.1.tidOf p ≠ -1) :
    (((lifeMachine ops).next t op).1.life (((lifeMachine ops).next t op).2 p)
          p).executions +
        (((lifeMachine ops).next t op).1.life (((lifeMachine ops).next t op).2 p)
          p).owed ≤
      (t.1.life (t.2 p) p).executions + (t.1.life (t.2 p) p).owed := by
  cases hevent : op.event ops t.1 p with
  | none =>
      have hgoes := timerExec_goes ht.rep ht.unborn hop (ht.tid_exec hop hid)
      have hlife := @life_exec_quiet ops t.1 p t.2 op hgoes hevent
      exact Nat.le_of_eq (congrArg (fun l => l.executions + l.owed) hlife)
  | some e =>
      obtain ⟨hcomes, hlife⟩ := ht.life_next hop hid hevent
      rw [hlife]
      exact TimerLife.executions_owed_le hcomes hid

/-- Over a run the task is started no more often than is owed at its beginning. -/
theorem executions_le {labels : List TimerOp} (ht : Answers ops t)
    (hid : t.1.tidOf p ≠ -1) (hrun : (lifeMachine ops).Run t labels u) :
    (u.2 p).executions ≤ (t.2 p).executions + (t.1.life (t.2 p) p).owed := by
  have hkept := hrun.invariant
    (P := fun u => Answers ops u ∧ u.1.tidOf p ≠ -1 ∧
      (u.1.life (u.2 p) p).executions + (u.1.life (u.2 p) p).owed ≤
        (t.1.life (t.2 p) p).executions + (t.1.life (t.2 p) p).owed)
    ⟨ht, hid, Nat.le_refl _⟩ fun u op hu hop =>
      ⟨hu.1.exec hop, hu.1.tid_exec hop hu.2.1,
        (owed_exec hu.1 hop hu.2.1).trans hu.2.2⟩
  exact (Nat.le_add_right _ _).trans hkept.2.2

/-- What `OnTimeout` has in hand is not in waiting. -/
theorem stageOf_progress_ne (p : TimerPtr) (progress : Progress) :
    progress.stageOf p ≠ .waiting := by
  cases progress with
  | idle | entered =>
      show TimerStage.gone ≠ .waiting
      decide
  | popped expired | handling expired =>
      rw [Progress.stageOf]
      split <;> decide
  | testing timer rest | running timer rest =>
      rw [Progress.stageOf]
      split
      · decide
      · split <;> decide

/-- `CancelTimer` fails for timers that are not in waiting, and changes nothing. -/
theorem cancelTimer_false (ht : Answers ops t) (hid : t.1.tidOf p = tid)
    (hfalse : (t.1.cancelTimer tid).2 = false) :
    p ∉ t.1.waitingTimers ∧
      (lifeMachine ops).next t (.cancelTimer tid) = t := by
  have hnone : t.1.timersMap tid = none := by
    rw [cancelTimer] at hfalse
    split at hfalse
    · assumption
    · cases hfalse
  constructor
  · intro hwaiting
    rw [(ht.rep.mapped tid p).mpr ⟨hwaiting, hid⟩] at hnone
    cases hnone
  · have hqueue : (TimerOp.cancelTimer tid).exec ops t.1 = t.1 := by
      simp only [TimerOp.exec, cancelTimer, hnone]
    have hstories : (TimerOp.cancelTimer tid).tell ops t.1 t.2 = t.2 := by
      funext q
      simp [TimerOp.tell, TimerOp.event, hnone]
    exact Prod.ext hqueue hstories

/-- In a run on any clock, a call of `CancelTimer` that fails for an id that
`AddTimer` returned changes nothing and finds the timer no longer in waiting, and
behind it the task is started no more often than the timer still owes: never for
one that is gone or marked, or whose last execution has begun. -/
theorem cancel_failed {nextTimerId : Nat} {clock : DateTime}
    {before between : List TimerOp} {s : TimerQueue × (TimerPtr → TimerStory)}
    (hbefore : (lifeMachine ops).Run (untold nextTimerId clock) before s)
    (hop : op.Comes s.1) (hid : op.returned ops s.1 = some tid)
    (hvalid : tid ≠ -1)
    (hbetween : (lifeMachine ops).Run ((lifeMachine ops).next s op) between t)
    (hfalse : (t.1.cancelTimer tid).2 = false) :
    (t.1.cancelTimer tid).1 = t.1 ∧ t.1.stageOf s.1.fresh ≠ .waiting ∧
      ∀ after u,
        (lifeMachine ops).Run ((lifeMachine ops).next t (.cancelTimer tid)) after
            u →
          (u.2 s.1.fresh).executions ≤ (t.2 s.1.fresh).executions +
            (t.1.stageOf s.1.fresh).owes (t.1.timers s.1.fresh) := by
  have hs : Answers ops s := hbefore.invariant (untold_answers nextTimerId clock)
    fun _ _ ht hop => ht.exec hop
  obtain ⟨ht, htid⟩ := tidOf_run (hs.exec hop) (tidOf_returned hid hvalid) hvalid
    hbetween
  obtain ⟨hwaiting, hsame⟩ := cancelTimer_false ht htid hfalse
  refine ⟨congrArg Prod.fst hsame, ?_, ?_⟩
  · rw [stageOf_not_waiting hwaiting]
    exact stageOf_progress_ne _ _
  · intro after u hrun
    rw [hsame] at hrun
    exact executions_le ht (htid ▸ hvalid) hrun

/-- The task of a timer that does not repeat cancels its own timer. -/
theorem cancel_failed_last :
    ∃ t : TimerQueue × (TimerPtr → TimerStory),
      (TimerOp.addTimerAt 100 (some 7) 0 0).returned .descending (untold 0 0).1 =
        some 0 ∧
      t.1.stageOf 0 = .running ∧ (t.1.cancelTimer 0).2 = false ∧
      ∀ after u, (lifeMachine .descending).Run
          ((lifeMachine .descending).next t (.cancelTimer 0)) after u →
        (u.2 0).executions ≤ 1 := by
  have hop : (TimerOp.addTimerAt 100 (some 7) 0 0).Comes (untold 0 0).1 := trivial
  have hid : (TimerOp.addTimerAt 100 (some 7) 0 0).returned .descending
      (untold 0 0).1 = some 0 := rfl
  have hbetween : (lifeMachine .descending).Run
      ((lifeMachine .descending).next (untold 0 0) (.addTimerAt 100 (some 7) 0 0))
      [.readTimerFd 100, .popExpiredTimers 100, .setNextTimeout 100,
        .handleTimer] _ :=
    .cons rfl (.cons rfl (.cons ⟨_, rfl⟩ (.cons ⟨_, _, rfl⟩ (.nil _))))
  have hfailed := cancel_failed (.nil (untold 0 0)) hop hid (by decide) hbetween
    rfl
  exact ⟨_, hid, rfl, rfl, hfailed.2.2⟩

/-- Three timers have expired and two of them are popped.  The task of the first
cancels the second, which fails, and the task of the second is started all the
same. -/
theorem cancel_failed_batch :
    ∃ s t u : TimerQueue × (TimerPtr → TimerStory),
      (lifeMachine .descending).Run (untold 0 0)
        [.addTimerAt 100 (some 7) 0 0] s ∧
      (TimerOp.addTimerAt 90 (some 8) 0 0).returned .descending s.1 = some 1 ∧
      (lifeMachine .descending).Run
        ((lifeMachine .descending).next s (.addTimerAt 90 (some 8) 0 0))
        [.addTimerAt 80 (some 9) 0 0, .readTimerFd 100, .popExpiredTimers 100,
          .setNextTimeout 100, .handleTimer] t ∧
      (t.1.cancelTimer 1).2 = false ∧ (t.2 s.1.fresh).executions = 0 ∧
      (lifeMachine .descending).Run
        ((lifeMachine .descending).next t (.cancelTimer 1))
        [.taskReturns 100 100 100, .handleTimer] u ∧
      (u.2 s.1.fresh).executions = 1 :=
  ⟨_, _, _, .cons trivial (.nil _), rfl,
    .cons trivial (.cons rfl (.cons rfl (.cons ⟨_, rfl⟩ (.cons ⟨_, _, rfl⟩
      (.nil _))))), rfl, rfl,
    .cons ⟨_, _, rfl⟩ (.cons ⟨_, _, rfl⟩ (.nil _)), rfl⟩

end TimerQueue

end Jerry
