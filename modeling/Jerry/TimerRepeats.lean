/-
Repeating timers: whether the task of a timer is executed as often as it was
granted.  `HandleTimer` computes the next expiry and hands the timer to `AddTimer`,
which reads the clock again and turns it away when the expiry has passed by then;
nobody looks at the answer.
-/
import Jerry.TimerLife

namespace Jerry

/-- A timer with a task and without a stop condition is gone when the task was
executed once more than it repeats, or when it was canceled. -/
def TimerLife.Completes (l : TimerLife) : Prop :=
  l.timer.task.isSome = true → l.timer.stopCondition = none →
    l.stage = .gone → l.executions = l.granted + 1 ∨ l.canceled = true

/-- A timer whose task returns and that has repetitions left is added again before
its next expiry has passed. -/
def TimerOp.ReaddsInTime (s : TimerQueue) : TimerOp → Prop
  | .taskReturns made now _ => ∀ p rest, s.progress = .running p rest →
      (s.timers p).task.isSome = true → 0 < (s.timers p).repeatTimes →
        now < made + (s.timers p).repeatInterval
  | _ => True

namespace TimerQueue

variable {ops : HeapOps TimerPtr DateTime} {s : TimerQueue} {p : TimerPtr}
  {op : TimerOp} {t : TimerQueue × (TimerPtr → TimerStory)}

/-- A timer is lost where `AddTimer` turns it away. -/
theorem event_lost {made : DateTime}
    (hevent : op.event ops s p = some (.lost made)) :
    ∃ now now' rest, op = .taskReturns made now now' ∧
      s.progress = .running p rest ∧ 0 < (s.timers p).repeatTimes ∧
      made + (s.timers p).repeatInterval ≤ now := by
  rcases event_cases hevent with
    ⟨timer, tid, he⟩ | he | he | he | ⟨result, -, he⟩ |
      ⟨made', now, now', rest, hop, hprogress, he⟩
  · cases he
  · cases he
  · cases he
  · rcases handling_cases (s.timers p) with hwhat | hwhat | hwhat <;>
      cases he.trans hwhat
  · cases he
  · rw [returning] at he
    split at he
    · rename_i hagain
      split at he
      · rename_i hdue
        cases he
        exact ⟨now, now', rest, hop, hprogress, hagain, hdue⟩
      · cases he
    · cases he

/-- Where `AddTimer` turns a timer away, that is what happens to the timer. -/
theorem event_of_late {made now now' : DateTime} {rest : List TimerPtr}
    (hprogress : s.progress = .running p rest)
    (hagain : 0 < (s.timers p).repeatTimes)
    (hdue : made + (s.timers p).repeatInterval ≤ now) :
    (TimerOp.taskReturns made now now').event ops s p = some (.lost made) := by
  simp only [TimerOp.event, hprogress, if_true, returning, if_pos hagain,
    if_pos hdue]

/-- Every event but the loss of a timer keeps the promise. -/
theorem completes_next {l : TimerLife} {e : TimerEvent} (hl : l.Sound)
    (hcomes : e.Comes l.stage l.timer)
    (hlost : l.timer.task.isSome = true → ∀ made, e ≠ .lost made) :
    (l.next e).Completes := by
  intro htask hstop hgone
  cases e with
  | added timer tid => cases hgone
  | canceled => exact Or.inr rfl
  | expired => cases hgone
  | dropped =>
      obtain ⟨hstage, hcanceled⟩ := hcomes
      exact Or.inr ((hl.marked (by simp [hstage])).symm.trans hcanceled)
  | tested => cases hgone
  | began => cases hgone
  | answered result =>
      have hsome := hl.tested hcomes
      rw [show l.timer.stopCondition = none from hstop] at hsome
      cases hsome
  | repeated made => cases hgone
  | lost made => exact absurd rfl (hlost htask made)
  | finished made =>
      obtain ⟨hstage, hnone⟩ := hcomes
      have hleft := hl.left htask (by simp [hstage])
      rw [hnone, if_pos hstage] at hleft
      exact Or.inl hleft

/-- A lost timer had executions left. -/
theorem not_completes_lost {l : TimerLife} {made : DateTime} (hl : l.Sound)
    (hstage : l.stage = .running) (hmore : 0 < l.timer.repeatTimes)
    (htask : l.timer.task.isSome = true) :
    ¬ (l.next (.lost made)).Completes := by
  intro hkept
  have hstop : l.timer.stopCondition = none := by
    rw [← Option.not_isSome_iff_eq_none]
    exact fun hsome => absurd (hl.once hsome) (Nat.ne_of_gt hmore)
  have hleft := hl.left htask (by simp [hstage])
  rw [if_pos hstage] at hleft
  rcases hkept htask hstop rfl with hall | hcanceled
  · have hall' : l.executions = l.granted + 1 := hall
    omega
  · have hkept' := hl.kept (Or.inr hstage)
    have hcanceled' : l.canceled = true := hcanceled
    rw [hkept'] at hcanceled'
    cases hcanceled'

/-- One step keeps the promise for all timers exactly when it does not turn one
away that has repetitions left. -/
theorem completes_exec_iff (ht : Answers ops t)
    (hkept : Lives TimerLife.Completes t.1 t.2) (hop : op.Comes t.1) :
    Lives TimerLife.Completes ((lifeMachine ops).next t op).1
      ((lifeMachine ops).next t op).2 ↔ op.ReaddsInTime t.1 := by
  constructor
  · intro hnext
    cases op with
    | taskReturns made now now' =>
        intro p rest hprogress htask hagain
        by_contra hlate
        have hevent := @event_of_late ops t.1 p made now now' rest hprogress
          hagain (Int.not_lt.mp hlate)
        have hid := ht.tid_hand (Or.inr (Or.inr hprogress))
        obtain ⟨hcomes, hlife⟩ := ht.life_next hop hid hevent
        have hcompletes := hnext p (ht.tid_exec hop hid)
        rw [hlife] at hcompletes
        exact not_completes_lost (ht.sound p hid) hcomes.1 hagain htask hcompletes
    | _ => trivial
  · intro htime p hp
    apply hkept.exec ht.rep ht.unborn hop
    · intro l timer tid _ _ _ hgone
      cases hgone
    · intro e hid hevent hcomes
      apply completes_next (ht.sound p hid) hcomes
      rintro htask made rfl
      obtain ⟨now, now', rest, rfl, hprogress, hagain, hdue⟩ := event_lost hevent
      exact absurd (htime p rest hprogress htask hagain) (Int.not_lt.mpr hdue)
    · exact hp

/-- In a run on any clock every timer with a task and no stop condition is gone
only when it was executed once more than it repeats, or canceled, if and only if
none is added again too late. -/
theorem repeats_completed_iff {nextTimerId : Nat} {clock : DateTime}
    {labels : List TimerOp}
    (hrun : (lifeMachine ops).Run (untold nextTimerId clock) labels t) :
    (lifeMachine ops).Always (fun t => Lives TimerLife.Completes t.1 t.2)
        (untold nextTimerId clock) labels ↔
      ((lifeMachine ops).guard fun t op => op.ReaddsInTime t.1).Run
        (untold nextTimerId clock) labels t :=
  hrun.always_iff_guard (untold_answers nextTimerId clock)
    (untold_lives _ nextTimerId clock)
    (fun _ _ ht _ henabled _ => ht.exec henabled)
    (fun _ _ ht hkept henabled => completes_exec_iff ht hkept henabled)

/-- A timer that repeats once; its task is executed twice. -/
theorem repeats_completed_iff_twice :
    ∃ labels t, (lifeMachine .descending).Run (untold 0 0) labels t ∧
      t.1.stageOf 0 = .gone ∧ (t.2 0).executions = 2 ∧
      ((lifeMachine .descending).Always
          (fun t => Lives TimerLife.Completes t.1 t.2) (untold 0 0) labels ↔
        ((lifeMachine .descending).guard fun t op => op.ReaddsInTime t.1).Run
          (untold 0 0) labels t) := by
  have hrun : (lifeMachine .descending).Run (untold 0 0)
      [.addTimerRepeated 100 1 (some 7) 0 0 0, .readTimerFd 100,
        .popExpiredTimers 100, .setNextTimeout 100, .handleTimer,
        .taskReturns 120 120 121, .readTimerFd 220, .popExpiredTimers 220,
        .setNextTimeout 220, .handleTimer, .taskReturns 230 230 230] _ :=
    .cons trivial (.cons rfl (.cons rfl (.cons ⟨_, rfl⟩ (.cons ⟨_, _, rfl⟩
      (.cons ⟨_, _, rfl⟩ (.cons rfl (.cons rfl (.cons ⟨_, rfl⟩
        (.cons ⟨_, _, rfl⟩ (.cons ⟨_, _, rfl⟩ (.nil _)))))))))))
  exact ⟨_, _, hrun, rfl, rfl, repeats_completed_iff hrun⟩

/-- The clock goes on by a microsecond between the two readings behind the first
execution, and the second never comes. -/
theorem repeats_completed_late :
    ∃ labels t, (lifeMachine .descending).Run (untold 0 0) labels t ∧
      (labels.flatMap TimerOp.readings).Pairwise (· ≤ ·) ∧
      labels.head? = some (.addTimerRepeated 1 1 (some 7) 0 0 0) ∧
      (addTimerRepeated .descending (untold 0 0).1 1 1 (some 7) 0 0 0).2 = 0 ∧
      t.1.tidOf 0 = 0 ∧ t.1.stageOf 0 = .gone ∧ (t.2 0).granted = 1 ∧
      (t.2 0).executions = 1 ∧ (t.2 0).canceled = false ∧
      ¬ Lives TimerLife.Completes t.1 t.2 := by
  have hrun : (lifeMachine .descending).Run (untold 0 0)
      [.addTimerRepeated 1 1 (some 7) 0 0 0, .readTimerFd 100,
        .popExpiredTimers 100, .setNextTimeout 100, .handleTimer,
        .taskReturns 200 201 201] _ :=
    .cons trivial (.cons rfl (.cons rfl (.cons ⟨_, rfl⟩ (.cons ⟨_, _, rfl⟩
      (.cons ⟨_, _, rfl⟩ (.nil _))))))
  refine ⟨_, _, hrun, by decide, rfl, rfl, rfl, rfl, rfl, rfl, rfl, ?_⟩
  intro hall
  rcases hall 0 (by decide) rfl rfl rfl with hdone | hcanceled
  · cases hdone
  · cases hcanceled

end TimerQueue

end Jerry
