/-
Timers with a stop condition: whether they repeat until it holds.  The overload of
`AddTimer` gives them no repetitions, so that `HandleTimer` deletes such a timer
behind its first execution.
-/
import Jerry.TimerLife

namespace Jerry

namespace TimerLife

def Conditional (l : TimerLife) : Prop :=
  l.timer.stopCondition.isSome = true

/-- What a conditional timer should do: evaluate its condition at each expiry, by
which it has been popped in `OnTimeout`, execute its task at those where it was
false and wait for another interval, until the condition is true or the timer is
canceled. -/
structure RepeatsUntil (l : TimerLife) : Prop where
  evaluated : l.stage ≠ .gone ∨ l.canceled = false →
    l.expiries = l.results.length +
      if l.stage = .due ∨ l.stage = .testing then 1 else 0
  executed : l.timer.task.isSome = true →
    l.executions = l.results.count false
  again : l.stage = .waiting → ∀ made ∈ l.returned,
    l.timer.expire = made + l.timer.repeatInterval
  removed : l.stage = .gone → true ∈ l.results ∨ l.canceled = true
  stopped : ∀ k rest, l.results = List.replicate k false ++ true :: rest →
    rest = [] ∧ l.stage = .gone ∧
      (l.timer.task.isSome = true → l.executions = k)

/-- What it does: nothing a second time. -/
def Once (l : TimerLife) : Prop :=
  match l.stage with
  | .waiting => l.expiries = 0 ∧ l.results = [] ∧ l.executions = 0 ∧
      l.returned = none
  | .due => l.expiries = 1 ∧ l.results = [] ∧ l.executions = 0
  | .testing => l.expiries = 1 ∧ l.results = [] ∧ l.executions = 0
  | .running => l.expiries = 1 ∧ l.results = [false] ∧
      (l.timer.task.isSome = true → l.executions = 1)
  | .gone =>
      (l.canceled = true ∧ l.results = [] ∧ l.executions = 0) ∨
      (l.expiries = 1 ∧ l.results = [true] ∧ l.executions = 0) ∨
      (l.expiries = 1 ∧ l.results = [false] ∧ l.canceled = false ∧
        (l.timer.task.isSome = true → l.executions = 1))

theorem Once.next {l : TimerLife} {e : TimerEvent} (hl : l.Sound)
    (hcond : l.Conditional) (honce : l.Once)
    (hcomes : e.Comes l.stage l.timer) : (l.next e).Once := by
  have hnone := hl.once hcond
  cases e with
  | added timer tid => exact ⟨rfl, rfl, rfl, rfl⟩
  | canceled =>
      have hstage : l.stage = .waiting := hcomes
      rw [Once, hstage] at honce
      rw [Once, next_stage, TimerEvent.stage, hstage]
      exact honce
  | expired =>
      have hstage : l.stage = .waiting := hcomes
      rw [Once, hstage] at honce
      exact ⟨congrArg (· + 1) honce.1, honce.2.1, honce.2.2.1⟩
  | dropped =>
      obtain ⟨hstage, hcanceled⟩ := hcomes
      rw [Once, hstage] at honce
      have hmarked := hl.marked (by simp [hstage])
      exact Or.inl ⟨hmarked.symm.trans hcanceled, honce.2.1, honce.2.2⟩
  | tested =>
      obtain ⟨hstage, -, -⟩ := hcomes
      rw [Once, hstage] at honce
      exact honce
  | began =>
      obtain ⟨-, -, hstop⟩ := hcomes
      rw [Conditional, hstop] at hcond
      cases hcond
  | answered result =>
      have hstage : l.stage = .testing := hcomes
      rw [Once, hstage] at honce
      obtain ⟨hexpiries, hresults, hexecutions⟩ := honce
      cases result with
      | true =>
          refine Or.inr (Or.inl ⟨hexpiries, ?_, hexecutions⟩)
          simp [TimerStory.note, hresults]
      | false =>
          refine ⟨?_, ?_, fun htask => ?_⟩
          · simpa [TimerStory.note] using hexpiries
          · simp [TimerStory.note, hresults]
          · exact (TimerStory.execute_executions _ htask).trans
              (congrArg (· + 1) hexecutions)
  | repeated made => exact absurd hnone (Nat.ne_of_gt hcomes.2)
  | lost made => exact absurd hnone (Nat.ne_of_gt hcomes.2)
  | finished made =>
      obtain ⟨hstage, -⟩ := hcomes
      rw [Once, hstage] at honce
      obtain ⟨hexpiries, hresults, hexecutions⟩ := honce
      exact Or.inr (Or.inr ⟨hexpiries, hresults, hl.kept (Or.inr hstage),
        hexecutions⟩)

/-- A single result that is true is the first one. -/
theorem first_true {b : Bool} {k : Nat} {rest : List Bool}
    (h : [b] = List.replicate k false ++ true :: rest) :
    b = true ∧ k = 0 ∧ rest = [] := by
  cases k with
  | zero =>
      rw [List.replicate_zero, List.nil_append, List.cons.injEq] at h
      exact ⟨h.1, rfl, h.2.symm⟩
  | succ k => simp [List.replicate_succ] at h

/-- Before the timer is gone, and when it goes for a reason, all is well. -/
theorem Once.repeatsUntil {l : TimerLife} (honce : l.Once)
    (hreason : l.stage = .gone → l.results ≠ [false]) : l.RepeatsUntil := by
  have hempty (hresults : l.results = []) (hexecutions : l.executions = 0)
      (hstage : l.stage = .waiting → l.returned = none)
      (hgone : l.stage = .gone → l.canceled = true)
      (hexpiries : l.stage ≠ .gone ∨ l.canceled = false → l.expiries =
        l.results.length + if l.stage = .due ∨ l.stage = .testing then 1 else 0) :
      l.RepeatsUntil := by
    refine ⟨hexpiries, fun _ => ?_, fun hwaiting made hmade => ?_,
      fun hstage => Or.inr (hgone hstage), fun k rest hfirst => ?_⟩
    · rw [hresults, hexecutions]
      rfl
    · rw [hstage hwaiting] at hmade
      cases hmade
    · rw [hresults] at hfirst
      simp at hfirst
  rw [Once] at honce
  cases hstage : l.stage with
  | waiting =>
      rw [hstage] at honce
      obtain ⟨hexpiries, hresults, hexecutions, hreturned⟩ := honce
      exact hempty hresults hexecutions (fun _ => hreturned) (by simp [hstage])
        (fun _ => by simp [hstage, hexpiries, hresults])
  | due | testing =>
      rw [hstage] at honce
      obtain ⟨hexpiries, hresults, hexecutions⟩ := honce
      exact hempty hresults hexecutions (by simp [hstage]) (by simp [hstage])
        (fun _ => by simp [hstage, hexpiries, hresults])
  | running =>
      rw [hstage] at honce
      obtain ⟨hexpiries, hresults, hexecutions⟩ := honce
      refine ⟨fun _ => ?_, fun htask => ?_, by simp [hstage], by simp [hstage],
        fun k rest hfirst => ?_⟩
      · simp [hstage, hexpiries, hresults]
      · rw [hexecutions htask, hresults]
        rfl
      · rw [hresults] at hfirst
        cases (first_true hfirst).1
  | gone =>
      rw [hstage] at honce
      rcases honce with ⟨hcanceled, hresults, hexecutions⟩ |
        ⟨hexpiries, hresults, hexecutions⟩ | ⟨-, hresults, -⟩
      · exact hempty hresults hexecutions (by simp [hstage]) (fun _ => hcanceled)
          (by simp [hstage, hcanceled])
      · refine ⟨fun _ => ?_, fun _ => ?_, by simp [hstage], fun _ => ?_,
          fun k rest hfirst => ?_⟩
        · simp [hstage, hexpiries, hresults]
        · rw [hexecutions, hresults]
          rfl
        · simp [hresults]
        · rw [hresults] at hfirst
          obtain ⟨-, rfl, hrest⟩ := first_true hfirst
          exact ⟨hrest, hstage, fun _ => hexecutions⟩
      · exact absurd hresults (hreason hstage)

/-- The condition was false once, and the timer is not canceled. -/
structure Spent (l : TimerLife) : Prop where
  conditional : l.Conditional
  results : l.results = [false]
  kept : l.canceled = false

theorem Spent.stage {l : TimerLife} (h : l.Spent) (honce : l.Once) :
    l.stage = .running ∨ l.stage = .gone := by
  rw [Once] at honce
  cases hstage : l.stage with
  | waiting | due | testing =>
      rw [hstage, h.results] at honce
      cases honce.2.1
  | running => exact Or.inl rfl
  | gone => exact Or.inr rfl

/-- It stays so, because there is no second expiry. -/
theorem Spent.next {l : TimerLife} {e : TimerEvent} (h : l.Spent)
    (hl : l.Sound) (honce : l.Once) (hid : l.timer.tid ≠ -1)
    (hcomes : e.Comes l.stage l.timer) : (l.next e).Spent := by
  have hstage := h.stage honce
  have hnot {stage : TimerStage} (hbefore : l.stage = stage)
      (hother : stage ≠ .running ∧ stage ≠ .gone) : False := by
    rcases hstage with hrunning | hgone
    · exact hother.1 (hbefore.symm.trans hrunning)
    · exact hother.2 (hbefore.symm.trans hgone)
  cases e with
  | added timer tid => exact absurd hcomes.2.1 hid
  | canceled => exact (hnot hcomes (by decide)).elim
  | expired => exact (hnot hcomes (by decide)).elim
  | dropped => exact (hnot hcomes.1 (by decide)).elim
  | tested => exact (hnot hcomes.1 (by decide)).elim
  | began => exact (hnot hcomes.1 (by decide)).elim
  | answered result => exact (hnot hcomes (by decide)).elim
  | repeated made =>
      exact absurd (hl.once h.conditional) (Nat.ne_of_gt hcomes.2)
  | lost made =>
      exact absurd (hl.once h.conditional) (Nat.ne_of_gt hcomes.2)
  | finished made => exact ⟨h.conditional, h.results, h.kept⟩

/-- Results other than the one false one. -/
theorem results_next {l : TimerLife} {e : TimerEvent} (h : l.results ≠ [false])
    (hanswered : e ≠ .answered false) : (l.next e).results ≠ [false] := by
  cases e with
  | added timer tid => exact (List.cons_ne_nil _ _).symm
  | answered result =>
      cases result with
      | true => simp [TimerStory.note, List.append_eq_singleton_iff]
      | false => exact absurd rfl hanswered
  | began => simpa [TimerStory.note] using h
  | _ => exact h

end TimerLife

/-- A stop condition that returns has been met. -/
def TimerOp.TestsTrue : TimerOp → Prop
  | .stopConditionReturns result => result = true
  | _ => True

namespace TimerQueue

variable {ops : HeapOps TimerPtr DateTime} {s : TimerQueue} {p : TimerPtr}
  {op : TimerOp} {t : TimerQueue × (TimerPtr → TimerStory)}

/-- All conditional timers do what they should. -/
def AllRepeatUntil (t : TimerQueue × (TimerPtr → TimerStory)) : Prop :=
  Lives (fun l => l.Conditional → l.RepeatsUntil) t.1 t.2

theorem event_answered {result : Bool}
    (hevent : op.event ops s p = some (.answered result)) :
    op = .stopConditionReturns result := by
  rcases event_cases hevent with
    ⟨timer, tid, he⟩ | he | he | he | ⟨result', hop, he⟩ |
      ⟨made, now, now', rest, -, -, he⟩
  · cases he
  · cases he
  · cases he
  · rcases handling_cases (s.timers p) with hwhat | hwhat | hwhat <;>
      cases he.trans hwhat
  · cases he
    exact hop
  · rw [returning] at he
    split at he
    · split at he <;> cases he
    · cases he

/-- The timers answer to their stories, and the conditional ones do nothing
twice. -/
structure Conditions (ops : HeapOps TimerPtr DateTime)
    (t : TimerQueue × (TimerPtr → TimerStory)) : Prop where
  answers : Answers ops t
  once : Lives (fun l => l.Conditional → l.Once) t.1 t.2

theorem untold_conditions (nextTimerId : Nat) (clock : DateTime) :
    Conditions ops (untold nextTimerId clock) :=
  ⟨untold_answers nextTimerId clock, untold_lives _ nextTimerId clock⟩

/-- Which timers are conditional is decided when they are added. -/
theorem conditional_of_next {l : TimerLife} {e : TimerEvent}
    (hcomes : e.Comes l.stage l.timer) (hid : l.timer.tid ≠ -1)
    (hcond : (l.next e).Conditional) : l.Conditional := by
  cases e with
  | added timer tid => exact absurd hcomes.2.1 hid
  | _ => exact hcond

theorem Conditions.exec (ht : Conditions ops t) (hop : op.Comes t.1) :
    Conditions ops ((lifeMachine ops).next t op) where
  answers := ht.answers.exec hop
  once p hp := by
    apply ht.once.exec ht.answers.rep ht.answers.unborn hop
    · exact fun _ _ _ _ _ => ⟨rfl, rfl, rfl, rfl⟩
    · intro e hid _ hcomes hcond
      have hbefore := conditional_of_next hcomes hid hcond
      exact (ht.once p hid hbefore).next (ht.answers.sound p hid) hbefore hcomes
    · exact hp

/-- No condition is false as long as none returns so. -/
theorem results_exec (ht : Conditions ops t)
    (hresults : Lives (fun l => l.Conditional → l.results ≠ [false]) t.1 t.2)
    (hop : op.Comes t.1) (htrue : op.TestsTrue) :
    Lives (fun l => l.Conditional → l.results ≠ [false])
      ((lifeMachine ops).next t op).1 ((lifeMachine ops).next t op).2 := by
  intro p hp
  apply hresults.exec ht.answers.rep ht.answers.unborn hop
  · exact fun _ _ _ _ _ => (List.cons_ne_nil _ _).symm
  · intro e hid hevent hcomes hcond
    have hbefore := conditional_of_next hcomes hid hcond
    apply TimerLife.results_next (hresults p hid hbefore)
    rintro rfl
    rw [event_answered hevent] at htrue
    cases htrue
  · exact hp

/-- Some conditional timer is on its way out although nobody has ended it. -/
def SomeSpent (t : TimerQueue × (TimerPtr → TimerStory)) : Prop :=
  ∃ p, t.1.tidOf p ≠ -1 ∧ (t.1.life (t.2 p) p).Spent

theorem someSpent_exec (ht : Conditions ops t) (hspent : SomeSpent t)
    (hop : op.Comes t.1) : SomeSpent ((lifeMachine ops).next t op) := by
  obtain ⟨p, hid, hp⟩ := hspent
  refine ⟨p, ht.answers.tid_exec hop hid, ?_⟩
  cases hevent : op.event ops t.1 p with
  | none =>
      have hgoes := timerExec_goes ht.answers.rep ht.answers.unborn hop
        (ht.answers.tid_exec hop hid)
      have hlife := @life_exec_quiet ops t.1 p t.2 op hgoes hevent
      exact hlife ▸ hp
  | some e =>
      obtain ⟨hcomes, hlife⟩ := ht.answers.life_next hop hid hevent
      rw [hlife]
      exact hp.next (ht.answers.sound p hid) (ht.once p hid hp.conditional) hid
        hcomes

/-- A condition that returns false spends its timer. -/
theorem someSpent_of_false (ht : Conditions ops t)
    (hop : (TimerOp.stopConditionReturns false).Comes t.1) :
    SomeSpent ((lifeMachine ops).next t (.stopConditionReturns false)) := by
  obtain ⟨p, rest, hprogress⟩ := hop
  have hop : (TimerOp.stopConditionReturns false).Comes t.1 :=
    ⟨p, rest, hprogress⟩
  have hid := ht.answers.tid_hand (Or.inr (Or.inl hprogress))
  have hevent : (TimerOp.stopConditionReturns false).event ops t.1 p =
      some (.answered false) := by
    simp only [TimerOp.event, hprogress, if_true]
  obtain ⟨hstage, hlife⟩ := ht.answers.life_next hop hid hevent
  have hsound := ht.answers.sound p hid
  have hcond := hsound.tested hstage
  have honce := ht.once p hid hcond
  refine ⟨p, ht.answers.tid_exec hop hid, ?_⟩
  rw [hlife]
  rw [TimerLife.Once, show (t.1.life (t.2 p) p).stage = .testing from hstage]
    at honce
  refine ⟨hcond, ?_, ?_⟩
  · simp [TimerStory.note, honce.2.1]
  · simpa [TimerStory.note] using hsound.kept (Or.inl hstage)

/-- In a run on any clock every conditional timer does what it should as long as
no condition returns false; and where all do, and no conditional timer is being
executed at the end, none has. -/
theorem repeatsUntil_iff {nextTimerId : Nat} {clock : DateTime}
    {labels : List TimerOp}
    (hrun : (lifeMachine ops).Run (untold nextTimerId clock) labels t) :
    (((lifeMachine ops).guard fun _ op => op.TestsTrue).Run
        (untold nextTimerId clock) labels t →
      (lifeMachine ops).Always AllRepeatUntil (untold nextTimerId clock)
        labels) ∧
    (Lives (fun l => l.Conditional → l.stage ≠ .running) t.1 t.2 →
      (lifeMachine ops).Always AllRepeatUntil (untold nextTimerId clock)
        labels →
      ((lifeMachine ops).guard fun _ op => op.TestsTrue).Run
        (untold nextTimerId clock) labels t) := by
  have hstart : Conditions ops (untold nextTimerId clock) :=
    untold_conditions nextTimerId clock
  constructor
  · intro hguard
    apply hguard.always_of_guard (I := fun t => Conditions ops t ∧
      Lives (fun l => l.Conditional → l.results ≠ [false]) t.1 t.2)
    · exact ⟨hstart, untold_lives _ nextTimerId clock⟩
    · intro t ht p hp hcond
      exact (ht.1.once p hp hcond).repeatsUntil fun _ => ht.2 p hp hcond
    · intro t op ht hop htrue
      exact ⟨ht.1.exec hop, results_exec ht.1 ht.2 hop htrue⟩
  · intro hend halways
    apply hrun.guard_of_trap (I := Conditions ops)
      (D := fun t => Conditions ops t ∧ SomeSpent t) hstart
    · exact fun t op ht hop _ => ht.exec hop
    · intro t op ht hop hfalse
      refine ⟨ht.exec hop, ?_⟩
      cases op with
      | stopConditionReturns result =>
          cases result with
          | true => exact absurd rfl hfalse
          | false => exact someSpent_of_false ht hop
      | _ => exact absurd trivial hfalse
    · exact fun t op ht hop => ⟨ht.1.exec hop, someSpent_exec ht.1 ht.2 hop⟩
    · rintro ⟨ht, p, hid, hspent⟩
      have hkept := halways.last hrun p hid hspent.conditional
      have honce := ht.once p hid hspent.conditional
      have hstage := hspent.stage honce
      have hgone := hstage.resolve_left (hend p hid hspent.conditional)
      rcases hkept.removed hgone with hmet | hcanceled
      · rw [hspent.results] at hmet
        simp at hmet
      · rw [hspent.kept] at hcanceled
        cases hcanceled

/-- A condition that is true at once. -/
theorem repeatsUntil_iff_met :
    ∃ labels t, (lifeMachine .descending).Run (untold 0 0) labels t ∧
      t.1.stageOf 0 = .gone ∧ (t.2 0).results = [true] ∧
      ((((lifeMachine .descending).guard fun _ op => op.TestsTrue).Run
          (untold 0 0) labels t →
        (lifeMachine .descending).Always AllRepeatUntil (untold 0 0) labels) ∧
      (Lives (fun l => l.Conditional → l.stage ≠ .running) t.1 t.2 →
        (lifeMachine .descending).Always AllRepeatUntil (untold 0 0) labels →
        ((lifeMachine .descending).guard fun _ op => op.TestsTrue).Run
          (untold 0 0) labels t)) := by
  have hrun : (lifeMachine .descending).Run (untold 0 0)
      [.addTimerUntil 100 (some 8) (some 7) 0 0 0, .readTimerFd 100,
        .popExpiredTimers 100, .setNextTimeout 100, .handleTimer,
        .stopConditionReturns true] _ :=
    .cons trivial (.cons rfl (.cons rfl (.cons ⟨_, rfl⟩ (.cons ⟨_, _, rfl⟩
      (.cons ⟨_, _, rfl⟩ (.nil _))))))
  exact ⟨_, _, hrun, rfl, rfl, repeatsUntil_iff hrun⟩

/-- A condition that is false at first: the task is executed and the timer is
deleted, whatever the condition would have returned next. -/
theorem repeatsUntil_once :
    ∃ labels t, (lifeMachine .descending).Run (untold 0 0) labels t ∧
      (labels.flatMap TimerOp.readings).Pairwise (· ≤ ·) ∧
      labels.head? = some (.addTimerUntil 100 (some 8) (some 7) 0 0 0) ∧
      t.1.tidOf 0 = 0 ∧ t.1.stageOf 0 = .gone ∧ (t.2 0).results = [false] ∧
      (t.2 0).executions = 1 ∧ (t.2 0).canceled = false ∧
      ¬ AllRepeatUntil t := by
  have hrun : (lifeMachine .descending).Run (untold 0 0)
      [.addTimerUntil 100 (some 8) (some 7) 0 0 0, .readTimerFd 100,
        .popExpiredTimers 100, .setNextTimeout 100, .handleTimer,
        .stopConditionReturns false, .taskReturns 110 110 110] _ :=
    .cons trivial (.cons rfl (.cons rfl (.cons ⟨_, rfl⟩ (.cons ⟨_, _, rfl⟩
      (.cons ⟨_, _, rfl⟩ (.cons ⟨_, _, rfl⟩ (.nil _)))))))
  refine ⟨_, _, hrun, by decide, rfl, rfl, rfl, rfl, rfl, rfl, ?_⟩
  intro hall
  rcases (hall 0 (by decide) rfl).removed rfl with hmet | hcanceled
  · exact absurd hmet (by decide)
  · cases hcanceled

end TimerQueue

end Jerry
