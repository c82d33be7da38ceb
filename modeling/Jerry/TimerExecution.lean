/-
When the task of a timer is executed, over whole runs and on any clock: what a
run has granted, executed, canceled and stopped so far, and how the timers that
are queued or in hand answer to it.
-/
import Jerry.TimerQueueRep

namespace Jerry

/-- What has happened to the timers.  `now` is the current time of the last
`OnTimeout`, `granted` the `repeat_times` a timer was added with. -/
structure TimerHistory where
  now : DateTime
  executed : TimerPtr → Nat
  granted : TimerPtr → Nat
  canceled : List TimerId
  stopped : List TimerPtr

namespace TimerHistory

def init : TimerHistory :=
  { now := 0
    executed := fun _ => 0
    granted := fun _ => 0
    canceled := []
    stopped := [] }

def grant (h : TimerHistory) (p : TimerPtr) (n : Nat) : TimerHistory :=
  { h with granted := Function.update h.granted p n }

def execute (h : TimerHistory) (p : TimerPtr) : TimerHistory :=
  { h with executed := Function.update h.executed p (h.executed p + 1) }

end TimerHistory

namespace TimerOp

open TimerQueue

section Recording

variable (ops : HeapOps TimerPtr DateTime)

/-- The timer whose task a step calls. -/
def executes (s : TimerQueue) (op : TimerOp) : Option TimerPtr :=
  match s.progress, (op.exec ops s).progress with
  | .running _ _, _ => none
  | _, .running p _ => if (s.timers p).task.isSome then some p else none
  | _, _ => none

/-- What a step adds to the history, but for an execution. -/
def note (s : TimerQueue) (h : TimerHistory) : TimerOp → TimerHistory
  | .addTimerAt _ _ _ _ => h.grant s.fresh 0
  | .addTimerRepeated _ repeatTimes _ _ _ _ => h.grant s.fresh repeatTimes
  | .addTimerUntil _ _ _ _ _ _ => h.grant s.fresh 0
  | .cancelTimer tid =>
      if (s.cancelTimer tid).2 then { h with canceled := tid :: h.canceled }
      else h
  | .popExpiredTimers now => { h with now := now }
  | .stopConditionReturns true =>
      match s.progress with
      | .testing p _ => { h with stopped := p :: h.stopped }
      | _ => h
  | _ => h

def record (s : TimerQueue) (h : TimerHistory) (op : TimerOp) : TimerHistory :=
  match op.executes ops s with
  | some p => (op.note s h).execute p
  | none => op.note s h

end Recording

end TimerOp

/-- A timer queue under any clock readings, with its history. -/
def executionMachine (ops : HeapOps TimerPtr DateTime) :
    Machine (TimerQueue × TimerHistory) TimerOp where
  enabled s op := op.Comes s.1
  next s op := (op.exec ops s.1, op.record ops s.1 s.2)

namespace TimerQueue

variable {ops : HeapOps TimerPtr DateTime} {s s' : TimerQueue}
  {h h' : TimerHistory} {todo : List TimerPtr}

/-- The timers whose task `OnTimeout` may still execute. -/
def Progress.unhandled : Progress → List TimerPtr
  | .popped expired => expired
  | .handling expired => expired
  | .testing timer rest => timer :: rest
  | .running _ rest => rest
  | _ => []

/-- What the history says about a timer that may be executed again: it was not
stopped, if it was canceled it is marked, and enough executions are left. -/
structure Pends (h : TimerHistory) (p : TimerPtr) (timer : TimerStruct) :
    Prop where
  stopped : p ∉ h.stopped
  canceled : timer.tid ∈ h.canceled → timer.canceled = true
  left : h.executed p + timer.repeatTimes ≤ h.granted p

/-- The queued timers and those in `todo` answer to the history, and the ones in
`todo` are due. -/
structure Accounted (s : TimerQueue) (h : TimerHistory)
    (todo : List TimerPtr) : Prop where
  pends : ∀ p ∈ s.waitingTimers ++ todo, Pends h p (s.timers p)
  due : ∀ p ∈ todo, s.expireOf p ≤ h.now
  total : ∀ p, h.executed p ≤ h.granted p + 1
  canceled_lt : ∀ tid ∈ h.canceled, tid < s.nextTimerId
  unborn : ∀ p, s.fresh ≤ p → h.executed p = 0 ∧ p ∉ h.stopped

/-- The timer whose stop condition or task is being called is not canceled. -/
def CurrentAt (timers : TimerPtr → TimerStruct) (h : TimerHistory) :
    Progress → Prop
  | .testing p _ => (timers p).tid ∉ h.canceled
  | .running p _ => p ∉ h.stopped ∧ (timers p).tid ∉ h.canceled ∧
      h.executed p + (timers p).repeatTimes ≤ h.granted p + 1
  | _ => True

def Current (s : TimerQueue) (h : TimerHistory) : Prop :=
  CurrentAt s.timers h s.progress

/-- Steps of others change nothing about the timers in hand. -/
theorem Current.frame (hcurrent : s.Current h)
    (hprogress : s'.progress = s.progress) (hstopped : h'.stopped = h.stopped)
    (hexecuted : h'.executed = h.executed)
    (hin : ∀ p ∈ s.progress.inHand, s'.timers p = s.timers p ∧
      h'.granted p = h.granted p ∧
      ((s.timers p).tid ∈ h'.canceled → (s.timers p).tid ∈ h.canceled)) :
    s'.Current h' := by
  rw [Current] at hcurrent ⊢
  rw [hprogress]
  cases hcases : s.progress with
  | testing p rest =>
      rw [hcases] at hcurrent hin
      obtain ⟨htimer, _, hcanceled⟩ := hin p List.mem_cons_self
      rw [CurrentAt, htimer]
      exact fun hmem => hcurrent (hcanceled hmem)
  | running p rest =>
      rw [hcases] at hcurrent hin
      obtain ⟨htimer, hgranted, hcanceled⟩ := hin p List.mem_cons_self
      rw [CurrentAt, htimer, hstopped, hexecuted, hgranted]
      exact ⟨hcurrent.1, fun hmem => hcurrent.2.1 (hcanceled hmem), hcurrent.2.2⟩
  | idle | entered | popped expired | handling expired => trivial

theorem init_accounted (nextTimerId : Nat) (clock : DateTime) :
    (init nextTimerId clock).Accounted .init [] where
  pends _ hp := nomatch hp
  due _ hp := nomatch hp
  total _ := Nat.zero_le _
  canceled_lt _ htid := nomatch htid
  unborn _ _ := ⟨rfl, List.not_mem_nil⟩

/-- The accounts look at the timers that are queued or to do, and ids that are
given away do no harm. -/
theorem Accounted.frame {todo' : List TimerPtr} (ha : s.Accounted h todo)
    (hsub : ∀ p ∈ s'.waitingTimers ++ todo', p ∈ s.waitingTimers ++ todo ∧
      s'.timers p = s.timers p)
    (htodo : ∀ p ∈ todo', p ∈ todo)
    (hid : s.nextTimerId ≤ s'.nextTimerId) (hfresh : s.fresh ≤ s'.fresh) :
    s'.Accounted h todo' where
  pends p hp := (hsub p hp).2 ▸ ha.pends p (hsub p hp).1
  due p hp := by
    rw [expireOf, (hsub p (List.mem_append_right _ hp)).2]
    exact ha.due p (htodo p hp)
  total := ha.total
  canceled_lt tid htid := (ha.canceled_lt tid htid).trans_le hid
  unborn p hp := ha.unborn p (hfresh.trans hp)

/-- Nothing the accounts look at is changed. -/
theorem Accounted.same (ha : s.Accounted h todo)
    (htimers : s'.timers = s.timers) (hwaiting : s'.waitingTimers = s.waitingTimers)
    (hid : s'.nextTimerId = s.nextTimerId) (hfresh : s'.fresh = s.fresh) :
    s'.Accounted h todo := by
  refine ha.frame ?_ (fun _ hq => hq) (Int.le_of_eq hid.symm)
    (Nat.le_of_eq hfresh.symm)
  intro q hq
  rw [hwaiting] at hq
  exact ⟨hq, congrFun htimers q⟩

/-- A timer leaves the ones to do. -/
theorem Accounted.tail {p : TimerPtr} {rest : List TimerPtr}
    (ha : s.Accounted h (p :: rest)) : s.Accounted h rest :=
  ha.frame (fun q hq => ⟨Rep.inHand_subset q hq, rfl⟩)
    (fun _ hq => List.mem_cons_of_mem _ hq) (Int.le_refl _) (Nat.le_refl _)

section Adding

/-- What `AddTimer` does with a timer: nobody else is changed, and if it comes
into the queue it has an id, the one it had or a new one. -/
structure Adds (s s' : TimerQueue) (p : TimerPtr) : Prop where
  others : ∀ q, q ≠ p → s'.timers q = s.timers q
  waiting : ∀ q ∈ s'.waitingTimers, q = p ∨ q ∈ s.waitingTimers
  added : p ∈ s'.waitingTimers → p ∈ s.waitingTimers ∨
    ∃ tid, s'.timers p = { s.timers p with tid := tid } ∧
      (tid = (s.timers p).tid ∧ tid ≠ -1 ∨ tid = s.nextTimerId)
  nextTimerId : s.nextTimerId ≤ s'.nextTimerId
  fresh : s'.fresh = s.fresh

variable (ops) in
theorem addTimerStruct_adds (s : TimerQueue) (p : TimerPtr)
    (now now' : DateTime) : s.Adds (addTimerStruct ops s p now now').1 p := by
  unfold addTimerStruct
  split
  · exact ⟨fun _ _ => rfl, fun _ hq => Or.inr hq, fun hp => Or.inl hp,
      Int.le_refl _, rfl⟩
  · rw [setWakeup_eq]
    generalize (s.setWakeup p now').timerFd = fd
    have hwaiting : ∀ q, q ∈ ((giveId { s with timerFd := fd } p).enqueue ops
        p).waitingTimers ↔ q = p ∨ q ∈ s.waitingTimers := by
      intro q
      simp only [enqueue, ops.mem_push, giveId_waitingTimers]
    simp only
    unfold giveId at hwaiting ⊢
    split
    · rename_i htid
      rw [if_pos htid] at hwaiting
      refine ⟨?_, fun q hq => (hwaiting q).mp hq, fun _ => Or.inr ?_,
        Int.le_of_lt (Int.lt_succ _), rfl⟩
      · intro q hq
        exact Function.update_of_ne hq _ _
      · exact ⟨s.nextTimerId, Function.update_self _ _ _, Or.inr rfl⟩
    · rename_i htid
      rw [if_neg htid] at hwaiting
      exact ⟨fun _ _ => rfl, fun q hq => (hwaiting q).mp hq,
        fun _ => Or.inr ⟨_, rfl, Or.inl ⟨rfl, htid⟩⟩, Int.le_refl _, rfl⟩

/-- A timer that may be executed again, under the id it has or a new one, comes
into the queue. -/
theorem Accounted.adds {p : TimerPtr} (ha : s.Accounted h todo)
    (hadds : s.Adds s' p) (hp : p ∉ s.waitingTimers ++ todo)
    (hstopped : p ∉ h.stopped)
    (hcanceled : (s.timers p).tid = -1 ∨ (s.timers p).tid ∉ h.canceled)
    (hleft : h.executed p + (s.timers p).repeatTimes ≤ h.granted p) :
    s'.Accounted h todo := by
  have hother : ∀ q ∈ s.waitingTimers ++ todo, s'.timers q = s.timers q :=
    fun q hq => hadds.others q fun heq => hp (heq ▸ hq)
  constructor
  · intro q hq
    by_cases hqp : q = p
    · subst hqp
      have hin : q ∈ s'.waitingTimers := by
        rcases List.mem_append.mp hq with hq | hq
        · exact hq
        · exact absurd (List.mem_append_right _ hq) hp
      obtain ⟨tid, htimer, htid⟩ := (hadds.added hin).resolve_left
        fun hold => hp (List.mem_append_left _ hold)
      rw [htimer]
      refine ⟨hstopped, fun hmem => ?_, hleft⟩
      rcases htid with ⟨htid, hne⟩ | htid
      · rw [htid] at hne hmem
        exact absurd hmem (hcanceled.resolve_left hne)
      · rw [htid] at hmem
        exact absurd (ha.canceled_lt _ hmem) (Int.lt_irrefl _)
    · have hq' : q ∈ s.waitingTimers ++ todo := by
        rcases List.mem_append.mp hq with hq | hq
        · exact List.mem_append_left _ ((hadds.waiting q hq).resolve_left hqp)
        · exact List.mem_append_right _ hq
      rw [hother q hq']
      exact ha.pends q hq'
  · intro q hq
    rw [expireOf, hother q (List.mem_append_right _ hq)]
    exact ha.due q hq
  · exact ha.total
  · exact fun tid htid => (ha.canceled_lt tid htid).trans_le hadds.nextTimerId
  · exact hadds.fresh ▸ ha.unborn

/-- A new timer is granted its repetitions and goes through `AddTimer`. -/
theorem Accounted.addNew {pending : List TimerPtr} (ha : s.Accounted h todo)
    (hrep : s.Rep ops pending) (hsub : ∀ p ∈ todo, p ∈ pending)
    {timer : TimerStruct} (htid : timer.tid = -1) (now now' : DateTime)
    {n : Nat} (hn : timer.repeatTimes ≤ n) :
    (addTimerStruct ops (s.newTimer timer) s.fresh now now').1.Accounted
      (h.grant s.fresh n) todo := by
  have hfresh : s.fresh ∉ s.waitingTimers ++ todo := by
    intro hmem
    apply hrep.fresh_not_mem
    rcases List.mem_append.mp hmem with hmem | hmem
    · exact List.mem_append_left _ hmem
    · exact List.mem_append_right _ (hsub _ hmem)
  obtain ⟨hnone, hstopped⟩ := ha.unborn s.fresh (Nat.le_refl _)
  have hother : ∀ p, p ≠ s.fresh → (h.grant s.fresh n).granted p = h.granted p :=
    fun p hp => Function.update_of_ne hp _ _
  have hnew : (s.newTimer timer).Accounted (h.grant s.fresh n) todo := by
    constructor
    · intro p hp
      have hne : p ≠ s.fresh := fun heq => hfresh (heq ▸ hp)
      have hpends := ha.pends p hp
      simp only [newTimer, Function.update_of_ne hne]
      exact ⟨hpends.stopped, hpends.canceled, (hother p hne).symm ▸ hpends.left⟩
    · intro p hp
      have hne : p ≠ s.fresh :=
        fun heq => hfresh (heq ▸ List.mem_append_right _ hp)
      simp only [expireOf, newTimer, Function.update_of_ne hne]
      exact ha.due p hp
    · intro p
      by_cases hp : p = s.fresh
      · subst hp
        exact hnone.symm ▸ Nat.zero_le _
      · exact (hother p hp).symm ▸ ha.total p
    · exact ha.canceled_lt
    · exact fun p hp => ha.unborn p ((Nat.le_succ _).trans hp)
  have htimer : (s.newTimer timer).timers s.fresh = timer :=
    Function.update_self _ _ _
  apply hnew.adds (addTimerStruct_adds _ _ _ now now') hfresh hstopped
  · rw [htimer]
    exact Or.inl htid
  · rw [htimer]
    simp only [TimerHistory.grant, Function.update_self]
    exact hnone.symm ▸ (Nat.zero_add _).symm ▸ hn

end Adding

section Steps

variable {p : TimerPtr} {rest : List TimerPtr} {now : DateTime}

/-- A canceled timer is marked; no other timer has its id. -/
theorem cancelTimer_accounted {pending : List TimerPtr}
    (ha : s.Accounted h todo) (hrep : s.Rep ops pending)
    (hsub : ∀ q ∈ todo, q ∈ pending) {tid : TimerId}
    (htid : s.timersMap tid = some p) :
    (s.cancelTimer tid).1.Accounted { h with canceled := tid :: h.canceled }
      todo := by
  obtain ⟨hwaiting, hid⟩ := (hrep.mapped tid p).mp htid
  have hp : p ∈ s.waitingTimers ++ pending := List.mem_append_left _ hwaiting
  have hother : ∀ q, q ≠ p → ((s.cancelTimer tid).1.timers q) = s.timers q := by
    intro q hq
    simp only [cancelTimer, htid, modifyTimer]
    exact Function.update_of_ne hq _ _
  have hself : (s.cancelTimer tid).1.timers p =
      { s.timers p with canceled := true } := by
    simp only [cancelTimer, htid, modifyTimer, Function.update_self]
  have heq : (s.cancelTimer tid).1.waitingTimers = s.waitingTimers ∧
      (s.cancelTimer tid).1.nextTimerId = s.nextTimerId ∧
      (s.cancelTimer tid).1.fresh = s.fresh := by
    simp only [cancelTimer, htid, modifyTimer, and_self]
  constructor
  · intro q hq
    rw [heq.1] at hq
    have hpends := ha.pends q hq
    by_cases hqp : q = p
    · subst hqp
      rw [hself]
      exact ⟨hpends.stopped, fun _ => rfl, hpends.left⟩
    · rw [hother q hqp]
      refine ⟨hpends.stopped, fun hmem => ?_, hpends.left⟩
      rcases List.mem_cons.mp hmem with hsame | hmem
      · have hq' : q ∈ s.waitingTimers ++ pending :=
          (List.mem_append.mp hq).elim (List.mem_append_left _)
            fun hq => List.mem_append_right _ (hsub q hq)
        exact absurd (hrep.tid_inj q hq' p hp (hsame.trans hid.symm)) hqp
      · exact hpends.canceled hmem
  · intro q hq
    have hqp : q ≠ p := fun hqp =>
      hrep.not_mem_pending hwaiting (hsub p (hqp ▸ hq))
    rw [expireOf, hother q hqp]
    exact ha.due q hq
  · exact ha.total
  · intro tid' htid'
    rw [heq.2.1]
    rcases List.mem_cons.mp htid' with rfl | htid'
    · exact hid ▸ (hrep.identified p hp).2
    · exact ha.canceled_lt tid' htid'
  · rw [heq.2.2]
    exact ha.unborn

variable (ops) in
/-- What the loop takes off the queue was in it and is due; nothing else of the
timers changes. -/
theorem popExpiredLoop_pops (now : DateTime) (fuel i : Nat) (s : TimerQueue) :
    let r := popExpiredLoop ops now fuel i s
    r.1.timers = s.timers ∧ r.1.nextTimerId = s.nextTimerId ∧
      r.1.fresh = s.fresh ∧
      (∀ p ∈ r.1.waitingTimers ++ r.2, p ∈ s.waitingTimers) ∧
      ∀ p ∈ r.2, s.expireOf p ≤ now := by
  induction fuel generalizing i s with
  | zero =>
      refine ⟨rfl, rfl, rfl, ?_, List.forall_mem_nil _⟩
      intro p hp
      simpa [popExpiredLoop] using hp
  | succ fuel ih =>
      have hsame : (∀ p ∈ s.waitingTimers ++ [], p ∈ s.waitingTimers) ∧
          ∀ p ∈ ([] : List TimerPtr), s.expireOf p ≤ now :=
        ⟨fun p hp => by simpa using hp,
          List.forall_mem_nil _⟩
      rw [popExpiredLoop]
      split
      · exact ⟨rfl, rfl, rfl, hsame⟩
      · rename_i top rest htop
        split
        · split
          · exact ⟨rfl, rfl, rfl, hsame⟩
          · rename_i hdue
            obtain ⟨htimers, hid, hfresh, hmem, hle⟩ := ih (i + 1) { s with
              waitingTimers := ops.pop s.expireOf s.waitingTimers
              timersMap := Function.update s.timersMap (s.timers top).tid none }
            have hpop : ∀ p ∈ ops.pop s.expireOf s.waitingTimers,
                p ∈ s.waitingTimers := by
              intro p hp
              rw [htop, ops.mem_pop_cons] at hp
              exact htop ▸ List.mem_cons_of_mem _ hp
            refine ⟨htimers, hid, hfresh, ?_, ?_⟩
            · intro p hp
              rcases List.mem_append.mp hp with hp | hp
              · exact hpop p (hmem p (List.mem_append_left _ hp))
              · rcases List.mem_cons.mp hp with rfl | hp
                · exact htop ▸ List.mem_cons_self
                · exact hpop p (hmem p (List.mem_append_right _ hp))
            · intro p hp
              rcases List.mem_cons.mp hp with rfl | hp
              · exact Int.not_lt.mp hdue
              · exact hle p hp
        · exact ⟨rfl, rfl, rfl, hsame⟩

variable (ops) in
theorem popExpiredTimers_accounted (ha : s.Accounted h []) (now : DateTime) :
    (s.popExpiredTimers ops now).1.Accounted { h with now := now }
      (s.popExpiredTimers ops now).2 := by
  obtain ⟨htimers, hid, hfresh, hmem, hle⟩ :=
    popExpiredLoop_pops ops now s.waitingTimers.length 0 s
  constructor
  · intro p hp
    rw [popExpiredTimers, htimers]
    have hpends := ha.pends p (List.mem_append_left _ (hmem p hp))
    exact ⟨hpends.stopped, hpends.canceled, hpends.left⟩
  · intro p hp
    rw [popExpiredTimers, expireOf, htimers]
    exact hle p hp
  · exact ha.total
  · rw [popExpiredTimers, hid]
    exact ha.canceled_lt
  · rw [popExpiredTimers, hfresh]
    exact ha.unborn

/-- The task of a timer in hand is executed. -/
theorem Accounted.execute (ha : s.Accounted h (p :: rest))
    (hp : p ∉ s.waitingTimers ++ rest) (hborn : p < s.fresh) :
    s.Accounted (h.execute p) rest := by
  have hother : ∀ q, q ≠ p → (h.execute p).executed q = h.executed q :=
    fun q hq => Function.update_of_ne hq _ _
  have hleft := (ha.pends p (by simp)).left
  constructor
  · intro q hq
    have hqp : q ≠ p := fun heq => hp (heq ▸ hq)
    have hpends := ha.tail.pends q hq
    exact ⟨hpends.stopped, hpends.canceled, (hother q hqp).symm ▸ hpends.left⟩
  · exact ha.tail.due
  · intro q
    by_cases hqp : q = p
    · subst hqp
      simp only [TimerHistory.execute, Function.update_self]
      omega
    · exact (hother q hqp).symm ▸ ha.total q
  · exact ha.canceled_lt
  · intro q hq
    rw [hother q (Nat.ne_of_gt (hborn.trans_le hq))]
    exact ha.unborn q hq

/-- A stopped timer is dropped. -/
theorem Accounted.stop (ha : s.Accounted h (p :: rest))
    (hp : p ∉ s.waitingTimers ++ rest) (hborn : p < s.fresh) :
    s.Accounted { h with stopped := p :: h.stopped } rest := by
  have hkeep : ∀ q, q ≠ p → q ∉ h.stopped → q ∉ p :: h.stopped :=
    fun q hq hnot hmem => (List.mem_cons.mp hmem).elim hq hnot
  constructor
  · intro q hq
    have hpends := ha.tail.pends q hq
    exact ⟨hkeep q (fun heq => hp (heq ▸ hq)) hpends.stopped, hpends.canceled,
      hpends.left⟩
  · exact ha.tail.due
  · exact ha.total
  · exact ha.canceled_lt
  · intro q hq
    obtain ⟨hnone, hnot⟩ := ha.unborn q hq
    exact ⟨hnone, hkeep q (Nat.ne_of_gt (hborn.trans_le hq)) hnot⟩

theorem Progress.unhandled_subset (progress : Progress) :
    ∀ q ∈ progress.unhandled, q ∈ progress.inHand := by
  intro q hq
  cases progress with
  | running p rest => exact List.mem_cons_of_mem p hq
  | idle | entered | popped expired | handling expired | testing p rest =>
      exact hq

/-- What a step leaves behind. -/
def Settled (s : TimerQueue) (h : TimerHistory) : Prop :=
  s.Accounted h s.progress.unhandled ∧ s.Current h

theorem settled_continueWith (ha : s.Accounted h rest) :
    (s.continueWith rest).Settled h := by
  unfold continueWith
  constructor
  · have hrest : ((if rest = [] then .idle else .handling rest : Progress)
        ).unhandled = rest := by
      split
      · rename_i hnil
        exact hnil.symm
      · rfl
    rw [hrest]
    exact ha.same rfl rfl rfl rfl
  · rw [Current]
    simp only
    split <;> trivial

/-- The task of a timer that is neither marked nor to be stopped is called. -/
theorem settled_running (hrep : s.Rep ops (p :: rest))
    (ha : s.Accounted h (p :: rest)) (hcanceled : (s.timers p).tid ∉ h.canceled)
    (h' : TimerHistory)
    (hh : h' = if (s.timers p).task.isSome then h.execute p else h) :
    ({ s with progress := .running p rest } : TimerQueue).Settled h' := by
  have hpends := ha.pends p (by simp)
  have hborn : p < s.fresh := hrep.allocated_lt p (hrep.live p (by simp))
  have hframe : ∀ {h : TimerHistory}, s.Accounted h rest →
      ({ s with progress := .running p rest } : TimerQueue).Accounted h rest :=
    fun ha => ha.same rfl rfl rfl rfl
  have hleft := hpends.left
  subst hh
  split
  · refine ⟨hframe (ha.execute hrep.not_mem_rest hborn), hpends.stopped,
      hcanceled, ?_⟩
    simp only [TimerHistory.execute, Function.update_self]
    omega
  · exact ⟨hframe ha.tail, hpends.stopped, hcanceled, Nat.le_succ_of_le hleft⟩

end Steps

section Run

variable {op : TimerOp} {p : TimerPtr}

/-- A step that does not begin a task executes none. -/
theorem record_of_running
    (hrunning : ∀ p rest, (op.exec ops s).progress = .running p rest →
      s.progress = .running p rest) : op.record ops s h = op.note s h := by
  have hnone : op.executes ops s = none := by
    rw [TimerOp.executes]
    split
    · rfl
    · rename_i p rest hprogress hnot
      exact absurd (hrunning p rest hprogress) (hnot p rest)
    · rfl
  rw [TimerOp.record, hnone]

theorem record_of_progress (hprogress : (op.exec ops s).progress = s.progress) :
    op.record ops s h = op.note s h :=
  record_of_running fun _ _ hp => hprogress.symm.trans hp

theorem record_of_not_running
    (hnot : ∀ p rest, (op.exec ops s).progress ≠ .running p rest) :
    op.record ops s h = op.note s h :=
  record_of_running fun p rest hp => absurd hp (hnot p rest)

/-- A step that begins a task executes it, if there is one. -/
theorem record_of_begins {rest : List TimerPtr}
    (hexec : op.exec ops s = { s with progress := .running p rest })
    (hnot : ∀ q rest, s.progress ≠ .running q rest)
    (hnote : op.note s h = h) :
    op.record ops s h = if (s.timers p).task.isSome then h.execute p else h := by
  have hexecutes : op.executes ops s =
      if (s.timers p).task.isSome then some p else none := by
    rw [TimerOp.executes, hexec]
    split
    · rename_i hprogress
      exact absurd hprogress (hnot _ _)
    · rename_i hprogress _
      cases hprogress
      rfl
    · rename_i _ hother
      exact absurd rfl (hother p rest)
  rw [TimerOp.record, hexecutes, hnote]
  cases (s.timers p).task.isSome <;> rfl

theorem continueWith_not_running (s : TimerQueue) (rest : List TimerPtr) :
    ∀ p rest', (s.continueWith rest).progress ≠ .running p rest' := by
  unfold continueWith
  intro p rest' hprogress
  simp only at hprogress
  split at hprogress <;> cases hprogress

/-- A new timer, whichever overload makes it. -/
theorem settled_addNew (hrep : s.Rep ops s.progress.inHand)
    (hsettled : s.Settled h) {timer : TimerStruct} (htid : timer.tid = -1)
    (now now' : DateTime) {n : Nat} (hn : timer.repeatTimes ≤ n) :
    (addTimerStruct ops (s.newTimer timer) s.fresh now now').1.Settled
      (h.grant s.fresh n) := by
  have hprogress : (addTimerStruct ops (s.newTimer timer) s.fresh now
      now').1.progress = s.progress := addTimerStruct_progress _ now now'
  have hadds := addTimerStruct_adds ops (s.newTimer timer) s.fresh now
    now'
  refine ⟨?_, hsettled.2.frame hprogress rfl rfl ?_⟩
  · rw [hprogress]
    exact hsettled.1.addNew hrep s.progress.unhandled_subset htid now now' hn
  · intro q hq
    have hne : q ≠ s.fresh := fun heq =>
      hrep.fresh_not_mem (heq ▸ List.mem_append_right _ hq)
    rw [hadds.others q hne]
    exact ⟨Function.update_of_ne hne _ _, Function.update_of_ne hne _ _, id⟩

theorem settled_cancelTimer (hrep : s.Rep ops s.progress.inHand)
    (hsettled : s.Settled h) (tid : TimerId) :
    (s.cancelTimer tid).1.Settled ((TimerOp.cancelTimer tid).note s h) := by
  cases hmap : s.timersMap tid with
  | none =>
      simp only [TimerOp.note, cancelTimer, hmap]
      exact hsettled
  | some p =>
      have hnote : (TimerOp.cancelTimer tid).note s h =
          { h with canceled := tid :: h.canceled } := by
        simp only [TimerOp.note, cancelTimer, hmap, if_true]
      have hprogress : (s.cancelTimer tid).1.progress = s.progress :=
        cancelTimer_progress tid
      rw [hnote]
      refine ⟨?_, hsettled.2.frame hprogress rfl rfl ?_⟩
      · rw [hprogress]
        exact cancelTimer_accounted hsettled.1 hrep
          s.progress.unhandled_subset hmap
      · intro q hq
        obtain ⟨hwaiting, hid⟩ := (hrep.mapped tid p).mp hmap
        have hqp : q ≠ p := fun heq => hrep.not_mem_pending hwaiting (heq ▸ hq)
        have hne : (s.timers q).tid ≠ tid := fun heq =>
          hqp (hrep.tid_inj q (List.mem_append_right _ hq) p
            (List.mem_append_left _ hwaiting) (heq.trans hid.symm))
        simp only [cancelTimer, hmap, modifyTimer]
        exact ⟨Function.update_of_ne hqp _ _, trivial, fun hmem =>
          (List.mem_cons.mp hmem).resolve_left hne⟩

/-- `HandleTimer` up to its stop condition, or to the task. -/
theorem settled_handleTimer {rest : List TimerPtr}
    (hrep : s.Rep ops s.progress.inHand) (hsettled : s.Settled h)
    (hprogress : s.progress = .handling (p :: rest)) :
    (TimerOp.handleTimer.exec ops s).Settled
      (TimerOp.handleTimer.record ops s h) := by
  have ha := hsettled.1
  rw [hprogress] at ha hrep
  have hexec : TimerOp.handleTimer.exec ops s = s.handleTimer p rest := by
    simp only [TimerOp.exec, hprogress]
  have hpends := ha.pends p (by simp [Progress.unhandled])
  rw [hexec]
  unfold handleTimer at hexec ⊢
  split
  · rename_i hmarked
    rw [if_pos hmarked] at hexec
    rw [record_of_not_running (hexec ▸ continueWith_not_running _ _)]
    apply settled_continueWith
    exact ha.tail.same rfl rfl rfl rfl
  · rename_i hmarked
    have hcanceled : (s.timers p).tid ∉ h.canceled :=
      fun hmem => hmarked (hpends.canceled hmem)
    rw [if_neg hmarked] at hexec
    split
    · rename_i hstop
      rw [if_pos hstop] at hexec
      rw [record_of_not_running (by simp [hexec])]
      exact ⟨ha.same rfl rfl rfl rfl, hcanceled⟩
    · rename_i hstop
      rw [if_neg hstop] at hexec
      exact settled_running hrep ha hcanceled _
        (record_of_begins hexec (by simp [hprogress]) rfl)

/-- A timer whose stop condition holds is done; else its task begins. -/
theorem settled_stopConditionReturns {rest : List TimerPtr}
    (hrep : s.Rep ops s.progress.inHand) (hsettled : s.Settled h)
    (hprogress : s.progress = .testing p rest) (result : Bool) :
    ((TimerOp.stopConditionReturns result).exec ops s).Settled
      ((TimerOp.stopConditionReturns result).record ops s h) := by
  obtain ⟨ha, hcurrent⟩ := hsettled
  rw [Current, hprogress] at hcurrent
  rw [hprogress] at ha hrep
  have hexec : (TimerOp.stopConditionReturns result).exec ops s =
      s.stopConditionReturns p rest result := by
    simp only [TimerOp.exec, hprogress]
  rw [hexec]
  unfold stopConditionReturns at hexec ⊢
  cases result with
  | true =>
      rw [record_of_not_running (hexec ▸ continueWith_not_running _ _)]
      apply settled_continueWith
      simp only [TimerOp.note, hprogress]
      have hborn := hrep.allocated_lt p (hrep.live p (by
        simp [Progress.inHand]))
      exact (ha.stop hrep.not_mem_rest hborn).same rfl rfl rfl rfl
  | false =>
      exact settled_running hrep ha hcurrent _
        (record_of_begins hexec (by simp [hprogress]) rfl)

/-- The rest of `HandleTimer` behind the task. -/
theorem settled_taskReturns {rest : List TimerPtr}
    (hrep : s.Rep ops (p :: rest)) (ha : s.Accounted h rest)
    (hstopped : p ∉ h.stopped) (hcanceled : (s.timers p).tid ∉ h.canceled)
    (hleft : h.executed p + (s.timers p).repeatTimes ≤ h.granted p + 1)
    (made now now' : DateTime) :
    (s.taskReturns ops p rest made now now').Settled h := by
  unfold taskReturns
  split
  · rename_i hrepeat
    apply settled_continueWith
    have hnot := hrep.not_mem_rest
    have hmodified : Accounted (s.modifyTimer p fun timer =>
        { timer with
          repeatTimes := timer.repeatTimes - 1
          expire := made + timer.repeatInterval }) h rest := by
      refine ha.frame ?_ (fun _ hq => hq) (Int.le_refl _) (Nat.le_refl _)
      intro q hq
      have hqp : q ≠ p := fun heq => hnot (heq ▸ hq)
      exact ⟨hq, Function.update_of_ne hqp _ _⟩
    apply hmodified.adds (addTimerStruct_adds _ _ p now now') hnot hstopped
    · right
      simp only [modifyTimer, Function.update_self]
      exact hcanceled
    · simp only [modifyTimer, Function.update_self]
      omega
  · apply settled_continueWith
    exact ha.same rfl rfl rfl rfl

/-- The step lemma. -/
theorem settled_next (hrep : s.Rep ops s.progress.inHand)
    (hsettled : s.Settled h) (hop : op.Comes s) :
    (op.exec ops s).Settled (op.record ops s h) := by
  obtain ⟨ha, hcurrent⟩ := hsettled
  cases op with
  | addTimerAt expire task now now' =>
      rw [record_of_progress (by exact addTimerStruct_progress _ now now')]
      exact settled_addNew hrep ⟨ha, hcurrent⟩ rfl now now' (Nat.le_refl 0)
  | addTimerRepeated interval repeatTimes task made now now' =>
      rw [record_of_progress (by exact addTimerStruct_progress _ now now')]
      exact settled_addNew hrep ⟨ha, hcurrent⟩ rfl now now' (Nat.le_refl _)
  | addTimerUntil interval stopCondition task made now now' =>
      rw [record_of_progress (by exact addTimerStruct_progress _ now now')]
      exact settled_addNew hrep ⟨ha, hcurrent⟩ rfl now now' (Nat.le_refl 0)
  | cancelTimer tid =>
      rw [record_of_progress (by exact cancelTimer_progress tid)]
      exact settled_cancelTimer hrep ⟨ha, hcurrent⟩ tid
  | takeTimerId =>
      rw [record_of_progress rfl]
      exact ⟨ha.frame (fun q hq => ⟨hq, rfl⟩) (fun _ hq => hq)
        (Int.le_of_lt (Int.lt_succ _)) (Nat.le_refl _), hcurrent⟩
  | readTimerFd now =>
      change s.progress = .idle at hop
      rw [record_of_not_running (by simp [TimerOp.exec])]
      rw [hop] at ha
      exact ⟨ha.same rfl rfl rfl rfl, trivial⟩
  | popExpiredTimers now =>
      change s.progress = .entered at hop
      rw [record_of_not_running (by simp [TimerOp.exec])]
      rw [hop] at ha
      have hpop := popExpiredTimers_accounted ops ha now
      exact ⟨hpop.same rfl rfl rfl rfl, trivial⟩
  | setNextTimeout now =>
      obtain ⟨expired, hprogress⟩ := hop
      have hexec : (TimerOp.setNextTimeout now).exec ops s =
          (s.setNextTimeout now).continueWith expired := by
        simp only [TimerOp.exec, hprogress]
      rw [record_of_not_running (hexec ▸ continueWith_not_running _ _), hexec]
      rw [hprogress] at ha
      apply settled_continueWith
      simp only [setNextTimeout]
      split
      · exact ha.same rfl rfl rfl rfl
      · exact ha
  | handleTimer =>
      obtain ⟨p, rest, hprogress⟩ := hop
      exact settled_handleTimer hrep ⟨ha, hcurrent⟩ hprogress
  | stopConditionReturns result =>
      obtain ⟨p, rest, hprogress⟩ := hop
      exact settled_stopConditionReturns hrep ⟨ha, hcurrent⟩ hprogress result
  | taskReturns made now now' =>
      obtain ⟨p, rest, hprogress⟩ := hop
      rw [Current, hprogress] at hcurrent
      rw [hprogress] at ha hrep
      have hexec : (TimerOp.taskReturns made now now').exec ops s =
          s.taskReturns ops p rest made now now' := by
        simp only [TimerOp.exec, hprogress]
      have hrecord : (TimerOp.taskReturns made now now').record ops s h = h := by
        simp only [TimerOp.record, TimerOp.executes, hprogress, TimerOp.note]
      rw [hexec, hrecord]
      exact settled_taskReturns hrep ha hcurrent.1 hcurrent.2.1 hcurrent.2.2
        made now now'

/-- A step that executes a task has come to the call of it. -/
theorem executes_begins (hexec : op.executes ops s = some p) :
    (∃ rest, (op.exec ops s).progress = .running p rest) ∧
      ∀ q rest, s.progress ≠ .running q rest := by
  rw [TimerOp.executes] at hexec
  split at hexec
  · cases hexec
  · rename_i q rest hprogress hnot
    split at hexec
    · obtain rfl := Option.some.inj hexec
      exact ⟨⟨rest, hprogress⟩, hnot⟩
    · cases hexec
  · cases hexec

/-- The timer whose task a step calls is in hand, and not marked. -/
theorem executes_inHand (hexec : op.executes ops s = some p)
    (hop : op.Comes s) :
    (∃ rest, s.progress = .handling (p :: rest) ∧
      (s.timers p).canceled = false) ∨ ∃ rest, s.progress = .testing p rest := by
  obtain ⟨⟨rest, hrunning⟩, hnot⟩ := executes_begins hexec
  have hsame (hprogress : (op.exec ops s).progress = s.progress) : False :=
    hnot p rest (hprogress.symm.trans hrunning)
  cases op with
  | addTimerAt expire task now now' =>
      exact (hsame (addTimerStruct_progress _ now now')).elim
  | addTimerRepeated interval repeatTimes task made now now' =>
      exact (hsame (addTimerStruct_progress _ now now')).elim
  | addTimerUntil interval stopCondition task made now now' =>
      exact (hsame (addTimerStruct_progress _ now now')).elim
  | cancelTimer tid => exact (hsame (cancelTimer_progress tid)).elim
  | takeTimerId => exact (hsame rfl).elim
  | readTimerFd now => cases hrunning
  | popExpiredTimers now => cases hrunning
  | setNextTimeout now =>
      obtain ⟨expired, hprogress⟩ := hop
      simp only [TimerOp.exec, hprogress] at hrunning
      exact absurd hrunning (continueWith_not_running _ _ _ _)
  | handleTimer =>
      obtain ⟨q, rest', hprogress⟩ := hop
      simp only [TimerOp.exec, hprogress, handleTimer] at hrunning
      split at hrunning
      · exact absurd hrunning (continueWith_not_running _ _ _ _)
      · rename_i hmarked
        split at hrunning
        · cases hrunning
        · cases hrunning
          exact Or.inl ⟨rest, hprogress, eq_false_of_ne_true hmarked⟩
  | stopConditionReturns result =>
      obtain ⟨q, rest', hprogress⟩ := hop
      simp only [TimerOp.exec, hprogress, stopConditionReturns] at hrunning
      split at hrunning
      · exact absurd hrunning (continueWith_not_running _ _ _ _)
      · cases hrunning
        exact Or.inr ⟨rest, hprogress⟩
  | taskReturns made now now' =>
      obtain ⟨q, rest', hprogress⟩ := hop
      exact absurd hprogress (hnot q rest')

/-- On any clock and in every order of steps: a task is executed only when its
timer is due at the current time of `OnTimeout`, after no cancellation of its id
and no stop condition of it has returned true, and at most once more often than
it was to be repeated. -/
theorem execution_safe {nextTimerId : Nat} {clock : DateTime}
    {steps : List TimerOp}
    (hrun : (executionMachine ops).Run (init nextTimerId clock, .init) steps
      (s, h)) :
    (∀ p, h.executed p ≤ h.granted p + 1) ∧
      ∀ (op : TimerOp) p, op.Comes s → op.executes ops s = some p →
        s.expireOf p ≤ h.now ∧ (s.timers p).tid ∉ h.canceled ∧
          p ∉ h.stopped ∧ h.executed p ≤ h.granted p := by
  have hinv := hrun.invariant (P := fun r =>
    r.1.Rep ops r.1.progress.inHand ∧ r.1.Settled r.2)
    ⟨init_rep nextTimerId clock, init_accounted nextTimerId clock, trivial⟩
    fun r op hr hop => ⟨timerExec_rep hr.1 hop, settled_next hr.1 hr.2 hop⟩
  obtain ⟨_, ha, hcurrent⟩ := hinv
  refine ⟨ha.total, fun op p hop hexec => ?_⟩
  have htodo : p ∈ s.progress.unhandled ∧ (s.timers p).tid ∉ h.canceled := by
    rcases executes_inHand hexec hop with
      ⟨rest, hprogress, hmarked⟩ | ⟨rest, hprogress⟩
    · have hp : p ∈ s.progress.unhandled := by
        simp [hprogress, Progress.unhandled]
      refine ⟨hp, fun hmem => ?_⟩
      have hpends := ha.pends p (List.mem_append_right _ hp)
      rw [hpends.canceled hmem] at hmarked
      cases hmarked
    · rw [Current, hprogress] at hcurrent
      exact ⟨by simp [hprogress, Progress.unhandled], hcurrent⟩
  have hpends := ha.pends p (List.mem_append_right _ htodo.1)
  exact ⟨ha.due p htodo.1, htodo.2, hpends.stopped,
    (Nat.le_add_right _ _).trans hpends.left⟩

/-- A timer that is repeated once is about to be executed again.  Its task tried
to cancel it, which fails, and the clock has gone back in between. -/
theorem execution_safe_repeated :
    ∃ s h, (executionMachine .descending).Run (init 0 50, .init)
        [.addTimerRepeated 100 1 (some 7) 50 50 50, .readTimerFd 0,
          .popExpiredTimers 150, .setNextTimeout 150, .handleTimer,
          .cancelTimer 0, .taskReturns 20 20 20, .readTimerFd 0,
          .popExpiredTimers 130, .setNextTimeout 130] (s, h) ∧
      TimerOp.handleTimer.executes .descending s = some 0 ∧
      s.expireOf 0 = 120 ∧ h.now = 130 ∧ h.executed 0 = 1 ∧
      s.expireOf 0 ≤ h.now ∧ (s.timers 0).tid ∉ h.canceled ∧ 0 ∉ h.stopped ∧
      h.executed 0 ≤ h.granted 0 := by
  have hrun : (executionMachine .descending).Run (init 0 50, .init)
      [.addTimerRepeated 100 1 (some 7) 50 50 50, .readTimerFd 0,
        .popExpiredTimers 150, .setNextTimeout 150, .handleTimer,
        .cancelTimer 0, .taskReturns 20 20 20, .readTimerFd 0,
        .popExpiredTimers 130, .setNextTimeout 130] _ :=
    .cons trivial (.cons rfl (.cons rfl (.cons ⟨_, rfl⟩ (.cons ⟨_, _, rfl⟩
      (.cons trivial (.cons ⟨_, _, rfl⟩ (.cons rfl (.cons rfl
        (.cons ⟨_, rfl⟩ (.nil _))))))))))
  exact ⟨_, _, hrun, rfl, rfl, rfl, rfl,
    (execution_safe hrun).2 .handleTimer 0 ⟨_, _, rfl⟩ rfl⟩

end Run

end TimerQueue

end Jerry
