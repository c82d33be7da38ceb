/-
The timer fd: when its deadline is early enough for every waiting timer.  It is
set in `AddTimer` and in `OnTimeout`, in both from the top of the queue.
-/
import Jerry.TimerQueueRep
import Mathlib.Algebra.Order.Group.Unbundled.Int
import Mathlib.Algebra.Order.Monoid.Unbundled.MinMax

namespace Jerry

namespace TimerQueue

variable {ops : HeapOps TimerPtr DateTime} {s s' : TimerQueue}
  {pending : List TimerPtr} {now now' : DateTime}

/-- The fd is set unless nothing is waiting, and its deadline is no later than
the first expiry, or 100 microseconds behind the moment it was set. -/
def FdArmed (s : TimerQueue) : Prop :=
  s.waitingTimers ≠ [] → ∃ fd, s.timerFd = some fd ∧
    ∀ p ∈ s.waitingTimers, fd.deadline ≤ max (s.expireOf p) (fd.armedAt + 100)

/-- `OnTimeout` is not between reading the fd and setting it again. -/
def Progress.Rests : Progress → Prop
  | .entered => False
  | .popped _ => False
  | _ => True

/-- The fd is armed in time wherever a step ends. -/
def Armed (s : TimerQueue) : Prop :=
  s.progress.Rests → s.FdArmed

/-- Seconds and nanoseconds add up to the microseconds they were made from. -/
theorem split_microseconds (us : Int) :
    us / 1000000 * 1000000 + us % 1000000 * 1000 / 1000 = us := by
  omega

theorem setTimerFd_deadline (now : DateTime) (us : Int) :
    (setTimerFd now us).deadline = max (now + us) (now + 100) := by
  simp only [setTimerFd, kMicroSecondsPerSecond, split_microseconds]
  split
  · rename_i hlong
    exact (max_eq_left (Int.add_le_add_left (Int.le_of_lt hlong) now)).symm
  · rename_i hshort
    exact (max_eq_right (Int.add_le_add_left (Int.not_lt.mp hshort) now)).symm

/-- A timer that is due at `expire` sets the fd to `expire`, or 100 microseconds
from now. -/
theorem setTimerFd_expire (now expire : DateTime) :
    (setTimerFd now (expire - now)).deadline = max expire (now + 100) := by
  rw [setTimerFd_deadline, Int.add_comm now, Int.sub_add_cancel]

theorem getNextTimeout_cons {top : TimerPtr} {rest : List TimerPtr}
    (htop : s.waitingTimers = top :: rest) :
    s.getNextTimeout now = max (s.expireOf top - now) 0 := by
  simp only [getNextTimeout, htop]
  split
  · rename_i hlater
    exact (max_eq_left (Int.le_of_lt hlater)).symm
  · rename_i hdue
    exact (max_eq_right (Int.not_lt.mp hdue)).symm

/-- `OnTimeout` sets the fd for the top of the queue. -/
theorem setNextTimeout_cons {top : TimerPtr} {rest : List TimerPtr}
    (htop : s.waitingTimers = top :: rest) :
    ∃ fd, s.setNextTimeout now = { s with timerFd := some fd } ∧
      fd.armedAt = now ∧ fd.deadline = max (s.expireOf top) (now + 100) := by
  have hnonneg : 0 ≤ s.getNextTimeout now := by
    rw [getNextTimeout_cons htop]
    exact le_max_right _ _
  refine ⟨setTimerFd now (s.getNextTimeout now), ?_, rfl, ?_⟩
  · simp only [setNextTimeout]
    rw [if_pos]
    intro hneg
    rw [hneg] at hnonneg
    exact absurd hnonneg (by decide)
  · have hsoon : now ≤ now + 100 := Int.le_add_of_nonneg_right (by decide)
    rw [setTimerFd_deadline, getNextTimeout_cons htop, ← max_add_add_left,
      Int.add_comm now (_ - now), Int.sub_add_cancel, Int.add_zero, max_assoc,
      max_eq_right hsoon]

/-- The fd is in time for the others when the top expires no later. -/
theorem setNextTimeout_fdArmed_iff (h : s.Rep ops pending) :
    (s.setNextTimeout now).FdArmed ↔ ∀ p ∈ s.waitingTimers,
      ∀ q ∈ s.waitingTimers, s.expireOf p ≤ max (s.expireOf q) (now + 100) := by
  cases hwaiting : s.waitingTimers with
  | nil =>
      have hkeep : s.setNextTimeout now = s := by
        simp [setNextTimeout, getNextTimeout, hwaiting]
      rw [hkeep]
      simp [FdArmed, hwaiting]
  | cons top rest =>
      have hheap : ops.IsHeap s.expireOf (top :: rest) := hwaiting ▸ h.heap
      obtain ⟨fd, hnext, hat, hdeadline⟩ :=
        @setNextTimeout_cons s now top rest hwaiting
      rw [hnext]
      constructor
      · intro harmed p hp q hq
        obtain ⟨fd', hfd, hle⟩ := harmed (by simp [hwaiting])
        obtain rfl := Option.some.inj hfd
        have hq' := hle q (hwaiting ▸ hq)
        rw [hdeadline, hat] at hq'
        have htop := ops.le_head_of_mem hheap hp
        exact htop.trans ((le_max_left _ _).trans hq')
      · intro hall _
        refine ⟨fd, rfl, ?_⟩
        intro q hq
        rw [hdeadline, hat]
        exact max_le (hall top (by simp) q (hwaiting ▸ hq)) (le_max_right _ _)

/-- What `FdArmed` looks at. -/
theorem FdArmed.congr (hfd : s'.timerFd = s.timerFd)
    (hwaiting : s'.waitingTimers = s.waitingTimers)
    (hexpire : ∀ p ∈ s.waitingTimers, s'.expireOf p = s.expireOf p)
    (h : s.FdArmed) : s'.FdArmed := by
  intro hne
  rw [hwaiting] at hne
  obtain ⟨fd, heq, hle⟩ := h hne
  refine ⟨fd, hfd.trans heq, ?_⟩
  rw [hwaiting]
  intro p hp
  rw [hexpire p hp]
  exact hle p hp

/-- A timer that does not expire last expires before all the others, or is due
within 100 microseconds. -/
def InTime (s : TimerQueue) (expire now now' : DateTime) : Prop :=
  now < expire → (∃ p ∈ s.waitingTimers, expire < s.expireOf p) →
    ∀ q ∈ s.waitingTimers, expire ≤ max (s.expireOf q) (now' + 100)

instance (s : TimerQueue) (expire now now' : DateTime) :
    Decidable (s.InTime expire now now') :=
  inferInstanceAs (Decidable (_ → _ → _))

theorem giveId_timerFd (s : TimerQueue) (p : TimerPtr) :
    (s.giveId p).timerFd = s.timerFd := by
  unfold giveId
  split <;> rfl

/-- An accepted timer is queued, and the fd is what setting the wakeup time has
made of it. -/
theorem addTimerStruct_accepted {p : TimerPtr} (hlate : now < s.expireOf p) :
    let t := (addTimerStruct ops s p now now').1
    t.timerFd = (s.setWakeup p now').timerFd ∧
      (∀ q, q ∈ t.waitingTimers ↔ q = p ∨ q ∈ s.waitingTimers) ∧
      t.expireOf = s.expireOf := by
  rw [addTimerStruct, if_neg (Int.not_le.mpr hlate), setWakeup_eq]
  generalize (s.setWakeup p now').timerFd = fd
  refine ⟨giveId_timerFd _ p, ?_, giveId_expireOf _ p⟩
  intro q
  refine (ops.mem_push).trans (or_congr_right ?_)
  rw [giveId_waitingTimers]

/-- A timer comes first when every waiting timer expires later. -/
theorem comesFirst_iff (h : s.Rep ops pending) (p : TimerPtr) :
    s.comesFirst p = true ↔ s.waitingTimers = [] ∨
      ∃ q ∈ s.waitingTimers, s.expireOf p < s.expireOf q := by
  unfold comesFirst
  cases hwaiting : s.waitingTimers with
  | nil => simp
  | cons top rest =>
      have hheap : ops.IsHeap s.expireOf (top :: rest) := hwaiting ▸ h.heap
      simp only [decide_eq_true_eq, reduceCtorEq, false_or]
      constructor
      · intro hlt
        exact ⟨top, by simp, hlt⟩
      · rintro ⟨q, hq, hlt⟩
        exact hlt.trans_le (ops.le_head_of_mem hheap hq)

/-- `AddTimer` sets the fd when a timer comes before the top of the queue, and
that is the one that expires last. -/
theorem addTimerStruct_fdArmed_iff (h : s.Rep ops pending) {p : TimerPtr}
    (harmed : s.FdArmed) :
    (addTimerStruct ops s p now now').1.FdArmed ↔
      s.InTime (s.expireOf p) now now' := by
  by_cases hdue : s.expireOf p ≤ now
  · rw [addTimerStruct_rejected hdue]
    exact iff_of_true harmed fun hlate => absurd hdue (Int.not_le.mpr hlate)
  · have hlate := Int.not_le.mp hdue
    obtain ⟨hfd, hmem, hexpire⟩ :=
      @addTimerStruct_accepted ops s now now' p hlate
    by_cases hfirst : s.comesFirst p = true
    · -- the fd is set for the new timer
      have hset : (s.setWakeup p now').timerFd =
          some (setTimerFd now' (s.expireOf p - now')) := by
        rw [setWakeup, if_pos hfirst]
      rw [hset] at hfd
      constructor
      · intro hnew hlate' _ q hq
        have hne := List.ne_nil_of_mem ((hmem p).mpr (Or.inl rfl))
        obtain ⟨fd, heq, hle⟩ := hnew hne
        obtain rfl := Option.some.inj (hfd.symm.trans heq)
        have hq' := hle q ((hmem q).mpr (Or.inr hq))
        rw [setTimerFd_expire, hexpire] at hq'
        exact (le_max_left _ _).trans hq'
      · intro hin _
        refine ⟨_, hfd, ?_⟩
        intro q hq
        rw [setTimerFd_expire, hexpire]
        rcases (hmem q).mp hq with rfl | hq
        · exact le_refl _
        · refine max_le ?_ (le_max_right _ _)
          rcases (comesFirst_iff h p).mp hfirst with hnil | hlater
          · rw [hnil] at hq
            cases hq
          · exact hin hlate hlater q hq
    · -- the fd stays, and some waiting timer expires no later
      have hkeep : (s.setWakeup p now').timerFd = s.timerFd := by
        rw [setWakeup, if_neg hfirst]
      rw [hkeep] at hfd
      rw [comesFirst_iff h, not_or] at hfirst
      obtain ⟨hne, hlast⟩ := hfirst
      refine iff_of_true ?_ fun _ hlater => absurd hlater hlast
      intro _
      obtain ⟨fd, heq, hle⟩ := harmed hne
      refine ⟨fd, hfd.trans heq, ?_⟩
      intro q hq
      rw [hexpire]
      rcases (hmem q).mp hq with rfl | hq
      · obtain ⟨r, hr⟩ := List.exists_mem_of_ne_nil _ hne
        have hrq : s.expireOf r ≤ s.expireOf q :=
          Int.not_lt.mp fun hlt => hlast ⟨r, hr, hlt⟩
        exact (hle r hr).trans (max_le_max_right _ hrq)
      · exact hle q hq

/-- Each step's share: a timer that is added or repeated between the calls of
`OnTimeout` is in time, and `OnTimeout` leaves no timer that expires later than
another in the queue, up to 100 microseconds. -/
def Timely (s : TimerQueue) : TimerOp → Prop
  | .addTimerAt expire _ now now' =>
      s.progress.Rests → s.InTime expire now now'
  | .addTimerRepeated interval _ _ made now now' =>
      s.progress.Rests → s.InTime (made + interval) now now'
  | .addTimerUntil interval _ _ made now now' =>
      s.progress.Rests → s.InTime (made + interval) now now'
  | .setNextTimeout now => ∀ p ∈ s.waitingTimers, ∀ q ∈ s.waitingTimers,
      s.expireOf p ≤ max (s.expireOf q) (now + 100)
  | .taskReturns made now now' => ∀ p rest, s.progress = .running p rest →
      (s.timers p).repeatTimes > 0 →
        s.InTime (made + (s.timers p).repeatInterval) now now'
  | _ => True

theorem newTimer_expireOf (h : s.Rep ops pending) (timer : TimerStruct) :
    (s.newTimer timer).expireOf s.fresh = timer.expire ∧
      ∀ p ∈ s.waitingTimers, (s.newTimer timer).expireOf p = s.expireOf p := by
  constructor
  · simp [newTimer, expireOf]
  · intro p hp
    have hne : p ≠ s.fresh := fun heq =>
      h.fresh_not_mem (heq ▸ List.mem_append_left _ hp)
    simp [newTimer, expireOf, Function.update_of_ne hne]

theorem InTime.congr (hwaiting : s'.waitingTimers = s.waitingTimers)
    (hexpire : ∀ p ∈ s.waitingTimers, s'.expireOf p = s.expireOf p)
    (expire now now' : DateTime) :
    s'.InTime expire now now' ↔ s.InTime expire now now' := by
  have hlater : (∃ p ∈ s'.waitingTimers, expire < s'.expireOf p) ↔
      ∃ p ∈ s.waitingTimers, expire < s.expireOf p := by
    rw [hwaiting]
    refine exists_congr fun p => and_congr_right fun hp => ?_
    rw [hexpire p hp]
  have hall : (∀ q ∈ s'.waitingTimers,
      expire ≤ max (s'.expireOf q) (now' + 100)) ↔
      ∀ q ∈ s.waitingTimers, expire ≤ max (s.expireOf q) (now' + 100) := by
    rw [hwaiting]
    refine forall₂_congr fun q hq => ?_
    rw [hexpire q hq]
  rw [InTime, InTime, hlater, hall]

/-- A new timer. -/
theorem addNewTimer_armed_iff (h : s.Rep ops pending) (harmed : s.Armed)
    (timer : TimerStruct) :
    (addTimerStruct ops (s.newTimer timer) s.fresh now now').1.Armed ↔
      (s.progress.Rests → s.InTime timer.expire now now') := by
  obtain ⟨hnew, hold⟩ := newTimer_expireOf h timer
  rw [Armed, addTimerStruct_progress]
  refine forall_congr' fun hrests => ?_
  have harmed' : (s.newTimer timer).FdArmed :=
    @FdArmed.congr s (s.newTimer timer) rfl rfl hold (harmed hrests)
  rw [addTimerStruct_fdArmed_iff (newTimer_rep h timer) harmed', hnew]
  exact @InTime.congr s (s.newTimer timer) rfl hold _ _ _

theorem continueWith_armed_iff (rest : List TimerPtr) :
    (s.continueWith rest).Armed ↔ s.FdArmed := by
  unfold continueWith
  split
  · exact ⟨fun h => h trivial, fun h _ => h⟩
  · exact ⟨fun h => h trivial, fun h _ => h⟩

/-- A timer whose task was executed. -/
theorem taskReturns_armed_iff {p : TimerPtr} {rest : List TimerPtr}
    (h : s.Rep ops (p :: rest)) (harmed : s.FdArmed) (made : DateTime) :
    (s.taskReturns ops p rest made now now').Armed ↔
      ((s.timers p).repeatTimes > 0 →
        s.InTime (made + (s.timers p).repeatInterval) now now') := by
  unfold taskReturns
  split
  · rename_i hrepeat
    generalize hagain : s.modifyTimer p (fun timer =>
      { timer with
        repeatTimes := timer.repeatTimes - 1
        expire := made + timer.repeatInterval }) = again
    have hrep : again.Rep ops rest := by
      rw [← hagain]
      exact h.tail.update_other h.not_mem_rest _
    have hnew : again.expireOf p = made + (s.timers p).repeatInterval := by
      simp [← hagain, modifyTimer, expireOf]
    have hold : ∀ q ∈ s.waitingTimers, again.expireOf q = s.expireOf q := by
      intro q hq
      have hne : q ≠ p := fun heq =>
        h.not_mem_rest (heq ▸ List.mem_append_left _ hq)
      simp [← hagain, modifyTimer, expireOf, Function.update_of_ne hne]
    have hfd : again.timerFd = s.timerFd := by rw [← hagain]; rfl
    have hwaiting : again.waitingTimers = s.waitingTimers := by
      rw [← hagain]
      rfl
    have hkeep : again.FdArmed := harmed.congr hfd hwaiting hold
    rw [continueWith_armed_iff, addTimerStruct_fdArmed_iff hrep hkeep, hnew,
      InTime.congr hwaiting hold]
    exact ⟨fun hin _ => hin, fun hin => hin hrepeat⟩
  · rename_i hlast
    rw [continueWith_armed_iff]
    exact iff_of_true harmed fun hrepeat => absurd hrepeat hlast

theorem handleTimer_armed {p : TimerPtr} {rest : List TimerPtr}
    (harmed : s.FdArmed) : (s.handleTimer p rest).Armed := by
  unfold handleTimer
  split
  · exact (continueWith_armed_iff rest).mpr harmed
  · split
    · exact fun _ => harmed
    · exact fun _ => harmed

theorem stopConditionReturns_armed {p : TimerPtr} {rest : List TimerPtr}
    (harmed : s.FdArmed) (result : Bool) :
    (s.stopConditionReturns p rest result).Armed := by
  unfold stopConditionReturns
  split
  · exact (continueWith_armed_iff rest).mpr harmed
  · exact fun _ => harmed

theorem cancelTimer_armed (harmed : s.Armed) (tid : TimerId) :
    (s.cancelTimer tid).1.Armed := by
  unfold cancelTimer
  split
  · exact harmed
  · rename_i p _
    intro hrests
    refine @FdArmed.congr s _ rfl rfl ?_ (harmed hrests)
    intro q _
    exact modifyTimer_field TimerStruct.expire
      (f := fun timer => { timer with canceled := true }) (fun _ => rfl) s p q

/-- One step keeps the fd armed in time exactly when it does its share. -/
theorem armed_next_iff {op : TimerOp} (h : s.Rep ops s.progress.inHand)
    (harmed : s.Armed) (hop : op.Enabled s) :
    ((timerMachine ops).next s op).Armed ↔ s.Timely op := by
  suffices hexec : (op.exec ops s).Armed ↔ s.Timely op from hexec
  have hfollows := hop.1
  cases op with
  | addTimerAt expire task now now' => exact addNewTimer_armed_iff h harmed _
  | addTimerRepeated interval repeatTimes task made now now' =>
      exact addNewTimer_armed_iff h harmed _
  | addTimerUntil interval stopCondition task made now now' =>
      exact addNewTimer_armed_iff h harmed _
  | cancelTimer tid => exact iff_of_true (cancelTimer_armed harmed tid) trivial
  | takeTimerId => exact iff_of_true harmed trivial
  | readTimerFd now => exact iff_of_true (fun hrests => hrests.elim) trivial
  | popExpiredTimers now =>
      exact iff_of_true (fun hrests => hrests.elim) trivial
  | setNextTimeout now =>
      obtain ⟨expired, hprogress⟩ := hfollows
      simp only [TimerOp.exec, hprogress]
      rw [continueWith_armed_iff]
      exact setNextTimeout_fdArmed_iff h
  | handleTimer =>
      obtain ⟨p, rest, hprogress⟩ := hfollows
      rw [Armed, hprogress] at harmed
      simp only [TimerOp.exec, hprogress]
      exact iff_of_true (handleTimer_armed (harmed trivial)) trivial
  | stopConditionReturns result =>
      obtain ⟨p, rest, hprogress⟩ := hfollows
      rw [Armed, hprogress] at harmed
      simp only [TimerOp.exec, hprogress]
      exact iff_of_true (stopConditionReturns_armed (harmed trivial) result)
        trivial
  | taskReturns made now now' =>
      obtain ⟨p, rest, hprogress⟩ := hfollows
      rw [Armed, hprogress] at harmed
      rw [hprogress] at h
      simp only [TimerOp.exec, hprogress]
      rw [taskReturns_armed_iff h (harmed trivial)]
      simp [Timely, hprogress]

/-- A run keeps the fd armed in time in every state it passes through, if and
only if each of its steps does its share. -/
theorem armed_always_iff {nextTimerId : Nat} {clock : DateTime}
    {steps : List TimerOp}
    (hrun : (timerMachine ops).Run (init nextTimerId clock) steps s) :
    (timerMachine ops).Always Armed (init nextTimerId clock) steps ↔
      ((timerMachine ops).guard Timely).Run (init nextTimerId clock) steps s := by
  apply hrun.always_iff_guard (I := fun s => s.Rep ops s.progress.inHand)
    (init_rep nextTimerId clock)
  · intro _ hne
    exact absurd rfl hne
  · intro s op hs _ hop _
    exact timerMachine_rep hs hop
  · intro s op hs harmed hop
    exact armed_next_iff hs harmed hop

/-- A timeout whose task adds a timer, and one before it. -/
theorem armed_always_iff_run :
    (timerMachine .descending).Always Armed (init 0 0)
      [.addTimerAt 500 none 0 0, .readTimerFd 500, .popExpiredTimers 500,
        .setNextTimeout 500, .handleTimer, .addTimerAt 2000 none 500 500,
        .taskReturns 500 500 500, .addTimerAt 1500 none 600 600] := by
  have hguard : ((timerMachine .descending).guard Timely).Run (init 0 0)
      [.addTimerAt 500 none 0 0, .readTimerFd 500, .popExpiredTimers 500,
        .setNextTimeout 500, .handleTimer, .addTimerAt 2000 none 500 500,
        .taskReturns 500 500 500, .addTimerAt 1500 none 600 600] _ :=
    .cons ⟨⟨trivial, by decide⟩, fun _ => by decide⟩
    (.cons ⟨⟨⟨rfl, _, rfl, by decide⟩, by decide⟩, trivial⟩
    (.cons ⟨⟨rfl, by decide⟩, trivial⟩
    (.cons ⟨⟨⟨_, rfl⟩, by decide⟩, fun _ hp => absurd hp List.not_mem_nil⟩
    (.cons ⟨⟨⟨_, _, rfl⟩, by decide⟩, trivial⟩
    (.cons ⟨⟨trivial, by decide⟩, fun _ => by decide⟩
    (.cons ⟨⟨⟨_, _, rfl⟩, by decide⟩, fun p rest hp hrepeat => by
      cases hp
      exact absurd hrepeat (by decide)⟩
    (.cons ⟨⟨trivial, by decide⟩, fun _ => by decide⟩ (.nil _))))))))
  exact (armed_always_iff hguard.of_guard).mpr hguard

/-- A third timer between two others sets the fd behind the first. -/
theorem armed_always_iff_between :
    let steps : List TimerOp := [.addTimerAt 1000 none 0 0,
      .addTimerAt 5000 none 0 0, .addTimerAt 3000 none 0 0]
    (∃ s, (timerMachine .descending).Run (init 0 0) steps s) ∧
    ¬ (timerMachine .descending).Always Armed (init 0 0) steps := by
  intro steps
  constructor
  · exact ⟨_, .cons ⟨trivial, by decide⟩ (.cons ⟨trivial, by decide⟩
      (.cons ⟨trivial, by decide⟩ (.nil _)))⟩
  · rintro ⟨_, _, _, harmed⟩
    obtain ⟨fd, hfd, hle⟩ := harmed trivial (by decide)
    obtain rfl : ⟨0, 3000⟩ = fd := Option.some.inj hfd
    exact absurd (hle 0 (by decide)) (by decide)

end TimerQueue

end Jerry
