/-
The ids of timers, across all queues of the process: what one step does to ids
and expiries, and the queues together around the counter they share.
-/
import Jerry.TimerExecution

namespace Jerry

namespace TimerQueue

variable {ops : HeapOps TimerPtr DateTime} {s s' : TimerQueue}

def tidOf (s : TimerQueue) (p : TimerPtr) : TimerId :=
  (s.timers p).tid

/-- Addresses that no timer has had yet. -/
def Unborn (s : TimerQueue) : Prop :=
  ∀ p, s.fresh ≤ p → s.tidOf p = -1

/-- A step gives at most one id away, the next one, to a timer without; every
other timer keeps what it has. -/
structure Identifies (s s' : TimerQueue) : Prop where
  kept : ∀ p, s'.tidOf p = s.tidOf p ∨
    s.tidOf p = -1 ∧ s'.tidOf p = s.nextTimerId ∧
      s.nextTimerId < s'.nextTimerId ∧ p < s'.fresh
  once : ∀ p q, s'.tidOf p ≠ s.tidOf p → s'.tidOf q ≠ s.tidOf q → p = q
  nextTimerId : s.nextTimerId ≤ s'.nextTimerId
  fresh : s.fresh ≤ s'.fresh

theorem Rep.tid_ne {pending : List TimerPtr} {p : TimerPtr}
    (h : s.Rep ops pending) (hp : p ∈ s.waitingTimers ++ pending) :
    s.tidOf p ≠ -1 := by
  intro htid
  have hlow := (h.identified p hp).1
  rw [show (s.timers p).tid = -1 from htid] at hlow
  exact absurd hlow (by decide)

section Step

theorem identifies_of_same (htid : ∀ p, s'.tidOf p = s.tidOf p)
    (hid : s.nextTimerId ≤ s'.nextTimerId) (hfresh : s.fresh ≤ s'.fresh) :
    s.Identifies s' where
  kept p := Or.inl (htid p)
  once p _ hp := absurd (htid p) hp
  nextTimerId := hid
  fresh := hfresh

/-- Nothing of the timers is changed. -/
theorem identifies_of_timers (htimers : s'.timers = s.timers)
    (hid : s.nextTimerId ≤ s'.nextTimerId) (hfresh : s.fresh ≤ s'.fresh) :
    s.Identifies s' :=
  identifies_of_same (fun p => by rw [tidOf, tidOf, htimers]) hid hfresh

/-- What comes before is only about other fields. -/
theorem Identifies.after {r : TimerQueue} (h : s'.Identifies r)
    (htid : ∀ p, s'.tidOf p = s.tidOf p) (hid : s'.nextTimerId = s.nextTimerId)
    (hfresh : s.fresh ≤ s'.fresh) : s.Identifies r where
  kept p := by
    rw [← htid p, ← hid]
    exact h.kept p
  once p q := by
    rw [← htid p, ← htid q]
    exact h.once p q
  nextTimerId := hid ▸ h.nextTimerId
  fresh := hfresh.trans h.fresh

theorem Unborn.next (h : s.Unborn) (hidentifies : s.Identifies s') :
    s'.Unborn := by
  intro p hp
  rcases hidentifies.kept p with hsame | ⟨-, -, -, hborn⟩
  · exact hsame.trans (h p (hidentifies.fresh.trans hp))
  · exact absurd hborn (Nat.not_lt.mpr hp)

variable (ops) in
/-- `AddTimer` writes nothing to its timer but an id. -/
theorem addTimerStruct_timers (s : TimerQueue) (p : TimerPtr)
    (now now' : DateTime) :
    (addTimerStruct ops s p now now').1 = s ∨
      ∃ fd, (addTimerStruct ops s p now now').1 =
        (giveId { s with timerFd := fd } p).enqueue ops p := by
  rw [addTimerStruct]
  split
  · exact Or.inl rfl
  · rw [setWakeup_eq]
    exact Or.inr ⟨_, rfl⟩

variable (ops) in
theorem addTimerStruct_expireOf (s : TimerQueue) (p q : TimerPtr)
    (now now' : DateTime) :
    (addTimerStruct ops s p now now').1.expireOf q = s.expireOf q := by
  rcases addTimerStruct_timers ops s p now now' with heq | ⟨fd, heq⟩
  · rw [heq]
  · rw [heq]
    exact congrFun (giveId_expireOf { s with timerFd := fd } p) q

theorem giveId_identifies {p : TimerPtr} (hp : p < s.fresh) :
    s.Identifies (s.giveId p) := by
  rw [giveId]
  split
  · rename_i htid
    have hother : ∀ q, q ≠ p → tidOf { s.modifyTimer p (fun timer =>
        { timer with tid := s.nextTimerId }) with
          nextTimerId := s.nextTimerId + 1 } q = s.tidOf q := by
      intro q hq
      simp [tidOf, modifyTimer, Function.update_of_ne hq]
    refine ⟨fun q => ?_, fun q r hq hr => ?_, Int.le_of_lt (Int.lt_succ _),
      Nat.le_refl _⟩
    · by_cases hqp : q = p
      · subst hqp
        exact Or.inr ⟨htid, by simp [tidOf, modifyTimer], Int.lt_succ _, hp⟩
      · exact Or.inl (hother q hqp)
    · have hqp : q = p := by_contra fun hne => hq (hother q hne)
      have hrp : r = p := by_contra fun hne => hr (hother r hne)
      exact hqp.trans hrp.symm
  · exact identifies_of_timers rfl (Int.le_refl _) (Nat.le_refl _)

variable (ops) in
theorem addTimerStruct_identifies {p : TimerPtr} (hp : p < s.fresh)
    (now now' : DateTime) :
    s.Identifies (addTimerStruct ops s p now now').1 := by
  rcases addTimerStruct_timers ops s p now now' with heq | ⟨fd, heq⟩
  · rw [heq]
    exact identifies_of_timers rfl (Int.le_refl _) (Nat.le_refl _)
  · rw [heq]
    have hgive : Identifies s (giveId { s with timerFd := fd } p) :=
      (giveId_identifies (s := { s with timerFd := fd }) hp).after
        (fun _ => rfl) rfl (Nat.le_refl _)
    exact ⟨hgive.kept, hgive.once, hgive.nextTimerId, hgive.fresh⟩

/-- A new timer has no id before `AddTimer`. -/
theorem addNew_identifies (hunborn : s.Unborn) {timer : TimerStruct}
    (htid : timer.tid = -1) (now now' : DateTime) :
    s.Identifies
      (addTimerStruct ops (s.newTimer timer) s.fresh now now').1 := by
  refine (addTimerStruct_identifies ops (s := s.newTimer timer)
    (Nat.lt_succ_self s.fresh) now now').after (fun p => ?_) rfl (Nat.le_succ _)
  by_cases hp : p = s.fresh
  · subst hp
    rw [hunborn s.fresh (Nat.le_refl _)]
    simp [tidOf, newTimer, htid]
  · simp [tidOf, newTimer, Function.update_of_ne hp]

theorem taskReturns_identifies {p : TimerPtr} {rest : List TimerPtr}
    (hrep : s.Rep ops (p :: rest)) (made now now' : DateTime) :
    s.Identifies (s.taskReturns ops p rest made now now') := by
  rw [taskReturns]
  split
  · have hp : p < s.fresh := hrep.allocated_lt p (hrep.live p (by simp))
    have hadd := addTimerStruct_identifies ops
      (s := s.modifyTimer p fun timer => { timer with
        repeatTimes := timer.repeatTimes - 1
        expire := made + timer.repeatInterval }) hp now now'
    have hrepeat := hadd.after (s := s) (fun q => by
      refine modifyTimer_field TimerStruct.tid ?_ s p q
      exact fun _ => rfl) rfl (Nat.le_refl _)
    exact ⟨hrepeat.kept, hrepeat.once, hrepeat.nextTimerId, hrepeat.fresh⟩
  · exact identifies_of_timers rfl (Int.le_refl _) (Nat.le_refl _)

variable (ops) in
/-- What a step does to the timers: it leaves them, adds a new one, marks one as
canceled, or repeats the one whose task returns. -/
theorem timerExec_timers {op : TimerOp} (hop : op.Comes s) :
    ((op.exec ops s).timers = s.timers ∧
      s.nextTimerId ≤ (op.exec ops s).nextTimerId ∧
      (op.exec ops s).fresh = s.fresh) ∨
    (∃ timer now now', timer.tid = -1 ∧ op.exec ops s =
      (addTimerStruct ops (s.newTimer timer) s.fresh now now').1) ∨
    (∃ q, op.exec ops s =
      s.modifyTimer q fun timer => { timer with canceled := true }) ∨
    ∃ q rest made now now', s.progress = .running q rest ∧
      op.exec ops s = s.taskReturns ops q rest made now now' := by
  have hsame {r : TimerQueue} (htimers : r.timers = s.timers)
      (hid : r.nextTimerId = s.nextTimerId) (hfresh : r.fresh = s.fresh) :
      r.timers = s.timers ∧ s.nextTimerId ≤ r.nextTimerId ∧ r.fresh = s.fresh :=
    ⟨htimers, Int.le_of_eq hid.symm, hfresh⟩
  cases op with
  | addTimerAt expire task now now' =>
      exact Or.inr (Or.inl ⟨_, now, now', rfl, rfl⟩)
  | addTimerRepeated interval repeatTimes task made now now' =>
      exact Or.inr (Or.inl ⟨_, now, now', rfl, rfl⟩)
  | addTimerUntil interval stopCondition task made now now' =>
      exact Or.inr (Or.inl ⟨_, now, now', rfl, rfl⟩)
  | cancelTimer tid =>
      simp only [TimerOp.exec, cancelTimer]
      split
      · exact Or.inl (hsame rfl rfl rfl)
      · exact Or.inr (Or.inr (Or.inl ⟨_, rfl⟩))
  | taskReturns made now now' =>
      obtain ⟨q, rest, hprogress⟩ := hop
      simp only [TimerOp.exec, hprogress]
      exact Or.inr (Or.inr (Or.inr ⟨q, rest, made, now, now', rfl, rfl⟩))
  | takeTimerId => exact Or.inl ⟨rfl, Int.le_of_lt (Int.lt_succ _), rfl⟩
  | readTimerFd now => exact Or.inl (hsame rfl rfl rfl)
  | popExpiredTimers now =>
      obtain ⟨htimers, hid, hfresh, -⟩ :=
        popExpiredLoop_pops ops now s.waitingTimers.length 0 s
      exact Or.inl (hsame htimers hid hfresh)
  | setNextTimeout now =>
      obtain ⟨expired, hprogress⟩ := hop
      simp only [TimerOp.exec, hprogress, setNextTimeout]
      split <;> exact Or.inl (hsame rfl rfl rfl)
  | handleTimer =>
      obtain ⟨q, rest, hprogress⟩ := hop
      simp only [TimerOp.exec, hprogress, handleTimer]
      split
      · exact Or.inl (hsame rfl rfl rfl)
      · split <;> exact Or.inl (hsame rfl rfl rfl)
  | stopConditionReturns result =>
      obtain ⟨q, rest, hprogress⟩ := hop
      simp only [TimerOp.exec, hprogress, stopConditionReturns]
      split <;> exact Or.inl (hsame rfl rfl rfl)

/-- The step lemma for ids. -/
theorem timerExec_identifies {op : TimerOp} (hrep : s.Rep ops s.progress.inHand)
    (hunborn : s.Unborn) (hop : op.Comes s) : s.Identifies (op.exec ops s) := by
  rcases timerExec_timers ops hop with ⟨htimers, hid, hfresh⟩ |
    ⟨timer, now, now', htid, heq⟩ | ⟨q, heq⟩ |
    ⟨q, rest, made, now, now', hprogress, heq⟩
  · exact identifies_of_timers htimers hid (Nat.le_of_eq hfresh.symm)
  · rw [heq]
    exact addNew_identifies hunborn htid now now'
  · rw [heq]
    refine identifies_of_same (fun p => ?_) (Int.le_refl _) (Nat.le_refl _)
    exact modifyTimer_field TimerStruct.tid
      (f := fun timer => { timer with canceled := true }) (fun _ => rfl) s q p
  · rw [hprogress] at hrep
    rw [heq]
    exact taskReturns_identifies hrep made now now'

/-- A timer that is queued keeps its expiry for as long as it is. -/
theorem timerExec_expireOf {op : TimerOp} (hrep : s.Rep ops s.progress.inHand)
    (hop : op.Comes s) {p : TimerPtr} (hp : p ∈ s.waitingTimers) :
    (op.exec ops s).expireOf p = s.expireOf p := by
  rcases timerExec_timers ops hop with ⟨htimers, _⟩ |
    ⟨timer, now, now', _, heq⟩ | ⟨q, heq⟩ |
    ⟨q, rest, made, now, now', hprogress, heq⟩
  · exact congrArg TimerStruct.expire (congrFun htimers p)
  · have hne : p ≠ s.fresh := fun heq =>
      hrep.fresh_not_mem (heq ▸ List.mem_append_left _ hp)
    rw [heq, addTimerStruct_expireOf]
    exact congrArg TimerStruct.expire (Function.update_of_ne hne _ _)
  · rw [heq]
    exact modifyTimer_field TimerStruct.expire
      (f := fun timer => { timer with canceled := true }) (fun _ => rfl) s q p
  · rw [hprogress] at hrep
    rw [heq, taskReturns]
    split
    · -- the timer whose expiry is set anew is in hand
      have hne : p ≠ q := fun heq =>
        hrep.not_mem_rest (heq ▸ List.mem_append_left _ hp)
      refine Eq.trans (addTimerStruct_expireOf ops _ q p now now') ?_
      exact congrArg TimerStruct.expire (Function.update_of_ne hne _ _)
    · rfl

end Step

end TimerQueue

/-- The timer queues of a process, in the order of their construction, and the
counter they take ids from. -/
structure TimerQueues where
  nextTimerId : TimerId
  queues : List TimerQueue

namespace TimerQueues

variable {ops : HeapOps TimerPtr DateTime} {s t : TimerQueues}
  {q r : TimerQueue} {i j : Nat} {p p' : TimerPtr}

def init : TimerQueues :=
  ⟨0, []⟩

/-- A queue as its owner finds it, with the counter as it is now. -/
def load (s : TimerQueues) (q : TimerQueue) : TimerQueue :=
  { q with nextTimerId := s.nextTimerId }

/-- A worker constructs its queue, or something happens to one of them. -/
inductive Op where
  | construct
  | queue (i : Nat) (op : TimerOp)
deriving DecidableEq, Repr

/-- Any clock; ids are taken by the queues of the process and by nobody else. -/
def Op.Enabled (s : TimerQueues) : Op → Prop
  | .construct => True
  | .queue i op => op ≠ .takeTimerId ∧ ∃ q ∈ s.queues[i]?, op.Comes q

def exec (ops : HeapOps TimerPtr DateTime) (s : TimerQueues) :
    Op → TimerQueues
  | .construct => { s with queues := s.queues ++ [.init 0 0] }
  | .queue i op =>
      match s.queues[i]? with
      | none => s
      | some q =>
          let q := op.exec ops (s.load q)
          ⟨q.nextTimerId, s.queues.set i q⟩

end TimerQueues

/-- A process with its timer queues. -/
def timersMachine (ops : HeapOps TimerPtr DateTime) :
    Machine TimerQueues TimerQueues.Op where
  enabled s op := op.Enabled s
  next := TimerQueues.exec ops

namespace TimerQueues

variable {ops : HeapOps TimerPtr DateTime} {s t : TimerQueues}
  {q r : TimerQueue} {i j : Nat} {p p' : TimerPtr}

/-- The timer at an address of a queue has an id. -/
def Given (s : TimerQueues) (i : Nat) (p : TimerPtr) (tid : TimerId) : Prop :=
  ∃ q : TimerQueue, s.queues[i]? = some q ∧ q.tidOf p = tid ∧ tid ≠ -1

/-- Every queue is well formed, and no id has been given away twice. -/
structure Rep (ops : HeapOps TimerPtr DateTime) (s : TimerQueues) : Prop where
  rep : ∀ q ∈ s.queues, (s.load q).Rep ops q.progress.inHand
  unborn : ∀ q ∈ s.queues, q.Unborn
  next_nonneg : 0 ≤ s.nextTimerId
  given : ∀ i p tid, s.Given i p tid → 0 ≤ tid ∧ tid < s.nextTimerId
  distinct : ∀ i j p p' tid, s.Given i p tid → s.Given j p' tid →
    i = j ∧ p = p'

theorem init_rep : init.Rep ops where
  rep q hq := absurd hq List.not_mem_nil
  unborn q hq := absurd hq List.not_mem_nil
  next_nonneg := Int.le_refl 0
  given i p tid := by
    rintro ⟨q, hq, -⟩
    cases hq
  distinct i j p p' tid := by
    rintro ⟨q, hq, -⟩
    cases hq

/-- A new queue has no timers. -/
theorem given_construct {tid : TimerId}
    (h : (s.exec ops .construct).Given i p tid) : s.Given i p tid := by
  obtain ⟨q, hq, htid, hne⟩ := h
  have hlookup : (s.queues ++ [TimerQueue.init 0 0])[i]? = some q := hq
  rw [List.getElem?_append] at hlookup
  split at hlookup
  · exact ⟨q, hlookup, htid, hne⟩
  · have hnew : q = .init 0 0 :=
      List.mem_singleton.mp (List.mem_of_getElem? hlookup)
    subst hnew
    exact absurd htid.symm hne

theorem Rep.construct (h : s.Rep ops) : (s.exec ops .construct).Rep ops := by
  have hcases {q : TimerQueue} (hq : q ∈ s.queues ++ [.init 0 0]) :
      q ∈ s.queues ∨ q = .init 0 0 := by
    simpa using hq
  constructor
  · intro q hq
    rcases hcases hq with hq | rfl
    · exact h.rep q hq
    · exact (TimerQueue.init_rep 0 0).frame rfl rfl rfl rfl rfl h.next_nonneg
  · intro q hq
    rcases hcases hq with hq | rfl
    · exact h.unborn q hq
    · exact fun p _ => rfl
  · exact h.next_nonneg
  · exact fun i p tid hgiven => h.given i p tid (given_construct hgiven)
  · exact fun i j p p' tid hp hp' =>
      h.distinct i j p p' tid (given_construct hp) (given_construct hp')

section Queue

variable {op : TimerOp}

theorem exec_queue (hq : s.queues[i]? = some q) :
    s.exec ops (.queue i op) =
      ⟨(op.exec ops (s.load q)).nextTimerId,
        s.queues.set i (op.exec ops (s.load q))⟩ := by
  simp only [exec, hq]

theorem load_comes (hop : op.Comes q) : op.Comes (s.load q) := by
  cases op <;> exact hop

theorem Rep.identifies (h : s.Rep ops) (hq : s.queues[i]? = some q)
    (hop : op.Comes q) : (s.load q).Identifies (op.exec ops (s.load q)) := by
  have hmem : q ∈ s.queues := List.mem_of_getElem? hq
  exact TimerQueue.timerExec_identifies (h.rep q hmem) (h.unborn q hmem)
    (load_comes hop)

/-- A timer that has an id behind a step had it before, or it is the one that
the step has given the next id to. -/
theorem Rep.given_queue (h : s.Rep ops) (hq : s.queues[i]? = some q)
    (hop : op.Comes q) {tid : TimerId}
    (hgiven : (s.exec ops (.queue i op)).Given j p tid) :
    s.Given j p tid ∨ j = i ∧ tid = s.nextTimerId ∧
      (op.exec ops (s.load q)).tidOf p ≠ q.tidOf p ∧
      s.nextTimerId < (op.exec ops (s.load q)).nextTimerId := by
  obtain ⟨r, hr, htid, hne⟩ := hgiven
  simp only [exec_queue hq] at hr
  by_cases hij : i = j
  · subst hij
    rw [List.getElem?_set_self (List.getElem?_eq_some_iff.mp hq).1] at hr
    obtain rfl := Option.some.inj hr
    rcases (h.identifies hq hop).kept p with hsame | ⟨hnone, hnew, hless, -⟩
    · exact Or.inl ⟨q, hq, hsame.symm.trans htid, hne⟩
    · refine Or.inr ⟨rfl, htid.symm.trans hnew, fun hsame => hne ?_, hless⟩
      exact htid.symm.trans (hsame.trans hnone)
  · rw [List.getElem?_set_ne hij] at hr
    exact Or.inl ⟨r, hr, htid, hne⟩

/-- What a step does to one queue it does to it alone, and a new id is above all
that were given away. -/
theorem Rep.queue (h : s.Rep ops) (hq : s.queues[i]? = some q)
    (hop : op.Comes q) : (s.exec ops (.queue i op)).Rep ops := by
  have hmem : q ∈ s.queues := List.mem_of_getElem? hq
  have hids := h.identifies hq hop
  have hnext : s.nextTimerId ≤ (op.exec ops (s.load q)).nextTimerId :=
    hids.nextTimerId
  have hcases {r : TimerQueue} (hr : r ∈ (s.exec ops (.queue i op)).queues) :
      r ∈ s.queues ∨ r = op.exec ops (s.load q) := by
    rw [exec_queue hq] at hr
    exact List.mem_or_eq_of_mem_set hr
  have hcounter : (s.exec ops (.queue i op)).nextTimerId =
      (op.exec ops (s.load q)).nextTimerId := by
    rw [exec_queue hq]
  constructor
  · intro r hr
    rw [load, hcounter]
    rcases hcases hr with hr | rfl
    · exact (h.rep r hr).frame rfl rfl rfl rfl rfl hnext
    · exact timerExec_rep (h.rep q hmem) (load_comes hop)
  · intro r hr
    rcases hcases hr with hr | rfl
    · exact h.unborn r hr
    · have hunborn : (s.load q).Unborn := h.unborn q hmem
      exact hunborn.next hids
  · rw [hcounter]
    exact h.next_nonneg.trans hnext
  · intro j p tid hgiven
    rw [hcounter]
    rcases h.given_queue hq hop hgiven with hold | ⟨-, rfl, -, hless⟩
    · exact ⟨(h.given j p tid hold).1, (h.given j p tid hold).2.trans_le hnext⟩
    · exact ⟨h.next_nonneg, hless⟩
  · intro j k p p' tid hp hp'
    rcases h.given_queue hq hop hp with hold | ⟨rfl, rfl, hchanged, -⟩ <;>
      rcases h.given_queue hq hop hp' with hold' | ⟨rfl, htid, hchanged', -⟩
    · exact h.distinct j k p p' tid hold hold'
    · exact absurd (htid ▸ (h.given j p tid hold).2) (Int.lt_irrefl _)
    · exact absurd (h.given k p' _ hold').2 (Int.lt_irrefl _)
    · exact ⟨rfl, hids.once p p' hchanged hchanged'⟩

end Queue

theorem Rep.exec (h : s.Rep ops) {op : Op} (henabled : op.Enabled s) :
    (s.exec ops op).Rep ops := by
  cases op with
  | construct => exact h.construct
  | queue i op =>
      obtain ⟨-, q, hq, hop⟩ := henabled
      exact h.queue hq hop

/-- An id that a timer has it keeps. -/
theorem Rep.given_exec (h : s.Rep ops) {op : Op} (henabled : op.Enabled s)
    {tid : TimerId} (hgiven : s.Given i p tid) :
    (s.exec ops op).Given i p tid := by
  obtain ⟨r, hr, htid, hne⟩ := hgiven
  have hlength := (List.getElem?_eq_some_iff.mp hr).1
  cases op with
  | construct =>
      refine ⟨r, ?_, htid, hne⟩
      exact (List.getElem?_append_left hlength).trans hr
  | queue j op =>
      obtain ⟨-, q, hq, hop⟩ := henabled
      rw [exec_queue hq]
      by_cases hij : j = i
      · subst hij
        obtain rfl := Option.some.inj (hr.symm.trans hq)
        refine ⟨_, List.getElem?_set_self hlength, ?_, hne⟩
        rcases (h.identifies hq hop).kept p with hsame | ⟨hnone, -⟩
        · exact hsame.trans htid
        · exact absurd (htid.symm.trans hnone) hne
      · exact ⟨r, (List.getElem?_set_ne hij).trans hr, htid, hne⟩

/-- What holds between any two steps. -/
structure WellFormed (ops : HeapOps TimerPtr DateTime) (s : TimerQueues) :
    Prop where
  mapped : ∀ q ∈ s.queues, ∀ tid p, q.timersMap tid = some p ↔
    p ∈ q.waitingTimers ∧ q.tidOf p = tid
  nodup : ∀ q ∈ s.queues, (q.waitingTimers ++ q.progress.inHand).Nodup
  identified : ∀ q ∈ s.queues, ∀ p ∈ q.waitingTimers ++ q.progress.inHand,
    q.tidOf p ≠ -1
  distinct : ∀ i j p p' tid, s.Given i p tid → s.Given j p' tid →
    i = j ∧ p = p'
  heap : ∀ q ∈ s.queues, ops.IsHeap q.expireOf q.waitingTimers

/-- What no step does. -/
structure StepsKeep (ops : HeapOps TimerPtr DateTime) (s : TimerQueues) :
    Prop where
  expire : ∀ i q, s.queues[i]? = some q → ∀ op : TimerOp,
    (Op.queue i op).Enabled s → ∀ p ∈ q.waitingTimers,
      (op.exec ops (s.load q)).expireOf p = q.expireOf p
  tid : ∀ ops' t, (timersMachine ops).Run s ops' t → ∀ i p tid,
    s.Given i p tid → t.Given i p tid

theorem Rep.wellFormed (h : s.Rep ops) : s.WellFormed ops where
  mapped q hq := (h.rep q hq).mapped
  nodup q hq := (h.rep q hq).nodup
  identified q hq _ hp := (h.rep q hq).tid_ne hp
  distinct := h.distinct
  heap q hq := (h.rep q hq).heap

theorem Rep.stepsKeep (h : s.Rep ops) : s.StepsKeep ops where
  expire i q hq op henabled p hp := by
    obtain ⟨-, r, hr, hop⟩ := henabled
    obtain rfl := Option.some.inj (hr.symm.trans hq)
    exact TimerQueue.timerExec_expireOf (h.rep r (List.mem_of_getElem? hq))
      (load_comes hop) hp
  tid ops' t hrun i p tid hgiven := by
    have hkept := hrun.invariant (P := fun t => t.Rep ops ∧ t.Given i p tid)
      ⟨h, hgiven⟩ fun u op hu henabled =>
        ⟨hu.1.exec henabled, hu.1.given_exec henabled hu.2⟩
    exact hkept.2

/-- The representation invariant of the timer queues of a process, in every run on
any clock. -/
theorem timers_wellFormed {labels : List Op}
    (hrun : (timersMachine ops).Run init labels s) :
    s.WellFormed ops ∧ s.StepsKeep ops := by
  have h : s.Rep ops :=
    hrun.invariant init_rep fun _ _ hrep henabled => hrep.exec henabled
  exact ⟨h.wellFormed, h.stepsKeep⟩

/-- Two queues with a timer each; the one that repeats is queued again under its
id, although its task tried to cancel it. -/
theorem timers_wellFormed_two :
    ∃ labels s, (timersMachine .descending).Run init labels s ∧
      s.queues.map (fun q => q.waitingTimers.map q.tidOf) = [[0], [1]] ∧
      s.WellFormed .descending ∧ s.StepsKeep .descending := by
  have hrun : (timersMachine .descending).Run init
      [.construct, .construct,
        .queue 0 (.addTimerRepeated 100 1 (some 7) 50 50 50),
        .queue 1 (.addTimerAt 90 none 50 50), .queue 0 (.readTimerFd 0),
        .queue 0 (.popExpiredTimers 150), .queue 0 (.setNextTimeout 150),
        .queue 0 .handleTimer, .queue 0 (.cancelTimer 0),
        .queue 0 (.taskReturns 150 150 150)] _ :=
    .cons trivial (.cons trivial (.cons ⟨by decide, _, rfl, trivial⟩
      (.cons ⟨by decide, _, rfl, trivial⟩ (.cons ⟨by decide, _, rfl, rfl⟩
        (.cons ⟨by decide, _, rfl, rfl⟩ (.cons ⟨by decide, _, rfl, _, rfl⟩
          (.cons ⟨by decide, _, rfl, _, _, rfl⟩
            (.cons ⟨by decide, _, rfl, trivial⟩
              (.cons ⟨by decide, _, rfl, _, _, rfl⟩ (.nil _))))))))))
  exact ⟨_, _, hrun, rfl, timers_wellFormed hrun⟩

end TimerQueues

end Jerry
