/-
The representation invariant of the timer queue: the heap order, and that map,
queue and the batch in hand agree on which timers there are.
-/
import Jerry.KeyIndex
import Jerry.TimerQueue

namespace Jerry

namespace TimerQueue

variable {ops : HeapOps TimerPtr DateTime} {s s' : TimerQueue}
  {pending : List TimerPtr}

/-- The timers that `OnTimeout` has taken off the queue and not handled yet. -/
def Progress.inHand : Progress → List TimerPtr
  | .popped expired => expired
  | .handling expired => expired
  | .testing timer rest => timer :: rest
  | .running timer rest => timer :: rest
  | _ => []

/-- No timer is queued twice or both queued and in hand, every one of them is a
live object with an id of its own that was handed out before, and the map holds
the queued ones. -/
structure Rep (ops : HeapOps TimerPtr DateTime) (s : TimerQueue)
    (pending : List TimerPtr) : Prop where
  heap : ops.IsHeap s.expireOf s.waitingTimers
  nodup : (s.waitingTimers ++ pending).Nodup
  live : ∀ p ∈ s.waitingTimers ++ pending, p ∈ s.allocated
  allocated_lt : ∀ p ∈ s.allocated, p < s.fresh
  identified : ∀ p ∈ s.waitingTimers ++ pending,
    0 ≤ (s.timers p).tid ∧ (s.timers p).tid < s.nextTimerId
  tid_inj : ∀ p ∈ s.waitingTimers ++ pending,
    ∀ q ∈ s.waitingTimers ++ pending,
      (s.timers p).tid = (s.timers q).tid → p = q
  mapped : ∀ tid p, s.timersMap tid = some p ↔
    p ∈ s.waitingTimers ∧ (s.timers p).tid = tid
  next_nonneg : 0 ≤ s.nextTimerId

theorem init_rep (nextTimerId : Nat) (clock : DateTime) :
    (init nextTimerId clock).Rep ops [] where
  heap := ops.isHeap_nil _
  nodup := .nil
  live p hp := by cases hp
  allocated_lt p hp := by cases hp
  identified p hp := by cases hp
  tid_inj p hp := by cases hp
  mapped tid p := by simp [init]
  next_nonneg := Int.natCast_nonneg _

/-- The invariant does not look at the timer fd, the progress or the clock, and
ids that others take do no harm. -/
theorem Rep.frame (h : s.Rep ops pending) (htimers : s'.timers = s.timers)
    (hallocated : s'.allocated = s.allocated) (hfresh : s'.fresh = s.fresh)
    (hmap : s'.timersMap = s.timersMap)
    (hwaiting : s'.waitingTimers = s.waitingTimers)
    (hid : s.nextTimerId ≤ s'.nextTimerId) : s'.Rep ops pending := by
  have hexpire : s'.expireOf = s.expireOf := by
    funext p
    rw [expireOf, expireOf, htimers]
  constructor
  · rw [hexpire, hwaiting]
    exact h.heap
  · rw [hwaiting]
    exact h.nodup
  · rw [hwaiting, hallocated]
    exact h.live
  · rw [hallocated, hfresh]
    exact h.allocated_lt
  · rw [hwaiting, htimers]
    intro p hp
    have hp' := h.identified p hp
    exact ⟨hp'.1, hp'.2.trans_le hid⟩
  · rw [hwaiting, htimers]
    exact h.tid_inj
  · rw [hmap, hwaiting, htimers]
    exact h.mapped
  · exact h.next_nonneg.trans hid

theorem Rep.not_mem_pending (h : s.Rep ops pending) {p : TimerPtr}
    (hp : p ∈ s.waitingTimers) : p ∉ pending :=
  fun hpending => (List.nodup_append.mp h.nodup).2.2 p hp p hpending rfl

theorem Rep.indexed (h : s.Rep ops pending) :
    KeyIndex s.timersMap s.waitingTimers fun p => (s.timers p).tid :=
  h.mapped

/-- The id of a timer in hand is not in the map. -/
theorem Rep.unmapped (h : s.Rep ops pending) {p : TimerPtr}
    (hp : p ∈ pending) : s.timersMap (s.timers p).tid = none := by
  apply h.indexed.eq_none
  intro q hwaiting htid
  have heq : q = p := h.tid_inj q (List.mem_append_left _ hwaiting) p
    (List.mem_append_right _ hp) htid
  exact h.not_mem_pending hwaiting (heq ▸ hp)

theorem Rep.fresh_not_mem (h : s.Rep ops pending) :
    s.fresh ∉ s.waitingTimers ++ pending :=
  fun hmem => Nat.lt_irrefl _ (h.allocated_lt _ (h.live _ hmem))

/-- Writing to a timer that is neither queued nor in hand. -/
theorem Rep.update_other (h : s.Rep ops pending) {p : TimerPtr}
    (hp : p ∉ s.waitingTimers ++ pending) (timer : TimerStruct) :
    Rep ops { s with timers := Function.update s.timers p timer } pending := by
  have hother : ∀ q ∈ s.waitingTimers ++ pending,
      Function.update s.timers p timer q = s.timers q := by
    intro q hq
    have hne : q ≠ p := fun heq => hp (heq ▸ hq)
    exact Function.update_of_ne hne _ _
  constructor
  · refine ops.isHeap_congr ?_ h.heap
    intro q hq
    simp only [expireOf, hother q (List.mem_append_left _ hq)]
  · exact h.nodup
  · exact h.live
  · exact h.allocated_lt
  · intro q hq
    simp only [hother q hq]
    exact h.identified q hq
  · intro q hq r hr
    simp only [hother q hq, hother r hr]
    exact h.tid_inj q hq r hr
  · apply h.indexed.congr_key
    intro q hq
    simp only [hother q (List.mem_append_left _ hq)]
  · exact h.next_nonneg

theorem newTimer_rep (h : s.Rep ops pending) (timer : TimerStruct) :
    (s.newTimer timer).Rep ops pending := by
  have hupdate := h.update_other h.fresh_not_mem timer
  refine ⟨hupdate.heap, h.nodup, ?_, ?_, hupdate.identified, hupdate.tid_inj,
    hupdate.mapped, h.next_nonneg⟩
  · intro p hp
    exact List.mem_cons_of_mem _ (h.live p hp)
  · intro p hp
    rcases List.mem_cons.mp hp with rfl | hp
    · exact Nat.lt_succ_self _
    · exact Nat.lt_succ_of_lt (h.allocated_lt p hp)

/-- A timer comes into the queue under an id that no other timer has. -/
theorem enqueue_rep (h : s.Rep ops pending) {p : TimerPtr}
    (hp : p ∉ s.waitingTimers ++ pending) (hlive : p ∈ s.allocated)
    (hid : 0 ≤ (s.timers p).tid ∧ (s.timers p).tid < s.nextTimerId)
    (hother : ∀ q ∈ s.waitingTimers ++ pending,
      (s.timers q).tid ≠ (s.timers p).tid) :
    (s.enqueue ops p).Rep ops pending := by
  have hmem : ∀ q, q ∈ ops.push s.expireOf p s.waitingTimers ++ pending ↔
      q = p ∨ q ∈ s.waitingTimers ++ pending := by
    intro q
    rw [List.mem_append, ops.mem_push, List.mem_append, or_assoc]
  have hfree : ∀ q ∈ s.waitingTimers, (s.timers q).tid ≠ (s.timers p).tid :=
    fun q hq => hother q (List.mem_append_left _ hq)
  constructor
  · exact ops.isHeap_push p h.heap
  · have hperm : (ops.push s.expireOf p s.waitingTimers ++ pending).Perm
        (p :: (s.waitingTimers ++ pending)) :=
      (ops.push_perm _ _ _).append_right pending
    exact hperm.nodup_iff.mpr (List.nodup_cons.mpr ⟨hp, h.nodup⟩)
  · intro q hq
    rcases (hmem q).mp hq with rfl | hq
    · exact hlive
    · exact h.live q hq
  · exact h.allocated_lt
  · intro q hq
    rcases (hmem q).mp hq with rfl | hq
    · exact hid
    · exact h.identified q hq
  · intro q hq r hr heq
    rcases (hmem q).mp hq with hqp | hq' <;>
      rcases (hmem r).mp hr with hrp | hr'
    · exact hqp.trans hrp.symm
    · exact absurd (hqp ▸ heq.symm) (hother r hr')
    · exact absurd (hrp ▸ heq) (hother q hq')
    · exact h.tid_inj q hq' r hr' heq
  · change KeyIndex (if s.timersMap (s.timers p).tid = none then _ else _) _ _
    rw [if_pos (h.indexed.eq_none hfree)]
    exact h.indexed.insert hfree fun q => ops.mem_push
  · exact h.next_nonneg

theorem giveId_rep (h : s.Rep ops pending) {p : TimerPtr}
    (hp : p ∉ s.waitingTimers ++ pending) : (s.giveId p).Rep ops pending := by
  unfold giveId
  split
  · refine (h.update_other hp _).frame rfl rfl rfl rfl rfl ?_
    exact Int.le_of_lt (Int.lt_succ _)
  · exact h

/-- Setting the wakeup time changes nothing but the timer fd. -/
theorem setWakeup_eq (s : TimerQueue) (p : TimerPtr) (now : DateTime) :
    s.setWakeup p now =
      { s with timerFd := (s.setWakeup p now).timerFd } := by
  unfold setWakeup
  split <;> rfl

theorem giveId_waitingTimers (s : TimerQueue) (p : TimerPtr) :
    (s.giveId p).waitingTimers = s.waitingTimers := by
  unfold giveId
  split <;> rfl

theorem giveId_allocated (s : TimerQueue) (p : TimerPtr) :
    (s.giveId p).allocated = s.allocated := by
  unfold giveId
  split <;> rfl

/-- A field of the timers that a change leaves alone. -/
theorem modifyTimer_field {α : Type} (field : TimerStruct → α)
    {f : TimerStruct → TimerStruct} (hf : ∀ timer, field (f timer) = field timer)
    (s : TimerQueue) (p q : TimerPtr) :
    field ((s.modifyTimer p f).timers q) = field (s.timers q) := by
  by_cases hq : q = p
  · subst hq
    exact (congrArg field (Function.update_self _ _ _)).trans (hf _)
  · exact congrArg field (Function.update_of_ne hq _ _)

theorem giveId_expireOf (s : TimerQueue) (p : TimerPtr) :
    (s.giveId p).expireOf = s.expireOf := by
  unfold giveId
  split
  · funext q
    exact modifyTimer_field TimerStruct.expire
      (f := fun timer => { timer with tid := s.nextTimerId }) (fun _ => rfl) s p q
  · rfl

theorem addTimerStruct_rejected {p : TimerPtr} {now now' : DateTime}
    (hdue : s.expireOf p ≤ now) :
    (addTimerStruct ops s p now now').1 = s := by
  rw [addTimerStruct, if_pos hdue]

/-- What `AddTimer` needs of its timer: a live object that is neither queued nor
in hand, without an id or with one of its own. -/
structure Addable (s : TimerQueue) (pending : List TimerPtr) (p : TimerPtr) :
    Prop where
  apart : p ∉ s.waitingTimers ++ pending
  live : p ∈ s.allocated
  tid : (s.timers p).tid = -1 ∨
    (0 ≤ (s.timers p).tid ∧ (s.timers p).tid < s.nextTimerId ∧
      ∀ q ∈ s.waitingTimers ++ pending, (s.timers q).tid ≠ (s.timers p).tid)

/-- With its id, the timer is ready for the queue. -/
theorem giveId_tid (h : s.Rep ops pending) {p : TimerPtr}
    (hp : s.Addable pending p) :
    (0 ≤ ((s.giveId p).timers p).tid ∧
      ((s.giveId p).timers p).tid < (s.giveId p).nextTimerId) ∧
    ∀ q ∈ s.waitingTimers ++ pending,
      ((s.giveId p).timers q).tid ≠ ((s.giveId p).timers p).tid := by
  unfold giveId
  split
  · simp only [modifyTimer, Function.update_self]
    refine ⟨⟨h.next_nonneg, Int.lt_succ _⟩, ?_⟩
    intro q hq
    have hne : q ≠ p := fun heq => hp.apart (heq ▸ hq)
    rw [Function.update_of_ne hne]
    exact Int.ne_of_lt (h.identified q hq).2
  · rename_i htid
    obtain ⟨hlow, hhigh, hother⟩ := hp.tid.resolve_left htid
    exact ⟨⟨hlow, hhigh⟩, hother⟩

theorem addTimerStruct_rep (h : s.Rep ops pending) {p : TimerPtr}
    (hp : s.Addable pending p) (now now' : DateTime) :
    (addTimerStruct ops s p now now').1.Rep ops pending := by
  unfold addTimerStruct
  split
  · exact h
  · rw [setWakeup_eq]
    generalize (s.setWakeup p now').timerFd = fd
    have hfd : Rep ops { s with timerFd := fd } pending :=
      h.frame rfl rfl rfl rfl rfl (Int.le_refl _)
    have hpfd : Addable { s with timerFd := fd } pending p :=
      ⟨hp.apart, hp.live, hp.tid⟩
    obtain ⟨hid, hother⟩ := giveId_tid hfd hpfd
    apply enqueue_rep (giveId_rep hfd hp.apart)
    · rw [giveId_waitingTimers]
      exact hp.apart
    · rw [giveId_allocated]
      exact hp.live
    · exact hid
    · rw [giveId_waitingTimers]
      exact hother

/-- A new timer goes through `AddTimer`. -/
theorem addNewTimer_rep (h : s.Rep ops pending) {timer : TimerStruct}
    (htid : timer.tid = -1) (now now' : DateTime) :
    (addTimerStruct ops (s.newTimer timer) s.fresh now now').1.Rep ops
      pending := by
  apply addTimerStruct_rep (newTimer_rep h timer)
  constructor
  · exact h.fresh_not_mem
  · exact List.mem_cons_self
  · left
    simp only [newTimer, Function.update_self]
    exact htid

/-- Cancelling marks a queued timer; its key and its id stay. -/
theorem cancelTimer_rep (h : s.Rep ops pending) (tid : TimerId) :
    (s.cancelTimer tid).1.Rep ops pending := by
  unfold cancelTimer
  split
  · exact h
  · rename_i p _
    have hexpire : (s.modifyTimer p fun timer =>
        { timer with canceled := true }).expireOf = s.expireOf := by
      funext q
      refine modifyTimer_field TimerStruct.expire ?_ s p q
      exact fun _ => rfl
    have htid (q : TimerPtr) : ((s.modifyTimer p fun timer =>
        { timer with canceled := true }).timers q).tid = (s.timers q).tid := by
      refine modifyTimer_field TimerStruct.tid ?_ s p q
      exact fun _ => rfl
    constructor
    · rw [hexpire]
      exact h.heap
    · exact h.nodup
    · exact h.live
    · exact h.allocated_lt
    · intro q hq
      rw [htid]
      exact h.identified q hq
    · intro q hq r hr
      rw [htid, htid]
      exact h.tid_inj q hq r hr
    · intro tid q
      rw [htid]
      exact h.mapped tid q
    · exact h.next_nonneg

/-- A round of `PopExpiredTimers` moves the top of the queue into the batch. -/
theorem pop_rep (h : s.Rep ops pending) {p : TimerPtr} {rest : List TimerPtr}
    (htop : s.waitingTimers = p :: rest) :
    Rep ops { s with
      waitingTimers := ops.pop s.expireOf s.waitingTimers
      timersMap := Function.update s.timersMap (s.timers p).tid none }
      (pending ++ [p]) := by
  have hperm : (ops.pop s.expireOf s.waitingTimers ++ (pending ++ [p])).Perm
      (s.waitingTimers ++ pending) := by
    have hpop := ops.pop_perm s.expireOf s.waitingTimers
    rw [htop, List.tail_cons] at hpop
    rw [htop, ← List.append_assoc]
    refine (List.perm_append_singleton _ _).trans ?_
    exact (hpop.append_right pending).cons p
  constructor
  · exact ops.isHeap_pop h.heap
  · exact hperm.nodup_iff.mpr h.nodup
  · intro q hq
    exact h.live q (hperm.mem_iff.mp hq)
  · exact h.allocated_lt
  · intro q hq
    exact h.identified q (hperm.mem_iff.mp hq)
  · intro q hq r hr
    exact h.tid_inj q (hperm.mem_iff.mp hq) r (hperm.mem_iff.mp hr)
  · have hnodup : (p :: rest).Nodup := htop ▸ (List.nodup_append.mp h.nodup).1
    apply h.indexed.erase (htop ▸ List.mem_cons_self)
    intro q
    rw [htop]
    exact ops.mem_pop_of_nodup hnodup
  · exact h.next_nonneg

theorem popExpiredLoop_rep (now : DateTime) (fuel i : Nat)
    (h : s.Rep ops pending) :
    (popExpiredLoop ops now fuel i s).1.Rep ops
      (pending ++ (popExpiredLoop ops now fuel i s).2) := by
  induction fuel generalizing i s pending with
  | zero =>
      rw [popExpiredLoop, List.append_nil]
      exact h
  | succ fuel ih =>
      rw [popExpiredLoop]
      split
      · rw [List.append_nil]
        exact h
      · rename_i p rest htop
        split
        · split
          · rw [List.append_nil]
            exact h
          · rw [List.append_cons]
            exact ih (i + 1) (pop_rep h htop)
        · rw [List.append_nil]
          exact h

variable (ops) in
/-- The loop moves timers from the queue into the batch. -/
theorem popExpiredLoop_perm (now : DateTime) (fuel i : Nat) (s : TimerQueue) :
    ((popExpiredLoop ops now fuel i s).1.waitingTimers ++
      (popExpiredLoop ops now fuel i s).2).Perm s.waitingTimers := by
  induction fuel generalizing i s with
  | zero =>
      rw [popExpiredLoop, List.append_nil]
  | succ fuel ih =>
      rw [popExpiredLoop]
      split
      · rw [List.append_nil]
      · rename_i p rest htop
        split
        · split
          · rw [List.append_nil]
          · have hpop := ops.pop_perm s.expireOf s.waitingTimers
            rw [htop, List.tail_cons] at hpop
            rw [htop]
            refine List.perm_middle.trans (List.Perm.cons p ?_)
            exact (ih (i + 1) _).trans hpop
        · rw [List.append_nil]

theorem Rep.inHand_subset {p : TimerPtr} {rest : List TimerPtr} :
    ∀ q ∈ s.waitingTimers ++ rest, q ∈ s.waitingTimers ++ p :: rest := by
  intro q hq
  rcases List.mem_append.mp hq with hq | hq
  · exact List.mem_append_left _ hq
  · exact List.mem_append_right _ (List.mem_cons_of_mem _ hq)

/-- Letting go of a timer in hand. -/
theorem Rep.tail {p : TimerPtr} {rest : List TimerPtr}
    (h : s.Rep ops (p :: rest)) : s.Rep ops rest where
  heap := h.heap
  nodup := (List.nodup_middle.mp h.nodup).tail
  live q hq := h.live q (inHand_subset q hq)
  allocated_lt := h.allocated_lt
  identified q hq := h.identified q (inHand_subset q hq)
  tid_inj q hq r hr := h.tid_inj q (inHand_subset q hq) r (inHand_subset r hr)
  mapped := h.mapped
  next_nonneg := h.next_nonneg

theorem Rep.not_mem_rest {p : TimerPtr} {rest : List TimerPtr}
    (h : s.Rep ops (p :: rest)) : p ∉ s.waitingTimers ++ rest :=
  (List.nodup_cons.mp (List.nodup_middle.mp h.nodup)).1

/-- A timer whose task was executed can be queued again under its id. -/
theorem Rep.addable {p : TimerPtr} {rest : List TimerPtr}
    (h : s.Rep ops (p :: rest)) : s.Addable rest p := by
  have hp : p ∈ s.waitingTimers ++ p :: rest := by simp
  refine ⟨h.not_mem_rest, h.live p hp, Or.inr ⟨(h.identified p hp).1,
    (h.identified p hp).2, ?_⟩⟩
  intro q hq htid
  obtain rfl := h.tid_inj q (inHand_subset q hq) p hp htid
  exact h.not_mem_rest hq

theorem deleteTimer_rep {p : TimerPtr} {rest : List TimerPtr}
    (h : s.Rep ops (p :: rest)) : (s.deleteTimer p).Rep ops rest := by
  refine ⟨h.heap, h.tail.nodup, ?_, ?_, h.tail.identified, h.tail.tid_inj,
    h.mapped, h.next_nonneg⟩
  · intro q hq
    have hne : q ≠ p := fun heq => h.not_mem_rest (heq ▸ hq)
    exact (List.mem_erase_of_ne hne).mpr (h.tail.live q hq)
  · intro q hq
    exact h.allocated_lt q (List.mem_of_mem_erase hq)

/-- Erasing the id of a timer in hand finds nothing. -/
theorem removeTimer_rep {p : TimerPtr} {rest : List TimerPtr}
    (h : s.Rep ops (p :: rest)) : (s.removeTimer p).Rep ops rest := by
  have hunmapped := h.unmapped (List.mem_cons_self)
  have hmap : Function.update s.timersMap (s.timers p).tid none =
      s.timersMap := by
    conv_lhs => rw [← hunmapped]
    exact Function.update_eq_self _ _
  exact (deleteTimer_rep h).frame rfl rfl rfl hmap rfl (Int.le_refl _)

theorem continueWith_rep {rest : List TimerPtr} (h : s.Rep ops rest) :
    (s.continueWith rest).Rep ops (s.continueWith rest).progress.inHand := by
  have hrest : (s.continueWith rest).progress.inHand = rest := by
    unfold continueWith
    split
    · rename_i hnil
      exact hnil.symm
    · rfl
  rw [hrest]
  exact h.frame rfl rfl rfl rfl rfl (Int.le_refl _)

theorem setNextTimeout_rep (h : s.Rep ops pending) (now : DateTime) :
    (s.setNextTimeout now).Rep ops pending := by
  simp only [setNextTimeout]
  split
  · exact h.frame rfl rfl rfl rfl rfl (Int.le_refl _)
  · exact h

theorem handleTimer_rep {p : TimerPtr} {rest : List TimerPtr}
    (h : s.Rep ops (p :: rest)) :
    (s.handleTimer p rest).Rep ops (s.handleTimer p rest).progress.inHand := by
  unfold handleTimer
  split
  · exact continueWith_rep (removeTimer_rep h)
  · split
    · exact h.frame rfl rfl rfl rfl rfl (Int.le_refl _)
    · exact h.frame rfl rfl rfl rfl rfl (Int.le_refl _)

theorem stopConditionReturns_rep {p : TimerPtr} {rest : List TimerPtr}
    (h : s.Rep ops (p :: rest)) (result : Bool) :
    (s.stopConditionReturns p rest result).Rep ops
      (s.stopConditionReturns p rest result).progress.inHand := by
  unfold stopConditionReturns
  split
  · exact continueWith_rep (removeTimer_rep h)
  · exact h.frame rfl rfl rfl rfl rfl (Int.le_refl _)

theorem taskReturns_rep {p : TimerPtr} {rest : List TimerPtr}
    (h : s.Rep ops (p :: rest)) (made now now' : DateTime) :
    (s.taskReturns ops p rest made now now').Rep ops
      (s.taskReturns ops p rest made now now').progress.inHand := by
  unfold taskReturns
  split
  · apply continueWith_rep
    apply addTimerStruct_rep (h.tail.update_other h.not_mem_rest _)
    have haddable := h.addable
    refine ⟨haddable.apart, haddable.live, ?_⟩
    have hother : ∀ q ∈ s.waitingTimers ++ rest, q ≠ p := fun q hq heq =>
      haddable.apart (heq ▸ hq)
    simp only [Function.update_self]
    refine haddable.tid.imp_right ?_
    rintro ⟨hlow, hhigh, htid⟩
    refine ⟨hlow, hhigh, ?_⟩
    intro q hq
    rw [Function.update_of_ne (hother q hq)]
    exact htid q hq
  · exact continueWith_rep (deleteTimer_rep h)

end TimerQueue

open TimerQueue

variable {ops : HeapOps TimerPtr DateTime} {s : TimerQueue}

theorem addTimerStruct_progress (p : TimerPtr) (now now' : DateTime) :
    (addTimerStruct ops s p now now').1.progress = s.progress := by
  unfold addTimerStruct
  split
  · rfl
  · simp only [enqueue, giveId, setWakeup]
    split <;> split <;> rfl

theorem cancelTimer_progress (tid : TimerId) :
    (s.cancelTimer tid).1.progress = s.progress := by
  unfold cancelTimer
  split <;> rfl

theorem TimerOp.Follows.comes {op : TimerOp} (hop : op.Follows s) :
    op.Comes s := by
  cases op with
  | readTimerFd now => exact hop.1
  | _ => exact hop

/-- Every step keeps the invariant, whoever takes it and on any clock. -/
theorem timerExec_rep {op : TimerOp} (h : s.Rep ops s.progress.inHand)
    (hfollows : op.Comes s) :
    (op.exec ops s).Rep ops (op.exec ops s).progress.inHand := by
  cases op with
  | addTimerAt expire task now now' =>
      simp only [TimerOp.exec, addTimerAt, addTimerStruct_progress]
      exact addNewTimer_rep h rfl now now'
  | addTimerRepeated interval repeatTimes task made now now' =>
      simp only [TimerOp.exec, addTimerRepeated, addTimerStruct_progress]
      exact addNewTimer_rep h rfl now now'
  | addTimerUntil interval stopCondition task made now now' =>
      simp only [TimerOp.exec, addTimerUntil, addTimerStruct_progress]
      exact addNewTimer_rep h rfl now now'
  | cancelTimer tid =>
      simp only [TimerOp.exec, cancelTimer_progress]
      exact cancelTimer_rep h tid
  | takeTimerId =>
      exact h.frame rfl rfl rfl rfl rfl (Int.le_of_lt (Int.lt_succ _))
  | readTimerFd now =>
      change s.progress = .idle at hfollows
      rw [hfollows] at h
      exact h.frame rfl rfl rfl rfl rfl (Int.le_refl _)
  | popExpiredTimers now =>
      change s.progress = .entered at hfollows
      rw [hfollows] at h
      have hpop := @popExpiredLoop_rep ops s [] now s.waitingTimers.length 0 h
      rw [List.nil_append] at hpop
      exact hpop.frame rfl rfl rfl rfl rfl (Int.le_refl _)
  | setNextTimeout now =>
      obtain ⟨expired, hprogress⟩ := hfollows
      rw [hprogress] at h
      simp only [TimerOp.exec, hprogress]
      exact continueWith_rep (setNextTimeout_rep h now)
  | handleTimer =>
      obtain ⟨p, rest, hprogress⟩ := hfollows
      rw [hprogress] at h
      simp only [TimerOp.exec, hprogress]
      exact handleTimer_rep h
  | stopConditionReturns result =>
      obtain ⟨p, rest, hprogress⟩ := hfollows
      rw [hprogress] at h
      simp only [TimerOp.exec, hprogress]
      exact stopConditionReturns_rep h result
  | taskReturns made now now' =>
      obtain ⟨p, rest, hprogress⟩ := hfollows
      rw [hprogress] at h
      simp only [TimerOp.exec, hprogress]
      exact taskReturns_rep h made now now'

theorem timerMachine_rep {op : TimerOp} (h : s.Rep ops s.progress.inHand)
    (hop : op.Enabled s) :
    ((timerMachine ops).next s op).Rep ops
      ((timerMachine ops).next s op).progress.inHand :=
  (timerExec_rep h hop.1.comes).frame rfl rfl rfl rfl rfl (Int.le_refl _)

/-- Every reachable queue satisfies the invariant. -/
theorem TimerQueue.Reachable.rep (h : s.Reachable ops) :
    s.Rep ops s.progress.inHand := by
  obtain ⟨nextTimerId, clock, steps, hrun⟩ := h
  exact hrun.invariant (init_rep nextTimerId clock) fun s op hs hop =>
    timerMachine_rep hs hop

end Jerry
