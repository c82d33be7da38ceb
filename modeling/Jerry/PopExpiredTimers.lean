/-
`TimerQueue::PopExpiredTimers`: when one call takes every timer that is due.
`TimerCmp` puts the timer that expires last on top of the queue, and the bound
of the loop shrinks with the queue.
-/
import Jerry.TimerQueueRep

namespace Jerry

namespace TimerQueue

variable {ops : HeapOps TimerPtr DateTime} {s : TimerQueue} {now : DateTime}
  {pending : List TimerPtr}

/-- The timers that have expired are returned, earliest first, and are gone from
the queue and the map; the others stay in both. -/
structure PopsExpired (s s' : TimerQueue) (expired : List TimerPtr)
    (now : DateTime) : Prop where
  returned : expired.Perm
    (s.waitingTimers.filter fun p => decide (s.expireOf p ≤ now))
  ordered : expired.Pairwise fun p q => s.expireOf p ≤ s.expireOf q
  waiting : s'.waitingTimers.Perm
    (s.waitingTimers.filter fun p => decide (now < s.expireOf p))
  mapped : ∀ tid p, s'.timersMap tid = some p ↔
    s.timersMap tid = some p ∧ now < s.expireOf p

/-- The loop leaves at once when the top of the queue is not due. -/
theorem popExpiredTimers_of_top {top : TimerPtr} {rest : List TimerPtr}
    (htop : s.waitingTimers = top :: rest) (hlate : now < s.expireOf top) :
    popExpiredTimers ops s now = (s, []) := by
  rw [popExpiredTimers, htop, List.length_cons, popExpiredLoop]
  simp [htop, hlate]

/-- Once a round was made, the loop does not empty the queue: the bound shrinks
by one while the counter grows by one. -/
theorem popExpiredLoop_ne_nil (fuel : Nat) {i : Nat} (hi : 0 < i)
    (hne : s.waitingTimers ≠ []) :
    (popExpiredLoop ops now fuel i s).1.waitingTimers ≠ [] := by
  induction fuel generalizing i s with
  | zero => exact hne
  | succ fuel ih =>
      rw [popExpiredLoop]
      split
      · exact hne
      · split
        · rename_i hround
          split
          · exact hne
          · exact ih (Nat.succ_pos i)
              (ops.pop_ne_nil (Nat.lt_of_le_of_lt hi hround))
        · exact hne

/-- With two timers or more, one of them stays. -/
theorem popExpiredTimers_ne_nil {p q : TimerPtr} {rest : List TimerPtr}
    (hwaiting : s.waitingTimers = p :: q :: rest) :
    (popExpiredTimers ops s now).1.waitingTimers ≠ [] := by
  rw [popExpiredTimers, hwaiting, List.length_cons, popExpiredLoop]
  simp only [hwaiting]
  split
  · split
    · rw [hwaiting]
      simp
    · exact popExpiredLoop_ne_nil _ (Nat.succ_pos 0)
        (ops.pop_ne_nil (by simp))
  · rw [hwaiting]
    simp

theorem popsExpired_of_none_due (h : s.Rep ops pending)
    (hlate : ∀ p ∈ s.waitingTimers, now < s.expireOf p) :
    PopsExpired s (popExpiredTimers ops s now).1
      (popExpiredTimers ops s now).2 now := by
  have hpop : popExpiredTimers ops s now = (s, []) := by
    cases hwaiting : s.waitingTimers with
    | nil => rw [popExpiredTimers, hwaiting, List.length_nil, popExpiredLoop]
    | cons top rest =>
        exact popExpiredTimers_of_top hwaiting (hlate top (by simp [hwaiting]))
  rw [hpop]
  constructor
  · rw [List.filter_eq_nil_iff.mpr]
    intro p hp
    simpa using hlate p hp
  · exact .nil
  · rw [List.filter_eq_self.mpr]
    intro p hp
    simpa using hlate p hp
  · intro tid p
    refine (and_iff_left_of_imp fun hp => ?_).symm
    exact hlate p ((h.mapped tid p).mp hp).1

theorem popsExpired_of_single (h : s.Rep ops pending) {p : TimerPtr}
    (hwaiting : s.waitingTimers = [p]) (hdue : s.expireOf p ≤ now) :
    PopsExpired s (popExpiredTimers ops s now).1
      (popExpiredTimers ops s now).2 now := by
  have hrest : ops.pop s.expireOf [p] = [] :=
    List.Perm.eq_nil (ops.pop_perm s.expireOf [p])
  have hpop : popExpiredTimers ops s now = ({ s with
      waitingTimers := []
      timersMap := Function.update s.timersMap (s.timers p).tid none },
      [p]) := by
    rw [popExpiredTimers, hwaiting, List.length_singleton, popExpiredLoop]
    simp [hwaiting, hrest, Int.not_lt.mpr hdue, popExpiredLoop]
  rw [hpop]
  constructor
  · simp [hwaiting, hdue]
  · simp
  · simp [hwaiting, hdue]
  · intro tid q
    have hlate : ¬ (s.timersMap tid = some q ∧ now < s.expireOf q) := by
      rintro ⟨hq, hlate⟩
      have hmem := ((h.mapped tid q).mp hq).1
      rw [hwaiting, List.mem_singleton] at hmem
      exact Int.not_lt.mpr hdue (hmem ▸ hlate)
    refine (iff_false_right hlate).mpr ?_
    by_cases htid : tid = (s.timers p).tid
    · simp [htid]
    · change ¬ Function.update s.timersMap _ none tid = some q
      rw [Function.update_of_ne htid, h.mapped, hwaiting]
      rintro ⟨hq, heq⟩
      exact htid (heq ▸ List.mem_singleton.mp hq ▸ rfl)

/-- In any reachable state one call takes exactly the due timers, earliest
first, if and only if none is due or the queue holds one timer only. -/
theorem popExpiredTimers_iff (h : s.Reachable ops) (now : DateTime) :
    PopsExpired s (popExpiredTimers ops s now).1
      (popExpiredTimers ops s now).2 now ↔
    (∀ p ∈ s.waitingTimers, now < s.expireOf p) ∨
      ∃ p, s.waitingTimers = [p] := by
  have hrep := h.rep
  constructor
  · intro hpops
    by_contra hcond
    rw [not_or] at hcond
    obtain ⟨hdue, hmany⟩ := hcond
    push Not at hdue
    obtain ⟨due, hmem, hexpired⟩ := hdue
    match hwaiting : s.waitingTimers with
    | [] => simp [hwaiting] at hmem
    | [p] => exact hmany ⟨p, hwaiting⟩
    | p :: q :: rest =>
        by_cases htop : s.expireOf p ≤ now
        · -- every timer is due, but one stays in the queue
          have hheap : ops.IsHeap s.expireOf (p :: q :: rest) :=
            hwaiting ▸ hrep.heap
          have hnone : s.waitingTimers.filter
              (fun p => decide (now < s.expireOf p)) = [] := by
            rw [List.filter_eq_nil_iff]
            intro r hr
            have hle := ops.le_head_of_mem hheap (hwaiting ▸ hr)
            simpa using hle.trans htop
          have hperm := hpops.waiting
          rw [hnone] at hperm
          exact popExpiredTimers_ne_nil hwaiting hperm.eq_nil
        · -- the top is not due, so nothing is returned
          have hpop := @popExpiredTimers_of_top ops s now p _ hwaiting
            (Int.not_le.mp htop)
          have hperm := hpops.returned
          rw [hpop] at hperm
          have hin : due ∈ s.waitingTimers.filter
              (fun p => decide (s.expireOf p ≤ now)) :=
            List.mem_filter.mpr ⟨hmem, decide_eq_true hexpired⟩
          have := hperm.symm.mem_iff.mp hin
          cases this
  · rintro (hlate | ⟨p, hwaiting⟩)
    · exact popsExpired_of_none_due hrep hlate
    · by_cases hdue : s.expireOf p ≤ now
      · exact popsExpired_of_single hrep hwaiting hdue
      · apply popsExpired_of_none_due hrep
        intro q hq
        rw [hwaiting, List.mem_singleton] at hq
        exact hq ▸ Int.not_le.mp hdue

/-- A queue made from timers that expire at the given times. -/
def ofExpires (ops : HeapOps TimerPtr DateTime) (expires : List DateTime) :
    TimerQueue :=
  (expires.map fun expire => TimerOp.addTimerAt expire none 0 0).foldl
    (timerMachine ops).next (init 0 0)

theorem ofExpires_reachable (ops : HeapOps TimerPtr DateTime)
    (expires : List DateTime) : (ofExpires ops expires).Reachable ops := by
  refine ⟨0, 0, expires.map fun expire => TimerOp.addTimerAt expire none 0 0,
    Machine.run_iff.mpr ⟨?_, rfl⟩⟩
  suffices henabled : ∀ s : TimerQueue, s.clock = 0 →
      (timerMachine ops).EnabledFrom s
        (expires.map fun expire => TimerOp.addTimerAt expire none 0 0) from
    henabled _ rfl
  induction expires with
  | nil =>
      intro s hclock
      trivial
  | cons expire expires ih =>
      intro s hclock
      refine ⟨⟨trivial, ?_⟩, ih _ rfl⟩
      simp [hclock, TimerOp.readings]

/-- A single timer is popped when it is due. -/
theorem popExpiredTimers_iff_single :
    let s := ofExpires .descending [10]
    PopsExpired s (popExpiredTimers .descending s 15).1
      (popExpiredTimers .descending s 15).2 15 := by
  intro s
  exact (popExpiredTimers_iff (ofExpires_reachable .descending [10]) 15).mpr
    (Or.inr ⟨0, by decide⟩)

/-- Of two timers, the one that is due stays in the queue at 15, and so does one
of the two that are due at 30. -/
theorem popExpiredTimers_iff_pair :
    let s := ofExpires .descending [10, 20]
    s.Reachable .descending ∧
    (¬ PopsExpired s (popExpiredTimers .descending s 15).1
      (popExpiredTimers .descending s 15).2 15) ∧
    (¬ PopsExpired s (popExpiredTimers .descending s 30).1
      (popExpiredTimers .descending s 30).2 30) := by
  intro s
  refine ⟨ofExpires_reachable .descending [10, 20], ?_, ?_⟩
  · intro hpops
    exact absurd hpops.returned.length_eq (by decide)
  · intro hpops
    exact absurd hpops.returned.length_eq (by decide)

end TimerQueue

end Jerry
