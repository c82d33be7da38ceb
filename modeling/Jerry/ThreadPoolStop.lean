/-
Stopping a pool: `notify_all` comes after the store of `stop`, and neither is
made under the mutex, so a worker between its predicate and its block misses
both.
-/
import Jerry.Progress
import Jerry.ThreadPool

namespace Jerry

namespace ThreadPool

variable {ops : HeapOps TaskPtr Nat} {s t : ThreadPool} {op : Op} {i j : Nat}
  {point : Point}

/-- `notify_all` of `Stop` has been executed. -/
def Notified (s : ThreadPool) : Prop :=
  s.stopPoint = .notified ∨ s.stopPoint = .joined

/-- A step that a worker makes by itself, as a spurious wakeup is not. -/
def Op.OfWorker : Op → Prop
  | .checkStop _ | .evaluate _ | .block _ | .execute _ | .finish _ | .testEmpty _
    | .discard _ | .leave _ => True
  | _ => False

/-- The pool, left to its workers. -/
def workerMachine (ops : HeapOps TaskPtr Nat) : Machine ThreadPool Op :=
  (poolMachine ops).guard fun _ op => op.OfWorker

/-- The workers come to their ends, in whatever order they go on, unless they
race with each other: they cannot go on for ever, and as long as one has not
exited some step is possible. -/
def Joins (ops : HeapOps TaskPtr Nat) (s : ThreadPool) : Prop :=
  (workerMachine ops).Ends (fun t =>
    t.undefined = true ∨ ∀ point ∈ t.workers, point = .exited) s

/-- Once `notify_all` has been executed, no worker is blocked in
`condition.wait`, and the joins are not held up. -/
structure StopsAll (ops : HeapOps TaskPtr Nat) (s : ThreadPool) : Prop where
  none_waiting : s.Notified → .waiting ∉ s.workers
  joins : s.Notified → s.Joins ops

/-- No worker is between its predicate and its block when `notify_all` is
executed. -/
def ReachesAll (s : ThreadPool) : Op → Prop
  | .notifyAll => s.Unlocked
  | _ => True

instance (s : ThreadPool) : ∀ op, Decidable (s.ReachesAll op)
  | .notifyAll => inferInstanceAs (Decidable s.Unlocked)
  | .checkStop _ => isTrue trivial
  | .evaluate _ => isTrue trivial
  | .block _ => isTrue trivial
  | .wakeUp _ => isTrue trivial
  | .execute _ => isTrue trivial
  | .finish _ => isTrue trivial
  | .testEmpty _ => isTrue trivial
  | .discard _ => isTrue trivial
  | .leave _ => isTrue trivial
  | .submitTask _ _ _ => isTrue trivial
  | .cancelTask _ => isTrue trivial
  | .takeTaskId => isTrue trivial
  | .storeStop => isTrue trivial
  | .join => isTrue trivial

/-- Every worker will see `stop`: none waits and none is about to. -/
structure Halting (s : ThreadPool) : Prop where
  stop : s.stop = true
  unlocked : s.Unlocked
  none_waiting : .waiting ∉ s.workers

section Work

/-- How many steps a worker has before it blocks or exits; a task that it takes or
discards in between adds less than four. -/
def Point.work : Point → Nat
  | .waiting | .exited => 0
  | .blocking | .leaving => 1
  | .popping => 2
  | .discarding => 3
  | .locking | .woken => 4
  | .checking => 5
  | .running _ => 6
  | .took _ => 7

def work (s : ThreadPool) : Nat :=
  (s.workers.map Point.work).sum + 4 * s.pendingTasks.length

/-- There is nothing left to do where nothing is defined. -/
def workLeft (s : ThreadPool) : Nat :=
  if s.undefined then 0 else s.work + 1

theorem work_setWorker (hi : s.workers[i]? = some point) (point' : Point) :
    (s.setWorker i point').work + point.work = s.work + point'.work := by
  have hsum := List.sum_map_set Point.work hi point'
  simp only [work, setWorker]
  omega

/-- A point from which there is less to do. -/
theorem work_setWorker_lt (hi : s.workers[i]? = some point) {point' : Point}
    (hless : point'.work < point.work) : (s.setWorker i point').work < s.work := by
  have hsum := work_setWorker hi point'
  omega

theorem length_pop {rest : List TaskPtr} (htop : s.pendingTasks = p :: rest) :
    (ops.pop s.priorityOf s.pendingTasks).length + 1 = s.pendingTasks.length := by
  have hlength := (ops.pop_perm s.priorityOf s.pendingTasks).length_eq
  rw [htop, List.tail_cons] at hlength
  rw [htop, hlength, List.length_cons]

/-- A task that leaves the queue makes up for three steps. -/
theorem work_popTask {rest : List TaskPtr} (htop : s.pendingTasks = p :: rest)
    (hi : s.workers[i]? = some point) {point' : Point}
    (hmore : point'.work < point.work + 4) (history : History) :
    ({ s.popTask ops p with history := history }.setWorker i point').work <
      s.work := by
  have hlength := @length_pop ops s p rest htop
  have hsum := work_setWorker hi point'
  simp only [work, setWorker, popTask] at hsum ⊢
  omega

theorem work_evaluate (hi : s.workers[i]? = some point)
    (hpoint : point.work = 4) : (s.evaluate ops i).work < s.work := by
  have hless {point' : Point} (h : point'.work < 4) :
      (s.setWorker i point').work < s.work := work_setWorker_lt hi (hpoint ▸ h)
  rw [ThreadPool.evaluate]
  split
  · split
    · exact hless (by decide)
    · exact hless (by decide)
  · rename_i p rest htop
    split
    · exact hless (by decide)
    · rw [takeTask]
      split
      · exact work_popTask htop hi (by rw [hpoint]; decide) _
      · exact work_popTask htop hi (by rw [hpoint]; exact Nat.lt_succ_self 7) _

variable (ops) in
/-- Every step of a worker leaves it less to do. -/
theorem work_apply (hop : op.OfWorker) (henabled : op.Enabled s) :
    (op.apply ops s).undefined = true ∨ (op.apply ops s).work < s.work := by
  cases op with
  | checkStop i =>
      right
      simp only [Op.apply, checkStop]
      split
      · exact work_setWorker_lt henabled (by decide)
      · exact work_setWorker_lt henabled (by decide)
  | evaluate i =>
      right
      rcases henabled.1 with hi | hi
      · exact work_evaluate hi rfl
      · exact work_evaluate hi rfl
  | block i => exact Or.inr (work_setWorker_lt henabled (by decide))
  | execute i =>
      obtain ⟨p, hp⟩ := Option.isSome_iff_exists.mp henabled
      right
      simp only [Op.apply, hp]
      exact work_setWorker_lt (took?_eq_some hp) (Nat.lt_succ_self 6)
  | finish i =>
      obtain ⟨p, hp⟩ := Option.isSome_iff_exists.mp henabled
      exact Or.inr (work_setWorker_lt (running?_eq_some hp) (Nat.lt_succ_self 5))
  | testEmpty i =>
      right
      simp only [Op.apply, testEmpty]
      split
      · exact work_setWorker_lt henabled (by decide)
      · exact work_setWorker_lt henabled (by decide)
  | discard i =>
      simp only [Op.apply, ThreadPool.discard]
      split
      · exact Or.inl rfl
      · rename_i p rest htop
        exact Or.inr (work_popTask htop henabled (by decide) _)
  | leave i => exact Or.inr (work_setWorker_lt henabled (by decide))
  | wakeUp i | submitTask priority task woken | cancelTask tid | takeTaskId
    | storeStop | notifyAll | join => exact hop.elim

variable (ops) in
theorem workLeft_exec (hdefined : s.undefined = false) (hop : op.OfWorker)
    (henabled : op.Enabled s) : (op.exec ops s).workLeft < s.workLeft := by
  have hleft : s.workLeft = s.work + 1 := by simp [workLeft, hdefined]
  have hundefined {t : ThreadPool} (h : t.undefined = true) :
      t.workLeft < s.workLeft := by
    have hnone : t.workLeft = 0 := by simp [workLeft, h]
    omega
  refine exec_elim (P := fun t => t.workLeft < s.workLeft) (hundefined rfl) ?_
  rcases work_apply ops hop henabled with h | hless
  · exact hundefined h
  · have hle : (op.apply ops s).workLeft ≤ (op.apply ops s).work + 1 := by
      rw [workLeft]
      split <;> omega
    omega

end Work

section Halting

theorem Halting.setWorker (h : s.Halting) (i : Nat) (hblock : point ≠ .blocking)
    (hwait : point ≠ .waiting) : (s.setWorker i point).Halting where
  stop := h.stop
  unlocked hmem := h.unlocked ((mem_setWorker hmem).resolve_left hblock.symm)
  none_waiting hmem :=
    h.none_waiting ((mem_setWorker hmem).resolve_left hwait.symm)

theorem Halting.evaluate_eq (h : s.Halting) (i : Nat) :
    s.evaluate ops i = s.setWorker i .discarding := by
  rw [evaluate]
  split
  · rw [if_pos h.stop]
  · rw [if_pos h.stop]

theorem Halting.testEmpty (h : s.Halting) (i : Nat) : (s.testEmpty i).Halting := by
  rw [ThreadPool.testEmpty]
  split
  · exact h.setWorker i (by decide) (by decide)
  · exact h.setWorker i (by decide) (by decide)

theorem Halting.discard (h : s.Halting) (i : Nat) :
    (s.discard ops i).Halting := by
  rw [ThreadPool.discard]
  split
  · exact ⟨h.stop, h.unlocked, h.none_waiting⟩
  · have hmoved : (s.setWorker i .discarding).Halting :=
      h.setWorker i (by decide) (by decide)
    exact ⟨hmoved.stop, hmoved.unlocked, hmoved.none_waiting⟩

theorem Halting.submitTask (h : s.Halting) (priority : TaskPriority)
    (task : Task) (woken : Option Nat) :
    (s.submitTask ops priority task woken).1.Halting := by
  rw [ThreadPool.submitTask]
  split
  · exact h
  · have hnew : (s.enqueue ops priority task).Halting :=
      ⟨h.stop, h.unlocked, h.none_waiting⟩
    cases woken with
    | none => exact hnew
    | some i => exact hnew.setWorker i (by decide) (by decide)

/-- Whom `notify_all` finds waiting wakes up, and a free mutex means that there
is nobody else to come. -/
theorem notifyAll_halting (hstop : s.stop = true) (hunlocked : s.Unlocked) :
    s.notifyAll.Halting where
  stop := hstop
  unlocked hmem := hunlocked (mem_notifyAll hmem (by decide)).1
  none_waiting hmem := (mem_notifyAll hmem (by decide)).2 rfl

variable (ops) in
theorem Halting.apply (h : s.Halting) (henabled : op.Enabled s) :
    (op.apply ops s).Halting := by
  cases op with
  | checkStop i =>
      simp only [Op.apply, checkStop, h.stop]
      exact h.setWorker i (by decide) (by decide)
  | evaluate i =>
      rw [Op.apply, h.evaluate_eq]
      exact h.setWorker i (by decide) (by decide)
  | block i => exact absurd (List.mem_of_getElem? henabled) h.unlocked
  | wakeUp i => exact absurd (List.mem_of_getElem? henabled) h.none_waiting
  | execute i =>
      simp only [Op.apply]
      split
      · rename_i p _
        have hmoved : (s.setWorker i (.running p)).Halting :=
          h.setWorker i (by simp) (by simp)
        exact ⟨hmoved.stop, hmoved.unlocked, hmoved.none_waiting⟩
      · exact h
  | finish i => exact h.setWorker i (by decide) (by decide)
  | testEmpty i => exact h.testEmpty i
  | discard i => exact h.discard i
  | leave i => exact h.setWorker i (by decide) (by decide)
  | submitTask priority task woken => exact h.submitTask priority task woken
  | cancelTask tid =>
      simp only [Op.apply, ThreadPool.cancelTask]
      split
      · exact h
      · split
        · exact h
        · exact ⟨h.stop, h.unlocked, h.none_waiting⟩
  | takeTaskId => exact ⟨h.stop, h.unlocked, h.none_waiting⟩
  | storeStop => exact ⟨rfl, h.unlocked, h.none_waiting⟩
  | notifyAll => exact notifyAll_halting h.stop h.unlocked
  | join => exact ⟨h.stop, h.unlocked, h.none_waiting⟩

variable (ops) in
theorem Halting.exec (h : s.Halting) (henabled : op.Enabled s) :
    (op.exec ops s).Halting :=
  exec_elim (P := Halting) ⟨h.stop, h.unlocked, h.none_waiting⟩ (h.apply ops henabled)

/-- A worker that has not exited can go on. -/
theorem Halting.moves (h : s.Halting) (hi : s.workers[i]? = some point)
    (hpoint : point ≠ .exited) : ∃ op : Op, op.OfWorker ∧ op.Enabled s := by
  cases point with
  | checking => exact ⟨.checkStop i, trivial, hi⟩
  | locking => exact ⟨.evaluate i, trivial, Or.inl hi, h.unlocked⟩
  | blocking => exact ⟨.block i, trivial, hi⟩
  | waiting => exact absurd (List.mem_of_getElem? hi) h.none_waiting
  | woken => exact ⟨.evaluate i, trivial, Or.inr hi, h.unlocked⟩
  | took p => exact ⟨.execute i, trivial, by simp [Op.Enabled, took?, hi]⟩
  | running p => exact ⟨.finish i, trivial, by simp [Op.Enabled, running?, hi]⟩
  | discarding => exact ⟨.testEmpty i, trivial, hi⟩
  | popping => exact ⟨.discard i, trivial, hi⟩
  | leaving => exact ⟨.leave i, trivial, hi⟩
  | exited => exact absurd rfl hpoint

theorem Halting.joins (h : s.Halting) : s.Joins ops := by
  refine Machine.ends_of_measure workLeft h ?_ ?_
  · rintro s op h ⟨⟨hdefined, henabled⟩, hop⟩
    exact ⟨h.exec ops henabled, workLeft_exec ops hdefined hop henabled⟩
  · intro s h hnot
    rw [not_or, Bool.not_eq_true] at hnot
    obtain ⟨hdefined, hnot⟩ := hnot
    obtain ⟨point, hmem, hpoint⟩ : ∃ point ∈ s.workers, point ≠ .exited := by
      simpa using hnot
    obtain ⟨i, hi⟩ := List.getElem?_of_mem hmem
    obtain ⟨op, hop, henabled⟩ := h.moves hi hpoint
    exact ⟨op, ⟨hdefined, henabled⟩, hop⟩

end Halting

section Reached

/-- `stop` is set first, and once all have been notified none is left out. -/
structure Reached (s : ThreadPool) : Prop where
  stored : s.stopPoint ≠ .running → s.stop = true
  halting : s.Notified → s.Halting

theorem start_reached (workers pendingSize nextTaskId : Nat) :
    (start workers pendingSize nextTaskId).Reached where
  stored h := absurd rfl h
  halting h := by rcases h with h | h <;> cases h

theorem Reached.stopsAll (h : s.Reached) : s.StopsAll ops where
  none_waiting hnotified := (h.halting hnotified).none_waiting
  joins hnotified := (h.halting hnotified).joins

/-- Only `Stop` moves on in `Stop`, and `stop` is never unset. -/
theorem apply_stop (ops : HeapOps TaskPtr Nat) (s : ThreadPool) (op : Op) :
    (s.stop = true → (op.apply ops s).stop = true) ∧
      ((op.apply ops s).stopPoint = s.stopPoint ∨ op = .storeStop ∨
        op = .notifyAll ∨ op = .join) := by
  cases op with
  | storeStop => exact ⟨fun _ => rfl, Or.inr (Or.inl rfl)⟩
  | notifyAll => exact ⟨id, Or.inr (Or.inr (Or.inl rfl))⟩
  | join => exact ⟨id, Or.inr (Or.inr (Or.inr rfl))⟩
  | evaluate i =>
      simp only [Op.apply, evaluate, takeTask]
      split
      · exact ⟨id, Or.inl rfl⟩
      · split
        · exact ⟨id, Or.inl rfl⟩
        · split
          · exact ⟨id, Or.inl rfl⟩
          · exact ⟨id, Or.inl rfl⟩
  | execute i =>
      simp only [Op.apply]
      split
      · exact ⟨id, Or.inl rfl⟩
      · exact ⟨id, Or.inl rfl⟩
  | discard i =>
      simp only [Op.apply, discard]
      split
      · exact ⟨id, Or.inl rfl⟩
      · exact ⟨id, Or.inl rfl⟩
  | submitTask priority task woken =>
      simp only [Op.apply, submitTask]
      split
      · exact ⟨id, Or.inl rfl⟩
      · cases woken with
        | none => exact ⟨id, Or.inl rfl⟩
        | some i => exact ⟨id, Or.inl rfl⟩
  | cancelTask tid =>
      simp only [Op.apply, cancelTask]
      split
      · exact ⟨id, Or.inl rfl⟩
      · split
        · exact ⟨id, Or.inl rfl⟩
        · exact ⟨id, Or.inl rfl⟩
  | checkStop i | block i | wakeUp i | finish i | testEmpty i | leave i
    | takeTaskId => exact ⟨id, Or.inl rfl⟩

theorem exec_stop (ops : HeapOps TaskPtr Nat) (s : ThreadPool) (op : Op) :
    (s.stop = true → (op.exec ops s).stop = true) ∧
      ((op.exec ops s).stopPoint = s.stopPoint ∨ op = .storeStop ∨
        op = .notifyAll ∨ op = .join) :=
  exec_elim (P := fun t => (s.stop = true → t.stop = true) ∧
    (t.stopPoint = s.stopPoint ∨ op = .storeStop ∨ op = .notifyAll ∨ op = .join))
    ⟨id, Or.inl rfl⟩ (apply_stop ops s op)

theorem Reached.exec (h : s.Reached) (henabled : op.Enabled s)
    (hreaches : s.ReachesAll op) : (op.exec ops s).Reached := by
  obtain ⟨hstop, hsame | rfl | rfl | rfl⟩ := exec_stop ops s op
  · refine ⟨fun hne => hstop (h.stored (hsame ▸ hne)), fun hnotified => ?_⟩
    rw [Notified, hsame] at hnotified
    exact (h.halting hnotified).exec ops henabled
  · refine ⟨fun _ => rfl, fun hnotified => ?_⟩
    rcases hnotified with hnotified | hnotified <;> cases hnotified
  · have hstored : s.stop = true := h.stored (by
      rw [show s.stopPoint = .stored from henabled]
      decide)
    exact ⟨fun _ => hstored, fun _ => notifyAll_halting hstored hreaches⟩
  · have hhalting := (h.halting (Or.inl henabled.1)).exec ops henabled
    exact ⟨fun _ => hhalting.stop, fun _ => hhalting⟩

end Reached

section Missed

/-- A worker that holds the mutex leaves its point by blocking and in no other
way. -/
theorem apply_blocking (hi : s.workers[i]? = some .blocking)
    (henabled : op.Enabled s) (hop : op ≠ .block i) :
    (op.apply ops s).workers[i]? = some .blocking := by
  have hlocked : ¬ s.Unlocked := fun h => h (List.mem_of_getElem? hi)
  have hkept {j : Nat} {point point' : Point} (hj : s.workers[j]? = some point')
      (hne : point' ≠ .blocking) :
      (s.setWorker j point).workers[i]? = some .blocking := by
    rw [getElem?_setWorker_ne, hi]
    rintro rfl
    rw [hi] at hj
    exact hne (Option.some.inj hj).symm
  cases op with
  | checkStop j => exact hkept henabled (by decide)
  | evaluate j => exact absurd henabled.2 hlocked
  | block j =>
      have hne : j ≠ i := fun heq => hop (heq ▸ rfl)
      exact (getElem?_setWorker_ne hne).trans hi
  | wakeUp j => exact hkept henabled (by decide)
  | execute j =>
      obtain ⟨p, hp⟩ := Option.isSome_iff_exists.mp henabled
      simp only [Op.apply, hp]
      exact hkept (took?_eq_some hp) (by simp)
  | finish j =>
      obtain ⟨p, hp⟩ := Option.isSome_iff_exists.mp henabled
      exact hkept (running?_eq_some hp) (by simp)
  | testEmpty j => exact hkept henabled (by decide)
  | discard j =>
      simp only [Op.apply, discard]
      split
      · exact hi
      · exact hkept henabled (by decide)
  | leave j => exact hkept henabled (by decide)
  | submitTask priority task woken => exact absurd henabled.1 hlocked
  | cancelTask tid =>
      simp only [Op.apply, cancelTask]
      split
      · exact hi
      · split
        · exact hi
        · exact hi
  | notifyAll =>
      change (s.workers.map _)[i]? = _
      rw [List.getElem?_map, hi]
      rfl
  | takeTaskId | storeStop | join => exact hi

theorem exec_blocking (hi : s.workers[i]? = some .blocking)
    (henabled : op.Enabled s) (hop : op ≠ .block i) :
    (op.exec ops s).workers[i]? = some .blocking :=
  exec_elim (P := fun t => t.workers[i]? = some .blocking) hi
    (apply_blocking hi henabled hop)

/-- Whom `notify_all` has come too early for stays where it is in all runs in
which nobody is missed. -/
theorem blocking_stays {labels : List Op}
    (hrun : (poolMachine ops).Run s labels t)
    (halways : (poolMachine ops).Always (StopsAll ops) s labels)
    (hnotified : s.Notified) (hi : s.workers[i]? = some .blocking) :
    t.workers[i]? = some .blocking := by
  induction hrun with
  | nil s => exact hi
  | @cons s t op labels henabled hrest ih =>
      have hrun' : (op.exec ops s).Notified := by
        obtain ⟨-, hsame | rfl | rfl | rfl⟩ := exec_stop ops s op
        · rwa [Notified, hsame]
        · have hrunning : s.stopPoint = .running := henabled.2
          rcases hnotified with h | h <;> rw [hrunning] at h <;> cases h
        · exact Or.inl rfl
        · exact Or.inr rfl
      have hnext : (op.exec ops s).StopsAll ops := by
        cases labels with
        | nil => exact halways.2
        | cons _ _ => exact halways.2.1
      refine ih halways.2 hrun' (exec_blocking hi henabled.2 ?_)
      rintro rfl
      have hlength := (List.getElem?_eq_some_iff.mp hi).1
      have hwaiting : (s.setWorker i .waiting).workers[i]? = some .waiting :=
        List.getElem?_set_self hlength
      exact hnext.none_waiting hrun' (List.mem_of_getElem? hwaiting)

/-- A run that misses nobody and leaves nobody at its block has reached all. -/
theorem guard_of_always {labels : List Op}
    (hrun : (poolMachine ops).Run s labels t) (hend : t.Unlocked)
    (halways : (poolMachine ops).Always (StopsAll ops) s labels) :
    ((poolMachine ops).guard ReachesAll).Run s labels t := by
  induction hrun with
  | nil s => exact .nil s
  | @cons s t op labels henabled hrest ih =>
      refine .cons ⟨henabled, ?_⟩ (ih hend halways.2)
      by_contra hmissed
      cases op with
      | notifyAll =>
          rw [ReachesAll, Unlocked, not_not] at hmissed
          obtain ⟨i, hi⟩ := List.getElem?_of_mem hmissed
          have hstays := blocking_stays hrest halways.2 (Or.inl rfl)
            (exec_blocking hi henabled.2 (by simp))
          exact hend (List.mem_of_getElem? hstays)
      | _ => exact hmissed trivial

end Missed

/-- `Stop` misses no worker in the runs in which no worker is between its
predicate and its block when `notify_all` is executed, and among the runs that
leave no worker there in these only. -/
theorem stop_misses_none {workers pendingSize nextTaskId : Nat}
    {labels : List Op}
    (hrun : (poolMachine ops).Run (start workers pendingSize nextTaskId) labels s) :
    (((poolMachine ops).guard ReachesAll).Run
        (start workers pendingSize nextTaskId) labels s →
      (poolMachine ops).Always (StopsAll ops)
        (start workers pendingSize nextTaskId) labels) ∧
    (s.Unlocked →
      (poolMachine ops).Always (StopsAll ops)
        (start workers pendingSize nextTaskId) labels →
      ((poolMachine ops).guard ReachesAll).Run
        (start workers pendingSize nextTaskId) labels s) := by
  refine ⟨fun hguard => ?_, fun hend => guard_of_always hrun hend⟩
  exact hguard.always_of_guard (start_reached workers pendingSize nextTaskId)
    (fun _ h => h.stopsAll) fun s op h henabled => h.exec henabled.2

instance (s : ThreadPool) (op : Op) :
    Decidable (((poolMachine ops).guard ReachesAll).enabled s op) :=
  inferInstanceAs (Decidable (_ ∧ _))

/-- A worker waits, one task is executed, and the pool is stopped. -/
theorem stop_misses_none_one :
    let labels : List Op :=
      [.checkStop 0, .evaluate 0, .block 0, .submitTask .normal 7 (some 0),
        .evaluate 0, .execute 0, .storeStop, .finish 0, .notifyAll, .checkStop 0,
        .testEmpty 0, .leave 0, .join]
    (poolMachine .descending).Always (StopsAll .descending) (start 1 0 0)
      labels := by
  intro labels
  have hguard : ((poolMachine .descending).guard ReachesAll).Run (start 1 0 0)
      labels (labels.foldl (poolMachine .descending).next (start 1 0 0)) :=
    Machine.run_iff.mpr ⟨by decide +kernel, rfl⟩
  exact (stop_misses_none hguard.of_guard).1 hguard

/-- The worker finds its predicate false, `Stop` sets `stop` and notifies all,
and then the worker blocks. -/
theorem stop_misses_none_early :
    ∃ labels s, (poolMachine .descending).Run (start 1 0 0) labels s ∧
      s.Notified ∧ .waiting ∈ s.workers := by
  refine ⟨[.checkStop 0, .evaluate 0, .storeStop, .notifyAll, .block 0], _,
    Machine.run_iff.mpr ⟨by decide +kernel, rfl⟩, Or.inl ?_, ?_⟩
  · decide +kernel
  · decide +kernel

end ThreadPool

end Jerry
