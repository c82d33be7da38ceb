/-
What becomes of the tasks of a pool: queue and map hold the same ones, and every
accepted task is pending, taken by one worker, or dropped.
-/
import Jerry.KeyIndex
import Jerry.ThreadPool

namespace Jerry

namespace ThreadPool

variable {ops : HeapOps TaskPtr Nat} {s s' : ThreadPool}

/-- The tasks that have left the queue. -/
def History.gone (h : History) : List TaskPtr :=
  h.taken.map Prod.snd ++ h.dropped ++ h.discarded

def tidOf (s : ThreadPool) (p : TaskPtr) : TaskId :=
  (s.tasks p).tid

/-- Queue, map and the record of the tasks agree, whatever the workers do. -/
structure Queued (ops : HeapOps TaskPtr Nat) (s : ThreadPool) : Prop where
  heap : ops.IsHeap s.priorityOf s.pendingTasks
  nodup : s.history.accepted.Nodup
  lt_fresh : ∀ p ∈ s.history.accepted, p < s.fresh
  identified : ∀ p ∈ s.history.accepted,
    0 ≤ s.tidOf p ∧ s.tidOf p < s.nextTaskId
  tid_inj : ∀ p ∈ s.history.accepted, ∀ q ∈ s.history.accepted,
    s.tidOf p = s.tidOf q → p = q
  mapped : ∀ tid p, s.tasksMap tid = some p ↔
    p ∈ s.pendingTasks ∧ s.tidOf p = tid
  placed : (s.pendingTasks ++ s.history.gone).Perm s.history.accepted
  bounded : s.pendingSize > 0 → s.pendingTasks.length ≤ s.pendingSize
  flagged : ∀ p ∈ s.history.accepted,
    ((s.tasks p).canceled = true ↔ p ∈ s.history.canceled)
  canceled : ∀ p ∈ s.history.canceled, p ∈ s.history.accepted
  spared : ∀ p ∈ s.history.canceled, p ∉ s.history.taken.map Prod.snd
  next_nonneg : 0 ≤ s.nextTaskId

/-- A worker that is about to execute a task has taken it and nobody has
executed it. -/
structure Executing (s : ThreadPool) : Prop where
  held : ∀ i p, s.workers[i]? = some (.took p) →
    (i, p) ∈ s.history.taken ∧ (i, p) ∉ s.history.executed
  taken : ∀ e ∈ s.history.executed, e ∈ s.history.taken
  once : s.history.executed.Nodup

/-- In the loop behind `// Stop loop`. -/
def Point.Stopping : Point → Prop
  | .discarding | .popping | .leaving => True
  | _ => False

/-- Before `Stop` nothing is discarded. -/
def Unstopped (s : ThreadPool) : Prop :=
  s.stop = false →
    s.history.discarded = [] ∧ ∀ point ∈ s.workers, ¬ point.Stopping

section Queue

/-- What the queue and the map have to say does not depend on the workers, and
ids that others take do no harm. -/
theorem Queued.frame (h : s.Queued ops) (htasks : s'.tasks = s.tasks)
    (hfresh : s'.fresh = s.fresh) (hmap : s'.tasksMap = s.tasksMap)
    (hpending : s'.pendingTasks = s.pendingTasks)
    (hsize : s'.pendingSize = s.pendingSize)
    (hid : s.nextTaskId ≤ s'.nextTaskId)
    (haccepted : s'.history.accepted = s.history.accepted)
    (htaken : s'.history.taken = s.history.taken)
    (hdropped : s'.history.dropped = s.history.dropped)
    (hdiscarded : s'.history.discarded = s.history.discarded)
    (hcanceled : s'.history.canceled = s.history.canceled) : s'.Queued ops := by
  have hkey : s'.priorityOf = s.priorityOf := by
    funext p
    rw [priorityOf, priorityOf, htasks]
  have htid : s'.tidOf = s.tidOf := by
    funext p
    rw [tidOf, tidOf, htasks]
  constructor
  · rw [hkey, hpending]
    exact h.heap
  · rw [haccepted]
    exact h.nodup
  · rw [haccepted, hfresh]
    exact h.lt_fresh
  · rw [haccepted, htid]
    intro p hp
    have hp' := h.identified p hp
    exact ⟨hp'.1, hp'.2.trans_le hid⟩
  · rw [haccepted, htid]
    exact h.tid_inj
  · rw [hmap, hpending, htid]
    exact h.mapped
  · rw [hpending, haccepted, History.gone, htaken, hdropped, hdiscarded]
    exact h.placed
  · rw [hpending, hsize]
    exact h.bounded
  · rw [haccepted, htasks, hcanceled]
    exact h.flagged
  · rw [hcanceled, haccepted]
    exact h.canceled
  · rw [hcanceled, htaken]
    exact h.spared
  · exact h.next_nonneg.trans hid

theorem Queued.accepted_of_pending (h : s.Queued ops) {p : TaskPtr}
    (hp : p ∈ s.pendingTasks) : p ∈ s.history.accepted :=
  h.placed.mem_iff.mp (List.mem_append_left _ hp)

theorem Queued.not_gone (h : s.Queued ops) {p : TaskPtr}
    (hp : p ∈ s.pendingTasks) : p ∉ s.history.gone := fun hgone =>
  (List.nodup_append.mp (h.placed.nodup_iff.mpr h.nodup)).2.2 p hp p hgone rfl

theorem Queued.indexed (h : s.Queued ops) :
    KeyIndex s.tasksMap s.pendingTasks s.tidOf :=
  h.mapped

/-- The top of the queue leaves it, and the record says where to. -/
theorem Queued.pop (h : s.Queued ops) {p : TaskPtr} {rest : List TaskPtr}
    (htop : s.pendingTasks = p :: rest) (workers : List Point)
    {history : History} (haccepted : history.accepted = s.history.accepted)
    (hcanceled : history.canceled = s.history.canceled)
    (hgone : history.gone.Perm (p :: s.history.gone))
    (hspared : ∀ q ∈ s.history.canceled, q ∉ history.taken.map Prod.snd) :
    Queued ops { s.popTask ops p with workers := workers, history := history }
    := by
  have hrest : (ops.pop s.priorityOf s.pendingTasks).Perm rest := by
    have hpop := ops.pop_perm s.priorityOf s.pendingTasks
    rw [htop] at hpop ⊢
    exact hpop
  have hpending : s.pendingTasks.Nodup :=
    (List.nodup_append.mp (h.placed.nodup_iff.mpr h.nodup)).1
  constructor
  · exact ops.isHeap_pop h.heap
  · rw [haccepted]
    exact h.nodup
  · rw [haccepted]
    exact h.lt_fresh
  · rw [haccepted]
    exact h.identified
  · rw [haccepted]
    exact h.tid_inj
  · apply h.indexed.erase (htop ▸ List.mem_cons_self)
    intro q
    change q ∈ ops.pop s.priorityOf s.pendingTasks ↔ _
    rw [htop] at hpending ⊢
    exact ops.mem_pop_of_nodup hpending
  · rw [haccepted]
    have hplaced := h.placed
    rw [htop] at hplaced
    refine List.Perm.trans ?_ hplaced
    exact (hrest.append hgone).trans List.perm_middle
  · intro hsize
    have hlength := hrest.length_eq
    have hbound := h.bounded hsize
    rw [htop, List.length_cons] at hbound
    simp only [popTask] at hsize ⊢
    omega
  · rw [haccepted, hcanceled]
    exact h.flagged
  · rw [haccepted, hcanceled]
    exact h.canceled
  · rw [hcanceled]
    exact hspared
  · exact h.next_nonneg

theorem mem_enqueue {priority : TaskPriority} {task : Task} {p : TaskPtr} :
    p ∈ (s.enqueue ops priority task).pendingTasks ↔
      p = s.fresh ∨ p ∈ s.pendingTasks :=
  ops.mem_push

section Enqueue

variable {priority : TaskPriority} {task : Task}

theorem enqueue_tasks_fresh : (s.enqueue ops priority task).tasks s.fresh =
    ⟨task, s.nextTaskId, false, priority⟩ :=
  Function.update_self _ _ _

theorem Queued.fresh_not_accepted (h : s.Queued ops) :
    s.fresh ∉ s.history.accepted := fun hmem =>
  Nat.lt_irrefl _ (h.lt_fresh _ hmem)

/-- The tasks that are already there stay as they are. -/
theorem Queued.enqueue_tasks (h : s.Queued ops) {p : TaskPtr}
    (hp : p ∈ s.history.accepted) :
    (s.enqueue ops priority task).tasks p = s.tasks p := by
  have hne : p ≠ s.fresh := fun heq => h.fresh_not_accepted (heq ▸ hp)
  exact Function.update_of_ne hne _ _

theorem Queued.enqueue_tidOf (h : s.Queued ops) {p : TaskPtr}
    (hp : p ∈ s.history.accepted) :
    (s.enqueue ops priority task).tidOf p = s.tidOf p :=
  congrArg TaskStruct.tid (h.enqueue_tasks hp)

theorem enqueue_tidOf_fresh :
    (s.enqueue ops priority task).tidOf s.fresh = s.nextTaskId :=
  congrArg TaskStruct.tid enqueue_tasks_fresh

/-- Nothing that was accepted has the next id. -/
theorem Queued.tidOf_ne_next (h : s.Queued ops) {p : TaskPtr}
    (hp : p ∈ s.history.accepted) : s.tidOf p ≠ s.nextTaskId :=
  Int.ne_of_lt (h.identified p hp).2

theorem Queued.enqueue_identified (h : s.Queued ops) {p : TaskPtr}
    (hp : p ∈ (s.enqueue ops priority task).history.accepted) :
    0 ≤ (s.enqueue ops priority task).tidOf p ∧
      (s.enqueue ops priority task).tidOf p < s.nextTaskId + 1 := by
  rcases List.mem_cons.mp hp with rfl | hp
  · rw [enqueue_tidOf_fresh]
    exact ⟨h.next_nonneg, Int.lt_succ _⟩
  · obtain ⟨hnonneg, hlt⟩ := h.identified p hp
    rw [h.enqueue_tidOf hp]
    exact ⟨hnonneg, Int.lt_trans hlt (Int.lt_succ _)⟩

theorem Queued.enqueue_tid_inj (h : s.Queued ops) {p q : TaskPtr}
    (hp : p ∈ (s.enqueue ops priority task).history.accepted)
    (hq : q ∈ (s.enqueue ops priority task).history.accepted)
    (heq : (s.enqueue ops priority task).tidOf p =
      (s.enqueue ops priority task).tidOf q) : p = q := by
  rcases List.mem_cons.mp hp with rfl | hp <;>
    rcases List.mem_cons.mp hq with rfl | hq
  · rfl
  · rw [enqueue_tidOf_fresh, h.enqueue_tidOf hq] at heq
    exact absurd heq.symm (h.tidOf_ne_next hq)
  · rw [enqueue_tidOf_fresh, h.enqueue_tidOf hp] at heq
    exact absurd heq (h.tidOf_ne_next hp)
  · rw [h.enqueue_tidOf hp, h.enqueue_tidOf hq] at heq
    exact h.tid_inj p hp q hq heq

/-- The new task is entered under its id. -/
theorem Queued.enqueue_indexed (h : s.Queued ops) :
    KeyIndex (s.enqueue ops priority task).tasksMap
      (s.enqueue ops priority task).pendingTasks
      (s.enqueue ops priority task).tidOf := by
  have hfree : ∀ p ∈ s.pendingTasks, s.tidOf p ≠ s.nextTaskId := fun p hp =>
    h.tidOf_ne_next (h.accepted_of_pending hp)
  have hmap : (s.enqueue ops priority task).tasksMap =
      Function.update s.tasksMap s.nextTaskId (some s.fresh) :=
    if_pos (h.indexed.eq_none hfree)
  have hindex : KeyIndex s.tasksMap s.pendingTasks
      (s.enqueue ops priority task).tidOf :=
    h.indexed.congr_key fun p hp => h.enqueue_tidOf (h.accepted_of_pending hp)
  have hkey : (s.enqueue ops priority task).tidOf s.fresh = s.nextTaskId :=
    enqueue_tidOf_fresh
  rw [hmap, ← hkey]
  apply hindex.insert
  · intro p hp
    rw [hkey, h.enqueue_tidOf (h.accepted_of_pending hp)]
    exact hfree p hp
  · exact fun p => mem_enqueue

theorem Queued.enqueue (h : s.Queued ops) (hroom : ¬ s.full)
    (priority : TaskPriority) (task : Task) :
    (s.enqueue ops priority task).Queued ops := by
  have hheap : ops.IsHeap (s.enqueue ops priority task).priorityOf
      s.pendingTasks := by
    refine ops.isHeap_congr (fun p hp => ?_) h.heap
    rw [priorityOf, priorityOf, h.enqueue_tasks (h.accepted_of_pending hp)]
  constructor
  · exact ops.isHeap_push s.fresh hheap
  · exact List.nodup_cons.mpr ⟨h.fresh_not_accepted, h.nodup⟩
  · intro p hp
    rcases List.mem_cons.mp hp with rfl | hp
    · exact Nat.lt_succ_self _
    · exact Nat.lt_succ_of_lt (h.lt_fresh p hp)
  · exact fun p hp => h.enqueue_identified hp
  · exact fun p hp q hq heq => h.enqueue_tid_inj hp hq heq
  · exact h.enqueue_indexed
  · refine ((ops.push_perm _ _ _).append_right _).trans ?_
    exact h.placed.cons s.fresh
  · intro hsize
    have hlength := (ops.push_perm (s.enqueue ops priority task).priorityOf
      s.fresh s.pendingTasks).length_eq
    have hfits : s.pendingTasks.length < s.pendingSize := by
      by_contra hnot
      exact hroom ⟨hsize, by omega⟩
    change (ops.push _ s.fresh s.pendingTasks).length ≤ s.pendingSize
    rw [List.length_cons] at hlength
    exact hlength.trans_le hfits
  · intro p hp
    rcases List.mem_cons.mp hp with rfl | hp
    · rw [enqueue_tasks_fresh]
      exact iff_of_false (by simp) fun hmem =>
        h.fresh_not_accepted (h.canceled _ hmem)
    · rw [h.enqueue_tasks hp]
      exact h.flagged p hp
  · exact fun p hp => List.mem_cons_of_mem _ (h.canceled p hp)
  · exact h.spared
  · exact h.next_nonneg.trans (Int.le_of_lt (Int.lt_succ _))

end Enqueue

/-- `CancelTask` finds exactly the pending tasks. -/
theorem Queued.cancelTask_iff (h : s.Queued ops) (tid : TaskId) :
    (s.cancelTask tid).2 = true ↔ ∃ p ∈ s.pendingTasks, s.tidOf p = tid := by
  rw [cancelTask]
  split
  · rename_i hlarge
    refine iff_of_false (by simp) ?_
    rintro ⟨p, hp, rfl⟩
    exact absurd (h.identified p (h.accepted_of_pending hp)).2
      (Int.not_lt.mpr hlarge)
  · split
    · rename_i hnone
      refine iff_of_false (by simp) ?_
      rintro ⟨p, hp, htid⟩
      rw [(h.mapped tid p).mpr ⟨hp, htid⟩] at hnone
      cases hnone
    · rename_i p hsome
      exact iff_of_true rfl ⟨p, (h.mapped tid p).mp hsome⟩

/-- It marks the task it finds, or nothing. -/
theorem cancelTask_cases (s : ThreadPool) (tid : TaskId) :
    s.cancelTask tid = (s, false) ∨
      ∃ p, s.tasksMap tid = some p ∧ s.cancelTask tid =
        ({ s with
          tasks := Function.update s.tasks p { s.tasks p with canceled := true }
          history := { s.history with canceled := p :: s.history.canceled } },
          true) := by
  rw [cancelTask]
  split
  · exact Or.inl rfl
  · split
    · exact Or.inl rfl
    · rename_i p hsome
      exact Or.inr ⟨p, hsome, rfl⟩

theorem Queued.cancelTask (h : s.Queued ops) (tid : TaskId) :
    (s.cancelTask tid).1.Queued ops := by
  rcases cancelTask_cases s tid with heq | ⟨p, hsome, heq⟩
  · rw [heq]
    exact h
  rw [heq]
  obtain ⟨hp, -⟩ := (h.mapped tid p).mp hsome
  have hfield {α : Type} (f : TaskStruct → α)
      (hf : f { s.tasks p with canceled := true } = f (s.tasks p)) (q : TaskPtr) :
      f (Function.update s.tasks p { s.tasks p with canceled := true } q) =
        f (s.tasks q) := by
    by_cases hq : q = p
    · subst hq
      rw [Function.update_self, hf]
    · rw [Function.update_of_ne hq]
  have htid := hfield TaskStruct.tid rfl
  have hpriority := hfield (fun task => task.priority.value) rfl
  constructor
  · exact ops.isHeap_congr (fun q _ => (hpriority q).symm) h.heap
  · exact h.nodup
  · exact h.lt_fresh
  · intro q hq
    simp only [tidOf, htid]
    exact h.identified q hq
  · intro q hq r hr
    simp only [tidOf, htid]
    exact h.tid_inj q hq r hr
  · exact h.indexed.congr_key fun q _ => htid q
  · exact h.placed
  · exact h.bounded
  · intro q hq
    by_cases hqp : q = p
    · subst hqp
      simp
    · simp only [Function.update_of_ne hqp, List.mem_cons, hqp, false_or]
      exact h.flagged q hq
  · intro q hq
    rcases List.mem_cons.mp hq with rfl | hq
    · exact h.accepted_of_pending hp
    · exact h.canceled q hq
  · intro q hq htaken
    rcases List.mem_cons.mp hq with rfl | hq
    · refine h.not_gone hp ?_
      simp only [History.gone, List.mem_append]
      exact Or.inl (Or.inl htaken)
    · exact h.spared q hq htaken
  · exact h.next_nonneg

end Queue

section Workers

variable {i : Nat} {p : TaskPtr} {point : Point}

/-- Steps by which no worker gets a task. -/
theorem Executing.frame (h : s.Executing)
    (hworkers : ∀ (i : Nat) (p : TaskPtr), s'.workers[i]? = some (.took p) →
      s.workers[i]? = some (.took p))
    (htaken : s'.history.taken = s.history.taken)
    (hexecuted : s'.history.executed = s.history.executed) : s'.Executing := by
  refine ⟨fun i p hp => ?_, ?_, ?_⟩
  · rw [htaken, hexecuted]
    exact h.held i p (hworkers i p hp)
  · rw [htaken, hexecuted]
    exact h.taken
  · rw [hexecuted]
    exact h.once

theorem took_of_setWorker (hpoint : ∀ p, point ≠ .took p) (j : Nat)
    (q : TaskPtr) (hq : (s.setWorker i point).workers[j]? = some (.took q)) :
    s.workers[j]? = some (.took q) := by
  rcases getElem?_setWorker hq with ⟨-, heq⟩ | ⟨-, hsame⟩
  · exact absurd heq.symm (hpoint q)
  · exact hsame

/-- A worker takes a task that was pending. -/
theorem Executing.take (h : s.Executing) (hfree : p ∉ s.history.taken.map Prod.snd)
    (htaken : s'.history.taken = (i, p) :: s.history.taken)
    (hexecuted : s'.history.executed = s.history.executed)
    (hworkers : s'.workers = (s.setWorker i (.took p)).workers) :
    s'.Executing := by
  have hnew : (i, p) ∉ s.history.executed := fun hmem =>
    hfree (List.mem_map.mpr ⟨_, h.taken _ hmem, rfl⟩)
  refine ⟨fun j q hq => ?_, fun e he => ?_, ?_⟩
  · rw [hworkers] at hq
    rw [htaken, hexecuted]
    rcases getElem?_setWorker hq with ⟨rfl, heq⟩ | ⟨-, hsame⟩
    · cases heq
      exact ⟨List.mem_cons_self, hnew⟩
    · exact ⟨List.mem_cons_of_mem _ (h.held j q hsame).1, (h.held j q hsame).2⟩
  · rw [hexecuted] at he
    rw [htaken]
    exact List.mem_cons_of_mem _ (h.taken e he)
  · rw [hexecuted]
    exact h.once

theorem Executing.execute (h : s.Executing)
    (hp : s.workers[i]? = some (.took p)) : (s.execute i p).Executing := by
  obtain ⟨htaken, hnew⟩ := h.held i p hp
  refine ⟨fun j q hq => ?_, fun e he => ?_, List.nodup_cons.mpr ⟨hnew, h.once⟩⟩
  · rcases getElem?_setWorker hq with ⟨-, heq⟩ | ⟨hne, hsame⟩
    · cases heq
    · refine ⟨(h.held j q hsame).1, fun hmem => ?_⟩
      rcases List.mem_cons.mp hmem with heq | hmem
      · cases heq
        exact hne rfl
      · exact (h.held j q hsame).2 hmem
  · rcases List.mem_cons.mp he with rfl | he
    · exact htaken
    · exact h.taken e he

end Workers

structure Rep (ops : HeapOps TaskPtr Nat) (s : ThreadPool) : Prop where
  queued : s.Queued ops
  executing : s.Executing
  unstopped : s.Unstopped

theorem start_rep (workers pendingSize nextTaskId : Nat) :
    (start workers pendingSize nextTaskId).Rep ops := by
  have hworkers (point : Point) (h : point ∈
      (start workers pendingSize nextTaskId).workers) : point = .checking :=
    List.eq_of_mem_replicate h
  refine ⟨?_, ?_, fun _ => ⟨rfl, fun point h => ?_⟩⟩
  · refine ⟨ops.isHeap_nil _, .nil, ?_, ?_, ?_, fun tid p => ?_, .refl _,
      fun _ => Nat.zero_le _, ?_, ?_, ?_, Int.natCast_nonneg _⟩
    iterate 3 exact List.forall_mem_nil _
    · exact iff_of_false (by simp [start]) fun h => List.not_mem_nil h.1
    iterate 3 exact List.forall_mem_nil _
  · refine ⟨fun i p hp => ?_, List.forall_mem_nil _, .nil⟩
    cases hworkers _ (List.mem_of_getElem? hp)
  · rw [hworkers point h]
    exact id

/-- A worker goes from one point to another. -/
theorem Rep.setWorker (h : s.Rep ops) (i : Nat) {point : Point}
    (hpoint : ∀ p, point ≠ .took p)
    (hstopping : point.Stopping → s.stop = true) :
    (s.setWorker i point).Rep ops := by
  refine ⟨h.queued.frame rfl rfl rfl rfl rfl (Int.le_refl _) rfl rfl rfl rfl rfl,
    h.executing.frame (took_of_setWorker hpoint) rfl rfl, fun hstop => ?_⟩
  obtain ⟨hnone, hworkers⟩ := h.unstopped hstop
  refine ⟨hnone, fun point' hmem => ?_⟩
  rcases mem_setWorker hmem with rfl | hmem
  · exact fun h' => absurd (hstopping h') (Bool.eq_false_iff.mp hstop)
  · exact hworkers point' hmem

/-- Whoever is in the loop has seen `stop`. -/
theorem Rep.stop_of_stopping (h : s.Rep ops) {i : Nat} {point : Point}
    (hi : s.workers[i]? = some point) (hpoint : point.Stopping) :
    s.stop = true := by
  by_contra hstop
  rw [Bool.not_eq_true] at hstop
  exact (h.unstopped hstop).2 point (List.mem_of_getElem? hi) hpoint

theorem Rep.takeTask (h : s.Rep ops) {i : Nat} {p : TaskPtr}
    {rest : List TaskPtr} (htop : s.pendingTasks = p :: rest)
    (hstop : s.stop = false) : (s.takeTask ops i p).Rep ops := by
  have hp : p ∈ s.pendingTasks := htop ▸ List.mem_cons_self
  have hfree : p ∉ s.history.taken.map Prod.snd := fun hmem => by
    refine h.queued.not_gone hp ?_
    simp only [History.gone, List.mem_append]
    exact Or.inl (Or.inl hmem)
  obtain ⟨hnone, hworkers⟩ := h.unstopped hstop
  rw [ThreadPool.takeTask]
  split
  · refine ⟨h.queued.pop htop _ rfl rfl ?_ h.queued.spared,
      h.executing.frame (took_of_setWorker (by simp)) rfl rfl,
      fun _ => ⟨hnone, fun point hmem => ?_⟩⟩
    · have hmiddle : (s.history.taken.map Prod.snd ++ p :: s.history.dropped).Perm
          (p :: (s.history.taken.map Prod.snd ++ s.history.dropped)) :=
        List.perm_middle
      exact hmiddle.append_right _
    · rcases mem_setWorker hmem with rfl | hmem
      · exact id
      · exact hworkers point hmem
  · rename_i hflag
    refine ⟨h.queued.pop htop _ rfl rfl (.refl _) ?_,
      h.executing.take hfree rfl rfl rfl,
      fun _ => ⟨hnone, fun point hmem => ?_⟩⟩
    · intro q hq hmem
      rcases List.mem_cons.mp hmem with rfl | hmem
      · exact hflag ((h.queued.flagged _
          (h.queued.accepted_of_pending hp)).mpr hq)
      · exact h.queued.spared q hq hmem
    · rcases mem_setWorker hmem with rfl | hmem
      · exact id
      · exact hworkers point hmem

theorem Rep.evaluate (h : s.Rep ops) (i : Nat) : (s.evaluate ops i).Rep ops := by
  rw [ThreadPool.evaluate]
  split
  · split
    · rename_i hstop
      exact h.setWorker i (by simp) fun _ => hstop
    · exact h.setWorker i (by simp) False.elim
  · rename_i p rest htop
    split
    · rename_i hstop
      exact h.setWorker i (by simp) fun _ => hstop
    · rename_i hstop
      exact h.takeTask htop (Bool.not_eq_true _ ▸ hstop)

/-- What is undefined has happened to nothing that is recorded. -/
theorem Rep.undefined (h : s.Rep ops) : Rep ops { s with undefined := true } :=
  ⟨h.queued.frame rfl rfl rfl rfl rfl (Int.le_refl _) rfl rfl rfl rfl rfl,
    h.executing.frame (fun _ _ hp => hp) rfl rfl, h.unstopped⟩

theorem Rep.testEmpty (h : s.Rep ops) {i : Nat}
    (henabled : s.workers[i]? = some .discarding) : (s.testEmpty i).Rep ops := by
  have hstop := h.stop_of_stopping henabled trivial
  rw [ThreadPool.testEmpty]
  split
  · exact h.setWorker i (by simp) fun _ => hstop
  · exact h.setWorker i (by simp) fun _ => hstop

theorem Rep.discard (h : s.Rep ops) {i : Nat}
    (henabled : s.workers[i]? = some .popping) : (s.discard ops i).Rep ops := by
  have hstop := h.stop_of_stopping henabled trivial
  rw [ThreadPool.discard]
  split
  · exact h.undefined
  · rename_i p rest htop
    refine ⟨h.queued.pop htop _ rfl rfl ?_ h.queued.spared,
      h.executing.frame (took_of_setWorker (by simp)) rfl rfl, fun hnot => ?_⟩
    · exact @List.perm_middle _ p
        (s.history.taken.map Prod.snd ++ s.history.dropped) s.history.discarded
    · exact absurd hstop (Bool.eq_false_iff.mp hnot)

theorem Rep.submitTask (h : s.Rep ops) (priority : TaskPriority) (task : Task)
    (woken : Option Nat) : (s.submitTask ops priority task woken).1.Rep ops := by
  rw [ThreadPool.submitTask]
  split
  · exact h
  · rename_i hroom
    have hnew : (s.enqueue ops priority task).Rep ops :=
      ⟨h.queued.enqueue hroom priority task,
        h.executing.frame (fun _ _ hp => hp) rfl rfl, h.unstopped⟩
    cases woken with
    | none => exact hnew
    | some i => exact hnew.setWorker i (by simp) False.elim

theorem Rep.cancelTask (h : s.Rep ops) (tid : TaskId) :
    (s.cancelTask tid).1.Rep ops := by
  refine ⟨h.queued.cancelTask tid, ?_, ?_⟩
  · rcases cancelTask_cases s tid with heq | ⟨p, -, heq⟩
    · rw [heq]
      exact h.executing
    · rw [heq]
      exact h.executing.frame (fun _ _ hp => hp) rfl rfl
  · rcases cancelTask_cases s tid with heq | ⟨p, -, heq⟩
    · rw [heq]
      exact h.unstopped
    · rw [heq]
      exact h.unstopped

theorem Rep.notifyAll (h : s.Rep ops) : s.notifyAll.Rep ops := by
  refine ⟨h.queued.frame rfl rfl rfl rfl rfl (Int.le_refl _) rfl rfl rfl rfl rfl,
    h.executing.frame (fun i p hi => (getElem?_notifyAll hi (by simp)).1) rfl rfl,
    fun hstop => ?_⟩
  obtain ⟨hnone, hworkers⟩ := h.unstopped hstop
  refine ⟨hnone, fun point hmem hpoint => ?_⟩
  refine hworkers point (mem_notifyAll hmem ?_).1 hpoint
  rintro rfl
  exact hpoint

theorem Rep.apply (h : s.Rep ops) {op : Op} (henabled : op.Enabled s) :
    (op.apply ops s).Rep ops := by
  have hframe {s' : ThreadPool} (htasks : s'.tasks = s.tasks)
      (hfresh : s'.fresh = s.fresh) (hmap : s'.tasksMap = s.tasksMap)
      (hpending : s'.pendingTasks = s.pendingTasks)
      (hsize : s'.pendingSize = s.pendingSize)
      (hid : s.nextTaskId ≤ s'.nextTaskId) (hhistory : s'.history = s.history)
      (hworkers : s'.workers = s.workers)
      (hstop : s'.stop = false → s.stop = false) : s'.Rep ops := by
    refine ⟨h.queued.frame htasks hfresh hmap hpending hsize hid ?_ ?_ ?_ ?_ ?_,
      h.executing.frame (by simp [hworkers]) ?_ ?_, fun hnot => ?_⟩
    iterate 7 rw [hhistory]
    rw [hhistory, hworkers]
    exact h.unstopped (hstop hnot)
  cases op with
  | checkStop i =>
      simp only [Op.apply, checkStop]
      split
      · rename_i hstop
        exact h.setWorker i (by simp) fun _ => hstop
      · exact h.setWorker i (by simp) False.elim
  | evaluate i => exact h.evaluate i
  | block i => exact h.setWorker i (by simp) False.elim
  | wakeUp i => exact h.setWorker i (by simp) False.elim
  | execute i =>
      simp only [Op.apply]
      split
      · rename_i p hp
        have hmoved : (s.setWorker i (.running p)).Rep ops :=
          h.setWorker i (by simp) False.elim
        exact ⟨h.queued.frame rfl rfl rfl rfl rfl (Int.le_refl _) rfl rfl rfl rfl
          rfl, h.executing.execute (took?_eq_some hp), hmoved.unstopped⟩
      · exact h
  | finish i => exact h.setWorker i (by simp) False.elim
  | testEmpty i => exact h.testEmpty henabled
  | discard i => exact h.discard henabled
  | leave i => exact h.setWorker i (by simp) False.elim
  | submitTask priority task woken => exact h.submitTask priority task woken
  | cancelTask tid => exact h.cancelTask tid
  | takeTaskId =>
      exact hframe rfl rfl rfl rfl rfl (Int.le_of_lt (Int.lt_succ _)) rfl rfl id
  | storeStop =>
      exact hframe rfl rfl rfl rfl rfl (Int.le_refl _) rfl rfl
        fun hnot => by cases hnot
  | notifyAll => exact h.notifyAll
  | join => exact hframe rfl rfl rfl rfl rfl (Int.le_refl _) rfl rfl id

/-- The step lemma. -/
theorem Rep.exec (h : s.Rep ops) {op : Op} (henabled : op.Enabled s) :
    (op.exec ops s).Rep ops :=
  exec_elim (P := Rep ops) h.undefined (h.apply henabled)

theorem Rep.run (h : s.Rep ops) {labels : List Op}
    (hrun : (poolMachine ops).Run s labels s') : s'.Rep ops :=
  hrun.invariant h fun _ _ hs henabled => hs.exec henabled.2

section Later

/-- Nothing that was accepted or canceled is forgotten, and ids stay. -/
structure Continues (s t : ThreadPool) : Prop where
  accepted : ∀ p ∈ s.history.accepted,
    p ∈ t.history.accepted ∧ t.tidOf p = s.tidOf p
  canceled : ∀ p ∈ s.history.canceled, p ∈ t.history.canceled

theorem Continues.trans {t : ThreadPool} (h : s.Continues s')
    (h' : s'.Continues t) : s.Continues t where
  accepted p hp := by
    obtain ⟨hp', htid⟩ := h.accepted p hp
    exact ⟨(h'.accepted p hp').1, (h'.accepted p hp').2.trans htid⟩
  canceled p hp := h'.canceled p (h.canceled p hp)

theorem continues_of_same (haccepted : s'.history.accepted = s.history.accepted)
    (hcanceled : s'.history.canceled = s.history.canceled)
    (htasks : s'.tasks = s.tasks) : s.Continues s' where
  accepted p hp := by
    rw [haccepted, tidOf, tidOf, htasks]
    exact ⟨hp, rfl⟩
  canceled p hp := by
    rw [hcanceled]
    exact hp

theorem evaluate_continues (s : ThreadPool) (i : Nat) :
    s.Continues (s.evaluate ops i) := by
  rw [evaluate]
  split
  · exact continues_of_same rfl rfl rfl
  · split
    · exact continues_of_same rfl rfl rfl
    · rw [takeTask]
      split
      · exact continues_of_same rfl rfl rfl
      · exact continues_of_same rfl rfl rfl

theorem Rep.submitTask_continues (h : s.Rep ops) (priority : TaskPriority)
    (task : Task) (woken : Option Nat) :
    s.Continues (s.submitTask ops priority task woken).1 := by
  rw [ThreadPool.submitTask]
  split
  · exact continues_of_same rfl rfl rfl
  · have hnew : s.Continues (s.enqueue ops priority task) := by
      refine ⟨fun p hp => ⟨List.mem_cons_of_mem _ hp, ?_⟩, fun _ hp => hp⟩
      have hne : p ≠ s.fresh := fun heq =>
        Nat.lt_irrefl _ (heq ▸ h.queued.lt_fresh p hp)
      exact congrArg TaskStruct.tid (Function.update_of_ne hne _ _)
    cases woken with
    | none => exact hnew
    | some i => exact hnew.trans (continues_of_same rfl rfl rfl)

theorem cancelTask_continues (s : ThreadPool) (tid : TaskId) :
    s.Continues (s.cancelTask tid).1 := by
  rcases cancelTask_cases s tid with heq | ⟨p, -, heq⟩
  · rw [heq]
    exact continues_of_same rfl rfl rfl
  · rw [heq]
    refine ⟨fun q hq => ⟨hq, ?_⟩, fun q hq => List.mem_cons_of_mem _ hq⟩
    by_cases hqp : q = p
    · subst hqp
      simp [tidOf]
    · simp [tidOf, Function.update_of_ne hqp]

theorem Rep.apply_continues (h : s.Rep ops) (op : Op) :
    s.Continues (op.apply ops s) := by
  cases op with
  | evaluate i => exact evaluate_continues s i
  | execute i =>
      simp only [Op.apply]
      split
      · exact continues_of_same rfl rfl rfl
      · exact continues_of_same rfl rfl rfl
  | discard i =>
      simp only [Op.apply, ThreadPool.discard]
      split
      · exact continues_of_same rfl rfl rfl
      · exact continues_of_same rfl rfl rfl
  | submitTask priority task woken =>
      exact h.submitTask_continues priority task woken
  | cancelTask tid => exact cancelTask_continues s tid
  | checkStop i | block i | wakeUp i | finish i | testEmpty i | leave i
    | takeTaskId | storeStop | notifyAll | join =>
      exact continues_of_same rfl rfl rfl

theorem Rep.exec_continues (h : s.Rep ops) (op : Op) :
    s.Continues (op.exec ops s) :=
  exec_elim (P := s.Continues) (continues_of_same rfl rfl rfl) (h.apply_continues op)

theorem Rep.continues (h : s.Rep ops) {labels : List Op}
    (hrun : (poolMachine ops).Run s labels s') : s.Continues s' :=
  (hrun.invariant (P := fun t => t.Rep ops ∧ s.Continues t)
    ⟨h, continues_of_same rfl rfl rfl⟩ fun _ op ht henabled =>
      ⟨ht.1.exec henabled.2, ht.2.trans (ht.1.exec_continues op)⟩).2

end Later

/-- What the containers and the record say about the tasks in one state. -/
structure Accounted (s : ThreadPool) : Prop where
  distinct : (s.history.accepted.map s.tidOf).Nodup
  nonneg : ∀ p ∈ s.history.accepted, 0 ≤ s.tidOf p
  mapped : ∀ tid p, s.tasksMap tid = some p ↔
    p ∈ s.pendingTasks ∧ s.tidOf p = tid
  bounded : s.pendingSize > 0 → s.pendingTasks.length ≤ s.pendingSize
  placed : s.history.accepted.Nodup ∧
    (s.pendingTasks ++ s.history.taken.map Prod.snd ++ s.history.dropped).Perm
      s.history.accepted
  executed : (s.history.executed.map Prod.snd).Nodup ∧
    ∀ e ∈ s.history.executed, e ∈ s.history.taken

/-- What the operations answer in one state. -/
structure Answers (ops : HeapOps TaskPtr Nat) (s : ThreadPool) : Prop where
  rejects : ∀ priority task woken,
    (s.submitTask ops priority task woken).2 = -1 →
      (s.submitTask ops priority task woken).1 = s
  accepts : ∀ priority task woken,
    (s.submitTask ops priority task woken).2 ≠ -1 →
      0 ≤ (s.submitTask ops priority task woken).2 ∧
      ∃ p ∉ s.history.accepted,
        (s.submitTask ops priority task woken).1.history.accepted =
          p :: s.history.accepted ∧
        (s.submitTask ops priority task woken).1.tidOf p =
          (s.submitTask ops priority task woken).2
  cancels : ∀ tid, (s.cancelTask tid).2 = true ↔
    ∃ p ∈ s.pendingTasks, s.tidOf p = tid
  cancelled : ∀ tid, (s.cancelTask tid).2 = true →
    ∃ p ∈ (s.cancelTask tid).1.history.canceled, s.tidOf p = tid
  takes : ∀ i p, (s.evaluate ops i).history.taken = (i, p) :: s.history.taken →
    p ∈ s.pendingTasks ∧ ∀ q ∈ s.pendingTasks, s.priorityOf q ≤ s.priorityOf p

theorem Rep.accounted (h : s.Rep ops) (hstop : s.stop = false) :
    s.Accounted where
  distinct := by
    refine List.Nodup.map_on ?_ h.queued.nodup
    exact fun p hp q hq heq => h.queued.tid_inj p hp q hq heq
  nonneg p hp := (h.queued.identified p hp).1
  mapped := h.queued.mapped
  bounded := h.queued.bounded
  placed := by
    have hplaced := h.queued.placed
    rw [History.gone, (h.unstopped hstop).1, List.append_nil,
      ← List.append_assoc] at hplaced
    exact ⟨h.queued.nodup, hplaced⟩
  executed := by
    refine ⟨List.Nodup.map_on ?_ h.executing.once, h.executing.taken⟩
    have hall := (List.nodup_append.mp
      (h.queued.placed.nodup_iff.mpr h.queued.nodup)).2.1
    have htaken : (s.history.taken.map Prod.snd).Nodup := by
      rw [History.gone, List.append_assoc] at hall
      exact (List.nodup_append.mp hall).1
    intro e he e' he' heq
    exact List.inj_on_of_nodup_map htaken (h.executing.taken e he)
      (h.executing.taken e' he') heq

theorem evaluate_taken {i : Nat} {e : Nat × TaskPtr}
    (htaken : (s.evaluate ops i).history.taken = e :: s.history.taken) :
    ∃ rest, s.pendingTasks = e.2 :: rest := by
  have hsame (history : History) (heq : history.taken = e :: history.taken) :
      False := absurd (congrArg List.length heq) (by simp)
  rw [evaluate] at htaken
  split at htaken
  · exact (hsame _ htaken).elim
  · rename_i p rest htop
    split at htaken
    · exact (hsame _ htaken).elim
    · rw [takeTask] at htaken
      split at htaken
      · exact (hsame s.history htaken).elim
      · rw [← (List.cons.inj htaken).1]
        exact ⟨rest, htop⟩

theorem Rep.answers (h : s.Rep ops) : s.Answers ops where
  rejects priority task woken hreject := by
    by_cases hroom : s.full
    · rw [ThreadPool.submitTask, if_pos hroom]
    · rw [ThreadPool.submitTask, if_neg hroom] at hreject
      have hid : 0 ≤ (-1 : Int) := hreject ▸ h.queued.next_nonneg
      exact absurd hid (by decide)
  accepts priority task woken haccept := by
    by_cases hroom : s.full
    · rw [ThreadPool.submitTask, if_pos hroom] at haccept
      exact absurd rfl haccept
    · rw [ThreadPool.submitTask, if_neg hroom]
      refine ⟨h.queued.next_nonneg, s.fresh, ?_, ?_, ?_⟩
      · exact fun hmem => Nat.lt_irrefl _ (h.queued.lt_fresh _ hmem)
      · cases woken <;> rfl
      · have hnew : (s.enqueue ops priority task).tidOf s.fresh =
            s.nextTaskId := by
          simp [tidOf, enqueue]
        cases woken with
        | none => exact hnew
        | some i => exact hnew
  cancels := h.queued.cancelTask_iff
  cancelled tid htrue := by
    rcases cancelTask_cases s tid with heq | ⟨p, hp, heq⟩
    · rw [heq] at htrue
      cases htrue
    · rw [heq]
      exact ⟨p, List.mem_cons_self, ((h.queued.mapped tid p).mp hp).2⟩
  takes i p htaken := by
    obtain ⟨rest, htop⟩ := evaluate_taken htaken
    refine ⟨htop ▸ List.mem_cons_self, fun q hq => ?_⟩
    have hheap := h.queued.heap
    rw [htop] at hheap hq
    exact ops.le_head_of_mem hheap hq

theorem Rep.canceled_not_executed (h : s.Rep ops) {p : TaskPtr}
    (hp : p ∈ s.history.canceled) : p ∉ s.history.executed.map Prod.snd := by
  intro hmem
  obtain ⟨e, he, rfl⟩ := List.mem_map.mp hmem
  exact h.queued.spared _ hp (List.mem_map_of_mem (h.executing.taken e he))

/-- The tasks of a pool are accounted for in every run before `Stop`: in the state
it leads to, in what the next operation answers there, and in all that follows. -/
theorem tasks_accounted {workers pendingSize nextTaskId : Nat}
    {labels : List Op}
    (hrun : (poolMachine ops).Run (start workers pendingSize nextTaskId) labels s)
    (hstop : s.stop = false) :
    s.Accounted ∧ s.Answers ops ∧
      ∀ labels t, (poolMachine ops).Run s labels t →
        (∀ p ∈ s.history.accepted, t.tidOf p = s.tidOf p) ∧
        ∀ p ∈ s.history.canceled, p ∉ t.history.executed.map Prod.snd := by
  have h : s.Rep ops := (start_rep workers pendingSize nextTaskId).run hrun
  refine ⟨h.accounted hstop, h.answers, fun labels t hlater => ?_⟩
  have hcontinues := h.continues hlater
  refine ⟨fun p hp => (hcontinues.accepted p hp).2, fun p hp => ?_⟩
  exact (h.run hlater).canceled_not_executed (hcontinues.canceled p hp)

/-- One worker and two tasks, the first of them canceled before it is taken. -/
theorem tasks_accounted_canceled :
    let labels : List Op :=
      [.checkStop 0, .evaluate 0, .block 0, .submitTask .normal 7 (some 0),
        .submitTask .high 8 none, .cancelTask 0, .evaluate 0, .execute 0,
        .finish 0, .checkStop 0, .evaluate 0]
    let s := labels.foldl (poolMachine .descending).next (start 1 2 0)
    s.Accounted ∧ s.history.executed = [(0, 1)] ∧ s.history.dropped = [0] := by
  intro labels s
  have hrun : (poolMachine .descending).Run (start 1 2 0) labels s :=
    Machine.run_iff.mpr ⟨by decide +kernel, rfl⟩
  exact ⟨(tasks_accounted hrun (by decide +kernel)).1, by decide +kernel,
    by decide +kernel⟩

end ThreadPool

end Jerry
