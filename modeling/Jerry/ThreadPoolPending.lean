/-
What becomes of the tasks that are still pending.  `SubmitTask` does not look at
`stop`, and the workers discard what they find on their way out, without the mutex.
A task that comes when the last of them has made its last test, or when there were
none, stays where it is.
-/
import Jerry.ThreadPoolStop
import Jerry.ThreadPoolTasks

namespace Jerry

namespace ThreadPool

variable {ops : HeapOps TaskPtr Nat} {s s' t : ThreadPool} {op : Op} {i : Nat}
  {p : TaskPtr} {point point' : Point}

/-- Nothing has to happen to a task any more; one that was canceled is dropped. -/
def Resolved (s : ThreadPool) (p : TaskPtr) : Prop :=
  p ∈ s.history.executed.map Prod.snd ∨ p ∈ s.history.discarded ∨
    p ∈ s.history.dropped

/-- In whatever order the workers go on, unless they race with each other, they
come to rest, and then every task that was accepted has been executed or
discarded. -/
def Settles (ops : HeapOps TaskPtr Nat) (s : ThreadPool) : Prop :=
  (workerMachine ops).Ends (fun t =>
    t.undefined = true ∨ ∀ p ∈ t.history.accepted, t.Resolved p) s

/-- A pool that has been stopped holds nothing, and no task stays pending for
ever. -/
structure LeavesNothing (ops : HeapOps TaskPtr Nat) (s : ThreadPool) : Prop where
  defined : s.undefined = false
  stopped : s.stopPoint = .joined →
    s.pendingTasks = [] ∧ ∀ tid, s.tasksMap tid = none
  settles : s.Settles ops

/-- A task is submitted while some worker has not made its last test, or
rejected. -/
def SubmitsToWorkers (s : ThreadPool) : Op → Prop
  | .submitTask _ _ _ =>
      s.full ∨ ∃ point ∈ s.workers, ¬ (point = .leaving ∨ point = .exited)
  | _ => True

instance (s : ThreadPool) : ∀ op, Decidable (s.SubmitsToWorkers op)
  | .submitTask _ _ _ => inferInstanceAs (Decidable (_ ∨ ∃ point ∈ _, _))
  | .checkStop _ => isTrue trivial
  | .evaluate _ => isTrue trivial
  | .block _ => isTrue trivial
  | .wakeUp _ => isTrue trivial
  | .execute _ => isTrue trivial
  | .finish _ => isTrue trivial
  | .testEmpty _ => isTrue trivial
  | .discard _ => isTrue trivial
  | .leave _ => isTrue trivial
  | .cancelTask _ => isTrue trivial
  | .takeTaskId => isTrue trivial
  | .storeStop => isTrue trivial
  | .notifyAll => isTrue trivial
  | .join => isTrue trivial

/-- Nobody comes to the containers while a worker is inside a round of the loop
behind `// Stop loop`, and tasks are submitted to workers. -/
def Heeds (s : ThreadPool) (op : Op) : Prop :=
  ¬ op.Races s ∧ s.SubmitsToWorkers op

instance (s : ThreadPool) (op : Op) : Decidable (s.Heeds op) :=
  inferInstanceAs (Decidable (_ ∧ _))

/-- A worker that will look at the queue again without being notified. -/
def Point.Awake : Point → Prop
  | .blocking | .waiting | .leaving | .exited => False
  | _ => True

/-- Whoever is inside a round is the only one, and has something to pop. -/
def Rounds (s : ThreadPool) : Prop :=
  ∀ i : Nat, s.workers[i]? = some .popping →
    s.pendingTasks ≠ [] ∧ ∀ j : Nat, s.workers[j]? = some .popping → j = i

/-- Pending tasks have a worker that will come to them, a worker holds the mutex
over an empty queue only, and who has taken a task has it in hand until it is
executed. -/
structure Attended (s : ThreadPool) : Prop where
  defined : s.undefined = false
  rounds : s.Rounds
  awake : s.pendingTasks ≠ [] → ∃ point ∈ s.workers, point.Awake
  locked : .blocking ∈ s.workers → s.pendingTasks = []
  joined : s.stopPoint = .joined → ∀ point ∈ s.workers, point = .exited
  held : ∀ e ∈ s.history.taken,
    e ∈ s.history.executed ∨ s.workers[e.1]? = some (.took e.2)

section Rounds

theorem rounds_of_none (h : .popping ∉ s.workers) : s.Rounds := fun _ hi =>
  absurd (List.mem_of_getElem? hi) h

theorem Rounds.setWorker (h : s.Rounds) (i : Nat) (hpoint : point ≠ .popping) :
    (s.setWorker i point).Rounds := by
  have hold {j : Nat} (hj : (s.setWorker i point).workers[j]? = some .popping) :
      s.workers[j]? = some .popping := by
    rcases getElem?_setWorker hj with ⟨-, heq⟩ | ⟨-, hsame⟩
    · exact absurd heq.symm hpoint
    · exact hsame
  exact fun j hj => ⟨(h j (hold hj)).1, fun k hk => (h j (hold hj)).2 k (hold hk)⟩

theorem not_popping_setWorker (h : .popping ∉ s.workers) (hpoint : point ≠ .popping) :
    .popping ∉ (s.setWorker i point).workers := fun hmem =>
  h ((mem_setWorker hmem).resolve_left hpoint.symm)

end Rounds

/-- Who has taken a task keeps it while another worker goes on. -/
theorem took_setWorker (hi : s.workers[i]? = some point) (htook : ∀ p, point ≠ .took p)
    {e : Nat × TaskPtr} (he : s.workers[e.1]? = some (.took e.2)) :
    (s.setWorker i point').workers[e.1]? = some (.took e.2) := by
  by_cases heq : i = e.1
  · rw [← heq, hi] at he
    exact absurd (Option.some.inj he) (htook e.2)
  · rw [getElem?_setWorker_ne heq]
    exact he

section Attended

theorem start_attended (workers pendingSize nextTaskId : Nat) :
    (start workers pendingSize nextTaskId).Attended where
  defined := rfl
  rounds := rounds_of_none fun hmem => by cases List.eq_of_mem_replicate hmem
  awake h := absurd rfl h
  locked _ := rfl
  joined h := by cases h
  held := List.forall_mem_nil _

/-- Steps that no worker makes. -/
theorem Attended.frame (h : s.Attended) (hdefined : s'.undefined = s.undefined)
    (hworkers : s'.workers = s.workers)
    (hpending : s'.pendingTasks = s.pendingTasks)
    (htaken : s'.history.taken = s.history.taken)
    (hexecuted : s'.history.executed = s.history.executed)
    (hjoined : s'.stopPoint = .joined → ∀ point ∈ s.workers, point = .exited) :
    s'.Attended where
  defined := hdefined.trans h.defined
  rounds := by
    rw [Rounds, hworkers, hpending]
    exact h.rounds
  awake := by
    rw [hworkers, hpending]
    exact h.awake
  locked := by
    rw [hworkers, hpending]
    exact h.locked
  joined := by
    rw [hworkers]
    exact hjoined
  held := by
    rw [hworkers, htaken, hexecuted]
    exact h.held

/-- A worker that has no task in hand goes to another point, which leaves nothing
pending or is one from which it comes back. -/
theorem Attended.setWorker (h : s.Attended) (hi : s.workers[i]? = some point)
    (hexited : point ≠ .exited) (htook : ∀ p, point ≠ .took p)
    (hpopping : point' ≠ .popping) (hpoint : point'.Awake ∨ s.pendingTasks = []) :
    (s.setWorker i point').Attended where
  defined := h.defined
  rounds := h.rounds.setWorker i hpopping
  awake hpending := by
    have hlength := (List.getElem?_eq_some_iff.mp hi).1
    exact ⟨point', List.mem_set hlength point',
      hpoint.resolve_right hpending⟩
  locked hmem := by
    rcases mem_setWorker hmem with heq | hmem
    · exact hpoint.resolve_left fun hawake => by
        rw [← heq] at hawake
        exact hawake
    · exact h.locked hmem
  joined hjoined := absurd (h.joined hjoined point (List.mem_of_getElem? hi)) hexited
  held e he := (h.held e he).imp id (took_setWorker hi htook)

theorem Attended.checkStop (h : s.Attended) (hi : s.workers[i]? = some .checking) :
    (s.checkStop i).Attended := by
  rw [ThreadPool.checkStop]
  split
  · exact h.setWorker hi (by decide) (by simp) (by decide) (Or.inl trivial)
  · exact h.setWorker hi (by decide) (by simp) (by decide) (Or.inl trivial)

/-- The worker that takes a task goes on with it, or to the next. -/
theorem Attended.takeTask (h : s.Attended) (hi : s.workers[i]? = some point)
    (hexited : point ≠ .exited) (htook : ∀ p, point ≠ .took p)
    (hunlocked : s.Unlocked) (hnone : .popping ∉ s.workers) (p : TaskPtr) :
    (s.takeTask ops i p).Attended := by
  have hlength := (List.getElem?_eq_some_iff.mp hi).1
  have hblocked {point' : Point} (hne : point' ≠ .blocking) :
      .blocking ∉ (s.setWorker i point').workers := fun hmem =>
    hunlocked ((mem_setWorker hmem).resolve_left hne.symm)
  have hjoined : s.stopPoint ≠ .joined := fun hjoined =>
    hexited (h.joined hjoined point (List.mem_of_getElem? hi))
  rw [ThreadPool.takeTask]
  split
  · refine ⟨h.defined, rounds_of_none (not_popping_setWorker hnone (by decide)),
      fun _ => ⟨.checking, List.mem_set hlength _, trivial⟩,
      fun hmem => absurd hmem (hblocked (by decide)),
      fun h => absurd h hjoined, fun e he => ?_⟩
    exact (h.held e he).imp id (took_setWorker hi htook)
  · refine ⟨h.defined, rounds_of_none (not_popping_setWorker hnone (by simp)),
      fun _ => ⟨.took p, List.mem_set hlength _, trivial⟩,
      fun hmem => absurd hmem (hblocked (by simp)), fun h => absurd h hjoined,
      fun e he => ?_⟩
    rcases List.mem_cons.mp he with rfl | he
    · exact Or.inr (List.getElem?_set_self hlength)
    · exact (h.held e he).imp id (took_setWorker hi htook)

theorem Attended.evaluate (h : s.Attended)
    (hi : s.workers[i]? = some .locking ∨ s.workers[i]? = some .woken)
    (hunlocked : s.Unlocked) (hnone : .popping ∉ s.workers) :
    (s.evaluate ops i).Attended := by
  have hpoint : ∃ point, s.workers[i]? = some point ∧ point ≠ .exited ∧
      ∀ p, point ≠ .took p := by
    rcases hi with hi | hi
    · exact ⟨_, hi, by decide, by simp⟩
    · exact ⟨_, hi, by decide, by simp⟩
  obtain ⟨point, hi, hexited, htook⟩ := hpoint
  rw [ThreadPool.evaluate]
  split
  · rename_i hempty
    exact h.setWorker hi hexited htook (by split <;> decide) (Or.inr hempty)
  · split
    · exact h.setWorker hi hexited htook (by decide) (Or.inl trivial)
    · exact h.takeTask hi hexited htook hunlocked hnone _

theorem Attended.execute (h : s.Attended) (hi : s.workers[i]? = some (.took p)) :
    (s.execute i p).Attended where
  defined := h.defined
  rounds := h.rounds.setWorker i (by simp)
  awake _ := ⟨.running p,
    List.mem_set (List.getElem?_eq_some_iff.mp hi).1 _, trivial⟩
  locked hmem := h.locked ((mem_setWorker hmem).resolve_left (by simp))
  joined hjoined := by
    cases h.joined hjoined _ (List.mem_of_getElem? hi)
  held e he := by
    rcases h.held e he with hexecuted | htaken
    · exact Or.inl (List.mem_cons_of_mem _ hexecuted)
    · by_cases heq : i = e.1
      · rw [← heq, hi] at htaken
        cases htaken
        exact Or.inl (heq ▸ List.mem_cons_self)
      · exact Or.inr ((getElem?_setWorker_ne heq).trans htaken)

/-- The test finds nothing, or begins a round. -/
theorem Attended.testEmpty (h : s.Attended)
    (hi : s.workers[i]? = some .discarding) (hnone : .popping ∉ s.workers) :
    (s.testEmpty i).Attended := by
  rw [ThreadPool.testEmpty]
  split
  · rename_i hempty
    exact h.setWorker hi (by decide) (by simp) (by decide) (Or.inr hempty)
  · rename_i hmore
    have hlength := (List.getElem?_eq_some_iff.mp hi).1
    have honly {j : Nat}
        (hj : (s.setWorker i .popping).workers[j]? = some .popping) : j = i := by
      rcases getElem?_setWorker hj with ⟨heq, -⟩ | ⟨-, hsame⟩
      · exact heq
      · exact absurd (List.mem_of_getElem? hsame) hnone
    refine ⟨h.defined, fun j hj => ⟨hmore, fun k hk => (honly hk).trans (honly hj).symm⟩,
      fun _ => ⟨.popping, List.mem_set hlength _, trivial⟩, fun hmem => ?_,
      fun hjoined => ?_, fun e he => (h.held e he).imp id (took_setWorker hi (by simp))⟩
    · exact h.locked ((mem_setWorker hmem).resolve_left (by decide))
    · cases h.joined hjoined _ (List.mem_of_getElem? hi)

/-- The round ends. -/
theorem Attended.discard (h : s.Attended)
    (hi : s.workers[i]? = some .popping) : (s.discard ops i).Attended := by
  have hlength := (List.getElem?_eq_some_iff.mp hi).1
  have hmoved : (s.setWorker i .discarding).Attended :=
    h.setWorker hi (by decide) (by simp) (by decide) (Or.inl trivial)
  obtain ⟨hmore, honly⟩ := h.rounds i hi
  rw [ThreadPool.discard]
  split
  · rename_i hempty
    exact absurd hempty hmore
  · refine ⟨h.defined, fun j hj => ?_,
      fun _ => ⟨.discarding, List.mem_set hlength _, trivial⟩, fun hmem => ?_,
      hmoved.joined, hmoved.held⟩
    · rcases getElem?_setWorker hj with ⟨-, heq⟩ | ⟨hne, hsame⟩
      · cases heq
      · exact absurd (honly j hsame) hne
    · exact absurd (hmoved.locked hmem) hmore

/-- Whoever comes to the tasks that are pending is not the one that leaves. -/
theorem Attended.leave (h : s.Attended) (hi : s.workers[i]? = some .leaving) :
    (s.setWorker i .exited).Attended where
  defined := h.defined
  rounds := h.rounds.setWorker i (by decide)
  awake hpending := by
    obtain ⟨point, hmem, hawake⟩ := h.awake hpending
    obtain ⟨j, hj⟩ := List.getElem?_of_mem hmem
    refine ⟨point, List.mem_of_getElem? ((getElem?_setWorker_ne ?_).trans hj), hawake⟩
    rintro rfl
    rw [hi] at hj
    cases hj
    exact hawake
  locked hmem := h.locked ((mem_setWorker hmem).resolve_left (by decide))
  joined hjoined := by
    cases h.joined hjoined _ (List.mem_of_getElem? hi)
  held e he := (h.held e he).imp id (took_setWorker hi (by simp))

/-- Whoever has not made the last test is awake behind a submission, or somebody
else is woken up. -/
theorem Attended.submitTask (h : s.Attended) {priority : TaskPriority}
    {task : Task} {woken : Option Nat} (hunlocked : s.Unlocked)
    (hwakes : s.Wakes woken) (hnone : .popping ∉ s.workers)
    (hworkers : s.full ∨
      ∃ point ∈ s.workers, ¬ (point = .leaving ∨ point = .exited)) :
    (s.submitTask ops priority task woken).1.Attended := by
  rw [ThreadPool.submitTask]
  split
  · exact h
  · rename_i hroom
    obtain ⟨point, hmem, hlast⟩ := hworkers.resolve_left hroom
    cases woken with
    | none =>
        have hwaiting : .waiting ∉ s.workers := hwakes.resolve_left hroom
        refine ⟨h.defined, rounds_of_none hnone, fun _ => ⟨point, hmem, ?_⟩,
          fun hblock => absurd hblock hunlocked, h.joined, h.held⟩
        cases point with
        | blocking => exact hunlocked hmem
        | waiting => exact hwaiting hmem
        | leaving => exact hlast (Or.inl rfl)
        | exited => exact hlast (Or.inr rfl)
        | _ => trivial
    | some i =>
        obtain ⟨-, hi⟩ := hwakes
        have hlength := (List.getElem?_eq_some_iff.mp hi).1
        have hnew : (s.setWorker i .woken).Attended :=
          h.setWorker hi (by decide) (by simp) (by decide) (Or.inl trivial)
        refine ⟨h.defined, rounds_of_none (not_popping_setWorker hnone (by decide)),
          fun _ => ⟨.woken, List.mem_set hlength _, trivial⟩, fun hblock => ?_,
          hnew.joined, hnew.held⟩
        exact absurd ((mem_setWorker hblock).resolve_left (by decide)) hunlocked

theorem Attended.notifyAll (h : s.Attended) : s.notifyAll.Attended where
  defined := h.defined
  rounds i hi := by
    have hround := h.rounds i (getElem?_notifyAll hi (by decide)).1
    exact ⟨hround.1, fun j hj =>
      hround.2 j (getElem?_notifyAll hj (by decide)).1⟩
  awake hpending := by
    obtain ⟨point, hmem, hawake⟩ := h.awake hpending
    refine ⟨point, List.mem_map.mpr ⟨point, hmem, if_neg ?_⟩, hawake⟩
    rintro rfl
    exact hawake
  locked hmem := h.locked (mem_notifyAll hmem (by decide)).1
  joined hjoined := by cases hjoined
  held e he := by
    refine (h.held e he).imp id fun htook => ?_
    simp only [ThreadPool.notifyAll, List.getElem?_map, htook, Option.map_some]
    rfl

variable (ops) in
/-- The step lemma. -/
theorem Attended.exec (h : s.Attended) (henabled : op.Enabled s)
    (hheeds : s.Heeds op) : (op.exec ops s).Attended := by
  obtain ⟨hraces, hworkers⟩ := hheeds
  rw [exec_of_not_races hraces]
  cases op with
  | checkStop i => exact h.checkStop henabled
  | evaluate i => exact h.evaluate henabled.1 henabled.2 hraces
  | block i =>
      have hempty := h.locked (List.mem_of_getElem? henabled)
      exact h.setWorker henabled (by decide) (by simp) (by decide) (Or.inr hempty)
  | wakeUp i =>
      exact h.setWorker henabled (by decide) (by simp) (by decide) (Or.inl trivial)
  | execute i =>
      obtain ⟨p, hp⟩ := Option.isSome_iff_exists.mp henabled
      simp only [Op.apply, hp]
      exact h.execute (took?_eq_some hp)
  | finish i =>
      obtain ⟨p, hp⟩ := Option.isSome_iff_exists.mp henabled
      exact h.setWorker (running?_eq_some hp) (by simp) (by simp) (by decide)
        (Or.inl trivial)
  | testEmpty i => exact h.testEmpty henabled hraces
  | discard i => exact h.discard henabled
  | leave i => exact h.leave henabled
  | submitTask priority task woken =>
      exact h.submitTask henabled.1 henabled.2 hraces hworkers
  | cancelTask tid =>
      rcases cancelTask_cases s tid with heq | ⟨p, -, heq⟩
      · rw [Op.apply, heq]
        exact h
      · rw [Op.apply, heq]
        exact h.frame rfl rfl rfl rfl rfl h.joined
  | takeTaskId => exact h.frame rfl rfl rfl rfl rfl h.joined
  | storeStop => exact h.frame rfl rfl rfl rfl rfl fun hjoined => by cases hjoined
  | notifyAll => exact h.notifyAll
  | join => exact h.frame rfl rfl rfl rfl rfl fun _ => henabled.2

end Attended

section Rest

/-- Where no worker can go on, none is awake. -/
theorem not_awake_of_rest (hrest : ¬ ∃ op : Op, op.OfWorker ∧ op.Enabled s)
    (hmem : point ∈ s.workers) : point = .waiting ∨ point = .exited := by
  have hno (op : Op) (hop : op.OfWorker) : ¬ op.Enabled s := fun henabled =>
    hrest ⟨op, hop, henabled⟩
  have hunlocked : s.Unlocked := fun hblock => by
    obtain ⟨j, hj⟩ := List.getElem?_of_mem hblock
    exact hno (.block j) trivial hj
  obtain ⟨i, hi⟩ := List.getElem?_of_mem hmem
  cases point with
  | checking => exact absurd hi (hno (.checkStop i) trivial)
  | locking => exact absurd ⟨Or.inl hi, hunlocked⟩ (hno (.evaluate i) trivial)
  | blocking => exact absurd hmem hunlocked
  | waiting => exact Or.inl rfl
  | woken => exact absurd ⟨Or.inr hi, hunlocked⟩ (hno (.evaluate i) trivial)
  | took p =>
      have henabled : (s.took? i).isSome = true := by rw [took?, hi]; rfl
      exact absurd henabled (hno (.execute i) trivial)
  | running p =>
      have henabled : (s.running? i).isSome = true := by rw [running?, hi]; rfl
      exact absurd henabled (hno (.finish i) trivial)
  | discarding => exact absurd hi (hno (.testEmpty i) trivial)
  | popping => exact absurd hi (hno (.discard i) trivial)
  | leaving => exact absurd hi (hno (.leave i) trivial)
  | exited => exact Or.inr rfl

theorem submitsToWorkers_of_ofWorker (hop : op.OfWorker) :
    s.SubmitsToWorkers op := by
  cases op with
  | submitTask priority task woken => exact hop.elim
  | _ => trivial

/-- Nothing is pending when no worker is awake. -/
theorem Attended.pending_eq_nil (h : s.Attended)
    (hrest : ∀ point ∈ s.workers, point = .waiting ∨ point = .exited) :
    s.pendingTasks = [] := by
  by_contra hpending
  obtain ⟨point, hmem, hawake⟩ := h.awake hpending
  rcases hrest point hmem with rfl | rfl
  · exact hawake
  · exact hawake

theorem Attended.resolved (h : s.Attended) (hrep : s.Rep ops)
    (hrest : ¬ ∃ op : Op, op.OfWorker ∧ op.Enabled s)
    (hp : p ∈ s.history.accepted) : s.Resolved p := by
  have hempty := h.pending_eq_nil fun point hmem => not_awake_of_rest hrest hmem
  have hgone := hrep.queued.placed.mem_iff.mpr hp
  rw [hempty, List.nil_append, History.gone, List.mem_append,
    List.mem_append] at hgone
  rcases hgone with (htaken | hdropped) | hdiscarded
  · obtain ⟨⟨i, q⟩, he, rfl⟩ := List.mem_map.mp htaken
    rcases h.held _ he with hexecuted | htook
    · exact Or.inl (List.mem_map_of_mem hexecuted)
    · have henabled : (s.took? i).isSome = true := by rw [took?, htook]; rfl
      exact absurd ⟨.execute i, trivial, henabled⟩ hrest
  · exact Or.inr (Or.inr hdropped)
  · exact Or.inr (Or.inl hdiscarded)

/-- Left to themselves, the workers come to rest over an empty queue. -/
theorem Attended.settles (h : s.Attended) (hrep : s.Rep ops) : s.Settles ops := by
  refine Machine.ends_of_measure (P := fun s =>
    s.undefined = true ∨ s.Rep ops ∧ s.Attended) workLeft (Or.inr ⟨hrep, h⟩) ?_ ?_
  · rintro s op hP ⟨⟨hdefined, henabled⟩, hop⟩
    refine ⟨?_, workLeft_exec ops hdefined hop henabled⟩
    obtain ⟨hrep, h⟩ := hP.resolve_left (Bool.eq_false_iff.mp hdefined)
    by_cases hraces : op.Races s
    · left
      change (op.exec ops s).undefined = true
      rw [exec_of_races hraces]
    · exact Or.inr ⟨hrep.exec henabled,
        h.exec ops henabled ⟨hraces, submitsToWorkers_of_ofWorker hop⟩⟩
  · intro s hP hnot
    rw [not_or] at hnot
    obtain ⟨hdefined, hnot⟩ := hnot
    obtain ⟨hrep, h⟩ := hP.resolve_left hdefined
    by_contra hrest
    refine hnot fun p hp => h.resolved hrep ?_ hp
    rintro ⟨op, hop, henabled⟩
    exact hrest ⟨op, ⟨Bool.eq_false_iff.mpr hdefined, henabled⟩, hop⟩

theorem Attended.leavesNothing (h : s.Attended) (hrep : s.Rep ops) :
    s.LeavesNothing ops where
  defined := h.defined
  stopped hjoined := by
    have hempty := h.pending_eq_nil fun point hmem =>
      Or.inr (h.joined hjoined point hmem)
    refine ⟨hempty, fun tid => ?_⟩
    rw [Option.eq_none_iff_forall_ne_some]
    intro p hp
    have hmem := ((hrep.queued.mapped tid p).mp hp).1
    rw [hempty] at hmem
    exact List.not_mem_nil hmem
  settles := h.settles hrep

/-- An accepted task that is left over: nobody looks at the queue again. -/
structure LeftOver (p : TaskPtr) (s : ThreadPool) : Prop where
  defined : s.undefined = false
  gone : ∀ point ∈ s.workers, point = .leaving ∨ point = .exited
  accepted : p ∈ s.history.accepted
  unresolved : ¬ s.Resolved p

/-- All that the workers can do is leave. -/
theorem LeftOver.exec (h : LeftOver p s) (hop : op.OfWorker)
    (henabled : op.Enabled s) : LeftOver p (op.exec ops s) := by
  have hat {i : Nat} {point : Point} (hi : s.workers[i]? = some point) :
      point = .leaving ∨ point = .exited := h.gone point (List.mem_of_getElem? hi)
  cases op with
  | leave i =>
      refine ⟨h.defined, fun point hmem => ?_, h.accepted, h.unresolved⟩
      rcases mem_setWorker (i := i) hmem with rfl | hmem
      · exact Or.inr rfl
      · exact h.gone point hmem
  | checkStop i => rcases hat henabled with heq | heq <;> cases heq
  | evaluate i =>
      rcases henabled.1 with hi | hi
      · rcases hat hi with heq | heq <;> cases heq
      · rcases hat hi with heq | heq <;> cases heq
  | block i => rcases hat henabled with heq | heq <;> cases heq
  | execute i =>
      obtain ⟨p, hp⟩ := Option.isSome_iff_exists.mp henabled
      rcases hat (took?_eq_some hp) with heq | heq <;> cases heq
  | finish i =>
      obtain ⟨p, hp⟩ := Option.isSome_iff_exists.mp henabled
      rcases hat (running?_eq_some hp) with heq | heq <;> cases heq
  | testEmpty i => rcases hat henabled with heq | heq <;> cases heq
  | discard i => rcases hat henabled with heq | heq <;> cases heq
  | wakeUp i | submitTask priority task woken | cancelTask tid | takeTaskId
    | storeStop | notifyAll | join => exact hop.elim

theorem LeftOver.not_settles (h : LeftOver p s) : ¬ s.Settles ops := by
  intro hsettles
  obtain ⟨labels, t, hrun, hQ⟩ := hsettles.reaches
  have ht : LeftOver p t := hrun.invariant h fun s op h henabled =>
    h.exec henabled.2 henabled.1.2
  rcases hQ with hundefined | hall
  · rw [ht.defined] at hundefined
    cases hundefined
  · exact ht.unresolved (hall p ht.accepted)

/-- A task accepted when all workers have made their last test is left over. -/
theorem submitTask_leftOver (hrep : s.Rep ops) (hdefined : s.undefined = false)
    {priority : TaskPriority} {task : Task} {woken : Option Nat}
    (hwakes : s.Wakes woken) (hroom : ¬ s.full)
    (hgone : ∀ point ∈ s.workers, point = .leaving ∨ point = .exited) :
    LeftOver s.fresh (s.submitTask ops priority task woken).1 := by
  have hnone : woken = none := by
    cases woken with
    | none => rfl
    | some i => rcases hgone _ (List.mem_of_getElem? hwakes.2) with heq | heq <;> cases heq
  subst hnone
  rw [ThreadPool.submitTask, if_neg hroom]
  refine ⟨hdefined, hgone, List.mem_cons_self, fun hresolved => ?_⟩
  have hmem : s.fresh ∈ s.history.gone := by
    simp only [History.gone, List.mem_append]
    rcases hresolved with hmem | hmem | hmem
    · obtain ⟨e, he, heq⟩ := List.mem_map.mp hmem
      exact Or.inl (Or.inl (List.mem_map.mpr
        ⟨e, hrep.executing.taken e he, heq⟩))
    · exact Or.inr hmem
    · exact Or.inl (Or.inr hmem)
  exact hrep.queued.fresh_not_accepted
    (hrep.queued.placed.mem_iff.mp (List.mem_append_right _ hmem))

theorem leavesNothing_exec_iff (hrep : s.Rep ops) (h : s.Attended)
    (henabled : op.Enabled s) :
    (op.exec ops s).LeavesNothing ops ↔ s.Heeds op := by
  constructor
  · intro hnext
    have hraces : ¬ op.Races s := fun hraces => by
      have hdefined := hnext.defined
      rw [exec_of_races hraces] at hdefined
      cases hdefined
    refine ⟨hraces, ?_⟩
    rw [exec_of_not_races hraces] at hnext
    cases op with
    | submitTask priority task woken =>
        by_contra hlate
        rw [SubmitsToWorkers, not_or] at hlate
        obtain ⟨hroom, hlate⟩ := hlate
        have hgone : ∀ point ∈ s.workers, point = .leaving ∨ point = .exited :=
          fun point hmem => by
            by_contra hpoint
            exact hlate ⟨point, hmem, hpoint⟩
        have hover : LeftOver s.fresh (s.submitTask ops priority task woken).1 :=
          submitTask_leftOver hrep h.defined henabled.2 hroom hgone
        exact hover.not_settles hnext.settles
    | _ => trivial
  · exact fun hheeds =>
      (h.exec ops henabled hheeds).leavesNothing (hrep.exec henabled)

end Rest

instance (s : ThreadPool) (op : Op) :
    Decidable (((poolMachine ops).guard Heeds).enabled s op) :=
  inferInstanceAs (Decidable (_ ∧ _))

end ThreadPool

end Jerry
