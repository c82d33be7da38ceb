/-
`net/WorkerGroup::Stop` against the loops it stops.  A worker that is blocked in
`epoll_wait` is woken up by the eventfd of its poller; the flag is stored before
the eventfd is written, so a worker that reads the eventfd finds the flag.
-/
import Jerry.Progress

namespace Jerry

namespace Poller

/-- `kEventListMaxSize`. -/
def eventListMaxSize : Nat :=
  4096

/-- A channel that `epoll_wait` reports: the wakeup channel, or one of the
acceptor, the timers and the connections. -/
inductive Active where
  | wakeup
  | other (channel : Nat)
deriving DecidableEq, Repr

/-- An eventfd counts up to `2 ^ 64 - 2`. -/
def maxCount : Nat :=
  2 ^ 64 - 2

/-- `Wakeup`: a write that would go above the maximum fails. -/
def wakeup (count : Nat) : Nat :=
  if count + 1 ≤ maxCount then count + 1 else count

theorem wakeup_ne_zero (count : Nat) : wakeup count ≠ 0 := by
  rw [wakeup]
  split
  · exact Nat.succ_ne_zero count
  · rename_i hfull
    rintro rfl
    exact hfull (by decide)

end Poller

/-- Where a worker is in `IOWorker::Loop`: before it loads `stop_loop`, in
`epoll_wait`, between two channels of a batch, or behind the loop. -/
inductive LoopPoint where
  | checking
  | polling
  | handling (activeChannels : List Poller.Active)
  | left
deriving DecidableEq, Repr

/-- A worker.  `late` counts the batches it was handed with `stop_loop` set; it is
not in the source. -/
structure LoopThread where
  stopLoop : Bool
  count : Nat
  point : LoopPoint
  late : Nat
deriving DecidableEq, Repr

namespace LoopThread

def start : LoopThread :=
  ⟨false, 0, .checking, 0⟩

/-- `while (!stop_loop.load())`. -/
def load (w : LoopThread) : LoopThread :=
  { w with point := if w.stopLoop then .left else .polling }

/-- `Poll` returns.  A batch of nothing is what a signal leaves. -/
def poll (w : LoopThread) (batch : List Poller.Active) : LoopThread :=
  { w with
    point := .handling batch
    late := if w.stopLoop then w.late + 1 else w.late }

/-- The next channel of the batch.  The callback of the wakeup channel reads the
eventfd, which is zero afterwards. -/
def handleEvent (w : LoopThread) : LoopThread :=
  match w.point with
  | .handling (.wakeup :: rest) => { w with count := 0, point := .handling rest }
  | .handling (.other _ :: rest) => { w with point := .handling rest }
  | .handling [] => { w with point := .checking }
  | _ => w

/-- What `epoll_wait` can report: with a timeout of -1 it returns when a channel
is ready or a signal comes, and the wakeup channel is ready as long as its
eventfd is not zero. -/
def Polls (w : LoopThread) (batch : List Poller.Active) : Prop :=
  batch.length ≤ Poller.eventListMaxSize ∧ (.wakeup ∈ batch → w.count ≠ 0)

instance (w : LoopThread) (batch : List Poller.Active) : Decidable (w.Polls batch) :=
  inferInstanceAs (Decidable (_ ∧ _))

end LoopThread

/-- The workers, and how far `Stop` has come: the flags it has stored, and the
eventfds it has written. -/
structure WorkerGroup where
  workers : List LoopThread
  stored : Nat
  woken : Nat
deriving DecidableEq, Repr

namespace WorkerGroup

def start (workers : Nat) : WorkerGroup :=
  ⟨List.replicate workers .start, 0, 0⟩

/-- A step of `Stop`, or of one worker. -/
inductive Op where
  | storeStop
  | wakeup
  | load (i : Nat)
  | poll (i : Nat) (batch : List Poller.Active)
  | handleEvent (i : Nat)
deriving DecidableEq, Repr

/-- The worker at a position, at a point of its loop. -/
def At (s : WorkerGroup) (i : Nat) (p : LoopThread → Prop) : Prop :=
  ∃ w ∈ s.workers[i]?, p w

instance (s : WorkerGroup) (i : Nat) (p : LoopThread → Prop) [DecidablePred p] :
    Decidable (s.At i p) :=
  inferInstanceAs (Decidable (∃ w ∈ s.workers[i]?, p w))

def Op.Enabled (s : WorkerGroup) : Op → Prop
  | .storeStop => s.stored = s.woken ∧ s.stored < s.workers.length
  | .wakeup => s.woken < s.stored
  | .load i => s.At i fun w => w.point = .checking
  | .poll i batch => s.At i fun w => w.point = .polling ∧ w.Polls batch
  | .handleEvent i => s.At i fun w =>
      w.point ≠ .checking ∧ w.point ≠ .polling ∧ w.point ≠ .left

instance (s : WorkerGroup) : ∀ op : Op, Decidable (op.Enabled s)
  | .storeStop => inferInstanceAs (Decidable (_ ∧ _))
  | .wakeup => inferInstanceAs (Decidable (_ < _))
  | .load _ | .poll _ _ | .handleEvent _ => inferInstanceAs (Decidable (At _ _ _))

def on (s : WorkerGroup) (i : Nat) (f : LoopThread → LoopThread) : WorkerGroup :=
  { s with workers := s.workers.modify i f }

def Op.exec (s : WorkerGroup) : Op → WorkerGroup
  | .storeStop =>
      { s.on s.stored fun w => { w with stopLoop := true } with stored := s.stored + 1 }
  | .wakeup =>
      { s.on s.woken fun w => { w with count := Poller.wakeup w.count } with
        woken := s.woken + 1 }
  | .load i => s.on i .load
  | .poll i batch => s.on i (·.poll batch)
  | .handleEvent i => s.on i .handleEvent

end WorkerGroup

/-- `WorkerGroup::Stop` on one thread, and the loop of each worker on its own. -/
def workerGroupMachine : Machine WorkerGroup WorkerGroup.Op where
  enabled s op := op.Enabled s
  next s op := op.exec s

instance (s : WorkerGroup) (op : WorkerGroup.Op) :
    Decidable (workerGroupMachine.enabled s op) :=
  inferInstanceAs (Decidable (op.Enabled s))

namespace LoopThread

variable {w : LoopThread} {stored woken : Prop} {batch : List Poller.Active}

/-- What holds of a worker whose flag has been stored and whose eventfd has been
written as far as `stored` and `woken` say.  Behind the store it does not begin
another poll, and the one it may be in comes to its end. -/
structure Told (w : LoopThread) (stored woken : Prop) : Prop where
  stop : w.stopLoop = true ↔ stored
  late : w.late + (if w.point = .polling then 1 else 0) ≤ 1
  early : ¬ stored → w.late = 0
  ready : woken → w.point = .polling → w.count ≠ 0
  batch : ∀ batch, w.point = .handling batch → batch.length ≤ Poller.eventListMaxSize

theorem start_told : start.Told False False where
  stop := by simp [start]
  late := by decide
  early _ := rfl
  ready h := h.elim
  batch _ h := by cases h

theorem Told.congr (h : w.Told stored woken) {stored' woken' : Prop}
    (hstored : stored' ↔ stored) (hwoken : woken' ↔ woken) : w.Told stored' woken' := by
  rw [propext hstored, propext hwoken]
  exact h

theorem Told.storeStop (h : w.Told False False) :
    ({ w with stopLoop := true } : LoopThread).Told True False where
  stop := Iff.intro (fun _ => trivial) fun _ => rfl
  late := h.late
  early hnot := absurd trivial hnot
  ready := False.elim
  batch := h.batch

theorem Told.wakeup (h : w.Told True False) :
    ({ w with count := Poller.wakeup w.count } : LoopThread).Told True True where
  stop := h.stop
  late := h.late
  early := h.early
  ready _ _ := Poller.wakeup_ne_zero w.count
  batch := h.batch

theorem Told.load (h : w.Told stored woken) (himp : woken → stored)
    (hpoint : w.point = .checking) : w.load.Told stored woken := by
  have hlate := h.late
  rw [if_neg (by rw [hpoint]; nofun)] at hlate
  cases hstop : w.stopLoop with
  | true =>
      have heq : w.load = { w with point := .left } := by
        rw [LoopThread.load, if_pos hstop]
      rw [heq]
      exact ⟨h.stop, hlate, h.early, nofun, nofun⟩
  | false =>
      have hnot : ¬ stored := by
        rw [← h.stop, hstop]
        decide
      have heq : w.load = { w with point := .polling } := by
        rw [LoopThread.load, hstop, if_neg (by decide)]
      rw [heq]
      refine ⟨h.stop, ?_, h.early, fun hwoken => absurd (himp hwoken) hnot, nofun⟩
      simp only [h.early hnot, if_true]
      exact Nat.le_refl 1

theorem Told.poll (h : w.Told stored woken) (hpoint : w.point = .polling)
    (hlength : batch.length ≤ Poller.eventListMaxSize) :
    (w.poll batch).Told stored woken := by
  have hlate := h.late
  rw [if_pos hpoint] at hlate
  refine ⟨h.stop, ?_, fun hnot => ?_, nofun, fun b hb => ?_⟩
  · have hpoint' : (w.poll batch).point ≠ .polling := fun heq => by cases heq
    rw [if_neg hpoint']
    simp only [LoopThread.poll]
    split <;> omega
  · have hstop : ¬ w.stopLoop = true := fun hstop => hnot (h.stop.mp hstop)
    exact (if_neg hstop).trans (h.early hnot)
  · cases hb
    exact hlength

theorem Told.handleEvent (h : w.Told stored woken) (hpoint : w.point ≠ .polling) :
    w.handleEvent.Told stored woken := by
  have hlate := h.late
  rw [if_neg hpoint] at hlate
  rw [LoopThread.handleEvent]
  split
  · rename_i rest heq
    have hlength := h.batch _ heq
    exact ⟨h.stop, hlate, h.early, nofun, fun b hb => by
      cases hb
      exact Nat.le_of_succ_le hlength⟩
  · rename_i rest heq
    have hlength := h.batch _ heq
    exact ⟨h.stop, hlate, h.early, nofun, fun b hb => by
      cases hb
      exact Nat.le_of_succ_le hlength⟩
  · exact ⟨h.stop, hlate, h.early, nofun, nofun⟩
  · exact h

end LoopThread

namespace LoopThread

/-- How many steps a worker has before it has left the loop, once `stop_loop` is
set. -/
def toGo (w : LoopThread) : Nat :=
  match w.point with
  | .left => 0
  | .checking => 1
  | .handling batch => batch.length + 2
  | .polling => Poller.eventListMaxSize + 3

theorem load_toGo {w : LoopThread} (hstop : w.stopLoop = true)
    (hpoint : w.point = .checking) : w.load.toGo < w.toGo := by
  have heq : w.load.toGo = 0 := by
    rw [toGo, load, if_pos hstop]
  have hwas : w.toGo = 1 := by
    rw [toGo, hpoint]
  omega

theorem poll_toGo {w : LoopThread} {batch : List Poller.Active}
    (hpoint : w.point = .polling) (hlength : batch.length ≤ Poller.eventListMaxSize) :
    (w.poll batch).toGo < w.toGo := by
  have heq : (w.poll batch).toGo = batch.length + 2 := rfl
  have hwas : w.toGo = Poller.eventListMaxSize + 3 := by
    rw [toGo, hpoint]
  omega

theorem handleEvent_toGo {w : LoopThread} {batch : List Poller.Active}
    (hpoint : w.point = .handling batch) : w.handleEvent.toGo < w.toGo := by
  have hwas : w.toGo = batch.length + 2 := by
    rw [toGo, hpoint]
  rw [hwas]
  cases batch with
  | nil =>
      simp only [handleEvent, hpoint]
      exact Nat.lt_succ_self 1
  | cons e rest =>
      cases e with
      | wakeup =>
          simp only [handleEvent, hpoint, toGo, List.length_cons]
          omega
      | other channel =>
          simp only [handleEvent, hpoint, toGo, List.length_cons]
          omega

end LoopThread

namespace WorkerGroup

variable {s : WorkerGroup} {op : Op} {i : Nat} {w : LoopThread}

/-- `Stop` works through the workers in order, and each has been told what `Stop`
has told it. -/
structure Inv (s : WorkerGroup) : Prop where
  woken_le : s.woken ≤ s.stored
  stored_le : s.stored ≤ s.woken + 1
  stored_all : s.stored ≤ s.workers.length
  told : ∀ (i : Nat) (w : LoopThread), s.workers[i]? = some w →
    w.Told (i < s.stored) (i < s.woken)

theorem start_inv (n : Nat) : (start n).Inv where
  woken_le := Nat.le_refl 0
  stored_le := Nat.zero_le _
  stored_all := Nat.zero_le _
  told i w hi := by
    have hw : w = .start := List.eq_of_mem_replicate (List.mem_of_getElem? hi)
    subst hw
    exact LoopThread.start_told.congr (iff_false_intro (Nat.not_lt_zero i))
      (iff_false_intro (Nat.not_lt_zero i))

theorem on_told (h : s.Inv) {f : LoopThread → LoopThread} {stored woken : Nat}
    (hat : ∀ w, s.workers[i]? = some w → (f w).Told (i < stored) (i < woken))
    (hstored : ∀ j, j ≠ i → (j < stored ↔ j < s.stored))
    (hwoken : ∀ j, j ≠ i → (j < woken ↔ j < s.woken)) :
    ∀ (j : Nat) (w : LoopThread), (s.on i f).workers[j]? = some w →
      w.Told (j < stored) (j < woken) := by
  intro j w hj
  rw [WorkerGroup.on, List.getElem?_modify] at hj
  obtain ⟨w₀, hw₀, heq⟩ := Option.map_eq_some_iff.mp hj
  by_cases hij : i = j
  · subst hij
    rw [if_pos rfl] at heq
    exact heq ▸ hat w₀ hw₀
  · rw [if_neg hij] at heq
    subst heq
    exact (h.told j _ hw₀).congr (hstored j (Ne.symm hij)) (hwoken j (Ne.symm hij))

theorem on_length (s : WorkerGroup) (i : Nat) (f : LoopThread → LoopThread) :
    (s.on i f).workers.length = s.workers.length :=
  List.length_modify ..

/-- A step of one worker. -/
theorem Inv.on (h : s.Inv) {f : LoopThread → LoopThread}
    (hat : ∀ w, s.workers[i]? = some w → (f w).Told (i < s.stored) (i < s.woken)) :
    (s.on i f).Inv where
  woken_le := h.woken_le
  stored_le := h.stored_le
  stored_all := Nat.le_trans h.stored_all (Nat.le_of_eq (s.on_length i f).symm)
  told := on_told h hat (fun _ _ => Iff.rfl) (fun _ _ => Iff.rfl)

theorem At.eq {p : LoopThread → Prop} (h : s.At i p) (hw : s.workers[i]? = some w) :
    p w := by
  obtain ⟨w', hw', hp⟩ := h
  exact Option.some_inj.mp (hw'.symm.trans hw) ▸ hp

theorem Inv.exec (h : s.Inv) (henabled : op.Enabled s) : (op.exec s).Inv := by
  cases op with
  | storeStop =>
      obtain ⟨heq, hlt⟩ := henabled
      have hnot : ¬ s.stored < s.woken := by omega
      refine ⟨Nat.le_succ_of_le h.woken_le, ?_, ?_, ?_⟩
      · exact Nat.succ_le_succ (Nat.le_of_eq heq)
      · exact Nat.le_trans hlt (Nat.le_of_eq (s.on_length _ _).symm)
      · refine on_told h (fun w hw => ?_)
          (fun j hj => by change j < s.stored + 1 ↔ _; omega) fun _ _ => Iff.rfl
        have htold := (h.told _ w hw).congr
          (iff_false_intro (Nat.lt_irrefl s.stored)).symm (iff_false_intro hnot).symm
        exact htold.storeStop.congr (iff_true_intro (Nat.lt_succ_self _))
          (iff_false_intro hnot)
  | wakeup =>
      have hle := h.stored_le
      refine ⟨henabled, Nat.le_succ_of_le hle, ?_, ?_⟩
      · exact Nat.le_trans h.stored_all (Nat.le_of_eq (s.on_length _ _).symm)
      · refine on_told h (fun w hw => ?_) (fun _ _ => Iff.rfl)
          fun j hj => by change j < s.woken + 1 ↔ _; omega
        have htold := (h.told _ w hw).congr (iff_true_intro henabled).symm
          (iff_false_intro (Nat.lt_irrefl s.woken)).symm
        exact htold.wakeup.congr (iff_true_intro henabled)
          (iff_true_intro (Nat.lt_succ_self _))
  | load i =>
      refine h.on fun w hw => (h.told i w hw).load (fun hlt => ?_) (At.eq henabled hw)
      exact Nat.lt_of_lt_of_le hlt h.woken_le
  | poll i batch =>
      refine h.on fun w hw => ?_
      obtain ⟨hpoint, hlength, -⟩ := At.eq henabled hw
      exact (h.told i w hw).poll hpoint hlength
  | handleEvent i =>
      refine h.on fun w hw => ?_
      obtain ⟨-, hpoint, -⟩ := At.eq henabled hw
      exact (h.told i w hw).handleEvent hpoint

/-- `Stop` has told every worker. -/
def AllTold (s : WorkerGroup) : Prop :=
  s.Inv ∧ s.woken = s.workers.length

def toGo (s : WorkerGroup) : Nat :=
  (s.workers.map LoopThread.toGo).sum

theorem on_toGo {f : LoopThread → LoopThread} (hw : s.workers[i]? = some w)
    (hless : (f w).toGo < w.toGo) : (s.on i f).toGo < s.toGo := by
  have hsum := List.sum_map_set LoopThread.toGo hw (f w)
  have hset : s.workers.modify i f = s.workers.set i (f w) := by
    rw [List.modify_eq_set_getElem?, hw]
    rfl
  change ((s.workers.modify i f).map LoopThread.toGo).sum < (s.workers.map _).sum
  rw [hset]
  omega

/-- From there on only the workers go on, and each step brings one closer to the
end of its loop. -/
theorem AllTold.exec (h : s.AllTold) (henabled : op.Enabled s) :
    (op.exec s).AllTold ∧ (op.exec s).toGo < s.toGo := by
  obtain ⟨hinv, hall⟩ := h
  have hle := hinv.woken_le
  have hstored := hinv.stored_all
  have hon {i : Nat} {f : LoopThread → LoopThread} {p : LoopThread → Prop}
      (hnext : (s.on i f).Inv) (hat : s.At i p)
      (hless : ∀ w, s.workers[i]? = some w → p w → (f w).toGo < w.toGo) :
      (s.on i f).AllTold ∧ (s.on i f).toGo < s.toGo := by
    obtain ⟨w, hw, hp⟩ := hat
    exact ⟨⟨hnext, hall.trans (s.on_length i f).symm⟩, on_toGo hw (hless w hw hp)⟩
  have hnext := hinv.exec henabled
  cases op with
  | storeStop =>
      have hlt := henabled.2
      omega
  | wakeup =>
      have hlt : s.woken < s.stored := henabled
      omega
  | load i =>
      refine hon hnext henabled fun w hw hpoint => LoopThread.load_toGo ?_ hpoint
      refine (hinv.told i w hw).stop.mpr ?_
      have hi := (List.getElem?_eq_some_iff.mp hw).1
      omega
  | poll i batch =>
      exact hon hnext henabled fun w _ hp => LoopThread.poll_toGo hp.1 hp.2.1
  | handleEvent i =>
      refine hon hnext henabled fun w _ ⟨hchecking, hpolling, hleft⟩ => ?_
      cases hpoint : w.point with
      | handling batch => exact LoopThread.handleEvent_toGo hpoint
      | checking => exact absurd hpoint hchecking
      | polling => exact absurd hpoint hpolling
      | left => exact absurd hpoint hleft

/-- A worker that has not left its loop is not blocked: if it is in `epoll_wait`,
the wakeup channel is ready. -/
theorem AllTold.goes (h : s.AllTold) (hnot : ¬ ∀ w ∈ s.workers, w.point = .left) :
    ∃ op : Op, op.Enabled s := by
  obtain ⟨hinv, hall⟩ := h
  obtain ⟨w, hmem, hpoint⟩ : ∃ w ∈ s.workers, w.point ≠ .left := by
    simpa using hnot
  obtain ⟨i, hi⟩ := List.getElem?_of_mem hmem
  have hlt := (List.getElem?_eq_some_iff.mp hi).1
  cases hcases : w.point with
  | checking => exact ⟨.load i, w, hi, hcases⟩
  | polling =>
      have hready := (hinv.told i w hi).ready (hall ▸ hlt) hcases
      exact ⟨.poll i [.wakeup], w, hi, hcases, by decide, fun _ => hready⟩
  | handling batch =>
      exact ⟨.handleEvent i, w, hi, by rw [hcases]; nofun, by rw [hcases]; nofun, hpoint⟩
  | left => exact absurd hcases hpoint

/-- However `Stop`, the workers and the channels interleave: a worker whose flag
has been stored is handed one batch more at the most, one whose eventfd has been
written is not blocked in `epoll_wait`, and once `Stop` has told all of them, they
all leave their loops. -/
theorem stop_wakes_all {n : Nat} {ops : List Op}
    (hrun : workerGroupMachine.Run (start n) ops s) :
    (∀ w ∈ s.workers, w.late ≤ 1) ∧
    (∀ i w, s.workers[i]? = some w → i < s.woken → w.point = .polling →
      w.Polls [.wakeup]) ∧
    (s.woken = s.workers.length → workerGroupMachine.Ends
      (fun t => ∀ w ∈ t.workers, w.point = .left) s) := by
  have h : s.Inv := hrun.invariant (start_inv n) fun _ _ h henabled => h.exec henabled
  refine ⟨fun w hw => ?_, fun i w hw hi hpoint => ?_, fun hall => ?_⟩
  · obtain ⟨i, hi⟩ := List.getElem?_of_mem hw
    exact Nat.le_trans (Nat.le_add_right _ _) (h.told i w hi).late
  · exact ⟨by decide, fun _ => (h.told i w hw).ready hi hpoint⟩
  · exact Machine.ends_of_measure toGo (P := AllTold) ⟨h, hall⟩
      (fun _ _ h henabled => h.exec henabled) fun _ h hnot => h.goes hnot

/-- One worker is in `epoll_wait` when it is told, the other one in a batch. -/
theorem stop_wakes_all_two :
    let ops : List Op := [.load 0, .load 1, .poll 1 [.other 5], .storeStop, .wakeup,
      .storeStop, .handleEvent 1, .wakeup]
    let s := ops.foldl workerGroupMachine.next (start 2)
    (∀ w ∈ s.workers, w.late ≤ 1) ∧ workerGroupMachine.Ends
      (fun t => ∀ w ∈ t.workers, w.point = .left) s := by
  intro ops s
  have hrun : workerGroupMachine.Run (start 2) ops s :=
    Machine.run_iff.mpr ⟨by decide +kernel, rfl⟩
  obtain ⟨hlate, -, hends⟩ := stop_wakes_all hrun
  exact ⟨hlate, hends (by decide +kernel)⟩

end WorkerGroup

end Jerry
