/-
`net/ThreadPool`: tasks by address, the priority queue of those pending, the map
from ids to tasks, and the worker threads around one mutex and one condition
variable.  A critical section is one step, but a worker whose wait predicate is
false blocks in a step of its own and holds the mutex until then.  The loop behind
`// Stop loop` is outside of the mutex: a round of it is two steps, and a thread
that comes to the containers between them races with it.
-/
import Jerry.HeapOps
import Jerry.Machine
import Mathlib.Logic.Function.Basic

namespace Jerry

inductive TaskPriority where
  | low | normal | high | emergency
deriving DecidableEq, Repr

namespace TaskPriority

/-- The value of the enumerator. -/
def value : TaskPriority → Nat
  | .low => 0
  | .normal => 1
  | .high => 2
  | .emergency => 3

end TaskPriority

abbrev TaskId := Int

/-- The address of a `TaskStruct`. -/
abbrev TaskPtr := Nat

/-- A bound `std::function`, by name. -/
abbrev Task := Nat

structure TaskStruct where
  task : Task
  tid : TaskId
  canceled : Bool
  priority : TaskPriority
deriving DecidableEq, Repr

namespace ThreadPool

/-- Where a worker is in `RunInThread`.  `blocking` has found the predicate of
`condition.wait` false, and `woken` has been notified; `took` has unlocked the
mutex with a task in hand, and `running` is inside of it.  `discarding` comes to
the test of the loop behind `// Stop loop`; `popping` has found a task there, and
`leaving` has found none. -/
inductive Point where
  | checking | locking | blocking | waiting | woken
  | took (p : TaskPtr)
  | running (p : TaskPtr)
  | discarding | popping | leaving | exited
deriving DecidableEq, Repr

/-- How far `Stop` has come. -/
inductive StopPoint where
  | running | stored | notified | joined
deriving DecidableEq, Repr

/-- What has become of the tasks: the accepted ones, those taken and executed
with the worker that did, those found canceled when they were popped, those
discarded at the end, and those for which `CancelTask` has returned true.  None
of it is in the source. -/
structure History where
  accepted : List TaskPtr
  taken : List (Nat × TaskPtr)
  executed : List (Nat × TaskPtr)
  dropped : List TaskPtr
  discarded : List TaskPtr
  canceled : List TaskPtr
deriving DecidableEq, Repr

end ThreadPool

/-- The pool and the objects its pointers lead to.  `undefined` says that two
threads were at the containers at once, or that an empty queue was popped. -/
structure ThreadPool where
  pendingSize : Nat
  stop : Bool
  tasks : TaskPtr → TaskStruct
  fresh : TaskPtr
  tasksMap : TaskId → Option TaskPtr
  pendingTasks : List TaskPtr
  nextTaskId : TaskId
  workers : List ThreadPool.Point
  stopPoint : ThreadPool.StopPoint
  undefined : Bool
  history : ThreadPool.History

namespace ThreadPool

/-- A new pool behind `Start`.  Other pools of the process may have taken ids
before. -/
def start (workers pendingSize nextTaskId : Nat) : ThreadPool :=
  { pendingSize := pendingSize
    stop := false
    tasks := fun _ => ⟨0, -1, false, .low⟩
    fresh := 0
    tasksMap := fun _ => none
    pendingTasks := []
    nextTaskId := nextTaskId
    workers := List.replicate workers .checking
    stopPoint := .running
    undefined := false
    history := ⟨[], [], [], [], [], []⟩ }

/-- The key `TaskCmp` compares by. -/
def priorityOf (s : ThreadPool) (p : TaskPtr) : Nat :=
  (s.tasks p).priority.value

def setWorker (s : ThreadPool) (i : Nat) (point : Point) : ThreadPool :=
  { s with workers := s.workers.set i point }

/-- No worker is between its predicate and its block. -/
def Unlocked (s : ThreadPool) : Prop :=
  .blocking ∉ s.workers

instance (s : ThreadPool) : Decidable s.Unlocked :=
  inferInstanceAs (Decidable (_ ∉ _))

/-- `pending_tasks` has reached `pending_size`, of which 0 stands for no
limit. -/
def full (s : ThreadPool) : Prop :=
  s.pendingSize > 0 ∧ s.pendingTasks.length ≥ s.pendingSize

instance (s : ThreadPool) : Decidable s.full :=
  inferInstanceAs (Decidable (_ ∧ _))

/-- `while (!stop.load())`. -/
def checkStop (s : ThreadPool) (i : Nat) : ThreadPool :=
  s.setWorker i (if s.stop then .discarding else .locking)

/-- `while (!pending_tasks.empty())`. -/
def testEmpty (s : ThreadPool) (i : Nat) : ThreadPool :=
  s.setWorker i (if s.pendingTasks = [] then .leaving else .popping)

/-- `condition.notify_one`, with the worker it wakes. -/
def notifyOne (s : ThreadPool) : Option Nat → ThreadPool
  | some i => s.setWorker i .woken
  | none => s

/-- `condition.notify_all` in `Stop`. -/
def notifyAll (s : ThreadPool) : ThreadPool :=
  { s with
    workers := s.workers.map fun point =>
      if point = .waiting then .woken else point
    stopPoint := .notified }

def cancelTask (s : ThreadPool) (tid : TaskId) : ThreadPool × Bool :=
  if tid ≥ s.nextTaskId then (s, false)
  else
    match s.tasksMap tid with
    | none => (s, false)
    | some p =>
        ({ s with
          tasks := Function.update s.tasks p { s.tasks p with canceled := true }
          history := { s.history with canceled := p :: s.history.canceled } },
          true)

section Operations

variable (ops : HeapOps TaskPtr Nat)

/-- `pending_tasks.pop(); tasks_map.erase(task->tid)`. -/
def popTask (s : ThreadPool) (p : TaskPtr) : ThreadPool :=
  { s with
    pendingTasks := ops.pop s.priorityOf s.pendingTasks
    tasksMap := Function.update s.tasksMap (s.tasks p).tid none }

/-- The critical section behind the wait, with a task at the top. -/
def takeTask (s : ThreadPool) (i : Nat) (p : TaskPtr) : ThreadPool :=
  let s' := s.popTask ops p
  if (s.tasks p).canceled then
    { s' with
      history := { s.history with dropped := p :: s.history.dropped }
      }.setWorker i .checking
  else
    { s' with
      history := { s.history with taken := (i, p) :: s.history.taken }
      }.setWorker i (.took p)

/-- A worker that has the mutex evaluates the predicate of `condition.wait`, and
goes on when it is true. -/
def evaluate (s : ThreadPool) (i : Nat) : ThreadPool :=
  match s.pendingTasks with
  | [] => s.setWorker i (if s.stop then .discarding else .blocking)
  | p :: _ =>
      if s.stop then s.setWorker i .discarding else s.takeTask ops i p

/-- `task->task()` is called. -/
def execute (s : ThreadPool) (i : Nat) (p : TaskPtr) : ThreadPool :=
  { s with
    history := { s.history with executed := (i, p) :: s.history.executed }
    }.setWorker i (.running p)

/-- The body of the loop behind `// Stop loop`. -/
def discard (s : ThreadPool) (i : Nat) : ThreadPool :=
  match s.pendingTasks with
  | [] => { s with undefined := true }
  | p :: _ =>
      { s.popTask ops p with
        history := { s.history with discarded := p :: s.history.discarded }
        }.setWorker i .discarding

/-- The part of `SubmitTask` that makes the task known. -/
def enqueue (s : ThreadPool) (priority : TaskPriority) (task : Task) :
    ThreadPool :=
  let s := { s with
    tasks := Function.update s.tasks s.fresh
      ⟨task, s.nextTaskId, false, priority⟩ }
  { s with
    fresh := s.fresh + 1
    nextTaskId := s.nextTaskId + 1
    pendingTasks := ops.push s.priorityOf s.fresh s.pendingTasks
    tasksMap :=
      if s.tasksMap s.nextTaskId = none then
        Function.update s.tasksMap s.nextTaskId (some s.fresh)
      else s.tasksMap
    history := { s.history with accepted := s.fresh :: s.history.accepted } }

/-- `SubmitTask(priority, task)`; without a priority it is `NORMAL`. -/
def submitTask (s : ThreadPool) (priority : TaskPriority) (task : Task)
    (woken : Option Nat) : ThreadPool × TaskId :=
  if s.full then (s, -1)
  else ((s.enqueue ops priority task).notifyOne woken, s.nextTaskId)

end Operations

/-- One atomic step: of a worker, of a thread that submits or cancels, of another
pool that takes an id, or of `Stop`. -/
inductive Op where
  | checkStop (i : Nat)
  | evaluate (i : Nat)
  | block (i : Nat)
  | wakeUp (i : Nat)
  | execute (i : Nat)
  | finish (i : Nat)
  | testEmpty (i : Nat)
  | discard (i : Nat)
  | leave (i : Nat)
  | submitTask (priority : TaskPriority) (task : Task) (woken : Option Nat)
  | cancelTask (tid : TaskId)
  | takeTaskId
  | storeStop
  | notifyAll
  | join
deriving DecidableEq, Repr

/-- Whom `notify_one` can wake: a waiting worker, if there is one. -/
def Wakes (s : ThreadPool) : Option Nat → Prop
  | some i => ¬ s.full ∧ s.workers[i]? = some .waiting
  | none => s.full ∨ .waiting ∉ s.workers

instance (s : ThreadPool) : ∀ woken, Decidable (s.Wakes woken)
  | some _ => inferInstanceAs (Decidable (_ ∧ _))
  | none => inferInstanceAs (Decidable (_ ∨ _))

/-- The task a worker is about to execute. -/
def took? (s : ThreadPool) (i : Nat) : Option TaskPtr :=
  match s.workers[i]? with
  | some (.took p) => some p
  | _ => none

def running? (s : ThreadPool) (i : Nat) : Option TaskPtr :=
  match s.workers[i]? with
  | some (.running p) => some p
  | _ => none

/-- A waiting worker may wake up spuriously, and the mutex is taken only when it
is free. -/
def Op.Enabled (s : ThreadPool) : Op → Prop
  | .checkStop i => s.workers[i]? = some .checking
  | .evaluate i =>
      (s.workers[i]? = some .locking ∨ s.workers[i]? = some .woken) ∧ s.Unlocked
  | .block i => s.workers[i]? = some .blocking
  | .wakeUp i => s.workers[i]? = some .waiting
  | .execute i => (s.took? i).isSome = true
  | .finish i => (s.running? i).isSome = true
  | .testEmpty i => s.workers[i]? = some .discarding
  | .discard i => s.workers[i]? = some .popping
  | .leave i => s.workers[i]? = some .leaving
  | .submitTask _ _ woken => s.Unlocked ∧ s.Wakes woken
  | .cancelTask tid => tid ≥ s.nextTaskId ∨ s.Unlocked
  | .takeTaskId => True
  | .storeStop => s.stopPoint = .running
  | .notifyAll => s.stopPoint = .stored
  | .join => s.stopPoint = .notified ∧ ∀ point ∈ s.workers, point = .exited

instance (s : ThreadPool) : ∀ op : Op, Decidable (op.Enabled s)
  | .checkStop _ => inferInstanceAs (Decidable (_ = _))
  | .evaluate _ => inferInstanceAs (Decidable ((_ ∨ _) ∧ _))
  | .block _ => inferInstanceAs (Decidable (_ = _))
  | .wakeUp _ => inferInstanceAs (Decidable (_ = _))
  | .execute _ => inferInstanceAs (Decidable (_ = _))
  | .finish _ => inferInstanceAs (Decidable (_ = _))
  | .testEmpty _ => inferInstanceAs (Decidable (_ = _))
  | .leave _ => inferInstanceAs (Decidable (_ = _))
  | .discard _ => inferInstanceAs (Decidable (_ = _))
  | .submitTask _ _ _ => inferInstanceAs (Decidable (_ ∧ _))
  | .cancelTask _ => inferInstanceAs (Decidable (_ ∨ _))
  | .takeTaskId => isTrue trivial
  | .storeStop => inferInstanceAs (Decidable (_ = _))
  | .notifyAll => inferInstanceAs (Decidable (_ = _))
  | .join => inferInstanceAs (Decidable (_ ∧ ∀ _ ∈ _, _))

def Op.apply (ops : HeapOps TaskPtr Nat) (s : ThreadPool) : Op → ThreadPool
  | .checkStop i => s.checkStop i
  | .evaluate i => s.evaluate ops i
  | .block i => s.setWorker i .waiting
  | .wakeUp i => s.setWorker i .woken
  | .execute i =>
      match s.took? i with
      | some p => s.execute i p
      | none => s
  | .finish i => s.setWorker i .checking
  | .testEmpty i => s.testEmpty i
  | .discard i => s.discard ops i
  | .leave i => s.setWorker i .exited
  | .submitTask priority task woken => (s.submitTask ops priority task woken).1
  | .cancelTask tid => (s.cancelTask tid).1
  | .takeTaskId => { s with nextTaskId := s.nextTaskId + 1 }
  | .storeStop => { s with stop := true, stopPoint := .stored }
  | .notifyAll => s.notifyAll
  | .join => { s with stopPoint := .joined }

/-- The step goes to the containers while a worker is inside a round of the loop
behind `// Stop loop`. -/
def Op.Races (s : ThreadPool) : Op → Prop
  | .evaluate _ | .testEmpty _ | .submitTask _ _ _ => .popping ∈ s.workers
  | .cancelTask tid => tid < s.nextTaskId ∧ .popping ∈ s.workers
  | _ => False

instance (s : ThreadPool) : ∀ op : Op, Decidable (op.Races s)
  | .checkStop _ => isFalse id
  | .evaluate _ => inferInstanceAs (Decidable (_ ∈ _))
  | .block _ => isFalse id
  | .wakeUp _ => isFalse id
  | .execute _ => isFalse id
  | .finish _ => isFalse id
  | .testEmpty _ => inferInstanceAs (Decidable (_ ∈ _))
  | .discard _ => isFalse id
  | .leave _ => isFalse id
  | .submitTask _ _ _ => inferInstanceAs (Decidable (_ ∈ _))
  | .cancelTask _ => inferInstanceAs (Decidable (_ ∧ _))
  | .takeTaskId => isFalse id
  | .storeStop => isFalse id
  | .notifyAll => isFalse id
  | .join => isFalse id

/-- A data race leaves nothing defined. -/
def Op.exec (ops : HeapOps TaskPtr Nat) (s : ThreadPool) (op : Op) : ThreadPool :=
  if op.Races s then { s with undefined := true } else op.apply ops s

section Workers

variable {ops : HeapOps TaskPtr Nat} {s : ThreadPool} {op : Op} {i j : Nat}
  {p : TaskPtr} {point point' : Point}

theorem exec_of_races (h : op.Races s) :
    op.exec ops s = { s with undefined := true } :=
  if_pos h

theorem exec_of_not_races (h : ¬ op.Races s) : op.exec ops s = op.apply ops s :=
  if_neg h

/-- What is kept by the steps of the source and by a race is kept by every step. -/
theorem exec_elim {P : ThreadPool → Prop} (hraces : P { s with undefined := true })
    (happly : P (op.apply ops s)) : P (op.exec ops s) := by
  by_cases h : op.Races s
  · rw [exec_of_races h]
    exact hraces
  · rw [exec_of_not_races h]
    exact happly

theorem took?_eq_some (hp : s.took? i = some p) :
    s.workers[i]? = some (.took p) := by
  rw [took?] at hp
  split at hp
  · rename_i q hq
    cases hp
    exact hq
  · cases hp

theorem running?_eq_some (hp : s.running? i = some p) :
    s.workers[i]? = some (.running p) := by
  rw [running?] at hp
  split at hp
  · rename_i q hq
    cases hp
    exact hq
  · cases hp

theorem mem_setWorker (hmem : point' ∈ (s.setWorker i point).workers) :
    point' = point ∨ point' ∈ s.workers :=
  (List.mem_or_eq_of_mem_set hmem).symm

theorem getElem?_setWorker_ne (hne : i ≠ j) :
    (s.setWorker i point).workers[j]? = s.workers[j]? :=
  List.getElem?_set_ne hne

theorem getElem?_setWorker (hj : (s.setWorker i point).workers[j]? = some point') :
    j = i ∧ point' = point ∨ j ≠ i ∧ s.workers[j]? = some point' := by
  by_cases heq : i = j
  · subst heq
    rw [setWorker] at hj
    have hlength := (List.getElem?_eq_some_iff.mp hj).1
    rw [List.length_set] at hlength
    rw [List.getElem?_set_self hlength] at hj
    exact Or.inl ⟨rfl, (Option.some.inj hj).symm⟩
  · rw [getElem?_setWorker_ne heq] at hj
    exact Or.inr ⟨fun h => heq h.symm, hj⟩

/-- Who is at another point than `woken` behind `notify_all` was there before. -/
theorem getElem?_notifyAll (hi : s.notifyAll.workers[i]? = some point)
    (hne : point ≠ .woken) :
    s.workers[i]? = some point ∧ point ≠ .waiting := by
  simp only [notifyAll, List.getElem?_map, Option.map_eq_some_iff] at hi
  obtain ⟨point', hi, heq⟩ := hi
  split at heq
  · exact absurd heq.symm hne
  · rename_i hwaiting
    exact heq ▸ ⟨hi, hwaiting⟩

theorem mem_notifyAll (hmem : point ∈ s.notifyAll.workers)
    (hne : point ≠ .woken) : point ∈ s.workers ∧ point ≠ .waiting := by
  obtain ⟨i, hi⟩ := List.getElem?_of_mem hmem
  have hback := getElem?_notifyAll hi hne
  exact ⟨List.mem_of_getElem? hback.1, hback.2⟩

end Workers

end ThreadPool

/-- A thread pool with its workers and its users, for as long as its behaviour is
defined. -/
def poolMachine (ops : HeapOps TaskPtr Nat) : Machine ThreadPool ThreadPool.Op where
  enabled s op := s.undefined = false ∧ op.Enabled s
  next s op := op.exec ops s

instance (ops : HeapOps TaskPtr Nat) (s : ThreadPool) (op : ThreadPool.Op) :
    Decidable ((poolMachine ops).enabled s op) :=
  inferInstanceAs (Decidable (_ ∧ _))

end Jerry
