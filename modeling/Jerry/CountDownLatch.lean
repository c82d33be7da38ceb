/-
`utils/CountDownLatch`: the count, and where the threads that use the latch are.
The mutex makes each critical section one step; between the notification of a
waiter and its next look at the count any other steps may come.
-/
import Jerry.Machine
import Mathlib.Logic.Function.Basic

universe u

namespace Jerry

/-- Where a thread is.  `blocked` sleeps in `cond.wait`; `woken` has been
notified, or woke up by itself, and has to take the mutex before it evaluates
the predicate again; `released` has returned from `Wait`. -/
inductive CountDownLatch.Point where
  | outside
  | blocked
  | woken
  | released
deriving DecidableEq, Repr

/-- The latch and the threads `T` that use it.  `calls` is not in the source: it
is the number of `CountDown` calls so far. -/
structure CountDownLatch (T : Type u) where
  count : Int
  point : T → CountDownLatch.Point
  calls : Nat

/-- One critical section of a thread, or a spurious wake-up. -/
inductive LatchStep (T : Type u) where
  | wait (t : T)
  | countDown (t : T)
  | wake (t : T)
  | recheck (t : T)
deriving DecidableEq, Repr

namespace CountDownLatch

variable {T : Type u} [DecidableEq T]

/-- The constructor. -/
def init (count : Nat) : CountDownLatch T :=
  { count := count, point := fun _ => .outside, calls := 0 }

def getCount (s : CountDownLatch T) : Int :=
  s.count

def setPoint (s : CountDownLatch T) (t : T) (point : Point) : CountDownLatch T :=
  { s with point := Function.update s.point t point }

/-- A round of `cond.wait`: `return count == 0`, and the thread sleeps if that
is false. -/
def evaluate (s : CountDownLatch T) (t : T) : CountDownLatch T :=
  s.setPoint t (if s.count = 0 then .released else .blocked)

def wait (s : CountDownLatch T) (t : T) : CountDownLatch T :=
  s.evaluate t

/-- `cond.notify_all()`. -/
def notifyAll (s : CountDownLatch T) : CountDownLatch T :=
  { s with
    point := fun t => if s.point t = .blocked then .woken else s.point t }

def countDown (s : CountDownLatch T) : CountDownLatch T :=
  let s := { s with count := s.count - 1, calls := s.calls + 1 }
  if s.count = 0 then s.notifyAll else s

/-- The thread is not inside of `Wait`. -/
def Idle (s : CountDownLatch T) (t : T) : Prop :=
  s.point t = .outside ∨ s.point t = .released

instance (s : CountDownLatch T) (t : T) : Decidable (s.Idle t) :=
  inferInstanceAs (Decidable (_ ∨ _))

end CountDownLatch

namespace LatchStep

variable {T : Type u} [DecidableEq T]

def Enabled (s : CountDownLatch T) : LatchStep T → Prop
  | .wait t => s.Idle t
  | .countDown t => s.Idle t
  | .wake t => s.point t = .blocked
  | .recheck t => s.point t = .woken

instance (s : CountDownLatch T) : ∀ step : LatchStep T, Decidable (step.Enabled s)
  | .wait _ => inferInstanceAs (Decidable (_ ∨ _))
  | .countDown _ => inferInstanceAs (Decidable (_ ∨ _))
  | .wake _ => inferInstanceAs (Decidable (_ = _))
  | .recheck _ => inferInstanceAs (Decidable (_ = _))

def exec (s : CountDownLatch T) : LatchStep T → CountDownLatch T
  | .wait t => s.wait t
  | .countDown _ => s.countDown
  | .wake t => s.setPoint t .woken
  | .recheck t => s.evaluate t

/-- A `Wait` that looks at the count finds it at zero or above. -/
def InTime (s : CountDownLatch T) : LatchStep T → Prop
  | .wait _ => 0 ≤ s.count
  | .recheck _ => 0 ≤ s.count
  | .countDown _ => True
  | .wake _ => True

instance (s : CountDownLatch T) : ∀ step : LatchStep T, Decidable (step.InTime s)
  | .wait _ => inferInstanceAs (Decidable (_ ≤ _))
  | .recheck _ => inferInstanceAs (Decidable (_ ≤ _))
  | .countDown _ => isTrue trivial
  | .wake _ => isTrue trivial

end LatchStep

/-- The latch under any interleaving of its threads. -/
def latchMachine (T : Type u) [DecidableEq T] :
    Machine (CountDownLatch T) (LatchStep T) where
  enabled s step := step.Enabled s
  next s step := step.exec s

instance {T : Type u} [DecidableEq T] (s : CountDownLatch T)
    (step : LatchStep T) : Decidable ((latchMachine T).enabled s step) :=
  inferInstanceAs (Decidable (step.Enabled s))

namespace CountDownLatch

variable {T : Type u} [DecidableEq T] {n : Nat} {s t : CountDownLatch T}
  {steps : List (LatchStep T)}

/-- Nobody is released before the `n`-th `CountDown`, and from then on nobody
is blocked. -/
def Opens (n : Nat) (s : CountDownLatch T) : Prop :=
  (∀ t, s.point t = .released → n ≤ s.calls) ∧
    (n ≤ s.calls → ∀ t, s.point t ≠ .blocked)

/-- What every interleaving keeps. -/
structure Rep (n : Nat) (s : CountDownLatch T) : Prop where
  count : s.count = n - s.calls
  released : ∀ t, s.point t = .released → n ≤ s.calls

omit [DecidableEq T] in
theorem init_rep (n : Nat) : Rep n (init n : CountDownLatch T) where
  count := (Int.sub_zero _).symm
  released _ h := nomatch h

omit [DecidableEq T] in
theorem init_opens (n : Nat) : Opens n (init n : CountDownLatch T) :=
  ⟨fun _ h => (nomatch h), fun _ _ h => nomatch h⟩

theorem setPoint_of_ne {t t' : T} (h : t' ≠ t) (point : Point) :
    (s.setPoint t point).point t' = s.point t' :=
  Function.update_of_ne h _ _

theorem setPoint_self (t : T) (point : Point) :
    (s.setPoint t point).point t = point :=
  Function.update_self _ _ _

/-- A thread that is released found the count at zero. -/
theorem evaluate_rep (h : s.Rep n) (t : T) : (s.evaluate t).Rep n where
  count := h.count
  released t' ht' := by
    by_cases heq : t' = t
    · subst heq
      rw [evaluate, setPoint_self] at ht'
      split at ht'
      · have := h.count
        change n ≤ s.calls
        omega
      · cases ht'
    · rw [evaluate, setPoint_of_ne heq] at ht'
      exact h.released t' ht'

/-- Once the latch is open, a look at the count leaves nobody blocked exactly if
the count has not gone below zero. -/
theorem evaluate_opens_iff (h : s.Rep n) (hopens : s.Opens n) (t : T) :
    (s.evaluate t).Opens n ↔ 0 ≤ s.count := by
  have hcount := h.count
  constructor
  · rintro ⟨_, hnone⟩
    by_contra hneg
    have hcalls : n ≤ (s.evaluate t).calls := by
      change n ≤ s.calls
      omega
    apply hnone hcalls t
    rw [evaluate, setPoint_self, if_neg (by omega)]
  · intro hnonneg
    refine ⟨(evaluate_rep h t).released, fun (hcalls : n ≤ s.calls) t' => ?_⟩
    by_cases heq : t' = t
    · subst heq
      rw [evaluate, setPoint_self, if_pos (by omega)]
      nofun
    · rw [evaluate, setPoint_of_ne heq]
      exact hopens.2 hcalls t'

theorem wake_rep (h : s.Rep n) (t : T) : (s.setPoint t .woken).Rep n where
  count := h.count
  released t' ht' := by
    by_cases heq : t' = t
    · subst heq
      rw [setPoint_self] at ht'
      cases ht'
    · rw [setPoint_of_ne heq] at ht'
      exact h.released t' ht'

theorem wake_opens (hopens : s.Opens n) (h : s.Rep n) (t : T) :
    (s.setPoint t .woken).Opens n := by
  refine ⟨(wake_rep h t).released, fun hcalls t' => ?_⟩
  by_cases heq : t' = t
  · subst heq
    rw [setPoint_self]
    nofun
  · rw [setPoint_of_ne heq]
    exact hopens.2 hcalls t'

omit [DecidableEq T] in
/-- `CountDown` moves nobody but the blocked threads, and those only when it
brings the count to zero. -/
theorem countDown_eq (s : CountDownLatch T) :
    s.countDown.count = s.count - 1 ∧ s.countDown.calls = s.calls + 1 ∧
      ∀ t, s.countDown.point t =
        if s.count - 1 = 0 ∧ s.point t = .blocked then .woken
        else s.point t := by
  by_cases hzero : s.count - 1 = 0
  · simp [countDown, notifyAll, hzero]
  · simp [countDown, hzero]

omit [DecidableEq T] in
theorem countDown_rep (h : s.Rep n) : s.countDown.Rep n := by
  obtain ⟨hcount, hcalls, hpoint⟩ := countDown_eq s
  refine ⟨?_, fun t ht => ?_⟩
  · rw [hcount, hcalls, h.count]
    omega
  · rw [hpoint] at ht
    rw [hcalls]
    split at ht
    · cases ht
    · exact Nat.le_succ_of_le (h.released t ht)

omit [DecidableEq T] in
/-- The `n`-th call wakes all that are blocked, and there are none at the later
ones. -/
theorem countDown_opens (h : s.Rep n) (hopens : s.Opens n) :
    s.countDown.Opens n := by
  obtain ⟨_, hcalls, hpoint⟩ := countDown_eq s
  refine ⟨(countDown_rep h).released, fun hle t ht => ?_⟩
  rw [hcalls] at hle
  rw [hpoint] at ht
  have hcount := h.count
  split at ht
  · cases ht
  · rename_i hnot
    by_cases hbefore : n ≤ s.calls
    · exact hopens.2 hbefore t ht
    · exact hnot ⟨by omega, ht⟩

end CountDownLatch

namespace LatchStep

open CountDownLatch

variable {T : Type u} [DecidableEq T] {n : Nat} {s : CountDownLatch T}

theorem exec_rep (h : s.Rep n) (step : LatchStep T) : (step.exec s).Rep n := by
  cases step with
  | wait t => exact evaluate_rep h t
  | countDown t => exact countDown_rep h
  | wake t => exact wake_rep h t
  | recheck t => exact evaluate_rep h t

theorem exec_opens_iff (h : s.Rep n) (hopens : s.Opens n) (step : LatchStep T) :
    (step.exec s).Opens n ↔ step.InTime s := by
  cases step with
  | wait t => exact evaluate_opens_iff h hopens t
  | countDown t => exact iff_of_true (countDown_opens h hopens) trivial
  | wake t => exact iff_of_true (wake_opens hopens h t) trivial
  | recheck t => exact evaluate_opens_iff h hopens t

/-- No step takes a call back. -/
theorem exec_calls (s : CountDownLatch T) (step : LatchStep T) :
    s.calls ≤ (step.exec s).calls := by
  cases step with
  | wait t | wake t | recheck t => exact Nat.le_refl _
  | countDown t =>
      change _ ≤ s.countDown.calls
      rw [(countDown_eq s).2.1]
      exact Nat.le_succ _

end LatchStep

namespace CountDownLatch

variable {T : Type u} [DecidableEq T] {n : Nat} {s : CountDownLatch T}
  {steps : List (LatchStep T)}

/-- `GetCount` is what is missing to `n`, and negative behind the `n`-th
call. -/
theorem getCount_eq (hrun : (latchMachine T).Run (init n) steps s) :
    s.getCount = n - s.calls :=
  (hrun.invariant (init_rep n) fun _ step h _ => step.exec_rep h).count

/-- The latch opens with the `n`-th call and stays open exactly in the runs in
which no thread looks at the count behind a further one. -/
theorem opens_always_iff (hrun : (latchMachine T).Run (init n) steps s) :
    (latchMachine T).Always (Opens n) (init n) steps ↔
      ((latchMachine T).guard LatchStep.InTime).Run (init n) steps s :=
  hrun.always_iff_guard (I := Rep n) (init_rep n) (init_opens n)
    (fun _ step h _ _ _ => step.exec_rep h)
    (fun _ step h hopens _ => step.exec_opens_iff h hopens)

instance (s : CountDownLatch T) (step : LatchStep T) :
    Decidable (((latchMachine T).guard LatchStep.InTime).enabled s step) :=
  inferInstanceAs (Decidable (_ ∧ _))

/-- One waiter sleeps until the call, another one comes late, and a second call
finds nobody who has still to look at the count. -/
theorem opens_always_iff_one :
    let steps : List (LatchStep Nat) :=
      [.wait 0, .countDown 2, .recheck 0, .wait 1, .countDown 0]
    (latchMachine Nat).Always (Opens 1) (init 1) steps := by
  intro steps
  have hguard : ((latchMachine Nat).guard LatchStep.InTime).Run (init 1) steps
      (steps.foldl (latchMachine Nat).next (init 1)) :=
    Machine.run_iff.mpr ⟨by decide, rfl⟩
  exact (opens_always_iff hguard.of_guard).mpr hguard

/-- A second `CountDown` falls between the notification of the waiter and its
next look at the count, or comes before a late waiter. -/
theorem opens_always_iff_twice :
    (∃ s, (latchMachine Nat).Run (init 1)
        [.wait 0, .countDown 1, .countDown 1, .recheck 0] s ∧
      s.calls = 2 ∧ s.point 0 = .blocked) ∧
    (∃ s, (latchMachine Nat).Run (init 1)
        [.countDown 1, .countDown 1, .wait 0] s ∧
      s.calls = 2 ∧ s.point 0 = .blocked) ∧
    ¬ ∀ (n : Nat) (steps : List (LatchStep Nat)) (s : CountDownLatch Nat),
        (latchMachine Nat).Run (init n) steps s → s.Opens n := by
  have hpending : (latchMachine Nat).Run (init 1)
      [.wait 0, .countDown 1, .countDown 1, .recheck 0] _ :=
    Machine.run_iff.mpr ⟨by decide, rfl⟩
  have hlate : (latchMachine Nat).Run (init 1)
      [.countDown 1, .countDown 1, .wait 0] _ :=
    Machine.run_iff.mpr ⟨by decide, rfl⟩
  refine ⟨⟨_, hpending, by decide, by decide⟩, ⟨_, hlate, by decide, by decide⟩,
    fun h => ?_⟩
  exact (h 1 _ _ hlate).2 (by decide) 0 (by decide)

/-- With no call behind the `n`-th, as when each of the `n` parties counts down
once, no thread looks at the count too late. -/
theorem opens_of_calls_le (hrun : (latchMachine T).Run (init n) steps s)
    (hcalls : s.calls ≤ n) :
    (latchMachine T).Always (Opens n) (init n) steps := by
  have hguard : ((latchMachine T).guard LatchStep.InTime).Run (init n)
      steps s := by
    apply hrun.guard_of_trap (I := Rep n) (D := fun s => n < s.calls)
    · exact init_rep n
    · exact fun _ step h _ _ => step.exec_rep h
    · intro s step h _ hlate
      have hcount := h.count
      have hkept := step.exec_calls s
      have hneg : s.count < 0 := by
        cases step with
        | wait t | recheck t => exact Int.not_le.mp hlate
        | countDown t | wake t => exact absurd trivial hlate
      change n < (step.exec s).calls
      omega
    · exact fun s step h _ => Nat.lt_of_lt_of_le h (step.exec_calls s)
    · exact Nat.not_lt.mpr hcalls
  exact hguard.always_of_guard (I := fun s => s.Rep n ∧ s.Opens n)
    ⟨init_rep n, init_opens n⟩ (fun _ h => h.2) fun _ step h _ htime =>
      ⟨step.exec_rep h.1, (step.exec_opens_iff h.1 h.2).mpr htime⟩

end CountDownLatch

end Jerry
