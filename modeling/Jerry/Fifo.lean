/-
First-in first-out queues as lists: elements enter at the back and leave at the
front, in whole blocks.  The conservation law splits everything that ever
entered into what has left, in order, and what is still queued.
-/
import Jerry.Machine

universe u

namespace Fifo

variable {α : Type u}

/-- One effect on a queue. -/
inductive Op (α : Type u) where
  | enqueue (xs : List α)
  | dequeue (n : Nat)
  | clear
deriving DecidableEq, Repr

def next : List α → Op α → List α
  | queue, .enqueue xs => queue ++ xs
  | queue, .dequeue n => queue.drop n
  | _, .clear => []

/-- The block an effect takes off the front. -/
def taken : List α → Op α → List α
  | _, .enqueue _ => []
  | queue, .dequeue n => queue.take n
  | queue, .clear => queue

def Op.put : Op α → List α
  | .enqueue xs => xs
  | .dequeue _ => []
  | .clear => []

/-- The unbounded queue accepts every effect. -/
def machine (α : Type u) : Machine (List α) (Op α) where
  enabled _ _ := True
  next := next

/-- Everything the effects put in, in order. -/
def entered (ops : List (Op α)) : List α :=
  ops.flatMap Op.put

/-- Everything the effects take out, in order, starting from `queue`. -/
def left : List α → List (Op α) → List α
  | _, [] => []
  | queue, op :: ops => taken queue op ++ left (next queue op) ops

theorem taken_append_next (queue : List α) (op : Op α) :
    taken queue op ++ next queue op = queue ++ op.put := by
  cases op with
  | enqueue xs => rfl
  | dequeue n => simp [taken, next, Op.put]
  | clear => simp [taken, next, Op.put]

/-- Nothing is lost, duplicated or reordered: what was queued at first followed
by what entered is what left followed by what is queued at last. -/
theorem conservation (queue : List α) (ops : List (Op α)) :
    queue ++ entered ops = left queue ops ++ ops.foldl next queue := by
  induction ops generalizing queue with
  | nil => simp [entered, left]
  | cons op ops ih =>
      calc queue ++ entered (op :: ops)
          = (queue ++ op.put) ++ entered ops := by simp [entered]
        _ = taken queue op ++ (next queue op ++ entered ops) := by
            rw [← taken_append_next, List.append_assoc]
        _ = left queue (op :: ops) ++ (op :: ops).foldl next queue := by
            rw [ih, left, List.foldl_cons, List.append_assoc]

end Fifo
