/-
Machines whose steps lower a measure: how long a run can be, and where a run that
cannot go on has come to.  The measure of several components is their sum.
-/
import Jerry.Machine
import Mathlib.Algebra.BigOperators.Group.List.Basic
import Mathlib.Algebra.GroupWithZero.Nat

universe u v

namespace Machine

variable {S : Type u} {L : Type v} {M : Machine S L} {P Q : S → Prop}
  {measure : S → Nat} {s t : S} {ls : List L}

/-- A run is no longer than what its steps take off the measure. -/
theorem Run.length_add_le (hrun : M.Run s ls t) (hP : P s)
    (hstep : ∀ s l, P s → M.enabled s l →
      P (M.next s l) ∧ measure (M.next s l) < measure s) :
    ls.length + measure t ≤ measure s ∧ P t := by
  induction hrun with
  | nil s => exact ⟨Nat.le_of_eq (Nat.zero_add _), hP⟩
  | cons henabled _ ih =>
      obtain ⟨hnext, hless⟩ := hstep _ _ hP henabled
      obtain ⟨hle, ht⟩ := ih hnext
      refine ⟨?_, ht⟩
      rw [List.length_cons]
      omega

/-- Every run from here comes to its end, and it ends where `Q` holds. -/
def Ends (M : Machine S L) (Q : S → Prop) (s : S) : Prop :=
  ∃ n, ∀ ls t, M.Run s ls t → ls.length ≤ n ∧ (Q t ∨ ∃ l, M.enabled t l)

theorem ends_of_measure (measure : S → Nat) (hP : P s)
    (hstep : ∀ s l, P s → M.enabled s l →
      P (M.next s l) ∧ measure (M.next s l) < measure s)
    (hgoes : ∀ s, P s → ¬ Q s → ∃ l, M.enabled s l) : M.Ends Q s := by
  refine ⟨measure s, fun ls t hrun => ?_⟩
  obtain ⟨hle, ht⟩ := hrun.length_add_le hP hstep
  refine ⟨Nat.le_trans (Nat.le_add_right _ _) hle, ?_⟩
  by_cases hQ : Q t
  · exact Or.inl hQ
  · exact Or.inr (hgoes t ht hQ)

/-- A machine that comes to its end gets to where `Q` holds. -/
theorem Ends.reaches (h : M.Ends Q s) : ∃ ls t, M.Run s ls t ∧ Q t := by
  obtain ⟨n, hends⟩ := h
  by_contra hnever
  have hlong (k : Nat) : ∃ ls t, M.Run s ls t ∧ ls.length = k := by
    induction k with
    | zero => exact ⟨[], s, .nil s, rfl⟩
    | succ k ih =>
        obtain ⟨ls, t, hrun, rfl⟩ := ih
        rcases (hends ls t hrun).2 with hQ | ⟨l, henabled⟩
        · exact absurd ⟨ls, t, hrun, hQ⟩ hnever
        · exact ⟨ls ++ [l], M.next t l, hrun.append (.cons henabled (.nil _)),
            List.length_append⟩
  obtain ⟨ls, t, hrun, hlength⟩ := hlong (n + 1)
  have hle := (hends ls t hrun).1
  omega

end Machine

namespace List

variable {α : Type u} {xs : List α} {i : Nat} {x : α}

/-- What a component that is replaced changes of a sum. -/
theorem sum_map_set (f : α → Nat) (hi : xs[i]? = some x) (y : α) :
    ((xs.set i y).map f).sum + f x = (xs.map f).sum + f y := by
  induction xs generalizing i with
  | nil => cases hi
  | cons z zs ih =>
      cases i with
      | zero =>
          cases hi
          simp only [set_cons_zero, map_cons, sum_cons]
          omega
      | succ i =>
          have hrest := ih hi
          simp only [set_cons_succ, map_cons, sum_cons]
          omega

end List
