/-
Loops as partial step functions: the states that one pass after the other begins
in, what holds of all of them, and how many there are when a measure decreases.
-/
import Mathlib.Logic.Basic

universe u

namespace Loop

variable {S : Type u}

/-- The states at the beginning of the first `fuel` passes.  `next` is none for a
pass that leaves the loop. -/
def passes (next : S → Option S) : Nat → S → List S
  | 0, _ => []
  | fuel + 1, s =>
      s :: match next s with
        | none => []
        | some t => passes next fuel t

variable {next : S → Option S} {P : S → Prop} {R : S → S → Prop} {s : S}

/-- What every pass keeps holds at the beginning of each. -/
theorem passes_invariant (fuel : Nat) (hs : P s)
    (hnext : ∀ s t, P s → next s = some t → P t) :
    ∀ t ∈ passes next fuel s, P t := by
  induction fuel generalizing s with
  | zero => exact List.forall_mem_nil _
  | succ fuel ih =>
      rw [passes, List.forall_mem_cons]
      refine ⟨hs, ?_⟩
      split
      · exact List.forall_mem_nil _
      · rename_i t heq
        exact ih (hnext s t hs heq)

/-- A transitive relation between a pass and the next one is one between any pass
and the later ones. -/
theorem passes_pairwise (fuel : Nat) (hs : P s)
    (hnext : ∀ s t, P s → next s = some t → P t ∧ R s t)
    (htrans : ∀ a b c, R a b → R b c → R a c) :
    (passes next fuel s).Pairwise R := by
  induction fuel generalizing s with
  | zero => exact List.Pairwise.nil
  | succ fuel ih =>
      rw [passes]
      split
      · exact List.pairwise_singleton R s
      · rename_i t heq
        obtain ⟨ht, hrel⟩ := hnext s t hs heq
        have hlater := ih ht
        refine List.pairwise_cons.mpr ⟨fun r hr => ?_, hlater⟩
        cases fuel with
        | zero => cases hr
        | succ fuel =>
            rw [passes] at hr hlater
            rcases List.mem_cons.mp hr with rfl | hr
            · exact hrel
            · exact htrans s t r hrel ((List.pairwise_cons.mp hlater).1 r hr)

/-- With a measure that decreases, the loop is left after as many passes. -/
theorem passes_length_le (measure : S → Nat) (fuel : Nat) (hs : P s)
    (hnext : ∀ s t, P s → next s = some t → P t ∧ measure t < measure s) :
    (passes next fuel s).length ≤ measure s + 1 := by
  induction fuel generalizing s with
  | zero => exact Nat.zero_le _
  | succ fuel ih =>
      rw [passes, List.length_cons]
      split
      · exact Nat.le_add_left _ _
      · rename_i t heq
        obtain ⟨ht, hlt⟩ := hnext s t hs heq
        have hrest := ih ht
        omega

end Loop
