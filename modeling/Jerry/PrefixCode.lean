/-
Prefix-free sets of words.  Words that are written one after the other can be
told apart, also while the last of them is still incomplete.
-/
import Mathlib.Data.List.Infix
import Mathlib.Data.Set.Defs

universe u

variable {α : Type u}

/-- No word is the front of another one. -/
def PrefixFree (S : Set (List α)) : Prop :=
  ∀ u ∈ S, ∀ v ∈ S, u <+: v → u = v

namespace PrefixFree

variable {S : Set (List α)} {u v x y : List α} {us vs : List (List α)}

/-- The word at the front of a text, and what is behind it. -/
theorem cancel (h : PrefixFree S) (hu : u ∈ S) (hv : v ∈ S) (heq : u ++ x = v ++ y) :
    u = v ∧ x = y := by
  have hsame : u = v := by
    have hfront : u <+: v ++ y := ⟨x, heq⟩
    rcases List.prefix_or_prefix_of_prefix hfront (List.prefix_append v y) with
      huv | hvu
    · exact h u hu v hv huv
    · exact (h v hv u hu hvu).symm
  subst hsame
  exact ⟨rfl, List.append_cancel_left heq⟩

/-- Words at the front of a text of words are its first words. -/
theorem flatten_prefix (h : PrefixFree S) (hnil : [] ∉ S) (hus : ∀ u ∈ us, u ∈ S)
    (hvs : ∀ v ∈ vs, v ∈ S) (hfront : us.flatten <+: vs.flatten) : us <+: vs := by
  induction us generalizing vs with
  | nil => exact List.nil_prefix
  | cons u us ih =>
      obtain ⟨rest, hrest⟩ := hfront
      have hu : u ∈ S := hus u List.mem_cons_self
      cases vs with
      | nil =>
          have hempty : u = [] := by
            rw [List.flatten_nil, List.flatten_cons, List.append_assoc] at hrest
            exact (List.append_eq_nil_iff.mp hrest).1
          exact absurd (hempty ▸ hu) hnil
      | cons v vs =>
          rw [List.flatten_cons, List.flatten_cons, List.append_assoc] at hrest
          obtain ⟨rfl, hbehind⟩ := h.cancel hu (hvs v List.mem_cons_self) hrest
          obtain ⟨more, hmore⟩ := ih
            (fun w hw => hus w (List.mem_cons_of_mem _ hw))
            (fun w hw => hvs w (List.mem_cons_of_mem _ hw)) ⟨rest, hbehind⟩
          exact ⟨more, congrArg (List.cons u) hmore⟩

end PrefixFree
