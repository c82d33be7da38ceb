/-
The heap operations behind a priority queue over a vector: what `push_heap` and
`pop_heap` promise, for any implementation and so for any way of breaking ties.
-/
import Mathlib.Data.List.Sort
import Mathlib.Order.Defs.LinearOrder

universe u v

/-- `push_heap` and `pop_heap` with the greatest key in front.  Keys are read
through a function, as the comparator reads them through a pointer. -/
structure HeapOps (α : Type u) (O : Type v) [LinearOrder O] where
  IsHeap : (α → O) → List α → Prop
  push : (α → O) → α → List α → List α
  pop : (α → O) → List α → List α
  isHeap_nil : ∀ key, IsHeap key []
  isHeap_push : ∀ {key xs} x, IsHeap key xs → IsHeap key (push key x xs)
  isHeap_pop : ∀ {key xs}, IsHeap key xs → IsHeap key (pop key xs)
  push_perm : ∀ key x xs, (push key x xs).Perm (x :: xs)
  pop_perm : ∀ key xs, (pop key xs).Perm xs.tail
  le_head : ∀ {key x xs}, IsHeap key (x :: xs) → ∀ y ∈ xs, key y ≤ key x
  isHeap_congr : ∀ {key key' xs}, (∀ x ∈ xs, key x = key' x) →
    IsHeap key xs → IsHeap key' xs

namespace HeapOps

variable {α : Type u} {O : Type v} [LinearOrder O]

/-- A list in descending order is a heap. -/
def descending : HeapOps α O where
  IsHeap key xs := xs.Pairwise fun x y => key y ≤ key x
  push key x xs := xs.orderedInsert (fun x y => key y ≤ key x) x
  pop _ xs := xs.tail
  isHeap_nil _ := .nil
  isHeap_push {key xs} x hxs := by
    have : Std.Total fun x y => key y ≤ key x := ⟨fun x y => le_total _ _⟩
    have : IsTrans α fun x y => key y ≤ key x :=
      ⟨fun x y z hxy hyz => hyz.trans hxy⟩
    exact hxs.orderedInsert x xs
  isHeap_pop hxs := hxs.tail
  push_perm key x xs := xs.perm_orderedInsert _ x
  pop_perm _ _ := .refl _
  le_head hxs := (List.pairwise_cons.mp hxs).1
  isHeap_congr hkey hxs := hxs.imp_of_mem fun hx hy hle =>
    hkey _ hx ▸ hkey _ hy ▸ hle

variable (ops : HeapOps α O) {key : α → O} {x y : α} {xs : List α}

theorem mem_push : y ∈ ops.push key x xs ↔ y = x ∨ y ∈ xs :=
  (ops.push_perm key x xs).mem_iff.trans List.mem_cons

theorem mem_pop_cons : y ∈ ops.pop key (x :: xs) ↔ y ∈ xs :=
  (ops.pop_perm key (x :: xs)).mem_iff

/-- The top is gone when it was in the heap once. -/
theorem mem_pop_of_nodup (hnodup : (x :: xs).Nodup) :
    y ∈ ops.pop key (x :: xs) ↔ y ∈ x :: xs ∧ y ≠ x := by
  rw [mem_pop_cons, List.mem_cons]
  constructor
  · intro hy
    exact ⟨Or.inr hy, fun heq => (List.nodup_cons.mp hnodup).1 (heq ▸ hy)⟩
  · exact fun hy => hy.1.resolve_left hy.2

/-- With two elements, one stays. -/
theorem pop_ne_nil (hxs : 1 < xs.length) : ops.pop key xs ≠ [] := by
  intro hnil
  have hlength := (ops.pop_perm key xs).length_eq
  rw [hnil, List.length_nil, List.length_tail] at hlength
  omega

/-- The head has the greatest key of all. -/
theorem le_head_of_mem (hxs : ops.IsHeap key (x :: xs))
    (hy : y ∈ x :: xs) : key y ≤ key x := by
  rcases List.mem_cons.mp hy with rfl | htail
  · exact le_refl _
  · exact ops.le_head hxs y htail

end HeapOps
