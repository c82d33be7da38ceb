/-
Iteration over an ordered set that the visitor may change: an iterator stands at
an element or at the end, and an element that has been erased has no next one.
-/
import Mathlib.Data.Finset.Max

universe u v

namespace SetIteration

variable {K : Type u} {S : Type v} [LinearOrder K]

/-- How a pass ends; `invalidIterator` is an iterator advanced from an element
that is no longer in the set. -/
inductive Outcome (K : Type u) (S : Type v) where
  | finished (visited : List K) (s : S)
  | invalidIterator (visited : List K) (s : S)
  | unfinished (visited : List K) (s : S)
deriving DecidableEq, Repr

/-- The element after `k`; the end is `⊤`. -/
def next (xs : Finset K) (k : K) : WithTop K :=
  {x ∈ xs | k < x}.min

/-- Visit from an iterator on, at most `fuel` elements. -/
def visitFrom (elements : S → Finset K) (visit : K → S → S) :
    Nat → WithTop K → List K → S → Outcome K S
  | _, none, visited, s => .finished visited s
  | 0, some _, visited, s => .unfinished visited s
  | fuel + 1, some k, visited, s =>
      let s := visit k s
      if k ∈ elements s then
        visitFrom elements visit fuel (next (elements s) k) (visited ++ [k]) s
      else .invalidIterator (visited ++ [k]) s

/-- Visit the whole set, from its least element on. -/
def forEach (elements : S → Finset K) (visit : K → S → S) (fuel : Nat)
    (s : S) : Outcome K S :=
  visitFrom elements visit fuel (elements s).min [] s

/-- The pass visits every element exactly once and ends in a state with `P`. -/
def VisitsEachOnce (elements : S → Finset K) (visit : K → S → S)
    (P : S → Prop) (s : S) : Prop :=
  ∃ fuel visited t, forEach elements visit fuel s = .finished visited t ∧
    visited.Nodup ∧ (∀ k, k ∈ visited ↔ k ∈ elements s) ∧ P t

theorem coe_lt_next_iff {xs : Finset K} {k x : K} (hx : x ∈ xs) :
    (x : WithTop K) < next xs k ↔ x ≤ k := by
  constructor
  · intro hlt
    by_contra hafter
    have hmin : next xs k ≤ x :=
      Finset.min_le (Finset.mem_filter.mpr ⟨hx, not_le.mp hafter⟩)
    exact absurd hmin (not_le.mpr hlt)
  · intro hle
    refine (Finset.lt_inf_iff (WithTop.coe_lt_top x)).mpr ?_
    intro y hy
    exact WithTop.coe_lt_coe.mpr (hle.trans_lt (Finset.mem_filter.mp hy).2)

/-- What an iterator has still to come to. -/
def remaining (xs : Finset K) (it : WithTop K) : Finset K :=
  xs.filter fun x => it ≤ (x : WithTop K)

theorem remaining_next_card_lt {xs : Finset K} {k : K} (hk : k ∈ xs) :
    (remaining xs (next xs k)).card < (remaining xs k).card := by
  have hsubset : remaining xs (next xs k) ⊆ remaining xs k := by
    intro x hmem
    obtain ⟨hx, hle⟩ := Finset.mem_filter.mp hmem
    refine Finset.mem_filter.mpr ⟨hx, WithTop.coe_le_coe.mpr ?_⟩
    by_contra hbelow
    exact absurd ((coe_lt_next_iff hx).mpr (not_le.mp hbelow).le)
      (not_lt.mpr hle)
  refine Finset.card_lt_card ((Finset.ssubset_iff_of_subset hsubset).mpr ?_)
  refine ⟨k, Finset.mem_filter.mpr ⟨hk, le_rfl⟩, fun hmem => ?_⟩
  exact absurd (Finset.mem_filter.mp hmem).2
    (not_le.mpr ((coe_lt_next_iff hk).mpr le_rfl))

/-- What a pass over `xs` has visited when its iterator is at `it`. -/
structure Visited (xs : Finset K) (it : WithTop K) (visited : List K) :
    Prop where
  nodup : visited.Nodup
  mem_iff : ∀ k, k ∈ visited ↔ k ∈ xs ∧ (k : WithTop K) < it

theorem Visited.next {xs : Finset K} {k : K} {visited : List K}
    (h : Visited xs k visited) (hk : k ∈ xs) :
    Visited xs (next xs k) (visited ++ [k]) where
  nodup := by
    refine List.nodup_append.mpr ⟨h.nodup, List.nodup_singleton k, ?_⟩
    rintro x hx y hy rfl
    rw [List.mem_singleton.mp hy] at hx
    exact absurd ((h.mem_iff k).mp hx).2 (lt_irrefl _)
  mem_iff x := by
    simp only [List.mem_append, List.mem_singleton, h.mem_iff]
    constructor
    · rintro (⟨hx, hlt⟩ | rfl)
      · exact ⟨hx, (coe_lt_next_iff hx).mpr (WithTop.coe_lt_coe.mp hlt).le⟩
      · exact ⟨hk, (coe_lt_next_iff hk).mpr le_rfl⟩
    · rintro ⟨hx, hlt⟩
      rcases ((coe_lt_next_iff hx).mp hlt).lt_or_eq with hbelow | rfl
      · exact Or.inl ⟨hx, WithTop.coe_lt_coe.mpr hbelow⟩
      · exact Or.inr rfl

theorem Visited.all {xs : Finset K} {visited : List K}
    (h : Visited xs ⊤ visited) (k : K) : k ∈ visited ↔ k ∈ xs :=
  (h.mem_iff k).trans (and_iff_left (WithTop.coe_lt_top k))

variable {elements : S → Finset K} {visit : K → S → S} {s : S}

/-- A visitor that leaves the set alone is called once for each element behind
the iterator. -/
theorem visitFrom_of_keeps {xs : Finset K} {it : WithTop K}
    {visited : List K} {fuel : Nat}
    (hkeeps : ∀ k s, elements s = xs → elements (visit k s) = xs)
    (hset : elements s = xs) (hit : ∀ k : K, it = k → k ∈ xs)
    (hvisited : Visited xs it visited)
    (hfuel : (remaining xs it).card ≤ fuel) :
    ∃ visited' t, visitFrom elements visit fuel it visited s =
        .finished visited' t ∧ Visited xs ⊤ visited' := by
  induction fuel generalizing it visited s with
  | zero =>
      cases it with
      | top => exact ⟨visited, s, rfl, hvisited⟩
      | coe k =>
          have hk : k ∈ remaining xs k :=
            Finset.mem_filter.mpr ⟨hit k rfl, le_rfl⟩
          exact absurd (Finset.card_pos.mpr ⟨k, hk⟩) (by omega)
  | succ fuel ih =>
      cases it with
      | top => exact ⟨visited, s, rfl, hvisited⟩
      | coe k =>
          have hk : k ∈ xs := hit k rfl
          have hset' : elements (visit k s) = xs := hkeeps k s hset
          have hvisit : visitFrom elements visit (fuel + 1) (k : WithTop K)
              visited s = visitFrom elements visit fuel (next xs k)
                (visited ++ [k]) (visit k s) := by
            change (if k ∈ elements (visit k s) then _ else _) = _
            rw [hset', if_pos hk]
          rw [hvisit]
          refine ih hset' ?_ (hvisited.next hk) ?_
          · intro x hx
            exact (Finset.mem_filter.mp (Finset.mem_of_min hx)).1
          · have hless := remaining_next_card_lt hk
            omega

/-- Iteration itself is right: a visitor that leaves the set alone visits each
element once. -/
theorem visitsEachOnce_of_keeps
    (hkeeps : ∀ k s, elements (visit k s) = elements s) :
    VisitsEachOnce elements visit (fun _ => True) s := by
  have hstart : Visited (elements s) (elements s).min [] := by
    refine ⟨List.nodup_nil, fun k => ?_⟩
    simp only [List.not_mem_nil, false_iff, not_and, not_lt]
    exact fun hk => Finset.min_le hk
  obtain ⟨visited, t, hpass, hvisited⟩ :=
    visitFrom_of_keeps (fun k s' hs' => (hkeeps k s').trans hs') rfl
      (fun k hk => Finset.mem_of_min hk) hstart le_rfl
  exact ⟨_, visited, t, hpass, hvisited.nodup, hvisited.all, trivial⟩

/-- If the visitor erases the element it is called with, the pass comes no
further than the least element. -/
theorem forEach_of_erases {k : K} (hmin : (elements s).min = k)
    (herases : k ∉ elements (visit k s)) (fuel : Nat) :
    forEach elements visit (fuel + 1) s = .invalidIterator [k] (visit k s) := by
  rw [forEach, hmin]
  change (if k ∈ elements (visit k s) then _ else _) = _
  rw [if_neg herases]
  rfl

end SetIteration
