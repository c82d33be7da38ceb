/-
A map that finds exactly the members of a collection by their keys, and what it
takes to keep it so when a member comes or goes.
-/
import Mathlib.Data.Option.Basic
import Mathlib.Logic.Function.Basic

universe u v

variable {K : Type u} {P : Type v} [DecidableEq K]

/-- Under each key the map holds the one member that has it, and nothing else. -/
def KeyIndex (index : K → Option P) (members : List P) (key : P → K) : Prop :=
  ∀ k p, index k = some p ↔ p ∈ members ∧ key p = k

namespace KeyIndex

variable {index : K → Option P} {members members' : List P} {key key' : P → K}
  {p : P}

omit [DecidableEq K] in
theorem key_inj (h : KeyIndex index members key) {q : P} (hp : p ∈ members)
    (hq : q ∈ members) (hkey : key p = key q) : p = q := by
  have hfirst := (h (key q) p).mpr ⟨hp, hkey⟩
  exact Option.some.inj (hfirst.symm.trans ((h (key q) q).mpr ⟨hq, rfl⟩))

omit [DecidableEq K] in
theorem eq_none (h : KeyIndex index members key) {k : K}
    (hfree : ∀ q ∈ members, key q ≠ k) : index k = none := by
  rw [Option.eq_none_iff_forall_ne_some]
  intro q hq
  obtain ⟨hmem, hkey⟩ := (h k q).mp hq
  exact hfree q hmem hkey

omit [DecidableEq K] in
/-- Keys of others do not matter. -/
theorem congr_key (h : KeyIndex index members key)
    (hkey : ∀ q ∈ members, key' q = key q) : KeyIndex index members key' := by
  intro k q
  refine (h k q).trans (and_congr_right fun hq => ?_)
  rw [hkey q hq]

/-- A member comes under a key that is free. -/
theorem insert (h : KeyIndex index members key)
    (hfree : ∀ q ∈ members, key q ≠ key p)
    (hmem : ∀ q, q ∈ members' ↔ q = p ∨ q ∈ members) :
    KeyIndex (Function.update index (key p) (some p)) members' key := by
  intro k q
  rw [hmem]
  by_cases hk : k = key p
  · subst hk
    rw [Function.update_self]
    constructor
    · rintro ⟨⟩
      exact ⟨Or.inl rfl, rfl⟩
    · rintro ⟨rfl | hq, hkey⟩
      · rfl
      · exact absurd hkey (hfree q hq)
  · rw [Function.update_of_ne hk, h]
    constructor
    · rintro ⟨hq, hkey⟩
      exact ⟨Or.inr hq, hkey⟩
    · rintro ⟨rfl | hq, hkey⟩
      · exact absurd hkey.symm hk
      · exact ⟨hq, hkey⟩

/-- A member goes, and its key becomes free. -/
theorem erase (h : KeyIndex index members key) (hp : p ∈ members)
    (hmem : ∀ q, q ∈ members' ↔ q ∈ members ∧ q ≠ p) :
    KeyIndex (Function.update index (key p) none) members' key := by
  intro k q
  rw [hmem]
  by_cases hk : k = key p
  · subst hk
    rw [Function.update_self]
    refine iff_of_false (by simp) ?_
    rintro ⟨⟨hq, hne⟩, hkey⟩
    exact hne (h.key_inj hq hp hkey)
  · rw [Function.update_of_ne hk, h]
    constructor
    · rintro ⟨hq, hkey⟩
      exact ⟨⟨hq, fun heq => hk (heq ▸ hkey.symm)⟩, hkey⟩
    · rintro ⟨⟨hq, -⟩, hkey⟩
      exact ⟨hq, hkey⟩

end KeyIndex
