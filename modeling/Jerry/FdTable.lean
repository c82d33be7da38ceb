/-
The descriptor table of a process: a descriptor is a position in it, each open
one belongs to somebody, and a new one is the lowest that is free.
-/
import Mathlib.Data.List.Basic

universe u

/-- One slot for each descriptor the process may have. -/
structure FdTable (O : Type u) where
  slots : List (Option O)
deriving DecidableEq, Repr

namespace FdTable

variable {O : Type u}

/-- Whom a descriptor belongs to, if it is open. -/
def owner? (t : FdTable O) (fd : Nat) : Option O :=
  t.slots[fd]?.join

def free? (t : FdTable O) : Option Nat :=
  t.slots.findIdx? Option.isNone

def give (t : FdTable O) (fd : Nat) (o : O) : FdTable O :=
  ⟨t.slots.set fd (some o)⟩

/-- `close`, whoever the descriptor belongs to. -/
def close (t : FdTable O) (fd : Nat) : FdTable O :=
  ⟨t.slots.set fd none⟩

variable {t : FdTable O} {fd : Nat} {o : O}

theorem free?_spec (h : t.free? = some fd) : t.slots[fd]? = some none := by
  obtain ⟨hlt, hnone, -⟩ := List.findIdx?_eq_some_iff_getElem.mp h
  rw [List.getElem?_eq_getElem hlt, Option.isNone_iff_eq_none.mp hnone]

theorem free?_isSome_iff : t.free?.isSome = true ↔ none ∈ t.slots := by
  rw [free?, List.findIdx?_isSome, List.any_eq_true]
  constructor
  · rintro ⟨slot, hslot, hnone⟩
    exact Option.isNone_iff_eq_none.mp hnone ▸ hslot
  · intro hmem
    exact ⟨none, hmem, rfl⟩

theorem owner?_free (h : t.free? = some fd) : t.owner? fd = none := by
  rw [owner?, free?_spec h]
  rfl

theorem owner?_give (h : t.free? = some fd) (o : O) (k : Nat) :
    (t.give fd o).owner? k = if k = fd then some o else t.owner? k := by
  have hlt : fd < t.slots.length := (List.getElem?_eq_some_iff.mp (free?_spec h)).1
  rw [owner?, give, List.getElem?_set]
  by_cases hk : fd = k
  · rw [if_pos hk, if_pos hlt, if_pos hk.symm]
    rfl
  · rw [if_neg hk, if_neg (Ne.symm hk)]
    rfl

theorem owner?_close (t : FdTable O) (fd k : Nat) :
    (t.close fd).owner? k = if k = fd then none else t.owner? k := by
  rw [owner?, close, List.getElem?_set]
  by_cases hk : fd = k
  · rw [if_pos hk, if_pos hk.symm]
    split <;> rfl
  · rw [if_neg hk, if_neg (Ne.symm hk)]
    rfl

/-- What is closed can be opened again. -/
theorem free?_close (h : t.owner? fd = some o) : (t.close fd).free?.isSome = true := by
  rw [free?_isSome_iff, close]
  have hlt : fd < t.slots.length := by
    by_contra hge
    rw [owner?, List.getElem?_eq_none (Nat.le_of_not_lt hge)] at h
    cases h
  exact List.mem_set hlt none

theorem set_slot {slots : List (Option O)} {slot : Option O}
    (h : slots[fd]? = some slot) : slots.set fd slot = slots := by
  obtain ⟨hlt, rfl⟩ := List.getElem?_eq_some_iff.mp h
  exact List.set_getElem_self hlt

theorem free?_close_mono (fd : Nat) (h : t.free?.isSome = true) :
    (t.close fd).free?.isSome = true := by
  rw [free?_isSome_iff] at h ⊢
  obtain ⟨k, hk⟩ := List.getElem?_of_mem h
  refine List.mem_of_getElem? (i := k) ?_
  rw [close, List.getElem?_set]
  split
  · rename_i heq
    rw [if_pos (heq ▸ (List.getElem?_eq_some_iff.mp hk).1)]
  · exact hk

/-- In a full table the descriptor that is closed is the next one that is opened,
and its owner leaves the table as it was. -/
theorem free?_close_of_full (hfull : t.free? = none) (h : t.owner? fd = some o) :
    (t.close fd).free? = some fd ∧ (t.close fd).give fd o = t := by
  have hsome : t.slots[fd]? = some (some o) := Option.join_eq_some_iff.mp h
  obtain ⟨hlt, -⟩ := List.getElem?_eq_some_iff.mp hsome
  have hall : ∀ slot ∈ t.slots, slot ≠ none := by
    rintro slot hslot rfl
    have hfree := free?_isSome_iff.mpr hslot
    rw [hfull] at hfree
    cases hfree
  constructor
  · rw [free?, close, List.findIdx?_eq_some_iff_getElem]
    refine ⟨by rwa [List.length_set], by rw [List.getElem_set_self]; rfl, fun k hk => ?_⟩
    rw [List.getElem_set_ne (Nat.ne_of_gt hk)]
    have hne := hall _ (List.getElem_mem (Nat.lt_trans hk hlt))
    simpa using hne
  · rw [close, give, List.set_set, set_slot hsome]

/-- The tables are the same as far as some of the owners are concerned. -/
def Agree (p : O → Prop) (t t' : FdTable O) : Prop :=
  ∀ fd o, p o → (t'.owner? fd = some o ↔ t.owner? fd = some o)

variable {p : O → Prop}

theorem Agree.refl (t : FdTable O) : Agree p t t :=
  fun _ _ _ => Iff.rfl

theorem agree_give (h : t.free? = some fd) (ho : ¬ p o) : Agree p t (t.give fd o) := by
  intro k o' hp
  rw [owner?_give h]
  by_cases hk : k = fd
  · rw [if_pos hk, hk, owner?_free h]
    constructor
    · intro heq
      exact absurd (Option.some_inj.mp heq ▸ hp) ho
    · intro heq
      cases heq
  · rw [if_neg hk]

theorem agree_close (h : ∀ o, t.owner? fd = some o → ¬ p o) :
    Agree p t (t.close fd) := by
  intro k o hp
  rw [owner?_close]
  by_cases hk : k = fd
  · rw [if_pos hk, hk]
    constructor
    · intro heq
      cases heq
    · intro heq
      exact absurd hp (h o heq)
  · rw [if_neg hk]

end FdTable
