/-
Guarded transition systems and their finite runs: one rule for invariants, one
for simulations, and the restriction of a system to the steps that meet a side
condition.
-/
import Mathlib.Logic.Basic

universe u v w x

/-- A deterministic labelled system.  The label carries every choice the
environment makes; `enabled` says which labels it may offer in a state. -/
structure Machine (S : Type u) (L : Type v) where
  enabled : S → L → Prop
  next : S → L → S

namespace Machine

variable {S : Type u} {L : Type v} {A : Type w} {K : Type x}

/-- The finite runs of a machine, with the labels in the order they happened. -/
inductive Run (M : Machine S L) : S → List L → S → Prop where
  | nil (s : S) : Run M s [] s
  | cons {s t : S} {l : L} {ls : List L} :
      M.enabled s l → Run M (M.next s l) ls t → Run M s (l :: ls) t

theorem Run.append {M : Machine S L} {s t r : S} {ls ks : List L}
    (hfirst : M.Run s ls t) (hsecond : M.Run t ks r) :
    M.Run s (ls ++ ks) r := by
  induction hfirst with
  | nil s => exact hsecond
  | cons henabled _ ih => exact .cons henabled (ih hsecond)

/-- A property of the first state that every enabled step keeps holds in the
last state. -/
theorem Run.invariant {M : Machine S L} {P : S → Prop} {s t : S} {ls : List L}
    (hrun : M.Run s ls t) (hinit : P s)
    (hstep : ∀ s l, P s → M.enabled s l → P (M.next s l)) : P t := by
  induction hrun with
  | nil s => exact hinit
  | cons henabled _ ih => exact ih (hstep _ _ hinit henabled)

/-- A property that ties the state to the labels so far. -/
theorem Run.history {M : Machine S L} {P : List L → S → Prop} {s t : S}
    {ls : List L} (hrun : M.Run s ls t) (hinit : P [] s)
    (hstep : ∀ ls s l, P ls s → M.enabled s l → P (ls ++ [l]) (M.next s l)) :
    P ls t := by
  induction hrun generalizing P with
  | nil s => exact hinit
  | @cons s t l ls henabled _ ih =>
      exact ih (P := fun ks => P (l :: ks)) (hstep [] s l hinit henabled)
        (fun ks => hstep (l :: ks))

/-- Forward simulation: if every step of `M` is matched by the step of `N` its
label maps to, every run of `M` is matched by a run of `N`. -/
theorem Run.simulates {M : Machine S L} {N : Machine A K} {f : L → K}
    {R : S → A → Prop} {s t : S} {a : A} {ls : List L}
    (hrun : M.Run s ls t) (hinit : R s a)
    (hstep : ∀ s a l, R s a → M.enabled s l →
      N.enabled a (f l) ∧ R (M.next s l) (N.next a (f l))) :
    ∃ b, N.Run a (ls.map f) b ∧ R t b := by
  induction hrun generalizing a with
  | nil s => exact ⟨a, .nil a, hinit⟩
  | cons henabled _ ih =>
      obtain ⟨hmatch, hnext⟩ := hstep _ _ _ hinit henabled
      obtain ⟨b, hb, hrel⟩ := ih hnext
      exact ⟨b, .cons hmatch hb, hrel⟩

/-- Every label of the list is enabled where the labels before it lead. -/
def EnabledFrom (M : Machine S L) : S → List L → Prop
  | _, [] => True
  | s, l :: ls => M.enabled s l ∧ EnabledFrom M (M.next s l) ls

instance decidableEnabledFrom (M : Machine S L)
    [∀ s l, Decidable (M.enabled s l)] :
    ∀ s ls, Decidable (M.EnabledFrom s ls)
  | _, [] => isTrue trivial
  | s, l :: ls =>
      have := decidableEnabledFrom M (M.next s l) ls
      inferInstanceAs (Decidable (_ ∧ _))

/-- A list of labels has at most one run from a state, and it ends where the
steps lead. -/
theorem run_iff {M : Machine S L} {s t : S} {ls : List L} :
    M.Run s ls t ↔ M.EnabledFrom s ls ∧ t = ls.foldl M.next s := by
  constructor
  · intro hrun
    induction hrun with
    | nil s => exact ⟨trivial, rfl⟩
    | cons henabled _ ih => exact ⟨⟨henabled, ih.1⟩, ih.2⟩
  · rintro ⟨henabled, rfl⟩
    induction ls generalizing s with
    | nil => exact .nil s
    | cons l ls ih => exact .cons henabled.1 (ih henabled.2)

theorem Run.eq_foldl {M : Machine S L} {s t : S} {ls : List L}
    (hrun : M.Run s ls t) : t = ls.foldl M.next s :=
  (run_iff.mp hrun).2

/-- The same machine, offering only the steps that also meet `C`. -/
def guard (M : Machine S L) (C : S → L → Prop) : Machine S L where
  enabled s l := M.enabled s l ∧ C s l
  next := M.next

theorem Run.of_guard {M : Machine S L} {C : S → L → Prop} {s t : S}
    {ls : List L} (hrun : (M.guard C).Run s ls t) : M.Run s ls t := by
  induction hrun with
  | nil s => exact .nil s
  | cons henabled _ ih => exact .cons henabled.1 ih

/-- Conditions that the enabled steps meet together guard the same runs. -/
theorem Run.guard_congr {M : Machine S L} {C D : S → L → Prop} {s t : S}
    {ls : List L} (hrun : (M.guard C).Run s ls t)
    (himp : ∀ s l, M.enabled s l → C s l → D s l) : (M.guard D).Run s ls t := by
  induction hrun with
  | nil s => exact .nil s
  | cons henabled _ ih =>
      exact .cons ⟨henabled.1, himp _ _ henabled.1 henabled.2⟩ ih

/-- A property of every state that the labels lead through, both ends
included. -/
def Always (M : Machine S L) (P : S → Prop) : S → List L → Prop
  | s, [] => P s
  | s, l :: ls => P s ∧ Always M P (M.next s l) ls

theorem Always.last {M : Machine S L} {P : S → Prop} {s t : S} {ls : List L}
    (h : M.Always P s ls) (hrun : M.Run s ls t) : P t := by
  induction hrun with
  | nil s => exact h
  | cons _ _ ih => exact ih h.2

/-- An invariant of the steps that meet `C` holds in every state of their
runs. -/
theorem Run.always_of_guard {M : Machine S L} {C : S → L → Prop}
    {I P : S → Prop} {s t : S} {ls : List L} (hrun : (M.guard C).Run s ls t)
    (hI : I s) (hP : ∀ s, I s → P s)
    (hinv : ∀ s l, I s → M.enabled s l → C s l → I (M.next s l)) :
    M.Always P s ls := by
  induction hrun with
  | nil s => exact hP s hI
  | cons henabled _ ih =>
      exact ⟨hP _ hI, ih (hinv _ _ hI henabled.1 henabled.2)⟩

/-- If the first step that fails `C` leads to states that no step leaves, then a
run that ends elsewhere is one of the guarded machine. -/
theorem Run.guard_of_trap {M : Machine S L} {C : S → L → Prop}
    {I D : S → Prop} {s t : S} {ls : List L} (hrun : M.Run s ls t) (hI : I s)
    (hinv : ∀ s l, I s → M.enabled s l → C s l → I (M.next s l))
    (hfail : ∀ s l, I s → M.enabled s l → ¬ C s l → D (M.next s l))
    (htrap : ∀ s l, D s → M.enabled s l → D (M.next s l)) (hend : ¬ D t) :
    (M.guard C).Run s ls t := by
  induction hrun with
  | nil s => exact .nil s
  | @cons s t l ls henabled hrest ih =>
      by_cases hmeets : C s l
      · exact .cons ⟨henabled, hmeets⟩ (ih (hinv s l hI henabled hmeets) hend)
      · exact absurd (hrest.invariant (hfail s l hI henabled hmeets) htrap) hend

/-- If, in states of an invariant `I`, a step keeps `P` exactly when it meets
`C`, then the runs that never leave `P` are the runs of the guarded machine. -/
theorem Run.always_iff_guard {M : Machine S L} {C : S → L → Prop}
    {I P : S → Prop} {s t : S} {ls : List L} (hrun : M.Run s ls t)
    (hI : I s) (hP : P s)
    (hinv : ∀ s l, I s → P s → M.enabled s l → P (M.next s l) → I (M.next s l))
    (hstep : ∀ s l, I s → P s → M.enabled s l → (P (M.next s l) ↔ C s l)) :
    M.Always P s ls ↔ (M.guard C).Run s ls t := by
  induction hrun with
  | nil s => exact ⟨fun _ => .nil s, fun _ => hP⟩
  | @cons s t l ls henabled hrest ih =>
      have hiff := hstep s l hI hP henabled
      have hnext := hinv s l hI hP henabled
      constructor
      · rintro ⟨_, halways⟩
        have hP' : P (M.next s l) := by
          cases ls with
          | nil => exact halways
          | cons k ks => exact halways.1
        exact .cons ⟨henabled, hiff.mp hP'⟩
          ((ih (hnext hP') hP').mp halways)
      · intro hguard
        cases hguard with
        | cons hboth hrun' =>
            have hP' := hiff.mpr hboth.2
            exact ⟨hP, (ih (hnext hP') hP').mpr hrun'⟩

end Machine
