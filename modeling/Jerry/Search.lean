/-
First-occurrence search in lists: one element (`List.idxOf`) and one pattern,
both answering the length of the list when there is no occurrence, and the
prefix facts that say what a search over an incomplete input can see.
-/
import Mathlib.Data.List.Infix
import Mathlib.Data.List.TakeDrop

universe u

namespace Search

variable {α : Type u} [DecidableEq α]

/-- Offset of the first place where `pattern` starts, or the length. -/
def search (pattern : List α) : List α → Nat
  | [] => 0
  | x :: xs => if pattern.isPrefixOf (x :: xs) then 0 else search pattern xs + 1

theorem search_self_append {pattern : List α} (hne : pattern ≠ [])
    (rest : List α) : search pattern (pattern ++ rest) = 0 := by
  cases pattern with
  | nil => contradiction
  | cons x xs => simp [search]

/-- Elements other than the first of the pattern are skipped. -/
theorem search_append_of_not_mem {c : α} {pattern xs : List α} (hc : c ∉ xs)
    (rest : List α) :
    search (c :: pattern) (xs ++ rest) =
      xs.length + search (c :: pattern) rest := by
  induction xs with
  | nil => simp
  | cons x xs ih =>
      simp only [List.mem_cons, not_or] at hc
      have hx : ¬ (c :: pattern).isPrefixOf (x :: (xs ++ rest)) := by
        simp [hc.1]
      rw [List.cons_append, search, if_neg hx, ih hc.2, List.length_cons]
      omega

theorem search_eq_length_of_not_mem {c : α} {pattern xs : List α}
    (hc : c ∉ xs) : search (c :: pattern) xs = xs.length := by
  have hskip : search (c :: pattern) (xs ++ []) =
      xs.length + search (c :: pattern) [] := search_append_of_not_mem hc []
  simpa [search] using hskip

/-- The first element of a longer pattern alone is no occurrence. -/
theorem search_singleton_ne {c d : α} {pattern : List α} :
    search (c :: d :: pattern) [c] = 1 := by
  simp [search]

theorem idxOf_append_of_not_mem {c : α} {xs : List α} (hc : c ∉ xs)
    (rest : List α) :
    (xs ++ c :: rest).idxOf c = xs.length := by
  rw [List.idxOf_append_of_notMem hc, List.idxOf_cons_self, Nat.add_zero]

omit [DecidableEq α] in
/-- A prefix of `xs ++ ys` stays inside `xs` or takes all of it. -/
theorem prefix_append_cases {l xs ys : List α} (h : l <+: xs ++ ys) :
    l <+: xs ∨ ∃ l', l = xs ++ l' ∧ l' <+: ys := by
  rcases Nat.le_total l.length xs.length with hle | hle
  · exact Or.inl (List.prefix_of_prefix_length_le h
      (List.prefix_append xs ys) hle)
  · obtain ⟨l', rfl⟩ := List.prefix_of_prefix_length_le
      (List.prefix_append xs ys) h hle
    exact Or.inr ⟨l', rfl, (List.prefix_append_right_inj xs).mp h⟩

omit [DecidableEq α] in
theorem prefix_append_cons_cases {l xs ys : List α} {c : α}
    (h : l <+: xs ++ c :: ys) :
    l <+: xs ∨ ∃ l', l = xs ++ c :: l' ∧ l' <+: ys := by
  rcases prefix_append_cases h with hin | ⟨l', rfl, hl'⟩
  · exact Or.inl hin
  · cases l' with
    | nil => exact Or.inl (by simp)
    | cons e l' =>
        obtain ⟨rfl, htail⟩ := List.cons_prefix_cons.mp hl'
        exact Or.inr ⟨l', rfl, htail⟩

/-- A search sees no occurrence in a proper part of `xs ++ pattern`, when the
pattern's first element is not among `xs` and the pattern has two elements. -/
theorem search_eq_length_of_front {c d : α} {xs l : List α} (hc : c ∉ xs)
    (hfront : l <+: xs ++ [c, d]) (hlt : l.length < xs.length + 2) :
    search [c, d] l = l.length := by
  rcases prefix_append_cases hfront with hin | ⟨l', rfl, hl'⟩
  · exact search_eq_length_of_not_mem fun hmem => hc (hin.subset hmem)
  · have hlen : l'.length < 2 := by
      simp only [List.length_append] at hlt
      omega
    rw [search_append_of_not_mem hc, List.length_append]
    match l', hlen, hl' with
    | [], _, _ => rfl
    | [e], _, hl' =>
        obtain ⟨rest, hrest⟩ := hl'
        have he : e = c := by simpa using congrArg List.head? hrest
        rw [he, search_singleton_ne]
        rfl

/-- What comes before the first occurrence, together with it, is a prefix. -/
theorem take_idxOf_of_front {c : α} {l : List α} (hc : l.idxOf c ≠ l.length) :
    l.take (l.idxOf c) ++ [c] <+: l := by
  have hmem : c ∈ l := by
    by_contra hnot
    exact hc (List.idxOf_eq_length_iff.mpr hnot)
  have hlt := List.idxOf_lt_length_iff.mpr hmem
  refine ⟨l.drop (l.idxOf c + 1), ?_⟩
  rw [List.append_assoc, List.singleton_append]
  conv_rhs => rw [← List.take_append_drop (l.idxOf c) l]
  rw [List.drop_eq_getElem_cons hlt, List.getElem_idxOf]

/-- An element that is found, and what lies around its first occurrence. -/
theorem exists_of_idxOf_ne {c : α} {l : List α} (hc : l.idxOf c ≠ l.length) :
    ∃ xs rest, l = xs ++ c :: rest ∧ c ∉ xs ∧ xs.length = l.idxOf c := by
  induction l with
  | nil => exact absurd rfl hc
  | cons x l ih =>
      by_cases hx : x = c
      · exact ⟨[], l, by rw [hx]; rfl, List.not_mem_nil,
          by rw [hx, List.idxOf_cons_self]; rfl⟩
      · rw [List.idxOf_cons_ne l hx, List.length_cons] at hc
        obtain ⟨xs, rest, rfl, hnot, hlength⟩ := ih (by omega)
        refine ⟨x :: xs, rest, rfl, ?_, ?_⟩
        · simp only [List.mem_cons, not_or]
          exact ⟨fun heq => hx heq.symm, hnot⟩
        · rw [List.idxOf_cons_ne _ hx, List.length_cons, hlength]

/-- The same for a pattern. -/
theorem exists_of_search_ne {pattern l : List α} (hne : pattern ≠ [])
    (h : search pattern l ≠ l.length) :
    ∃ xs rest, l = xs ++ (pattern ++ rest) ∧ ¬ pattern <:+: xs ∧
      xs.length = search pattern l := by
  induction l with
  | nil => exact absurd rfl h
  | cons x l ih =>
      rw [search] at h ⊢
      split at h
      · rename_i hfront
        obtain ⟨rest, hrest⟩ := List.isPrefixOf_iff_prefix.mp hfront
        refine ⟨[], rest, hrest.symm, ?_, by rw [if_pos hfront]; rfl⟩
        exact fun hin => hne (List.eq_nil_of_infix_nil hin)
      · rename_i hnot
        rw [List.length_cons] at h
        obtain ⟨xs, rest, rfl, hfree, hlength⟩ := ih (by omega)
        refine ⟨x :: xs, rest, rfl, ?_, by rw [if_neg hnot, List.length_cons, hlength]⟩
        intro hin
        rcases List.infix_cons_iff.mp hin with hin | hin
        · apply hnot
          rw [List.isPrefixOf_iff_prefix]
          exact hin.trans (List.prefix_append (x :: xs) _)
        · exact hfree hin

/-- A pattern of two different elements is found behind elements that do not
contain it. -/
theorem search_append_of_not_infix {c d : α} {xs : List α} (hcd : c ≠ d)
    (hfree : ¬ [c, d] <:+: xs) (rest : List α) :
    search [c, d] (xs ++ ([c, d] ++ rest)) = xs.length := by
  induction xs with
  | nil => exact search_self_append (by simp) rest
  | cons x xs ih =>
      have hnot : ¬ [c, d].isPrefixOf (x :: (xs ++ ([c, d] ++ rest))) := by
        intro hfront
        obtain ⟨rfl, htail⟩ :=
          List.cons_prefix_cons.mp (List.isPrefixOf_iff_prefix.mp hfront)
        cases xs with
        | nil =>
            obtain ⟨heq, -⟩ := List.cons_prefix_cons.mp htail
            exact hcd heq.symm
        | cons y xs =>
            obtain ⟨rfl, -⟩ := List.cons_prefix_cons.mp htail
            exact hfree ⟨[], xs, rfl⟩
      rw [List.cons_append, search, if_neg hnot, List.length_cons,
        ih fun hin => hfree (hin.trans (List.suffix_cons x xs).isInfix)]

/-- An element found from a position on is within the list. -/
theorem idxOf_drop_lt {c : α} {l : List α} {i : Nat} (hi : i ≤ l.length)
    (h : i + (l.drop i).idxOf c ≠ l.length) :
    i + (l.drop i).idxOf c < l.length := by
  have hle : (l.drop i).idxOf c ≤ (l.drop i).length := List.idxOf_le_length
  rw [List.length_drop] at hle
  omega

/-- So is a pattern. -/
theorem search_drop_le {pattern l : List α} {i : Nat} (hne : pattern ≠ [])
    (hi : i ≤ l.length) (h : i + search pattern (l.drop i) ≠ l.length) :
    i + search pattern (l.drop i) + pattern.length ≤ l.length := by
  have hfound : search pattern (l.drop i) ≠ (l.drop i).length := by
    rw [List.length_drop]
    omega
  obtain ⟨xs, rest, heq, _, hlength⟩ := exists_of_search_ne hne hfound
  have hsplit := congrArg List.length heq
  simp only [List.length_append, List.length_drop] at hsplit
  omega

end Search
