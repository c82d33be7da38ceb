/-
Iterated hash functions: whole blocks go through a compression function one
after the other.  Input that comes in pieces leaves a rest, which is shorter than
a block and is all that has to be kept of it.
-/
import Mathlib.Data.List.Basic

universe u v

namespace BlockHash

variable {S : Type u} {α : Type v} (f : S → List α → S) (n : Nat)

/-- The state behind the first `k` blocks of `n` elements each. -/
def compressed : Nat → S → List α → S
  | 0, s, _ => s
  | k + 1, s, xs => compressed k (f s (xs.take n)) (xs.drop n)

/-- The state behind every whole block. -/
def hashed (s : S) (xs : List α) : S :=
  compressed f n (xs.length / n) s xs

/-- What is not enough for another block. -/
def rest (xs : List α) : List α :=
  xs.drop (xs.length / n * n)

theorem rest_length (xs : List α) : (rest n xs).length = xs.length % n := by
  have hmod := Nat.mod_add_div' xs.length n
  rw [rest, List.length_drop]
  omega

section Short

variable {f n} {xs : List α} (hshort : xs.length < n)
include hshort

theorem hashed_short (s : S) : hashed f n s xs = s := by
  rw [hashed, Nat.div_eq_of_lt hshort]
  rfl

theorem rest_short : rest n xs = xs := by
  rw [rest, Nat.div_eq_of_lt hshort, Nat.zero_mul, List.drop_zero]

end Short

section Blocks

variable {f n} (hn : 0 < n) {block xs : List α} (hblock : block.length = n)
include hn hblock

theorem hashed_block (s : S) :
    hashed f n s (block ++ xs) = hashed f n (f s block) xs := by
  rw [hashed, hashed, List.length_append, hblock, Nat.add_div_left _ hn,
    compressed, List.take_left' hblock, List.drop_left' hblock]

theorem rest_block : rest n (block ++ xs) = rest n xs := by
  rw [rest, rest, List.length_append, hblock, Nat.add_div_left _ hn,
    Nat.succ_mul, Nat.add_comm, ← List.drop_drop, List.drop_left' hblock]

end Blocks

section Append

variable {n} (hn : 0 < n)
include hn

/-- Of what has been hashed, only the rest matters for what follows. -/
theorem hashed_append (s : S) (xs ys : List α) :
    hashed f n s (xs ++ ys) = hashed f n (hashed f n s xs) (rest n xs ++ ys) ∧
      rest n (xs ++ ys) = rest n (rest n xs ++ ys) := by
  induction hlength : xs.length using Nat.strongRecOn generalizing s xs with
  | ind length ih =>
      by_cases hshort : xs.length < n
      · rw [hashed_short hshort, rest_short hshort]
        exact ⟨rfl, rfl⟩
      · -- the first block goes through the compression function on both sides
        have hblock : (xs.take n).length = n :=
          List.length_take_of_le (Nat.le_of_not_lt hshort)
        have hsplit : xs = xs.take n ++ xs.drop n := (List.take_append_drop n xs).symm
        have hless : (xs.drop n).length < length := by
          rw [List.length_drop]
          omega
        obtain ⟨hhash, hrest⟩ := ih _ hless (f s (xs.take n)) (xs.drop n) rfl
        rw [hsplit, List.append_assoc, hashed_block hn hblock,
          hashed_block hn hblock, rest_block hn hblock, rest_block hn hblock]
        exact ⟨hhash, hrest⟩

/-- Pieces that fill a block together with the rest. -/
theorem hashed_fill (s : S) {xs ys : List α}
    (hfull : (rest n xs).length + ys.length = n) :
    hashed f n s (xs ++ ys) = f (hashed f n s xs) (rest n xs ++ ys) ∧
      rest n (xs ++ ys) = [] := by
  have hblock : (rest n xs ++ ys).length = n := by
    rw [List.length_append, hfull]
  obtain ⟨hhash, hrest⟩ := hashed_append f hn s xs ys
  rw [hhash, hrest, ← List.append_nil (rest n xs ++ ys), hashed_block hn hblock,
    rest_block hn hblock, hashed_short (by exact hn), List.append_nil]
  exact ⟨rfl, rest_short (by exact hn)⟩

/-- Pieces that do not. -/
theorem hashed_wait (s : S) {xs ys : List α}
    (hwait : (rest n xs).length + ys.length < n) :
    hashed f n s (xs ++ ys) = hashed f n s xs ∧
      rest n (xs ++ ys) = rest n xs ++ ys := by
  have hshort : (rest n xs ++ ys).length < n := by
    rwa [List.length_append]
  obtain ⟨hhash, hrest⟩ := hashed_append f hn s xs ys
  rw [hhash, hrest, hashed_short hshort, rest_short hshort]
  exact ⟨rfl, rfl⟩

end Append

end BlockHash
