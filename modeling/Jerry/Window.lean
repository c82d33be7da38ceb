/-
Windows into a list: the elements between two offsets, and the in-place
overwrite of a block.  These are the two things a cursor pair over a vector
does, and the lemmas say how they act on each other.
-/
import Mathlib.Data.List.TakeDrop

universe u

namespace Window

variable {α : Type u}

/-- The elements of `l` from offset `i` up to offset `j`. -/
def slice (l : List α) (i j : Nat) : List α :=
  (l.drop i).take (j - i)

/-- `l` with the block that starts at offset `i` replaced by `xs`.  The list does
not grow: what would lie behind its end is lost. -/
def overwrite (l : List α) (i : Nat) (xs : List α) : List α :=
  l.take i ++ xs.take (l.length - i) ++ l.drop (i + xs.length)

@[simp] theorem slice_self (l : List α) (i : Nat) : slice l i i = [] := by
  simp [slice]

theorem slice_length {l : List α} {i j : Nat} (hj : j ≤ l.length) :
    (slice l i j).length = j - i := by
  simp only [slice, List.length_take, List.length_drop]
  omega

@[simp] theorem overwrite_length (l : List α) (i : Nat) (xs : List α) :
    (overwrite l i xs).length = l.length := by
  simp only [overwrite, List.length_append, List.length_take, List.length_drop]
  omega

/-- A block that fits. -/
theorem overwrite_eq {l : List α} {i : Nat} {xs : List α}
    (hfits : i + xs.length ≤ l.length) :
    overwrite l i xs = l.take i ++ xs ++ l.drop (i + xs.length) := by
  have hall : xs.take (l.length - i) = xs := List.take_of_length_le (by omega)
  rw [overwrite, hall]

/-- An overwrite leaves what is in front of the block. -/
theorem take_overwrite {l : List α} {i : Nat} (hi : i ≤ l.length) (xs : List α) :
    (overwrite l i xs).take i = l.take i := by
  have hfront : (l.take i).length = i := List.length_take_of_le hi
  rw [overwrite, List.append_assoc, List.take_left' hfront]

/-- An overwrite puts the block in its place. -/
theorem drop_overwrite {l : List α} {i : Nat} {xs : List α}
    (hfits : i + xs.length ≤ l.length) :
    (overwrite l i xs).drop i = xs ++ l.drop (i + xs.length) := by
  have hfront : (l.take i).length = i := List.length_take_of_le (by omega)
  rw [overwrite_eq hfits, List.append_assoc, List.drop_left' hfront]

/-- Moving the front offset forward drops elements from the window. -/
theorem slice_add (l : List α) (i j n : Nat) :
    slice l (i + n) j = (slice l i j).drop n := by
  simp only [slice, List.drop_take, List.drop_drop]
  congr 1
  omega

/-- Writing a block at the end of a window extends the window by that block. -/
theorem slice_overwrite_end {l : List α} {i k : Nat} {xs : List α}
    (hik : i ≤ k) (hfits : k + xs.length ≤ l.length) :
    slice (overwrite l k xs) i (k + xs.length) = slice l i k ++ xs := by
  have hfront : ((l.take k).drop i).length = k - i := by
    simp only [List.length_drop, List.length_take]
    omega
  rw [slice, overwrite_eq hfits, List.append_assoc,
    List.drop_append_of_le_length (by simp; omega), ← List.append_assoc,
    List.take_append_of_le_length (by simp; omega)]
  rw [List.take_of_length_le (by simp; omega), slice, List.drop_take]

/-- Growing the list behind a window leaves the window alone. -/
theorem slice_append_left {l r : List α} {i j : Nat} (hj : j ≤ l.length) :
    slice (l ++ r) i j = slice l i j := by
  by_cases hi : i ≤ j
  · rw [slice, slice, List.drop_append_of_le_length (by omega),
      List.take_append_of_le_length (by simp; omega)]
  · have hzero : j - i = 0 := by omega
    simp [slice, hzero]

/-- The middle of three consecutive blocks. -/
theorem slice_middle {l ys : List α} (xs zs : List α) {i j : Nat}
    (hl : l = xs ++ (ys ++ zs)) (hi : i = xs.length)
    (hj : j = xs.length + ys.length) : slice l i j = ys := by
  subst hl hi hj
  simp [slice]

theorem drop_succ_append {xs : List α} {i : Nat} (hi : i = xs.length) (x : α)
    (rest : List α) : (xs ++ x :: rest).drop (i + 1) = rest := by
  subst hi
  simp

/-- The elements from an offset on are the window followed by what lies
behind it. -/
theorem drop_eq_slice_append {l : List α} {i j : Nat} (hij : i ≤ j) :
    l.drop i = slice l i j ++ l.drop j := by
  have hj : j = i + (j - i) := by omega
  conv_rhs => rw [hj]
  rw [slice, ← List.drop_drop, Nat.add_sub_cancel_left,
    List.take_append_drop]

end Window
