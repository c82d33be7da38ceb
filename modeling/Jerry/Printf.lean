/-
What `snprintf` makes of an unsigned number with a minimum width, and of the
memory it prints to.  Padded with zeros to a width it fits, a number can be read
back.
-/
import Jerry.CString
import Jerry.Window
import Mathlib.Algebra.Group.Int.Defs
import Mathlib.Algebra.Group.Nat.Defs

namespace Printf

open CString

/-- `%<width>u`, padded with `fill`. -/
def field (fill : UInt8) (width n : Nat) : List UInt8 :=
  List.replicate (width - (toDecimal n).length) fill ++ toDecimal n

def zero : UInt8 := 48

def space : UInt8 := 32

/-- The conversion of an `int` argument to the `unsigned` that `%u` takes. -/
def unsigned (n : Int) : Nat :=
  (n % 2 ^ 32).toNat

/-- The memory behind the call: at most `size - 1` characters and a NUL. -/
def snprintf (memory : List UInt8) (size : Nat) (text : List UInt8) :
    List UInt8 :=
  Window.overwrite memory 0 (text.take (size - 1) ++ [0])

@[simp] theorem snprintf_length (memory : List UInt8) (size : Nat)
    (text : List UInt8) : (snprintf memory size text).length = memory.length :=
  Window.overwrite_length _ _ _

/-- What is printed has its place, if the memory has the size that is given. -/
theorem snprintf_eq {memory : List UInt8} {size : Nat} (hpos : 0 < size)
    (hsize : size ≤ memory.length) (text : List UInt8) :
    snprintf memory size text =
      text.take (size - 1) ++ 0 :: memory.drop ((text.take (size - 1)).length + 1) := by
  have hfits : 0 + (text.take (size - 1) ++ [0]).length ≤ memory.length := by
    rw [List.length_append, List.length_take, List.length_singleton]
    omega
  rw [snprintf, Window.overwrite_eq hfits, List.take_zero, List.nil_append,
    List.length_append, List.append_assoc, Nat.zero_add]
  rfl

theorem unsigned_of_lt {n : Nat} (hn : n < 2 ^ 32) : unsigned n = n := by
  unfold unsigned
  omega

theorem toDecimal_length_le {n k : Nat} (hk : 0 < k) (hn : n < 10 ^ k) :
    (toDecimal n).length ≤ k := by
  rw [toDecimal, List.length_map]
  exact (Nat.length_toDigits_le_iff (by decide) hk).mpr hn

theorem field_length (fill : UInt8) {width n : Nat} (hwidth : 0 < width)
    (hn : n < 10 ^ width) : (field fill width n).length = width := by
  have hle := toDecimal_length_le hwidth hn
  rw [field, List.length_append, List.length_replicate]
  omega

theorem zero_not_mem_field {fill : UInt8} (hfill : fill ≠ 0) (width n : Nat) :
    0 ∉ field fill width n := by
  intro hmem
  rcases List.mem_append.mp hmem with hpad | hdigit
  · exact hfill (List.eq_of_mem_replicate hpad).symm
  · have hrange := toDecimal_digit hdigit
    simp at hrange

/-- The number that digits stand for. -/
def value (digits : List UInt8) : Nat :=
  digits.foldl (fun n c => 10 * n + (c.toNat - 48)) 0

theorem value_concat (digits : List UInt8) (c : UInt8) :
    value (digits ++ [c]) = 10 * value digits + (c.toNat - 48) := by
  rw [value, List.foldl_append]
  rfl

theorem value_digit {d : Nat} (hd : d < 10) :
    (UInt8.ofNat (Nat.digitChar d).toNat).toNat - 48 = d := by
  have hall : ∀ e ∈ List.range 10,
      (UInt8.ofNat (Nat.digitChar e).toNat).toNat - 48 = e := by decide
  exact hall d (List.mem_range.mpr hd)

theorem value_toDecimal (n : Nat) : value (toDecimal n) = n := by
  induction n using Nat.strongRecOn with
  | ind n ih =>
      by_cases hn : n < 10
      · rw [toDecimal, Nat.toDigits_of_lt_base hn]
        have hdigit := value_digit hn
        simpa [value] using hdigit
      · have hsplit : toDecimal n =
            toDecimal (n / 10) ++ [UInt8.ofNat (Nat.digitChar (n % 10)).toNat] := by
          rw [toDecimal, Nat.toDigits_of_base_le (by decide) (Nat.not_lt.mp hn),
            List.map_append]
          rfl
        rw [hsplit, value_concat, ih (n / 10) (by omega),
          value_digit (Nat.mod_lt n (by decide))]
        omega

/-- Leading zeros do not count. -/
theorem value_zeros (k : Nat) (digits : List UInt8) :
    value (List.replicate k zero ++ digits) = value digits := by
  induction k with
  | zero => rfl
  | succ k ih =>
      rw [← ih]
      rfl

theorem value_field (width n : Nat) : value (field zero width n) = n := by
  rw [field, value_zeros, value_toDecimal]

theorem field_injective (width : Nat) : Function.Injective (field zero width) :=
  Function.LeftInverse.injective (value_field width)

/-- The string that is left in the memory. -/
theorem cStr_snprintf {memory : List UInt8} {size : Nat} {text : List UInt8}
    (hpos : 0 < size) (hsize : size ≤ memory.length) (htext : 0 ∉ text) :
    cStr (snprintf memory size text) = text.take (size - 1) := by
  have hnot : 0 ∉ text.take (size - 1) := fun h => htext (List.mem_of_mem_take h)
  rw [snprintf_eq hpos hsize]
  exact cStr_of_not_mem hnot _

end Printf
