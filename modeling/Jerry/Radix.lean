/-
Numbers as a given number of digits in some base, the most significant first.
-/
import Mathlib.Data.List.Induction
import Mathlib.Data.Nat.Digits.Defs

namespace Radix

variable {b : Nat}

/-- The low `k` digits of `n`. -/
def digits (b : Nat) : Nat → Nat → List Nat
  | 0, _ => []
  | k + 1, n => digits b k (n / b) ++ [n % b]

/-- What the digits stand for. -/
def value (b : Nat) (ds : List Nat) : Nat :=
  Nat.ofDigits b ds.reverse

@[simp] theorem digits_length (k n : Nat) : (digits b k n).length = k := by
  induction k generalizing n with
  | zero => rfl
  | succ k ih => rw [digits, List.length_append, ih, List.length_singleton]

theorem lt_of_mem_digits (hb : 0 < b) {k n d : Nat} (h : d ∈ digits b k n) :
    d < b := by
  induction k generalizing n with
  | zero => cases h
  | succ k ih =>
      rcases List.mem_append.mp h with h | h
      · exact ih h
      · rw [List.mem_singleton.mp h]
        exact Nat.mod_lt _ hb

@[simp] theorem value_singleton (d : Nat) : value b [d] = d :=
  Nat.ofDigits_singleton

theorem value_append (xs ys : List Nat) :
    value b (xs ++ ys) = value b xs * b ^ ys.length + value b ys := by
  rw [value, List.reverse_append, Nat.ofDigits_append, List.length_reverse,
    Nat.add_comm, Nat.mul_comm]
  rfl

theorem value_lt (hb : 1 < b) {ds : List Nat} (h : ∀ d ∈ ds, d < b) :
    value b ds < b ^ ds.length := by
  have hlt := Nat.ofDigits_lt_base_pow_length (l := ds.reverse) hb
    (fun d hd => h d (List.mem_reverse.mp hd))
  rwa [List.length_reverse] at hlt

theorem value_digits {k n : Nat} (hn : n < b ^ k) : value b (digits b k n) = n := by
  induction k generalizing n with
  | zero =>
      rw [Nat.pow_zero, Nat.lt_one_iff] at hn
      rw [hn]
      rfl
  | succ k ih =>
      have hdiv : n / b < b ^ k :=
        Nat.div_lt_of_lt_mul (by rwa [Nat.pow_succ, Nat.mul_comm] at hn)
      rw [digits, value_append, ih hdiv, value_singleton, List.length_singleton,
        Nat.pow_one]
      exact Nat.div_add_mod' n b

theorem digits_value {ds : List Nat} (h : ∀ d ∈ ds, d < b) :
    digits b ds.length (value b ds) = ds := by
  induction ds using List.reverseRecOn with
  | nil => rfl
  | append_singleton ds d ih =>
      have hd : d < b := h d (List.mem_append_right _ List.mem_cons_self)
      have hb : 0 < b := Nat.zero_lt_of_lt hd
      rw [List.length_append, List.length_singleton, value_append, digits,
        value_singleton, List.length_singleton, Nat.pow_one, Nat.mul_comm,
        Nat.mul_add_div hb, Nat.mul_add_mod, Nat.div_eq_of_lt hd,
        Nat.mod_eq_of_lt hd, Nat.add_zero,
        ih fun d hd => h d (List.mem_append_left _ hd)]

/-- High digits before low ones. -/
theorem digits_add {j k m n : Nat} (hn : n < b ^ k) :
    digits b (j + k) (m * b ^ k + n) = digits b j m ++ digits b k n := by
  induction k generalizing n with
  | zero =>
      rw [Nat.pow_zero, Nat.lt_one_iff] at hn
      rw [hn, Nat.pow_zero, Nat.mul_one, Nat.add_zero, digits, List.append_nil,
        Nat.add_zero]
  | succ k ih =>
      have hb : 0 < b := Nat.pos_of_ne_zero fun hzero => by
        rw [hzero, Nat.pow_succ, Nat.mul_zero] at hn
        cases hn
      have hdiv : n / b < b ^ k :=
        Nat.div_lt_of_lt_mul (by rwa [Nat.pow_succ, Nat.mul_comm] at hn)
      have hshift : m * b ^ (k + 1) = b * (m * b ^ k) := by
        rw [Nat.pow_succ, ← Nat.mul_assoc, Nat.mul_comm]
      rw [← Nat.add_assoc, digits, hshift, Nat.mul_add_div hb, Nat.mul_add_mod,
        ih hdiv, digits, List.append_assoc]

end Radix
