/-
Unsigned integers of a fixed number of bytes in memory, least significant byte
first or last.
-/
import Mathlib.Algebra.Group.Nat.Defs
import Mathlib.Data.List.Induction
import Mathlib.Tactic.Common

namespace ByteOrder

/-- The low `k` bytes of `n`, least significant first. -/
def leBytes : Nat → Nat → List UInt8
  | 0, _ => []
  | k + 1, n => UInt8.ofNat n :: leBytes k (n / 256)

/-- The number that bytes stand for, least significant first. -/
def ofLe : List UInt8 → Nat
  | [] => 0
  | b :: bs => b.toNat + 256 * ofLe bs

/-- The low `k` bytes of `n`, most significant first. -/
def beBytes (k n : Nat) : List UInt8 :=
  (leBytes k n).reverse

/-- The number that bytes stand for, most significant first. -/
def ofBe (bs : List UInt8) : Nat :=
  ofLe bs.reverse

@[simp] theorem leBytes_length (k n : Nat) : (leBytes k n).length = k := by
  induction k generalizing n with
  | zero => rfl
  | succ k ih => rw [leBytes, List.length_cons, ih]

@[simp] theorem beBytes_length (k n : Nat) : (beBytes k n).length = k := by
  rw [beBytes, List.length_reverse, leBytes_length]

theorem ofLe_leBytes {k n : Nat} (hn : n < 256 ^ k) :
    ofLe (leBytes k n) = n := by
  induction k generalizing n with
  | zero =>
      rw [Nat.pow_zero, Nat.lt_one_iff] at hn
      rw [hn]
      rfl
  | succ k ih =>
      have hdiv : n / 256 < 256 ^ k :=
        Nat.div_lt_of_lt_mul (by rwa [Nat.pow_succ, Nat.mul_comm] at hn)
      rw [leBytes, ofLe, ih hdiv, UInt8.toNat_ofNat']
      exact Nat.mod_add_div n 256

theorem leBytes_ofLe (bs : List UInt8) : leBytes bs.length (ofLe bs) = bs := by
  induction bs with
  | nil => rfl
  | cons b bs ih =>
      have hb : b.toNat < 256 := b.toNat_lt
      have hlow : UInt8.ofNat (b.toNat + 256 * ofLe bs) = b := by
        apply UInt8.toNat_inj.mp
        rw [UInt8.toNat_ofNat', Nat.add_mul_mod_self_left]
        exact Nat.mod_eq_of_lt hb
      have hhigh : (b.toNat + 256 * ofLe bs) / 256 = ofLe bs := by
        rw [Nat.add_mul_div_left _ _ (by decide), Nat.div_eq_of_lt hb,
          Nat.zero_add]
      rw [List.length_cons, ofLe, leBytes, hlow, hhigh, ih]

theorem ofBe_beBytes {k n : Nat} (hn : n < 256 ^ k) :
    ofBe (beBytes k n) = n := by
  rw [ofBe, beBytes, List.reverse_reverse, ofLe_leBytes hn]

/-- Bytes that stand for `n` in one order are the bytes of `n` in it. -/
theorem eq_beBytes_of_ofBe {bs : List UInt8} {n : Nat} (h : ofBe bs = n) :
    bs = beBytes bs.length n := by
  have hbytes := leBytes_ofLe bs.reverse
  rw [List.length_reverse] at hbytes
  rw [beBytes, ← h, ofBe, hbytes, List.reverse_reverse]

end ByteOrder
