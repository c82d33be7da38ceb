/-
Byte strings the way C sees them: views with memory behind their last
character, the terminator that ends a C string, and the comparison of two C
strings that ignores the case of ASCII letters.
-/
import Mathlib.Data.List.Lex
import Mathlib.Data.List.TakeWhile
import Mathlib.Order.Defs.Unbundled
import Mathlib.Order.Lattice
import Mathlib.Tactic.Common

namespace CString

/-- The bytes of a string literal. -/
def bytes (s : String) : List UInt8 :=
  s.toList.map fun c => UInt8.ofNat c.toNat

/-- `std::to_string` of an unsigned number. -/
def toDecimal (n : Nat) : List UInt8 :=
  (Nat.toDigits 10 n).map fun c => UInt8.ofNat c.toNat

/-- What a C function reads from memory: the bytes before the first NUL. -/
def cStr (memory : List UInt8) : List UInt8 :=
  memory.takeWhile (· ≠ 0)

/-- A `std::string_view`: its characters, and what memory holds behind them. -/
structure StringView where
  chars : List UInt8
  behind : List UInt8
deriving DecidableEq, Repr

/-- The memory a view's `data()` points to. -/
def StringView.data (view : StringView) : List UInt8 :=
  view.chars ++ view.behind

/-- A view of a whole terminated string. -/
def StringView.ofString (s : List UInt8) : StringView :=
  ⟨s, [0]⟩

/-- `tolower` in the C locale. -/
def toLower (c : UInt8) : UInt8 :=
  if 65 ≤ c ∧ c ≤ 90 then c + 32 else c

/-- The comparison loop of `strcasecmp` on the bytes before the terminators. -/
def compareFold : List UInt8 → List UInt8 → Int
  | [], [] => 0
  | [], d :: _ => 0 - (toLower d).toNat
  | c :: _, [] => (toLower c).toNat
  | c :: cs, d :: ds =>
      if toLower c = toLower d then compareFold cs ds
      else (toLower c).toNat - (toLower d).toNat

def strcasecmp (lhs rhs : List UInt8) : Int :=
  compareFold (cStr lhs) (cStr rhs)

/-- Equality of whole byte strings up to the case of ASCII letters. -/
def EqualFold (a b : List UInt8) : Prop :=
  a.map toLower = b.map toLower

instance (a b : List UInt8) : Decidable (EqualFold a b) :=
  inferInstanceAs (Decidable (_ = _))

/-- The lexicographic key `strcasecmp` compares by. -/
def foldKey (s : List UInt8) : List Nat :=
  (cStr s).map fun c => (toLower c).toNat

/-- What `toDecimal` prints is between `0` and `9`. -/
theorem toDecimal_digit {n : Nat} {c : UInt8} (hc : c ∈ toDecimal n) :
    48 ≤ c.toNat ∧ c.toNat ≤ 57 := by
  obtain ⟨digit, hdigit, rfl⟩ := List.mem_map.mp hc
  have hrange : digit.isDigit = true :=
    Nat.isDigit_of_mem_toDigits (by decide) (by decide) hdigit
  simp only [Char.isDigit, Bool.and_eq_true, decide_eq_true_eq, ge_iff_le,
    UInt32.le_iff_toNat_le] at hrange
  have hlow : 48 ≤ digit.toNat := hrange.1
  have hhigh : digit.toNat ≤ 57 := hrange.2
  have hbyte : (UInt8.ofNat digit.toNat).toNat = digit.toNat :=
    UInt8.toNat_ofNat_of_lt' (by simp only [UInt8.size]; omega)
  rw [hbyte]
  exact ⟨hlow, hhigh⟩

theorem cStr_of_not_mem {s : List UInt8} (hs : 0 ∉ s) (behind : List UInt8) :
    cStr (s ++ 0 :: behind) = s := by
  rw [cStr, List.takeWhile_append_of_pos, List.takeWhile_cons_of_neg] <;> simp
  intro c hc hzero
  exact hs (hzero ▸ hc)

theorem cStr_eq_self {s : List UInt8} (hs : 0 ∉ s) : cStr s = s := by
  rw [cStr, List.takeWhile_eq_self_iff]
  intro c hc
  simpa using fun hzero : c = 0 => hs (hzero ▸ hc)

theorem mem_cStr_ne_zero {s : List UInt8} {c : UInt8} (hc : c ∈ cStr s) :
    c ≠ 0 := by
  simpa using List.mem_takeWhile_imp hc

/-- The terminator and what follows it are not part of the string. -/
theorem cStr_append_zeros (xs : List UInt8) (k : Nat) :
    cStr (xs ++ List.replicate k 0) = cStr xs := by
  have hzeros : cStr (List.replicate k 0) = [] := by
    cases k with
    | zero => rfl
    | succ k => rfl
  rw [cStr, List.takeWhile_append]
  split
  · rename_i hall
    change xs ++ cStr _ = cStr xs
    rw [hzeros, List.append_nil]
    exact ((List.takeWhile_prefix _).eq_of_length hall).symm
  · rfl

theorem cStr_length_eq_iff (xs : List UInt8) :
    (cStr xs).length = xs.length ↔ 0 ∉ xs := by
  constructor
  · intro hlength hzero
    have hself := (List.takeWhile_prefix _).eq_of_length hlength
    exact mem_cStr_ne_zero (hself.symm ▸ hzero) rfl
  · intro hzero
    rw [cStr_eq_self hzero]

/-- Lower-casing maps no other byte to NUL. -/
theorem toLower_pos {c : UInt8} (hc : c ≠ 0) : 0 < (toLower c).toNat := by
  have hnat : c.toNat ≠ 0 := fun hzero => hc (UInt8.toNat_inj.mp hzero)
  unfold toLower
  split
  · rename_i hrange
    have hlow := UInt8.le_iff_toNat_le.mp hrange.1
    have hhigh := UInt8.le_iff_toNat_le.mp hrange.2
    rw [UInt8.toNat_add]
    simp only [UInt8.reduceToNat] at hlow hhigh ⊢
    omega
  · omega

theorem compareFold_neg_iff {a b : List UInt8} (ha : 0 ∉ a) (hb : 0 ∉ b) :
    compareFold a b < 0 ↔
      a.map (fun c => (toLower c).toNat) < b.map (fun c => (toLower c).toNat) := by
  induction a generalizing b with
  | nil =>
      cases b with
      | nil => simp [compareFold]
      | cons d ds =>
          have hd : d ≠ 0 := fun hzero => hb (by simp [hzero])
          have hpos := toLower_pos hd
          simp only [compareFold, List.map_nil, List.map_cons,
            List.nil_lt_cons, iff_true]
          omega
  | cons c cs ih =>
      cases b with
      | nil =>
          simp only [compareFold, List.map_nil, List.not_lt_nil, iff_false]
          omega
      | cons d ds =>
          simp only [List.mem_cons, not_or] at ha hb
          simp only [compareFold, List.map_cons, List.cons_lt_cons_iff]
          by_cases heq : toLower c = toLower d
          · simp [heq, ih ha.2 hb.2]
          · have hne : (toLower c).toNat ≠ (toLower d).toNat := fun h =>
              heq (UInt8.toNat_inj.mp h)
            simp only [heq, hne, if_false, false_and, or_false]
            omega

theorem strcasecmp_neg_iff (a b : List UInt8) :
    strcasecmp a b < 0 ↔ foldKey a < foldKey b :=
  compareFold_neg_iff (fun h => mem_cStr_ne_zero h rfl)
    fun h => mem_cStr_ne_zero h rfl

/-- A relation read off keys in a linear order is a strict weak order. -/
theorem isStrictWeakOrder_of_key {K O : Type} [LinearOrder O]
    {lt : K → K → Prop} (key : K → O)
    (hkey : ∀ a b, lt a b ↔ key a < key b) : IsStrictWeakOrder K lt where
  irrefl a h := lt_irrefl _ ((hkey a a).mp h)
  trans a b c hab hbc :=
    (hkey a c).mpr (((hkey a b).mp hab).trans ((hkey b c).mp hbc))
  incomp_trans a b c hab hbc := by
    simp only [hkey, not_lt] at hab hbc ⊢
    exact ⟨hbc.1.trans hab.1, hab.2.trans hbc.2⟩

/-- `std::string` compares its bytes as unsigned numbers. -/
theorem lt_iff_toNat (a b : List UInt8) :
    a < b ↔ a.map UInt8.toNat < b.map UInt8.toNat := by
  induction a generalizing b with
  | nil => cases b <;> simp
  | cons c cs ih =>
      cases b with
      | nil => simp
      | cons d ds =>
          simp only [List.map_cons, List.cons_lt_cons_iff, ih,
            UInt8.lt_iff_toNat_lt, UInt8.toNat_inj]

instance isStrictWeakOrder_lt : IsStrictWeakOrder (List UInt8) (· < ·) :=
  isStrictWeakOrder_of_key (List.map UInt8.toNat) lt_iff_toNat

/-- Of two strings neither of which comes first, each is the other. -/
theorem eq_of_not_lt {a b : List UInt8} (hab : ¬ a < b) (hba : ¬ b < a) :
    a = b := by
  rw [lt_iff_toNat, not_lt] at hab hba
  have hinj : Function.Injective UInt8.toNat := fun _ _ => UInt8.toNat_inj.mp
  exact List.map_injective_iff.mpr hinj (le_antisymm hba hab)

theorem lt_of_lt_of_not_lt {a b c : List UInt8} (hab : a < b) (hcb : ¬ c < b) :
    a < c := by
  by_cases hbc : b < c
  · exact IsTrans.trans _ _ _ hab hbc
  · exact eq_of_not_lt hbc hcb ▸ hab

theorem foldKey_eq_iff {a b : List UInt8} (ha : 0 ∉ a) (hb : 0 ∉ b) :
    foldKey a = foldKey b ↔ EqualFold a b := by
  have hinj : Function.Injective UInt8.toNat := fun _ _ => UInt8.toNat_inj.mp
  have hmap (s : List UInt8) : s.map (fun c => (toLower c).toNat) =
      (s.map toLower).map UInt8.toNat := by
    simp
  rw [foldKey, foldKey, cStr_eq_self ha, cStr_eq_self hb, hmap, hmap,
    (List.map_injective_iff.mpr hinj).eq_iff]
  rfl

/-- The first NULs of strings that differ in case only are at one place. -/
theorem EqualFold.cStr {a b : List UInt8} (h : EqualFold a b) :
    EqualFold (cStr a) (cStr b) := by
  have hzero (c : UInt8) : toLower c = 0 ↔ c = 0 := by
    constructor
    · intro hc
      by_contra hne
      have hpos := toLower_pos hne
      rw [hc] at hpos
      exact absurd hpos (by decide)
    · rintro rfl
      rfl
  have hmap (s : List UInt8) :
      (CString.cStr s).map toLower = CString.cStr (s.map toLower) := by
    rw [CString.cStr, CString.cStr, List.takeWhile_map]
    simp only [Function.comp_def, ne_eq, hzero]
  rw [EqualFold, hmap, hmap, h]

end CString
