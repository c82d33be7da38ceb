/-
Ordered associative containers over a strict weak order on the keys, as strictly
sorted association lists: lookup by equivalence, and insertion that keeps the
entry already there.
-/
import Mathlib.Order.Defs.Unbundled
import Mathlib.Data.List.Pairwise

universe u v

/-- A map whose keys are strictly increasing, so that no two are equivalent. -/
structure OrderedMap (K : Type u) (V : Type v) (lt : K → K → Prop) where
  entries : List (K × V)
  sorted : entries.Pairwise fun a b => lt a.1 b.1
deriving DecidableEq

namespace OrderedMap

variable {K : Type u} {V : Type v} {lt : K → K → Prop} [DecidableRel lt]

/-- Neither key comes before the other. -/
def Equivalent (lt : K → K → Prop) (a b : K) : Prop :=
  ¬ lt a b ∧ ¬ lt b a

instance (a b : K) : Decidable (Equivalent lt a b) :=
  inferInstanceAs (Decidable (_ ∧ _))

def emplaceEntry (lt : K → K → Prop) [DecidableRel lt] (k : K) (v : V) :
    List (K × V) → List (K × V)
  | [] => [(k, v)]
  | e :: es =>
      if lt k e.1 then (k, v) :: e :: es
      else if lt e.1 k then e :: emplaceEntry lt k v es
      else e :: es

theorem fst_mem_emplaceEntry {k : K} {v : V} {es : List (K × V)} {e : K × V}
    (he : e ∈ emplaceEntry lt k v es) : e = (k, v) ∨ e ∈ es := by
  induction es with
  | nil => simpa [emplaceEntry] using he
  | cons f fs ih =>
      simp only [emplaceEntry] at he
      split at he
      · simpa using he
      · split at he
        · rcases List.mem_cons.mp he with rfl | htail
          · exact Or.inr List.mem_cons_self
          · exact (ih htail).imp id (List.mem_cons_of_mem f)
        · exact Or.inr he

theorem emplaceEntry_sorted [IsTrans K lt] (k : K) (v : V)
    {es : List (K × V)} (hsorted : es.Pairwise fun a b => lt a.1 b.1) :
    (emplaceEntry lt k v es).Pairwise fun a b => lt a.1 b.1 := by
  induction es with
  | nil => simp [emplaceEntry]
  | cons e es ih =>
      obtain ⟨hhead, htail⟩ := List.pairwise_cons.mp hsorted
      simp only [emplaceEntry]
      split
      · rename_i hbefore
        refine List.pairwise_cons.mpr ⟨?_, hsorted⟩
        intro f hf
        rcases List.mem_cons.mp hf with rfl | hf
        · exact hbefore
        · exact IsTrans.trans _ _ _ hbefore (hhead f hf)
      · split
        · rename_i hafter
          refine List.pairwise_cons.mpr ⟨?_, ih htail⟩
          intro f hf
          rcases fst_mem_emplaceEntry hf with rfl | hf
          · exact hafter
          · exact hhead f hf
        · exact hsorted

def empty : OrderedMap K V lt := ⟨[], .nil⟩

/-- Insert, unless an equivalent key is there already. -/
def emplace [IsTrans K lt] (m : OrderedMap K V lt) (k : K) (v : V) :
    OrderedMap K V lt :=
  ⟨emplaceEntry lt k v m.entries, emplaceEntry_sorted k v m.sorted⟩

/-- The value of the entry whose key is equivalent to `k`. -/
def find? (m : OrderedMap K V lt) (k : K) : Option V :=
  (m.entries.find? fun e => decide (Equivalent lt e.1 k)).map Prod.snd

@[simp] theorem find?_empty (q : K) :
    (empty : OrderedMap K V lt).find? q = none := rfl

/-- A search finds something where there is something to find. -/
theorem exists_find?_eq_some {α : Type*} {p : α → Bool} {l : List α} {x : α}
    (hx : x ∈ l) (hp : p x = true) :
    ∃ y ∈ l, l.find? p = some y ∧ p y = true := by
  obtain ⟨y, hy⟩ := Option.isSome_iff_exists.mp (List.find?_isSome.mpr ⟨x, hx, hp⟩)
  exact ⟨y, List.mem_of_find?_eq_some hy, hy, List.find?_some hy⟩

omit [DecidableRel lt] in
/-- No two entries have equivalent keys. -/
theorem eq_of_equivalent {m : OrderedMap K V lt} {e f : K × V}
    (he : e ∈ m.entries) (hf : f ∈ m.entries)
    (hkey : Equivalent lt e.1 f.1) : e = f := by
  by_contra hne
  have hapart : m.entries.Pairwise fun a b => ¬ Equivalent lt a.1 b.1 :=
    m.sorted.imp fun hlt hequiv => hequiv.1 hlt
  have : Std.Symm fun a b : K × V => ¬ Equivalent lt a.1 b.1 :=
    ⟨fun a b hab hba => hab ⟨hba.2, hba.1⟩⟩
  exact hapart.forall he hf hne hkey

section StrictWeakOrder

variable [IsStrictWeakOrder K lt]

omit [DecidableRel lt] in
theorem Equivalent.trans {a b c : K} (hab : Equivalent lt a b)
    (hbc : Equivalent lt b c) : Equivalent lt a c :=
  IsStrictWeakOrder.incomp_trans a b c hab hbc

omit [DecidableRel lt] [IsStrictWeakOrder K lt] in
theorem Equivalent.symm {a b : K} (hab : Equivalent lt a b) :
    Equivalent lt b a :=
  ⟨hab.2, hab.1⟩

theorem find?_emplaceEntry (k q : K) (v : V) {es : List (K × V)}
    (hsorted : es.Pairwise fun a b => lt a.1 b.1) :
    ((emplaceEntry lt k v es).find? fun e => decide (Equivalent lt e.1 q)) =
      (es.find? fun e => decide (Equivalent lt e.1 q)).or
        (if Equivalent lt k q then some (k, v) else none) := by
  induction es with
  | nil => by_cases hq : Equivalent lt k q <;> simp [emplaceEntry, hq]
  | cons e es ih =>
      obtain ⟨hhead, htail⟩ := List.pairwise_cons.mp hsorted
      simp only [emplaceEntry]
      split
      · rename_i hbefore
        by_cases hq : Equivalent lt k q
        · -- every entry lies behind `k`, so none is equivalent to `q`
          have hnone : (e :: es).find?
              (fun e => decide (Equivalent lt e.1 q)) = none := by
            rw [List.find?_eq_none]
            intro f hf hfq
            have hkf : Equivalent lt k f.1 :=
              hq.trans (Equivalent.symm (of_decide_eq_true hfq))
            rcases List.mem_cons.mp hf with rfl | hf
            · exact hkf.1 hbefore
            · exact hkf.1 (IsTrans.trans _ _ _ hbefore (hhead f hf))
          rw [hnone]
          simp [hq]
        · rw [List.find?_cons_of_neg (by simpa using hq)]
          simp [hq]
      · rename_i hnotBefore
        split
        · by_cases heq : Equivalent lt e.1 q
          · simp [heq]
          · rw [List.find?_cons_of_neg (by simpa using heq), ih htail,
              List.find?_cons_of_neg (by simpa using heq)]
        · rename_i hnotAfter
          have hke : Equivalent lt k e.1 := ⟨hnotBefore, hnotAfter⟩
          by_cases heq : Equivalent lt e.1 q
          · simp [heq]
          · have hkq : ¬ Equivalent lt k q := fun hkq =>
              heq (hke.symm.trans hkq)
            simp [heq, hkq]

theorem find?_emplace (m : OrderedMap K V lt) (k q : K) (v : V) :
    (m.emplace k v).find? q =
      (m.find? q).or (if Equivalent lt k q then some v else none) := by
  simp only [find?, emplace, find?_emplaceEntry k q v m.sorted]
  cases m.entries.find? fun e => decide (Equivalent lt e.1 q) with
  | none => by_cases hq : Equivalent lt k q <;> simp [hq]
  | some e => simp

/-- After inserting a list of entries in order, the entry with a key is the first
of them that is equivalent to it. -/
theorem findEntry_foldl_emplace (es : List (K × V)) (m : OrderedMap K V lt)
    (q : K) :
    ((es.foldl (fun m e => m.emplace e.1 e.2) m).entries.find?
        fun e => decide (Equivalent lt e.1 q)) =
      (m.entries.find? fun e => decide (Equivalent lt e.1 q)).or
        (es.find? fun e => decide (Equivalent lt e.1 q)) := by
  induction es generalizing m with
  | nil => simp
  | cons e es ih =>
      rw [List.foldl_cons, ih, emplace, find?_emplaceEntry e.1 q e.2 m.sorted,
        Option.or_assoc]
      by_cases heq : Equivalent lt e.1 q <;> simp [heq]

theorem find?_foldl_emplace (es : List (K × V)) (m : OrderedMap K V lt)
    (q : K) :
    (es.foldl (fun m e => m.emplace e.1 e.2) m).find? q =
      (m.find? q).or
        ((es.find? fun e => decide (Equivalent lt e.1 q)).map Prod.snd) := by
  rw [find?, findEntry_foldl_emplace, find?]
  cases m.entries.find? fun e => decide (Equivalent lt e.1 q) <;> simp

/-- The entries after that are the inserted ones that are the first of their
key. -/
theorem mem_foldl_emplace_iff (es : List (K × V)) (e : K × V) :
    e ∈ (es.foldl (fun m e => m.emplace e.1 e.2)
        (empty : OrderedMap K V lt)).entries ↔
      es.find? (fun f => decide (Equivalent lt f.1 e.1)) = some e := by
  have hself : Equivalent lt e.1 e.1 := ⟨irrefl _, irrefl _⟩
  have hfind := findEntry_foldl_emplace es (empty : OrderedMap K V lt) e.1
  rw [show (empty : OrderedMap K V lt).entries = [] from rfl, List.find?_nil,
    Option.none_or] at hfind
  rw [← hfind]
  constructor
  · intro he
    obtain ⟨f, hmem, hf, hkey⟩ :=
      @exists_find?_eq_some _ (fun f => decide (Equivalent lt f.1 e.1)) _ _ he
        (decide_eq_true hself)
    rw [hf, eq_of_equivalent hmem he (of_decide_eq_true hkey)]
  · exact List.mem_of_find?_eq_some

end StrictWeakOrder

end OrderedMap
