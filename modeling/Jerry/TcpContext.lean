/-
`net/TcpConn`: the context that a user attaches to a connection.  The key that
is stored has the length of the view, the key that is looked up ends at the
first NUL behind the view's pointer, and a key that is there already keeps its
value.
-/
import Jerry.CString
import Jerry.OrderedMap

namespace Jerry

open CString

/-- `std::map<std::string, std::any>`. -/
abbrev TcpContext (Any : Type) := OrderedMap (List UInt8) Any (· < ·)

namespace TcpContext

variable {Any : Type}

def get (context : TcpContext Any) (key : StringView) : Option Any :=
  context.find? (cStr key.data)

/-- `context.emplace(key, value)`. -/
def set (context : TcpContext Any) (key : StringView) (value : Any) :
    TcpContext Any :=
  context.emplace key.chars value

/-- The context after some calls of `SetContext`. -/
def setAll (calls : List (StringView × Any)) : TcpContext Any :=
  calls.foldl (fun context call => context.set call.1 call.2) .empty

/-- The value of the most recent call with an equal key. -/
def latest (calls : List (StringView × Any)) (key : StringView) : Option Any :=
  (calls.reverse.find? fun call => decide (call.1.chars = key.chars)).map
    Prod.snd

theorem equivalent_iff (a b : List UInt8) :
    OrderedMap.Equivalent (· < ·) a b ↔ a = b := by
  constructor
  · rintro ⟨hab, hba⟩
    exact eq_of_not_lt hab hba
  · rintro rfl
    exact ⟨irrefl a, irrefl a⟩

theorem get_set (context : TcpContext Any) (key other : StringView)
    (value : Any) :
    (context.set other value).get key =
      (context.get key).or
        (if other.chars = cStr key.data then some value else none) := by
  simp only [get, set, OrderedMap.find?_emplace, equivalent_iff]

/-- A lookup finds the first value that was set for the key it looks up. -/
theorem get_setAll (calls : List (StringView × Any)) (key : StringView) :
    (setAll calls).get key =
      (calls.find? fun call => decide (call.1.chars = cStr key.data)).map
        Prod.snd := by
  have hfind := OrderedMap.find?_foldl_emplace
    (calls.map fun call => (call.1.chars, call.2))
    (.empty : TcpContext Any) (cStr key.data)
  simpa only [setAll, set, get, List.foldl_map, List.find?_map,
    Function.comp_def, equivalent_iff, OrderedMap.find?_empty, Option.none_or,
    Option.map_map] using hfind

/-- Where at most one element passes, the first that does is the last. -/
theorem find?_reverse {α : Type} {p : α → Bool} {l : List α}
    (hcount : l.countP p ≤ 1) : l.reverse.find? p = l.find? p := by
  rw [← List.head?_filter, ← List.head?_filter, List.filter_reverse]
  rw [List.countP_eq_length_filter] at hcount
  match l.filter p, hcount with
  | [], _ => rfl
  | [_], _ => rfl

/-- Whatever values are set for these keys, the one read for `key` is that of
the most recent call with an equal key, and setting another key leaves it as it
was. -/
def Remembers (Any : Type) (keys : List StringView) (key : StringView) : Prop :=
  ∀ calls : List (StringView × Any), calls.map Prod.fst = keys →
    (setAll calls).get key = latest calls key ∧
    ∀ other value, other.chars ≠ key.chars →
      ((setAll calls).set other value).get key = (setAll calls).get key

theorem remembers_of_once {keys : List StringView} {key : StringView}
    (hkey : cStr key.data = key.chars)
    (honce : (keys.map StringView.chars).count key.chars ≤ 1) :
    Remembers Any keys key := by
  rintro calls rfl
  constructor
  · rw [get_setAll, latest, hkey, find?_reverse]
    rw [List.map_map, List.count, List.countP_map] at honce
    refine le_trans (le_of_eq (List.countP_congr ?_)) honce
    intro call _
    simp
  · intro other value hother
    rw [get_set, hkey, if_neg hother, Option.or_none]

theorem exists_of_latest_eq_some {calls : List (StringView × Any)}
    {key : StringView} {value : Any} (hlatest : latest calls key = some value) :
    ∃ call ∈ calls, call.1.chars = key.chars ∧ call.2 = value := by
  obtain ⟨call, hcall, rfl⟩ := Option.map_eq_some_iff.mp hlatest
  have hkey := List.find?_some hcall
  have hmem := List.mem_of_find?_eq_some hcall
  exact ⟨call, List.mem_reverse.mp hmem, of_decide_eq_true hkey, rfl⟩

/-- Calls that are made of their keys are searched as the keys are. -/
theorem find?_map_key (f : StringView → Any) (chars : List UInt8)
    (keys : List StringView) :
    (keys.map fun k => (k, f k)).find? (fun call => decide (call.1.chars = chars)) =
      (keys.find? fun k => decide (k.chars = chars)).map fun k => (k, f k) :=
  List.find?_map

/-- A lookup that ends elsewhere than its view finds what was set for another
key, or starts to find it when it is set. -/
theorem not_remembers_of_ne [Nontrivial Any] (keys : List StringView)
    {key : StringView} (hkey : cStr key.data ≠ key.chars) :
    ¬ Remembers Any keys key := by
  obtain ⟨a, b, hab⟩ := exists_pair_ne Any
  intro hremembers
  let calls := keys.map fun k => (k, if k.chars = key.chars then a else b)
  obtain ⟨hlatest, hother⟩ := hremembers calls
    (by simp [calls, Function.comp_def])
  by_cases hset : ∃ k ∈ keys, k.chars = cStr key.data
  · obtain ⟨k₀, hk₀, hchars₀⟩ := hset
    obtain ⟨k, _, hk, hfound⟩ := @OrderedMap.exists_find?_eq_some _
      (fun k : StringView => decide (k.chars = cStr key.data)) _ _ hk₀
      (decide_eq_true hchars₀)
    have hchars : k.chars = cStr key.data := of_decide_eq_true hfound
    have hget : (setAll calls).get key = some b := by
      rw [get_setAll]
      simp only [calls, find?_map_key, hk]
      simp [hchars, hkey]
    obtain ⟨call, hcall, hcallKey, hvalue⟩ :=
      exists_of_latest_eq_some (hlatest.symm.trans hget)
    obtain ⟨k', _, rfl⟩ := List.mem_map.mp hcall
    rw [if_pos hcallKey] at hvalue
    exact hab hvalue
  · have hget : (setAll calls).get key = none := by
      rw [get_setAll, Option.map_eq_none_iff, List.find?_eq_none]
      intro call hcall hchars
      obtain ⟨k, hk, rfl⟩ := List.mem_map.mp hcall
      exact hset ⟨k, hk, of_decide_eq_true hchars⟩
    have hset := hother ⟨cStr key.data, []⟩ a hkey
    rw [get_set, hget] at hset
    simp at hset

/-- A key that is set twice comes once more behind its first occurrence. -/
theorem split_of_twice {keys : List StringView} {chars : List UInt8}
    (htwice : 2 ≤ (keys.map StringView.chars).count chars) :
    ∃ before k behind, keys = before ++ k :: behind ∧ k.chars = chars ∧
      (∀ k' ∈ before, k'.chars ≠ chars) ∧ ∃ k' ∈ behind, k'.chars = chars := by
  have hmem := List.count_pos_iff.mp (Nat.lt_of_lt_of_le Nat.zero_lt_two htwice)
  obtain ⟨k₀, hk₀, hchars₀⟩ := List.mem_map.mp hmem
  obtain ⟨k, _, hk, hfound⟩ := @OrderedMap.exists_find?_eq_some _
    (fun k : StringView => decide (k.chars = chars)) _ _ hk₀
    (decide_eq_true hchars₀)
  obtain ⟨_, before, behind, rfl, hbefore⟩ :=
    List.find?_eq_some_iff_append.mp hk
  have hchars : k.chars = chars := of_decide_eq_true hfound
  have hnot : ∀ k' ∈ before, k'.chars ≠ chars := fun k' hk' => by
    simpa using hbefore k' hk'
  have hnone : (before.map StringView.chars).count chars = 0 := by
    rw [List.count_eq_zero]
    intro hmem
    obtain ⟨k', hk', hchars'⟩ := List.mem_map.mp hmem
    exact hnot k' hk' hchars'
  have hpos : 0 < (behind.map StringView.chars).count chars := by
    rw [List.map_append, List.map_cons, List.count_append, hnone, hchars,
      List.count_cons_self] at htwice
    omega
  exact ⟨before, k, behind, rfl, hchars, hnot,
    List.mem_map.mp (List.count_pos_iff.mp hpos)⟩

/-- The first of two values set for a key is the one that stays. -/
theorem not_remembers_of_twice [Nontrivial Any] {keys : List StringView}
    {key : StringView} (hkey : cStr key.data = key.chars)
    (htwice : 2 ≤ (keys.map StringView.chars).count key.chars) :
    ¬ Remembers Any keys key := by
  obtain ⟨a, b, hab⟩ := exists_pair_ne Any
  intro hremembers
  obtain ⟨before, k, behind, rfl, hchars, hbefore, k', hk', hagain⟩ :=
    split_of_twice htwice
  let calls := (before ++ [k]).map (·, a) ++ behind.map (·, b)
  obtain ⟨hlatest, _⟩ := hremembers calls
    (by simp [calls, Function.comp_def])
  have hget : (setAll calls).get key = some a := by
    have hnone : before.find?
        (fun k => decide (k.chars = key.chars)) = none := by
      rw [List.find?_eq_none]
      intro k' hk'
      simpa using hbefore k' hk'
    rw [get_setAll, hkey]
    simp only [calls, List.find?_append, find?_map_key, hnone]
    simp [hchars]
  have hlast : latest calls key = some b := by
    obtain ⟨last, _, hfind, _⟩ := @OrderedMap.exists_find?_eq_some _
      (fun k : StringView => decide (k.chars = key.chars)) behind.reverse k'
      (List.mem_reverse.mpr hk') (decide_eq_true hagain)
    simp only [latest, calls, List.reverse_append, ← List.map_reverse,
      List.find?_append, find?_map_key, hfind]
    simp
  rw [hget, hlast, Option.some.injEq] at hlatest
  exact hab hlatest

/-- The context remembers what was set last exactly for keys that are looked up
to the end of their view and set at most once. -/
theorem remembers_iff [Nontrivial Any] (keys : List StringView)
    (key : StringView) :
    Remembers Any keys key ↔
      cStr key.data = key.chars ∧
        (keys.map StringView.chars).count key.chars ≤ 1 := by
  constructor
  · intro hremembers
    by_cases hkey : cStr key.data = key.chars
    · refine ⟨hkey, ?_⟩
      by_contra htwice
      exact not_remembers_of_twice hkey (by omega) hremembers
    · exact absurd hremembers (not_remembers_of_ne keys hkey)
  · rintro ⟨hkey, honce⟩
    exact remembers_of_once hkey honce

/-- A session that is set once, between two values of another key. -/
theorem remembers_session :
    Remembers Nat
      [.ofString (bytes "user"), .ofString (bytes "session"),
        .ofString (bytes "user")] (.ofString (bytes "session")) :=
  (remembers_iff _ _).mpr (by decide)

/-- The second value for `"id"` is not stored. -/
theorem not_remembers_second :
    ¬ ∀ (calls : List (StringView × Nat)) (key : StringView),
      (setAll calls).get key = latest calls key := by
  intro h
  have hsecond := h [(.ofString (bytes "id"), 1), (.ofString (bytes "id"), 2)]
    (.ofString (bytes "id"))
  revert hsecond
  decide

end TcpContext

end Jerry
