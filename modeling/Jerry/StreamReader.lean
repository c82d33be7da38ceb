/-
Reading words off a stream of which only a front has come: what is read are the
first of the words that were written, and all of them that have come whole.
-/
import Mathlib.Data.List.Infix

universe u v w

/-- A parser for the word at the front of a stream, and what is behind it. -/
structure StreamReader (α : Type u) (β : Type v) where
  parse : List α → Option (β × List α)
  parse_nil : parse [] = none
  parse_append : ∀ {xs rest : List α} {word : β}, parse xs = some (word, rest) →
    ∀ more, parse (xs ++ more) = some (word, rest ++ more)

namespace StreamReader

variable {α : Type u} {β : Type v} {γ : Type w} (reader : StreamReader α β)

/-- At most so many words are read. -/
def readAll : Nat → List α → List β
  | 0, _ => []
  | n + 1, xs =>
      match reader.parse xs with
      | none => []
      | some (word, rest) => word :: readAll n rest

/-- The words are read back, whatever comes behind them. -/
def Reads (encode : γ → List α) (value : γ → β) (m : γ) : Prop :=
  ∀ rest, reader.parse (encode m ++ rest) = some (value m, rest)

variable {reader} {encode : γ → List α} {value : γ → β} {ms : List γ} {xs : List α}

/-- What is read was written. -/
theorem readAll_prefix (hreads : ∀ m ∈ ms, reader.Reads encode value m)
    (hfront : xs <+: ms.flatMap encode) (n : Nat) :
    reader.readAll n xs <+: ms.map value := by
  induction n generalizing xs ms with
  | zero => exact List.nil_prefix
  | succ n ih =>
      rw [readAll]
      cases hparse : reader.parse xs with
      | none => exact List.nil_prefix
      | some r =>
          obtain ⟨word, rest⟩ := r
          obtain ⟨more, hmore⟩ := hfront
          have hwhole := reader.parse_append hparse more
          rw [hmore] at hwhole
          cases ms with
          | nil =>
              rw [List.flatMap_nil, reader.parse_nil] at hwhole
              cases hwhole
          | cons m ms =>
              rw [List.flatMap_cons, hreads m List.mem_cons_self] at hwhole
              obtain ⟨hword, hrest⟩ := Prod.mk.inj (Option.some_inj.mp hwhole)
              rw [List.map_cons, hword, List.cons_prefix_cons]
              exact ⟨rfl, ih (fun m hm => hreads m (List.mem_cons_of_mem _ hm))
                ⟨more, hrest.symm⟩⟩

/-- What has come whole is read. -/
theorem prefix_readAll (hreads : ∀ m ∈ ms, reader.Reads encode value m)
    (hwhole : ms.flatMap encode <+: xs) {n : Nat} (hn : ms.length ≤ n) :
    ms.map value <+: reader.readAll n xs := by
  induction ms generalizing xs n with
  | nil => exact List.nil_prefix
  | cons m ms ih =>
      obtain ⟨more, rfl⟩ := hwhole
      obtain ⟨n, rfl⟩ := Nat.exists_eq_add_one.mpr (Nat.lt_of_lt_of_le (Nat.succ_pos _) hn)
      rw [List.flatMap_cons, List.append_assoc, readAll, hreads m List.mem_cons_self,
        List.map_cons, List.cons_prefix_cons]
      exact ⟨rfl, ih (fun m hm => hreads m (List.mem_cons_of_mem _ hm))
        (List.prefix_append _ _) (Nat.le_of_succ_le_succ hn)⟩

end StreamReader
