import Mathlib.Data.List.ReduceOption
import Mathlib.Data.Nat.Prime.Basic

/-!
Arrays of pointers with free slots, `opal/class/opal_pointer_array.c`. A free slot is a `NULL`
pointer. An array without one is doubled, which is undefined when the new size does not fit an
`int`.
-/

namespace Orcm.PointerArray

open List

abbrev Slots (Item : Type) := List (Option Item)

variable {Item : Type}

def opalPointerArrayInit (initial_allocation : Nat) : Slots Item :=
  List.replicate initial_allocation none

def put (item : Item) : Slots Item → Option (Slots Item)
  | [] => none
  | none :: rest => some (some item :: rest)
  | some other :: rest => (put item rest).map (some other :: ·)

def growTable (table : Slots Item) : Option (Slots Item) :=
  if table.length * 2 < 2147483648 then some (table ++ List.replicate table.length none) else none

def opalPointerArrayAdd (table : Slots Item) (item : Item) : Option (Slots Item) :=
  match put item table with
  | some added => some added
  | none => (growTable table).bind (put item)

/-- The array holds these items in this order, and behind them free slots; its size divides the
largest one. -/
structure Holds (items : List Item) (table : Slots Item) : Prop where
  slots : ∃ free, table = items.map some ++ List.replicate free none
  size : table.length ∣ 2 ^ 30

variable (items : List Item)

theorem put_full : put item (items.map some) = none := by
  induction items with
  | nil => rfl
  | cons first rest ih => simp [put, ih]

variable {items}

theorem put_free :
    put item (items.map some ++ List.replicate (free + 1) none) =
      some ((items ++ [item]).map some ++ List.replicate free none) := by
  induction items with
  | nil => rfl
  | cons first rest ih =>
    rw [map_cons, cons_append, put, ih]
    rfl

theorem double_dvd (divides : size ∣ 2 ^ 30) (small : size < 2 ^ 30) : size * 2 ∣ 2 ^ 30 := by
  obtain ⟨exponent, bound, rfl⟩ := (Nat.dvd_prime_pow Nat.prime_two).mp divides
  have below : exponent < 30 := (Nat.pow_lt_pow_iff_right (by decide)).mp small
  exact pow_dvd_pow 2 below

theorem init_holds (divides : size ∣ 2 ^ 30) : Holds [] (opalPointerArrayInit size : Slots Item) :=
  ⟨⟨size, rfl⟩, by rwa [opalPointerArrayInit, length_replicate]⟩

theorem add_holds {items : List Item} (item : Item) (holds : Holds items table)
    (small : items.length < 2 ^ 30) :
    ∃ added, opalPointerArrayAdd table item = some added ∧ Holds (items ++ [item]) added := by
  obtain ⟨⟨free, rfl⟩, size⟩ := holds
  cases free with
  | succ free =>
    refine ⟨_, by rw [opalPointerArrayAdd, put_free], ⟨free, rfl⟩, ?_⟩
    convert size using 1
    simp only [length_append, length_map, length_replicate, length_singleton]
    omega
  | zero =>
    rw [replicate_zero, append_nil, length_map] at size
    have positive : 0 < items.length := Nat.pos_of_dvd_of_pos size (by decide)
    obtain ⟨free, count⟩ := Nat.exists_eq_succ_of_ne_zero positive.ne'
    refine ⟨(items ++ [item]).map some ++ List.replicate free none, ?_, ⟨free, rfl⟩, ?_⟩
    · rw [replicate_zero, append_nil, opalPointerArrayAdd, put_full, growTable, length_map,
        if_pos (by omega), count, Option.bind_some]
      exact put_free
    · have doubled := double_dvd size small
      convert doubled using 1
      simp only [length_append, length_map, length_replicate, length_singleton]
      omega

theorem addAll_holds (holds : Holds before table) (small : before.length + items.length ≤ 2 ^ 30) :
    ∃ added, items.foldlM opalPointerArrayAdd table = some added ∧
      Holds (before ++ items) added := by
  induction items generalizing before table with
  | nil => exact ⟨table, rfl, by rwa [append_nil]⟩
  | cons item rest ih =>
    rw [length_cons] at small
    obtain ⟨next, added, nextHolds⟩ := add_holds item holds (by omega)
    obtain ⟨final, run, finalHolds⟩ := ih nextHolds (by
      rw [length_append, length_singleton]; omega)
    refine ⟨final, ?_, by rwa [append_assoc] at finalHolds⟩
    rw [foldlM_cons, added]
    exact run

theorem add_small {items : List Item} (holds : Holds items table)
    (adds : opalPointerArrayAdd table item = some added) : items.length < 2 ^ 30 := by
  by_contra large
  obtain ⟨⟨free, rfl⟩, size⟩ := holds
  have bound := Nat.le_of_dvd (by decide) size
  rw [length_append, length_map, length_replicate] at bound
  obtain rfl : free = 0 := by omega
  rw [replicate_zero, append_nil, opalPointerArrayAdd, put_full, growTable, length_map,
    if_neg (by omega)] at adds
  cases adds

theorem addAll_small (holds : Holds before table) (bounded : before.length ≤ 2 ^ 30)
    (adds : items.foldlM opalPointerArrayAdd table = some added) :
    before.length + items.length ≤ 2 ^ 30 := by
  induction items generalizing before table with
  | nil => exact bounded
  | cons item rest ih =>
    obtain ⟨next, first, others⟩ := Option.bind_eq_some_iff.mp adds
    have small := add_small holds first
    obtain ⟨same, again, nextHolds⟩ := add_holds item holds small
    obtain rfl : next = same := Option.some.inj (first.symm.trans again)
    have total := ih nextHolds (by rw [length_append, length_singleton]; omega) others
    rw [length_append, length_singleton] at total
    rw [length_cons]
    omega

theorem holds_reduceOption {items : List Item} (holds : Holds items table) :
    table.reduceOption = items := by
  obtain ⟨free, rfl⟩ := holds.slots
  simp [List.reduceOption]

end Orcm.PointerArray
