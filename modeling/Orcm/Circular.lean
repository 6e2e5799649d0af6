import Mathlib.Data.Nat.ModEq

/-!
A queue in the cells of a circular array: the oldest element lies at a start position, the others
behind it, and every other cell is empty.
-/

namespace Orcm.Circular

open List

variable {Value : Type}

def position (size start i : Nat) : Nat := (start + i) % size

variable (start : Nat) {i size : Nat}

theorem position_lt (some_cell : 0 < size) (i : Nat) : position size start i < size :=
  Nat.mod_lt _ some_cell

variable {start}

theorem position_injective (first : i < size) (second : j < size)
    (same : position size start i = position size start j) : i = j := by
  have equal : i % size = j % size := Nat.ModEq.add_left_cancel' start same
  rwa [Nat.mod_eq_of_lt first, Nat.mod_eq_of_lt second] at equal

theorem position_succ (size i : Nat) :
    position size (start + 1) i = position size start (i + 1) := by
  rw [position, position, Nat.add_assoc, Nat.add_comm 1 i]

theorem position_eq {size : Nat} (inside : i < size) :
    position size start i = if size ≤ start % size + i then start % size + i - size
      else start % size + i := by
  have first := Nat.mod_lt start (by omega : 0 < size)
  have split : position size start i = (start % size + i) % size := by
    rw [position, Nat.mod_add_mod]
  rw [split]
  generalize start % size = place at first
  by_cases wraps : size ≤ place + i
  · rw [if_pos wraps, Nat.mod_eq_sub_mod wraps, Nat.mod_eq_of_lt (by omega)]
  · rw [if_neg wraps, Nat.mod_eq_of_lt (by omega)]

variable (start)

theorem position_size (size : Nat) : position size start size = position size start 0 :=
  Nat.add_mod_right ..

structure Holds (cells : List (Option Value)) (start : Nat) (queue : List Value) : Prop where
  fits : queue.length ≤ cells.length
  cell : ∀ i < cells.length, cells[position cells.length start i]? = some queue[i]?

theorem holds_empty {size : Nat} : Holds (List.replicate size (none : Option Value)) start [] where
  fits := by simp
  cell i inside := by
    rw [length_replicate] at inside ⊢
    rw [getElem?_replicate, if_pos (position_lt start (by omega) i)]
    simp

section Changes

variable {cells : List (Option Value)} {start : Nat} {queue : List Value}

theorem getElem?_set_position (i j : Nat) (first : i < cells.length) (second : j < cells.length)
    (value : Option Value) :
    (cells.set (position cells.length start i) value)[position cells.length start j]? =
      if i = j then some value else cells[position cells.length start j]? := by
  have inside := position_lt start (by omega : 0 < cells.length) i
  by_cases same : i = j
  · subst same
    rw [if_pos rfl, getElem?_set_self inside]
  · rw [if_neg same, getElem?_set_ne fun equal => same (position_injective first second equal)]

theorem Holds.append (holds : Holds cells start queue) (space : queue.length < cells.length)
    (value : Value) :
    Holds (cells.set (position cells.length start queue.length) (some value)) start
      (queue ++ [value]) where
  fits := by
    rw [length_append, length_singleton, length_set]
    omega
  cell i inside := by
    rw [length_set] at inside ⊢
    rw [getElem?_set_position queue.length i space inside, holds.cell i inside]
    by_cases last : queue.length = i
    · rw [if_pos last, ← last, getElem?_concat_length]
    · rw [if_neg last]
      by_cases before : i < queue.length
      · rw [getElem?_append_left before]
      · rw [getElem?_eq_none (by omega), getElem?_eq_none (by rw [length_append]; simp; omega)]

theorem Holds.shift (holds : Holds cells start (first :: rest)) {value : Option Value}
    (inside : i < cells.length) :
    (cells.set (position cells.length start 0) value)[position cells.length (start + 1) i]? =
      if i + 1 = cells.length then some value else some rest[i]? := by
  rw [position_succ]
  by_cases last : i + 1 = cells.length
  · rw [if_pos last, last, position_size, getElem?_set_position 0 0 (by omega) (by omega),
      if_pos rfl]
  · rw [if_neg last, getElem?_set_position 0 (i + 1) (by omega) (by omega), if_neg (by omega),
      holds.cell (i + 1) (by omega), getElem?_cons_succ]

theorem Holds.remove (holds : Holds cells start (first :: rest)) :
    Holds (cells.set (position cells.length start 0) none) (start + 1) rest where
  fits := by
    have := holds.fits
    rw [length_cons] at this
    rw [length_set]
    omega
  cell i inside := by
    have fits := holds.fits
    rw [length_cons] at fits
    rw [length_set] at inside ⊢
    rw [holds.shift inside]
    by_cases last : i + 1 = cells.length
    · rw [if_pos last, getElem?_eq_none (by omega)]
    · rw [if_neg last]

theorem Holds.replace (holds : Holds cells start (first :: rest))
    (full : cells.length = rest.length + 1) (value : Value) :
    Holds (cells.set (position cells.length start 0) (some value)) (start + 1)
      (rest ++ [value]) where
  fits := by
    rw [length_append, length_singleton, length_set]
    omega
  cell i inside := by
    rw [length_set] at inside ⊢
    rw [holds.shift inside]
    by_cases last : i = rest.length
    · rw [if_pos (by omega), last, getElem?_concat_length]
    · rw [if_neg (by omega), getElem?_append_left (by omega)]

theorem Holds.newest (holds : Holds cells start queue) (some_element : queue ≠ []) :
    cells[position cells.length start (queue.length - 1)]? = some queue.getLast? := by
  have positive := List.length_pos_iff.mpr some_element
  have fits := holds.fits
  rw [holds.cell _ (by omega), getLast?_eq_getElem?]

end Changes

end Orcm.Circular
