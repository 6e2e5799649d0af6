import Orcm.CLibrary
import Orcm.Circular

/-!
Ring buffers, `opal/class/opal_ring_buffer.c`. A `NULL` pointer in the array is an empty cell. A
call without a result has undefined behaviour: an access outside the array, or a sum of two indices
that an `int` cannot hold. The lock and the failure of the allocation are left out.
-/

namespace Orcm.RingBuffer

open CLibrary Circular List Option

variable {Item : Type}

structure Ring (Item : Type) where
  head : Int
  tail : Int
  size : Int
  addr : List (Option Item)
  deriving Repr

def opalRingBufferInit (size : Nat) : Ring Item := ⟨0, -1, size, List.replicate size none⟩

def Ring.load (ring : Ring Item) (index : Int) : Option (Option Item) :=
  if 0 ≤ index then ring.addr[index.toNat]? else none

def Ring.store (ring : Ring Item) (index : Int) (value : Option Item) :
    Option (List (Option Item)) :=
  if 0 ≤ index ∧ index < ring.addr.length then some (ring.addr.set index.toNat value) else none

def Ring.next (ring : Ring Item) (index : Int) : Int :=
  if index = ring.size - 1 then 0 else index + 1

def Ring.pushedTail (ring : Ring Item) (p : Option Item) : Int :=
  let tail := if p.isSome then if ring.tail = ring.size - 1 then 0 else ring.head + 1 else ring.tail
  if tail < 0 then ring.head else tail

def opalRingBufferPush (ring : Ring Item) (ptr : Item) : Option (Option Item × Ring Item) :=
  (ring.load ring.head).bind fun p => (ring.store ring.head (some ptr)).map fun addr =>
    (p, { ring with addr, tail := ring.pushedTail p, head := ring.next ring.head })

def opalRingBufferPop (ring : Ring Item) : Option (Option Item × Ring Item) :=
  if ring.tail = -1 then some (none, ring)
  else (ring.load ring.tail).bind fun p => (ring.store ring.tail none).map fun addr =>
    let tail := ring.next ring.tail
    (p, { ring with addr, tail := if tail = ring.head then -1 else tail })

def opalRingBufferPoke (ring : Ring Item) (i : Int) : Option (Option Item) :=
  if ring.size ≤ i ∨ ring.tail = -1 then some none
  else if i < 0 then ring.load (if ring.head = 0 then ring.size - 1 else ring.head - 1)
  else if intMax < ring.tail + i then none
  else
    let offset := ring.tail + i
    ring.load (if ring.size ≤ offset then offset - ring.size else offset)

inductive Call (Item : Type) where
  | push (ptr : Item)
  | pop
  | poke (i : Int)
  deriving Repr

def Ring.perform (ring : Ring Item) : Call Item → Option (Option Item × Ring Item)
  | .push ptr => opalRingBufferPush ring ptr
  | .pop => opalRingBufferPop ring
  | .poke i => (opalRingBufferPoke ring i).map fun p => (p, ring)

def Ring.run (ring : Ring Item) : List (Call Item) → Option (List (Option Item))
  | [] => some []
  | call :: calls => (ring.perform call).bind fun done => (done.2.run calls).map (done.1 :: ·)

/-- The elements, oldest first, and how many have been taken out so far. -/
structure Queue (Item : Type) where
  removed : Nat
  items : List Item
  deriving Repr

/-- The queue of at most `size` elements. -/
def Queue.perform (size : Nat) (queue : Queue Item) : Call Item → Option Item × Queue Item
  | .push ptr =>
    if queue.items.length < size then (none, { queue with items := queue.items ++ [ptr] })
    else (queue.items.head?, ⟨queue.removed + 1, queue.items.tail ++ [ptr]⟩)
  | .pop =>
    match queue.items with
    | [] => (none, queue)
    | first :: rest => (some first, ⟨queue.removed + 1, rest⟩)
  | .poke i => (if i < 0 then queue.items.getLast? else queue.items[i.toNat]?, queue)

def Queue.run (size : Nat) (queue : Queue Item) : List (Call Item) → List (Option Item)
  | [] => []
  | call :: calls => (queue.perform size call).1 :: (queue.perform size call).2.run size calls

/-- A ring without cells takes nothing; the place of the element that is asked for is computed in an
`int`. -/
def Queue.Meets (size : Nat) (queue : Queue Item) : Call Item → Prop
  | .push _ => 0 < size
  | .pop => True
  | .poke i => 0 ≤ i → i < size → queue.items ≠ [] → (queue.removed % size : Nat) + i ≤ intMax

def Queue.AllMeet (size : Nat) (queue : Queue Item) : List (Call Item) → Prop
  | [] => True
  | call :: calls => queue.Meets size call ∧ (queue.perform size call).2.AllMeet size calls

structure Represents (ring : Ring Item) (size : Nat) (queue : Queue Item) : Prop where
  sized : ring.size = size
  cells : ring.addr.length = size
  head : ring.head = position size queue.removed queue.items.length
  tail : ring.tail = if queue.items = [] then -1 else (position size queue.removed 0 : Int)
  holds : Holds ring.addr queue.removed queue.items

theorem init_represents {size : Nat} :
    Represents (opalRingBufferInit size : Ring Item) size ⟨0, []⟩ where
  sized := rfl
  cells := length_replicate ..
  head := by simp [opalRingBufferInit, position]
  tail := rfl
  holds := holds_empty 0

section Steps

variable {ring : Ring Item} {size : Nat} {queue : Queue Item} (rep : Represents ring size queue)
include rep

theorem next_position (some_cell : 0 < size) (start i : Nat) :
    ring.next (position size start i) = position size start (i + 1) := by
  have inside := position_lt start some_cell i
  have step : position size start (i + 1) = (position size start i + 1) % size := by
    rw [position, position, Nat.mod_add_mod, Nat.add_assoc]
  rw [Ring.next, rep.sized, step]
  by_cases last : position size start i + 1 = size
  · rw [if_pos (by omega), last, Nat.mod_self]
    rfl
  · rw [if_neg (by omega), Nat.mod_eq_of_lt (by omega)]
    rfl

theorem load_position (i : Nat) (inside : i < size) :
    ring.load (position size queue.removed i) = some queue.items[i]? := by
  have cell := rep.holds.cell i (by rw [rep.cells]; exact inside)
  rw [rep.cells] at cell
  rw [Ring.load, if_pos (by omega), Int.toNat_natCast, cell]

theorem store_position (some_cell : 0 < size) (i : Nat) (value : Option Item) :
    ring.store (position size queue.removed i) value =
      some (ring.addr.set (position ring.addr.length queue.removed i) value) := by
  have inside := position_lt queue.removed some_cell i
  rw [Ring.store, if_pos (by rw [rep.cells]; omega), Int.toNat_natCast, rep.cells]

theorem push_space (space : queue.items.length < size) (ptr : Item) :
    ∃ next, opalRingBufferPush ring ptr = some (none, next) ∧
      Represents next size { queue with items := queue.items ++ [ptr] } := by
  have some_cell : 0 < size := by omega
  have empty : queue.items[queue.items.length]? = none := getElem?_eq_none (le_refl _)
  have append := rep.holds.append (by rw [rep.cells]; exact space) ptr
  -- the first element is its own tail
  have tail : ring.pushedTail none = position size queue.removed 0 := by
    simp only [Ring.pushedTail, isSome_none, Bool.false_eq_true, if_false, rep.tail, rep.head]
    by_cases none_queued : queue.items = []
    · rw [if_pos none_queued, if_pos (by omega), none_queued]
      rfl
    · rw [if_neg none_queued, if_neg (by omega)]
  rw [opalRingBufferPush, rep.head, load_position rep _ space, bind_some, empty,
    store_position rep some_cell, tail]
  refine ⟨_, rfl, rep.sized, ?_, ?_, ?_, append⟩
  · simpa using rep.cells
  · rw [length_append, length_singleton]
    exact next_position rep some_cell _ _
  · simp

theorem push_full (full : queue.items = first :: rest) (length : rest.length + 1 = size)
    {ptr : Item} :
    ∃ next, opalRingBufferPush ring ptr = some (some first, next) ∧
      Represents next size ⟨queue.removed + 1, rest ++ [ptr]⟩ := by
  have some_cell : 0 < size := by omega
  have around : position size queue.removed queue.items.length = position size queue.removed 0 := by
    rw [full, length_cons, length, position_size]
  have holds := rep.holds
  rw [full] at holds
  have replace := holds.replace (by rw [rep.cells, length]) ptr
  have next := next_position rep some_cell queue.removed 0
  -- head and tail are in one place
  have tail : ring.pushedTail (some first) = position size queue.removed (0 + 1) := by
    have same : ring.tail = ring.head := by rw [rep.tail, if_neg (by simp [full]), rep.head, around]
    have moved : (if ring.head = ring.size - 1 then 0 else ring.head + 1) =
        (position size queue.removed (0 + 1) : Int) := by
      rw [← next, rep.head, around]
      rfl
    simp only [Ring.pushedTail, isSome_some, if_true, same, moved]
    rw [if_neg (by omega)]
  rw [opalRingBufferPush, rep.head, around, load_position rep 0 some_cell, bind_some, full,
    store_position rep some_cell, getElem?_cons_zero, tail]
  refine ⟨_, rfl, rep.sized, ?_, ?_, ?_, replace⟩
  · simpa using rep.cells
  · rw [length_append, length_singleton, length, position_size, position_succ]
    exact next
  · rw [if_neg (by simp), position_succ]

theorem pop_some (queued : queue.items = first :: rest) :
    ∃ next, opalRingBufferPop ring = some (some first, next) ∧
      Represents next size ⟨queue.removed + 1, rest⟩ := by
  have fits := rep.holds.fits
  rw [rep.cells, queued, length_cons] at fits
  have some_cell : 0 < size := by omega
  have holds := rep.holds
  rw [queued] at holds
  have tail : ring.tail = position size queue.removed 0 := by
    rw [rep.tail, if_neg (by simp [queued])]
  have next := next_position rep some_cell queue.removed 0
  rw [opalRingBufferPop, tail, if_neg (by omega), load_position rep 0 some_cell, bind_some, queued,
    store_position rep some_cell]
  refine ⟨_, rfl, rep.sized, ?_, ?_, ?_, holds.remove⟩
  · simpa using rep.cells
  · rw [position_succ]
    change ring.head = _
    rw [rep.head, queued, length_cons]
  · change (if ring.next _ = ring.head then (-1 : Int) else ring.next _) = _
    rw [next, rep.head, queued, length_cons, position_succ]
    -- the next cell is the one to be written exactly when the queue is empty
    by_cases none_left : rest = []
    · rw [if_pos none_left, none_left, length_nil, if_pos rfl]
    · rw [if_neg none_left, if_neg]
      intro same
      have positive := List.length_pos_iff.mpr none_left
      by_cases whole : rest.length + 1 = size
      · rw [whole, position_size] at same
        have := position_injective (by omega) some_cell (Int.ofNat_inj.mp same)
        omega
      · have := position_injective (by omega) (by omega) (Int.ofNat_inj.mp same)
        omega

theorem poke_meets (meets : queue.Meets size (.poke i)) :
    opalRingBufferPoke ring i = some (if i < 0 then queue.items.getLast?
      else queue.items[i.toNat]?) := by
  have fits := rep.holds.fits
  rw [rep.cells] at fits
  rw [opalRingBufferPoke, rep.sized]
  by_cases none_queued : queue.items = []
  · rw [if_pos (.inr (by rw [rep.tail, if_pos none_queued])), none_queued]
    simp
  · have positive := List.length_pos_iff.mpr none_queued
    have some_cell : 0 < size := by omega
    have tail : ring.tail = position size queue.removed 0 := by rw [rep.tail, if_neg none_queued]
    by_cases large : (size : Int) ≤ i
    · rw [if_pos (.inl large), if_neg (by omega), getElem?_eq_none (by omega)]
    · rw [if_neg (by rw [tail]; omega)]
      by_cases newest : i < 0
      · rw [if_pos newest, if_pos newest]
        have before : (if ring.head = 0 then (size : Int) - 1 else ring.head - 1) =
            position size queue.removed (queue.items.length - 1) := by
          have next := next_position rep some_cell queue.removed (queue.items.length - 1)
          rw [Nat.sub_add_cancel positive, ← rep.head, Ring.next, rep.sized] at next
          split at next
          · rw [if_pos next.symm]
            omega
          · rw [if_neg (by omega)]
            omega
        have cell := rep.holds.newest none_queued
        rw [rep.cells] at cell
        rw [before, Ring.load, if_pos (by omega), Int.toNat_natCast, cell]
      · obtain ⟨k, rfl⟩ : ∃ k : Nat, i = k := ⟨i.toNat, by omega⟩
        have start : position size queue.removed 0 = queue.removed % size := rfl
        have sum := meets (by omega) (by omega) none_queued
        have place :
            (if (size : Int) ≤ ring.tail + k then ring.tail + k - size else ring.tail + k) =
            position size queue.removed k := by
          rw [position_eq (by omega)]
          split <;> split <;> omega
        rw [if_neg newest, if_neg (by rw [tail, start]; omega), if_neg newest]
        change ring.load (if _ then _ else _) = _
        rw [place, load_position rep k (by omega), Int.toNat_natCast]

theorem perform_meets (meets : queue.Meets size call) :
    ∃ next, ring.perform call = some ((queue.perform size call).1, next) ∧
      Represents next size (queue.perform size call).2 := by
  cases call with
  | push ptr =>
    rw [Queue.perform]
    by_cases space : queue.items.length < size
    · rw [if_pos space]
      exact push_space rep space ptr
    · rw [if_neg space]
      have fits := rep.holds.fits
      have some_cell : 0 < size := meets
      rw [rep.cells] at fits
      cases queued : queue.items with
      | nil =>
        rw [queued, length_nil] at space
        omega
      | cons =>
        rw [queued, length_cons] at fits space
        exact push_full rep queued (by omega)
  | pop =>
    rw [Ring.perform, Queue.perform]
    cases queued : queue.items with
    | nil =>
      rw [opalRingBufferPop, if_pos (by rw [rep.tail, if_pos queued])]
      exact ⟨ring, rfl, rep⟩
    | cons => exact pop_some rep queued
  | poke =>
    rw [Ring.perform, poke_meets rep meets]
    exact ⟨ring, rfl, rep⟩

theorem perform_fails (fails : ¬ queue.Meets size call) :
    ring.perform call = none := by
  cases call with
  | push =>
    have none_there : ring.addr = [] :=
      List.length_eq_zero_iff.mp (by rw [rep.cells]; exact Nat.eq_zero_of_not_pos fails)
    rw [Ring.perform, opalRingBufferPush, Ring.load, none_there]
    simp
  | pop => exact absurd trivial fails
  | poke =>
    simp only [Queue.Meets, not_forall, not_le] at fails
    obtain ⟨low, high, queued, large⟩ := fails
    have tail : ring.tail = (queue.removed % size : Nat) := by
      rw [rep.tail, if_neg queued]
      rfl
    rw [Ring.perform, opalRingBufferPoke, rep.sized, tail, if_neg (by omega), if_neg (by omega),
      if_pos large]
    rfl

end Steps

theorem run_iff (rep : Represents ring size queue) (calls : List (Call Item)) :
    ring.run calls = some (queue.run size calls) ↔ queue.AllMeet size calls := by
  induction calls generalizing ring queue with
  | nil => exact iff_of_true rfl trivial
  | cons call calls ih =>
    rw [Ring.run, Queue.run, Queue.AllMeet]
    by_cases meets : queue.Meets size call
    · obtain ⟨next, performs, after⟩ := perform_meets rep meets
      rw [performs, ← ih after]
      simp [meets]
    · rw [perform_fails rep meets]
      simp [meets]

/-- A ring of every size answers every sequence of calls as a queue of at most that many elements,
which drops its oldest one when it is full, exactly when every call meets its condition. -/
theorem ring_is_queue (size : Nat) (calls : List (Call Item)) :
    (opalRingBufferInit size : Ring Item).run calls = some ((⟨0, []⟩ : Queue Item).run size calls) ↔
      (⟨0, []⟩ : Queue Item).AllMeet size calls :=
  run_iff init_represents calls

def passThrough (item : Item) : Nat → List (Call Item) → List (Call Item)
  | 0, calls => calls
  | count + 1, calls => .push item :: .pop :: passThrough item count calls

theorem allMeet_passThrough {size : Nat} (some_cell : 0 < size) (item : Item) (count removed : Nat)
    (calls : List (Call Item)) :
    (⟨removed, []⟩ : Queue Item).AllMeet size (passThrough item count calls) ↔
      (⟨removed + count, []⟩ : Queue Item).AllMeet size calls := by
  induction count generalizing removed with
  | zero => rfl
  | succ count ih =>
    have push :
        (⟨removed, []⟩ : Queue Item).perform size (.push item) = (none, ⟨removed, [item]⟩) := by
      simp [Queue.perform, some_cell]
    rw [passThrough, Queue.AllMeet, push, Queue.AllMeet,
      Nat.add_comm count 1, ← Nat.add_assoc, ← ih]
    simp only [Queue.Meets, some_cell, true_and]
    rfl

/-- A ring without cells writes outside its array. In the largest ring, with the oldest element far
behind the front, the place of a later element leaves the range of an `int`. -/
theorem ring_goes_wrong :
    (opalRingBufferInit 0 : Ring Nat).run [.push 7] ≠ some ((⟨0, []⟩ : Queue Nat).run 0 [.push 7]) ∧
    (opalRingBufferInit 2147483647 : Ring Nat).run
      (passThrough 7 1073741824 [.push 8, .poke 1073741824]) ≠
      some ((⟨0, []⟩ : Queue Nat).run 2147483647
        (passThrough 7 1073741824 [.push 8, .poke 1073741824])) := by
  constructor
  · decide
  · intro same
    rw [run_iff init_represents, allMeet_passThrough (by decide)] at same
    have large := same.2.1 (by decide) (by decide) (by decide)
    revert large
    decide

end Orcm.RingBuffer
