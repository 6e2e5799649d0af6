import Mathlib.Data.List.Basic
import Orcm.ErrorCode
import Orcm.PointerArray

/-!
`opal_pointer_array_t` with the fields that it keeps beside its slots. A call is given whether
memory is granted; a call without a result has undefined behaviour.
-/

namespace Orcm.PointerArrayFields

open CLibrary List Option
open PointerArray (Slots put)

variable {Item : Type}

/-- `opal_pointer_array_t`; `addr` is `none` when it is `NULL`. -/
structure Table (Item : Type) where
  lowest_free : Int
  number_free : Int
  size : Int
  max_size : Int
  addr : Option (Slots Item)
  deriving DecidableEq

def Table.slots (table : Table Item) : Slots Item := table.addr.getD []

def opalPointerArrayConstruct : Table Item := ⟨0, 0, 0, intMax, none⟩

def Table.slot (table : Table Item) (index : Int) : Option (Option Item) :=
  if 0 ≤ index then table.slots[index.toNat]? else none

def firstSize (initial_allocation block_size : Int) : Int :=
  if 0 < initial_allocation then initial_allocation else block_size

/-- An array that already has slots loses them. The lowest free slot is left as it was. -/
def opalPointerArrayInit (granted : Bool) (array : Table Item)
    (initial_allocation max_size block_size : Int) :
    Result Unit × Table Item :=
  if max_size < block_size then (Result.fail .badParam, array)
  else
    let size := firstSize initial_allocation block_size
    let array := { array with max_size, number_free := size, size }
    -- a negative number of slots is a huge number of bytes
    if granted = true ∧ 0 ≤ size then
      (.ok (), { array with addr := some (List.replicate size.toNat none) })
    else (Result.fail .outOfResource, { array with addr := none })

def Table.resized (table : Table Item) (new_size : Int) : Table Item :=
  { table with
    number_free := table.number_free + (new_size - table.size)
    size := new_size
    addr := some (table.slots.take new_size.toNat ++ List.replicate
      (new_size - table.size).toNat none) }

def growTable (granted : Bool) (table : Table Item) (soft hard : Int) :
    Option (Bool × Table Item) :=
  let new_size := if table.max_size < soft then hard else soft
  if table.max_size < soft ∧ table.max_size < hard ∨ table.max_size ≤ new_size then
    some (false, table)
  -- `realloc` of the slots to zero bytes may free them
  else if new_size = 0 ∧ table.addr.isSome then none
  else if granted = false ∨ new_size < 0 then some (false, table)
  -- slots that were never allocated are not initialised
  else if (table.slots.length : Int) ≠ table.size then none
  else some (true, table.resized new_size)

def nextFree (slots : Slots Item) (start : Nat) : Option Int :=
  ((slots.drop start).findIdx? Option.isNone).map fun found => ((start + found : Nat) : Int)

def Table.store (table : Table Item) (index : Int) (value : Option Item)
    (lowest_free number_free : Int) : Table Item :=
  { table with lowest_free, number_free, addr := some (table.slots.set index.toNat value) }

def useLowest (table : Table Item) (ptr : Option Item) : Option (Result Int × Table Item) :=
  let index := table.lowest_free
  (table.slot index).map fun _ =>
    let number_free := table.number_free - 1
    let next := nextFree (table.slots.set index.toNat ptr) (index.toNat + 1)
    let lowest_free := if 0 < number_free then next.getD table.lowest_free else table.size
    (.ok index, table.store index ptr lowest_free number_free)

def opalPointerArrayAdd (granted : Bool) (table : Table Item) (ptr : Option Item) :
    Option (Result Int × Table Item) :=
  if table.number_free = 0 then
    let soft := if table.addr.isNone then 1 else table.size * 2
    if intMax < soft then none
    else (growTable granted table soft intMax).bind fun grown =>
      if grown.1 then useLowest grown.2 ptr else some (Result.fail .outOfResource, grown.2)
  else useLowest table ptr

/-- The table is grown for an index behind its end, to an even size. -/
def withIndex {Answer : Type} (granted : Bool) (table : Table Item) (index : Int) (refused : Answer)
    (use : Table Item → Option (Answer × Table Item)) : Option (Answer × Table Item) :=
  if table.size ≤ index then
    let soft := (index.tdiv 2 + 1) * 2
    if intMax < soft then none
    else (growTable granted table soft index).bind fun grown => if grown.1 then use grown.2
      else some (refused, grown.2)
  else use table

def setSlot (table : Table Item) (index : Int) (value : Option Item) :
    Option (Result Unit × Table Item) :=
  (table.slot index).map fun old =>
    let lowest_free :=
      if value.isNone then if index < table.lowest_free then index else table.lowest_free
      else if index = table.lowest_free then
        (nextFree table.slots (index.toNat + 1)).getD table.size
      else table.lowest_free
    let number_free :=
      if value.isNone then if old.isNone then table.number_free else table.number_free + 1
      else if old.isNone then table.number_free - 1 else table.number_free
    (.ok (), table.store index value lowest_free number_free)

def opalPointerArraySetItem (granted : Bool) (table : Table Item) (index : Int)
    (value : Option Item) :
    Option (Result Unit × Table Item) :=
  withIndex granted table index (Result.fail .error) fun table => setSlot table index value

/-- The count goes down whatever the value is, and the search starts at the slot itself. -/
def reserveSlot (table : Table Item) (index : Int) (value : Option Item) :
    Option (Bool × Table Item) :=
  (table.slot index).map fun _ =>
    let next := nextFree (table.slots.set index.toNat value) index.toNat
    let lowest_free := if index = table.lowest_free then next.getD table.size else table.lowest_free
    (true, table.store index value lowest_free (table.number_free - 1))

def opalPointerArrayTestAndSetItem (granted : Bool) (table : Table Item) (index : Int)
    (value : Option Item) :
    Option (Bool × Table Item) :=
  if index < table.size then
    (table.slot index).bind fun old => if old.isNone then reserveSlot table index value
      else some (false, table)
  else withIndex granted table index false fun table => reserveSlot table index value

def opalPointerArraySetSize (granted : Bool) (array : Table Item) (new_size : Int) :
    Option (Result Unit × Table Item) :=
  if array.size < new_size then
    (growTable granted array new_size new_size).map fun grown =>
      (if grown.1 then .ok () else Result.fail .error, grown.2)
  else some (.ok (), array)

/-- `opal_pointer_array_get_item`. -/
def opalPointerArrayGetItem (table : Table Item) (element_index : Int) : Option (Option Item) :=
  if table.size ≤ element_index then some none else table.slot element_index

inductive Call (Item : Type) where
  | init (granted : Bool) (initial_allocation max_size block_size : Int)
  | add (granted : Bool) (ptr : Option Item)
  | setItem (granted : Bool) (index : Int) (value : Option Item)
  | testAndSetItem (granted : Bool) (index : Int) (value : Option Item)
  | setSize (granted : Bool) (new_size : Int)

def perform (table : Table Item) : Call Item → Option (Bool × Table Item)
  | .init granted initial_allocation max_size block_size =>
    let done := opalPointerArrayInit granted table initial_allocation max_size block_size
    some (done.1.toBool, done.2)
  | .add granted ptr =>
    (opalPointerArrayAdd granted table ptr).map fun done => (done.1.toBool, done.2)
  | .setItem granted index value =>
    (opalPointerArraySetItem granted table index value).map fun done => (done.1.toBool, done.2)
  | .testAndSetItem granted index value => opalPointerArrayTestAndSetItem granted table index value
  | .setSize granted new_size =>
    (opalPointerArraySetSize granted table new_size).map fun done => (done.1.toBool, done.2)

/-- All slots below are in use, and the slot itself is free or the end of the array. -/
structure IsLowest (slots : Slots Item) (lowest : Nat) : Prop where
  used : ∀ index < lowest, ∃ item, slots[index]? = some (some item)
  here : slots[lowest]? = some none ∨ lowest = slots.length

/-- The fields say what they should about the slots. -/
structure Table.Valid (table : Table Item) : Prop where
  size : table.size = table.slots.length
  free : table.number_free = table.slots.countP Option.isNone
  lowest : ∃ lowest : Nat, table.lowest_free = lowest ∧ IsLowest table.slots lowest
  bounded : table.size ≤ table.max_size

variable {item : Item}

section Slots

variable {slots : Slots Item} {lowest : Nat}

theorem lowest_le (isLowest : IsLowest slots lowest) : lowest ≤ slots.length := by
  rcases isLowest.here with free | full
  · exact Nat.le_of_lt (List.getElem?_eq_some_iff.mp free).1
  · exact Nat.le_of_eq full

theorem lowest_lt_iff (isLowest : IsLowest slots lowest) :
    lowest < slots.length ↔ 0 < slots.countP isNone := by
  rw [countP_pos_iff]
  constructor
  · intro inside
    rcases isLowest.here with free | full
    · exact ⟨none, mem_of_getElem? free, rfl⟩
    · omega
  · rintro ⟨slot, member, isFree⟩
    by_contra full
    obtain ⟨index, present⟩ := mem_iff_getElem?.mp member
    have inside := (List.getElem?_eq_some_iff.mp present).1
    obtain ⟨item, used⟩ := isLowest.used index (by omega)
    rw [present] at used
    cases used
    cases isFree

theorem nextFree_isLowest (start : Nat) (inside : start ≤ slots.length)
    (used : ∀ index < start, ∃ item, slots[index]? = some (some item)) :
    ∃ lowest : Nat, IsLowest slots lowest ∧
      nextFree slots start = if lowest < slots.length then some (lowest : Int) else none := by
  unfold nextFree
  cases found : (slots.drop start).findIdx? isNone with
  | none =>
    rw [findIdx?_eq_none_iff] at found
    refine ⟨slots.length, ⟨?_, .inr rfl⟩, by simp⟩
    intro index below
    by_cases front : index < start
    · exact used index front
    · have same : start + (index - start) = index := by omega
      have present : (slots.drop start)[index - start]? = some slots[index] := by
        rw [getElem?_drop, same, getElem?_eq_getElem below]
      have occupied := found slots[index] (mem_of_getElem? present)
      rw [getElem?_eq_getElem below]
      cases slot : slots[index] with
      | none => simp [slot] at occupied
      | some item => exact ⟨item, rfl⟩
  | some offset =>
    rw [findIdx?_eq_some_iff_getElem] at found
    obtain ⟨offsetInside, isFree, before⟩ := found
    rw [length_drop] at offsetInside
    have below : start + offset < slots.length := by omega
    refine ⟨start + offset, ⟨?_, .inl ?_⟩, by simp [below]⟩
    · intro index earlier
      by_cases front : index < start
      · exact used index front
      · have occupied := before (index - start) (by omega)
        have same : start + (index - start) = index := by omega
        simp only [getElem_drop, same] at occupied
        rw [getElem?_eq_getElem (by omega)]
        cases slot : slots[index] with
        | none => simp [slot] at occupied
        | some item => exact ⟨item, rfl⟩
    · rw [getElem_drop, isNone_iff_eq_none] at isFree
      rw [getElem?_eq_getElem below, isFree]

theorem nextFree_set {index : Nat} {value : Option Item} :
    nextFree (slots.set index value) (index + 1) = nextFree slots (index + 1) := by
  rw [nextFree, nextFree, drop_set_of_lt (Nat.lt_succ_self index)]

theorem isLowest_grow (isLowest : IsLowest slots lowest) :
    IsLowest (slots ++ List.replicate more none) lowest := by
  constructor
  · intro index below
    obtain ⟨item, used⟩ := isLowest.used index below
    exact ⟨item, by rw [getElem?_append_left (List.getElem?_eq_some_iff.mp used).1, used]⟩
  · rcases isLowest.here with free | full
    · left
      rw [getElem?_append_left (List.getElem?_eq_some_iff.mp free).1, free]
    · cases more with
      | zero => right; simpa using full
      | succ =>
        left
        rw [full]
        simp

theorem isLowest_use {index : Nat} (isLowest : IsLowest slots lowest)
    (different : index ≠ lowest) : IsLowest (slots.set index (some item)) lowest := by
  constructor
  · intro other below
    obtain ⟨old, used⟩ := isLowest.used other below
    have inside := (List.getElem?_eq_some_iff.mp used).1
    by_cases same : index = other
    · subst other
      exact ⟨item, getElem?_set_self inside⟩
    · exact ⟨old, by rw [getElem?_set_ne same, used]⟩
  · rcases isLowest.here with free | full
    · left
      rw [getElem?_set_ne different, free]
    · right
      rw [length_set, full]

theorem isLowest_clear {index : Nat} (isLowest : IsLowest slots lowest)
    (inside : index < slots.length) :
    IsLowest (slots.set index none) (min index lowest) := by
  constructor
  · intro other below
    obtain ⟨item, used⟩ := isLowest.used other (by omega)
    exact ⟨item, by rw [getElem?_set_ne (by omega), used]⟩
  · by_cases before : index ≤ lowest
    · left
      rw [Nat.min_eq_left before, getElem?_set_self inside]
    · rw [Nat.min_eq_right (by omega)]
      rcases isLowest.here with free | full
      · left
        rw [getElem?_set_ne (by omega), free]
      · omega

theorem used_after (item : Item) (isLowest : IsLowest slots lowest)
    (inside : lowest < slots.length) :
    ∀ index < lowest + 1, ∃ stored, (slots.set lowest (some item))[index]? =
      some (some stored) := by
  intro index below
  by_cases same : lowest = index
  · subst index
    exact ⟨item, getElem?_set_self inside⟩
  · obtain ⟨stored, used⟩ := isLowest.used index (by omega)
    exact ⟨stored, by rw [getElem?_set_ne same, used]⟩

theorem isLowest_replicate (size : Nat) :
    IsLowest (List.replicate size (none : Option Item)) lowest ↔ lowest = 0 := by
  constructor
  · intro isLowest
    by_contra positive
    obtain ⟨item, used⟩ := isLowest.used 0 (by omega)
    have := mem_of_getElem? used
    simp at this
  · rintro rfl
    refine ⟨fun index below => absurd below (Nat.not_lt_zero index), ?_⟩
    cases size with
    | zero => exact .inr rfl
    | succ => exact .inl rfl

theorem free_set {index : Nat} (value : Option Item) (present : slots[index]? = some old) :
    ((slots.set index value).countP isNone : Int) =
      slots.countP isNone - (if old.isNone then 1 else 0) + (if value.isNone then 1 else 0) := by
  obtain ⟨inside, same⟩ := List.getElem?_eq_some_iff.mp present
  rw [countP_set inside, same]
  have positive : old.isNone = true → 0 < slots.countP isNone :=
    fun isFree => List.countP_pos_iff.mpr ⟨old, mem_of_getElem? present, isFree⟩
  by_cases oldFree : old.isNone = true
  · have := positive oldFree
    simp only [oldFree, ↓reduceIte]
    split <;> omega
  · simp only [oldFree, Bool.false_eq_true, ↓reduceIte]
    split <;> omega

end Slots

section Operations

variable {table : Table Item} (index : Nat)

theorem slot_eq : table.slot index = table.slots[index]? := by
  simp [Table.slot]

/-- What a call of set does: the item is stored, and every other one stays as it was. -/
structure StoredAt (before after : Table Item) (index : Int) (value : Option Item) : Prop where
  inside : index < after.size
  stored : opalPointerArrayGetItem after index = some value
  others : ∀ other, other ≠ index →
    opalPointerArrayGetItem after other = opalPointerArrayGetItem before other

theorem resized_slots (valid : table.Valid) (larger : table.size ≤ new_size) :
    (table.resized new_size).slots = table.slots ++ List.replicate
      (new_size - table.size).toNat none := by
  have size := valid.size
  simp only [Table.resized, Table.slots, getD_some] at size ⊢
  rw [take_of_length_le (by omega)]

theorem resized_valid (valid : table.Valid) (larger : table.size ≤ new_size)
    (bounded : new_size ≤ table.max_size) : (table.resized new_size).Valid := by
  obtain ⟨lowest, same, isLowest⟩ := valid.lowest
  have size := valid.size
  refine ⟨?_, ?_, ⟨lowest, same, ?_⟩, bounded⟩
  · rw [resized_slots valid larger, length_append, length_replicate]
    change new_size = _
    omega
  · rw [resized_slots valid larger, countP_append, countP_replicate, isNone_none, if_pos rfl]
    have free := valid.free
    change table.number_free + (new_size - table.size) = _
    omega
  · rw [resized_slots valid larger]
    exact isLowest_grow isLowest

theorem getItem_eq (size : table.size = table.slots.length) (index : Int) :
    opalPointerArrayGetItem table index =
      if 0 ≤ index then some table.slots[index.toNat]?.join else none := by
  unfold opalPointerArrayGetItem Table.slot
  split
  · rw [if_pos (by omega), getElem?_eq_none (by omega), join_none]
  · split
    · have inside : index.toNat < table.slots.length := by omega
      rw [getElem?_eq_getElem inside, join_some]
    · rfl

theorem getItem_resized (valid : table.Valid) (larger : table.size ≤ new_size)
    (bounded : new_size ≤ table.max_size) (index : Int) :
    opalPointerArrayGetItem (table.resized new_size) index = opalPointerArrayGetItem
      table index := by
  rw [getItem_eq (resized_valid valid larger bounded).size, getItem_eq valid.size,
    resized_slots valid larger, getElem?_append]
  by_cases inside : index.toNat < table.slots.length
  · rw [if_pos inside]
  · rw [if_neg inside, getElem?_replicate, getElem?_eq_none (Nat.le_of_not_lt inside)]
    congr 2
    split <;> rfl

variable {lowest : Nat}

section

variable (valid : table.Valid)
include valid

theorem store_valid (present : table.slots[index]? = some old)
    (isLowest : IsLowest (table.slots.set index value) lowest)
    (count : number_free = table.number_free - (if old.isNone then 1 else 0) +
      (if value.isNone then 1 else 0)) :
    (table.store index value lowest number_free).Valid := by
  refine ⟨?_, ?_, ⟨lowest, rfl, isLowest⟩, valid.bounded⟩
  · simpa [Table.store, Table.slots] using valid.size
  · have counted := free_set value present
    have free := valid.free
    change number_free = (((table.slots.set index value).countP isNone : Nat) : Int)
    omega

theorem store_storedAt (value : Option Item) (inside : index < table.slots.length) :
    StoredAt table (table.store index value lowest_free number_free) index value := by
  have size := valid.size
  have slots :
      (table.store index value lowest_free number_free).slots = table.slots.set index value := rfl
  have stored_size : (table.store index value lowest_free number_free).size =
      (table.store index value lowest_free number_free).slots.length := by
    rw [slots, length_set, ← size]
    rfl
  constructor
  · change (index : Int) < table.size
    omega
  · rw [getItem_eq stored_size, slots, Int.toNat_natCast, getElem?_set_self inside,
      if_pos (by omega), join_some]
  · intro other different
    rw [getItem_eq stored_size, getItem_eq size, slots]
    split
    · rw [getElem?_set_ne (by omega)]
    · rfl

theorem next_isLowest (start : Nat) (item : Item) (isLowest : IsLowest table.slots lowest)
    (inside : lowest < table.slots.length) (from_lowest : start ≤ lowest + 1) :
    ∃ next : Nat, IsLowest (table.slots.set lowest (some item)) next ∧
      (nextFree (table.slots.set lowest (some item)) start).getD table.size = next ∧
      (next < table.slots.length → nextFree (table.slots.set lowest (some item)) start =
        some (next : Int)) := by
  have used := used_after item isLowest inside
  obtain ⟨next, isNext, found⟩ := nextFree_isLowest start
    (by rw [length_set]; omega) (fun index below => used index (by omega))
  have bound := lowest_le isNext
  have size := valid.size
  rw [length_set] at bound found
  refine ⟨next, isNext, ?_, fun before => by rw [found, if_pos before]⟩
  rw [found]
  split
  · rfl
  · rw [getD_none]
    omega

theorem setSlot_spec (inside : index < table.slots.length) {value : Option Item} :
    ∃ next, setSlot table index value = some (.ok (), next) ∧ next.Valid ∧
      StoredAt table next index value := by
  obtain ⟨lowest, same, isLowest⟩ := valid.lowest
  have present := getElem?_eq_getElem inside
  have old : table.slot index = some table.slots[index] := by rw [slot_eq, present]
  refine ⟨table.store index value _ _, by rw [setSlot, old, map_some], ?_,
    store_storedAt index valid value inside⟩
  cases value with
  | none =>
    simp only [same]
    have minimum : (if (index : Int) < lowest then (index : Int) else lowest) =
        ((min index lowest : Nat) : Int) := by
      split <;> omega
    have count : (if table.slots[index].isNone then table.number_free else table.number_free + 1) =
        table.number_free - (if table.slots[index].isNone then 1 else 0) + 1 := by
          split_ifs <;> omega
    rw [minimum]
    exact store_valid index valid present
      (isLowest_clear isLowest inside) count
  | some item =>
    have count : (if table.slots[index].isNone then table.number_free - 1 else table.number_free) =
        table.number_free - (if table.slots[index].isNone then 1 else 0) + 0 := by
          split_ifs <;> omega
    simp only [same, Int.toNat_natCast, Nat.cast_inj]
    by_cases lowest_used : index = lowest
    · subst index
      obtain ⟨next, isNext, found, _⟩ :=
        next_isLowest valid (lowest + 1) item isLowest inside (Nat.le_refl _)
      rw [nextFree_set] at found
      rw [if_pos rfl, found]
      exact store_valid lowest valid present isNext count
    · rw [if_neg lowest_used]
      exact store_valid index valid present
        (isLowest_use isLowest lowest_used) count

theorem reserveSlot_spec (isFree : table.slots[index]? = some none) :
    ∃ next, reserveSlot table index (some item) = some (true, next) ∧ next.Valid ∧
      StoredAt table next index (some item) := by
  obtain ⟨lowest, same, isLowest⟩ := valid.lowest
  have inside := (List.getElem?_eq_some_iff.mp isFree).1
  have old : table.slot index = some none := by rw [slot_eq, isFree]
  refine ⟨table.store index (some item) _ _, by rw [reserveSlot, old, map_some], ?_,
    store_storedAt index valid _ inside⟩
  have count : table.number_free - 1 = table.number_free - 1 + 0 := by omega
  simp only [same, Int.toNat_natCast, Nat.cast_inj]
  by_cases lowest_used : index = lowest
  · subst index
    obtain ⟨next, isNext, found, _⟩ :=
      next_isLowest valid lowest item isLowest inside (Nat.le_succ _)
    rw [if_pos rfl, found]
    exact store_valid lowest valid isFree isNext count
  · rw [if_neg lowest_used]
    exact store_valid index valid isFree
      (isLowest_use isLowest lowest_used) count

theorem store_nothing_invalid (isFree : table.slots[index]? = some none) :
    ¬ (table.store index none lowest_free (table.number_free - 1)).Valid := by
  intro stored
  have counted := free_set none isFree
  have before := valid.free
  have after := stored.free
  change table.number_free - 1 = (((table.slots.set index none).countP isNone : Nat) : Int) at after
  omega

theorem reserveSlot_nothing (isFree : table.slots[index]? = some none) :
    ∃ next, reserveSlot table index none = some (true, next) ∧ ¬ next.Valid := by
  have old : table.slot index = some none := by rw [slot_eq, isFree]
  exact ⟨_, by rw [reserveSlot, old, map_some], store_nothing_invalid index valid isFree⟩

theorem lowest_isFree (free : table.number_free ≠ 0) (isLowest : IsLowest table.slots lowest) :
    table.slots[lowest]? = some none := by
  have count := valid.free
  have inside := (lowest_lt_iff isLowest).mpr (by omega)
  rcases isLowest.here with isFree | full
  · exact isFree
  · omega

theorem useLowest_spec (free : table.number_free ≠ 0) (item : Item) :
    ∃ next, useLowest table (some item) = some (.ok table.lowest_free, next) ∧ next.Valid ∧
      StoredAt table next table.lowest_free (some item) := by
  obtain ⟨lowest, same, isLowest⟩ := valid.lowest
  have isFree := lowest_isFree valid free isLowest
  have inside := (List.getElem?_eq_some_iff.mp isFree).1
  have old : table.slot lowest = some none := by rw [slot_eq, isFree]
  rw [same]
  refine ⟨table.store lowest (some item) _ _, by rw [useLowest, same, old, map_some], ?_,
    store_storedAt lowest valid _ inside⟩
  obtain ⟨next, isNext, _, found⟩ :=
    next_isLowest valid (lowest + 1) item isLowest inside (Nat.le_refl _)
  have counted := free_set (some item) isFree
  have before := valid.free
  have remaining := lowest_lt_iff isNext
  have bound := lowest_le isNext
  have size := valid.size
  simp only [isNone_some, isNone_none, ↓reduceIte, Bool.false_eq_true] at counted
  rw [length_set] at remaining bound
  have stored : (if 0 < table.number_free - 1 then
      (nextFree (table.slots.set lowest (some item)) (lowest + 1)).getD lowest else table.size) =
        next := by
    split
    · rw [found (by omega), getD_some]
    · omega
  simp only [Int.toNat_natCast, stored]
  exact store_valid lowest valid isFree isNext (by simp)

theorem useLowest_nothing (free : table.number_free ≠ 0) :
    ∃ next, useLowest table none = some (.ok table.lowest_free, next) ∧ ¬ next.Valid := by
  obtain ⟨lowest, same, isLowest⟩ := valid.lowest
  have isFree := lowest_isFree valid free isLowest
  have old : table.slot lowest = some none := by rw [slot_eq, isFree]
  exact ⟨_, by rw [useLowest, same, old, map_some], store_nothing_invalid lowest valid isFree⟩

end

theorem put_eq {slots : Slots Item} (isLowest : IsLowest slots lowest) :
    put item slots = if lowest < slots.length then some (slots.set lowest (some item))
      else none := by
  induction slots generalizing lowest with
  | nil => rfl
  | cons first rest ih =>
    cases first with
    | none =>
      obtain rfl : lowest = 0 := by
        by_contra positive
        obtain ⟨other, used⟩ := isLowest.used 0 (by omega)
        cases used
      simp [put]
    | some =>
      cases lowest with
      | zero =>
        rcases isLowest.here with free | full
        · cases free
        · cases full
      | succ lowest =>
        have below : IsLowest rest lowest :=
          ⟨fun index before => isLowest.used (index + 1) (by omega),
            isLowest.here.imp id fun full => by simpa using full⟩
        rw [put, ih below]
        simp only [length_cons, Nat.add_lt_add_iff_right]
        split <;> rfl

theorem useLowest_slots (valid : table.Valid) (free : table.number_free ≠ 0) :
    (useLowest table (some item)).map (fun done => done.2.slots) = put item table.slots := by
  obtain ⟨lowest, same, isLowest⟩ := valid.lowest
  have isFree := lowest_isFree valid free isLowest
  rw [put_eq isLowest, if_pos (List.getElem?_eq_some_iff.mp isFree).1, useLowest, same,
    slot_eq, isFree]
  rfl

end Operations

end Orcm.PointerArrayFields
