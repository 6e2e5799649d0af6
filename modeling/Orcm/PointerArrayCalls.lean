import Orcm.PointerArrayFields

/-!
Sequences of calls on a pointer array. An array that grows for an index is given the next even size;
where only the index itself is below the maximum, it is given the index as its size, and the slot
that is then written lies behind the array.
-/

namespace Orcm.PointerArrayCalls

open CLibrary PointerArrayFields Option
open PointerArray (put)

variable {Item : Type}

section Operations

variable {table : Table Item} {granted : Bool} {soft index new_size hard : Int}

theorem growTable_room (valid : table.Valid) (larger : table.size < soft)
    (room : soft < table.max_size) :
    growTable granted table soft hard = some (if granted then (true, table.resized soft)
      else (false, table)) := by
  have size := valid.size
  have below : ¬ table.max_size < soft := by omega
  have positive : soft ≠ 0 := by omega
  cases granted with
  | false => simp [growTable, below, positive]
  | true =>
    have nonnegative : ¬ soft < 0 := by omega
    simp [growTable, below, positive, room, nonnegative, size]

theorem growTable_full (full : table.max_size ≤ soft)
    (refused : table.max_size < soft → table.max_size ≤ hard) :
    growTable granted table soft hard = some (false, table) := by
  unfold growTable
  by_cases above : table.max_size < soft
  · have := refused above
    rw [if_pos (by omega)]
  · rw [if_neg above, if_pos (by omega)]

theorem growTable_clipped (valid : table.Valid) {index : Int} (nonnegative : 0 ≤ index)
    (above : table.max_size < soft) (room : index < table.max_size) :
    growTable granted table soft index =
      if index = 0 ∧ table.addr.isSome then none
      else some (if granted then (true, table.resized index) else (false, table)) := by
  have size := valid.size
  have below : ¬ table.max_size < index := by omega
  have within : ¬ table.max_size ≤ index := by omega
  have signed : ¬ index < 0 := by omega
  cases granted <;> simp [growTable, above, below, within, signed, size]

variable (granted) (table)

def Grows (granted : Bool) (table : Table Item) (index : Int) : Prop :=
  granted = true ∧ (index.tdiv 2 + 1) * 2 < table.max_size

/-- The size that the table is given instead of the even one does not reach the index. -/
def FallsShort (granted : Bool) (table : Table Item) (index : Int) : Prop :=
  table.max_size = index + 1 ∧ index % 2 = 0 ∧ (granted = true ∨ index = 0 ∧ table.addr.isSome)

/-- The index is in the table, or an attempt to grow the table for it has a defined result. -/
def Reaches (granted : Bool) (table : Table Item) (index : Int) : Prop :=
  0 ≤ index ∧ (index < table.size ∨ index < 2147483646 ∧ ¬ FallsShort granted table index)

variable (value : Option Item)

theorem storedAt_resized (valid : table.Valid) (larger : table.size ≤ new_size)
    (bounded : new_size ≤ table.max_size)
    (stored : StoredAt (table.resized new_size) next index value) :
    StoredAt table next index value :=
  ⟨stored.inside, stored.stored, fun other different => by
    rw [stored.others other different, getItem_resized valid larger bounded]⟩

theorem grows_spec (valid : table.Valid) {index : Nat} (outside : table.size ≤ index)
    (grows : Grows granted table index) :
    (table.resized (((index : Int).tdiv 2 + 1) * 2)).Valid ∧
      (table.resized (((index : Int).tdiv 2 + 1) * 2)).slots[index]? = some none ∧
      ((index : Int).tdiv 2 + 1) * 2 ≤ table.max_size ∧
        table.size ≤ ((index : Int).tdiv 2 + 1) * 2 := by
  have half : (index : Int).tdiv 2 = index / 2 := Int.tdiv_eq_ediv_of_nonneg (by omega)
  have bounded := Int.le_of_lt grows.2
  have larger : table.size ≤ ((index : Int).tdiv 2 + 1) * 2 := by rw [half]; omega
  have size := valid.size
  refine ⟨resized_valid valid larger bounded, ?_, bounded, larger⟩
  rw [resized_slots valid larger, List.getElem?_append_right (by omega), List.getElem?_replicate,
    if_pos (by rw [half]; omega)]

section WithIndex

variable (refused : Answer) (use : Table Item → Option (Answer × Table Item)) (granted : Bool)

theorem withIndex_inside {index : Int} (inside : index < table.size) :
    withIndex granted table index refused use = use table := by
  rw [withIndex, if_neg (by omega)]

theorem withIndex_grows (valid : table.Valid) (outside : table.size ≤ index)
    (small : index < 2147483646) (grows : Grows granted table index) :
    withIndex granted table index refused use = use (table.resized ((index.tdiv 2 + 1) * 2)) := by
  obtain ⟨rfl, room⟩ := grows
  have size := valid.size
  have half : index.tdiv 2 = index / 2 := Int.tdiv_eq_ediv_of_nonneg (by omega)
  rw [withIndex, if_pos outside, if_neg (by rw [half, intMax]; omega),
    growTable_room valid (by rw [half]; omega) room, bind_some]
  rfl

theorem withIndex_refused (valid : table.Valid) (outside : table.size ≤ index)
    (reaches : Reaches granted table index) (stays : ¬ Grows granted table index) :
    withIndex granted table index refused use = some (refused, table) := by
  obtain ⟨nonnegative, reach⟩ := reaches
  have half : index.tdiv 2 = index / 2 := Int.tdiv_eq_ediv_of_nonneg nonnegative
  rcases reach with inside | ⟨small, reach⟩
  · omega
  · rw [withIndex, if_pos outside, if_neg (by rw [half, intMax]; omega)]
    suffices unchanged :
        growTable granted table ((index.tdiv 2 + 1) * 2) index = some (false, table) by
      rw [unchanged]
      rfl
    by_cases room : (index.tdiv 2 + 1) * 2 < table.max_size
    · have refusal : granted = false := by
        cases granted with
        | false => rfl
        | true => exact absurd ⟨rfl, room⟩ stays
      rw [growTable_room valid (by rw [half]; omega) room, refusal]
      rfl
    · by_cases clipped : index < table.max_size ∧ table.max_size < (index.tdiv 2 + 1) * 2
      · -- the size that is asked for does not reach the index, but no memory is granted for it
        have short : ¬ (granted = true ∨ index = 0 ∧ table.addr.isSome) :=
          fun taken => reach ⟨by omega, by omega, taken⟩
        rw [not_or, Bool.not_eq_true] at short
        rw [growTable_clipped valid nonnegative clipped.2 clipped.1, if_neg short.2, short.1]
        rfl
      · exact growTable_full (by omega) (by omega)

theorem withIndex_undefined (valid : table.Valid)
    (fails : ∀ other : Table Item, other.slot index = none → use other = none)
    (misses : ¬ Reaches granted table index) :
    withIndex granted table index refused use = none := by
  have size := valid.size
  by_cases negative : index < 0
  · rw [withIndex_inside table refused use granted (by omega)]
    exact fails table (by rw [Table.slot, if_neg (by omega)])
  · have outside : table.size ≤ index := by
      by_contra inside
      exact misses ⟨by omega, .inl (by omega)⟩
    have half : index.tdiv 2 = index / 2 := Int.tdiv_eq_ediv_of_nonneg (by omega)
    rw [withIndex, if_pos outside]
    by_cases small : index < 2147483646
    · have short : FallsShort granted table index := by
        by_contra reach
        exact misses ⟨by omega, .inr ⟨small, reach⟩⟩
      obtain ⟨room, even, taken⟩ := short
      rw [if_neg (by rw [half, intMax]; omega),
        growTable_clipped valid (by omega) (by rw [half]; omega) (by omega)]
      split
      · rfl
      · rename_i positive
        rcases taken with granted | first
        · have short : (table.resized index).slots.length = index.toNat := by
            rw [resized_slots valid outside, List.length_append, List.length_replicate]
            omega
          rw [granted]
          apply fails
          rw [Table.slot, if_pos (by omega)]
          exact List.getElem?_eq_none (Nat.le_of_eq short)
        · exact absurd first positive
    · rw [if_pos (by rw [half, intMax]; omega)]

theorem withIndex_outside (valid : table.Valid) {index : Nat} {value : Option Item}
    (outside : table.size ≤ index) (reaches : Reaches granted table index)
    (spec : ∀ grown : Table Item, grown.Valid → grown.slots[index]? = some none →
      ∃ next, use grown = some (answer, next) ∧ next.Valid ∧ StoredAt grown next index value) :
    withIndex granted table index refused use = some (refused, table) ∨
      ∃ next, withIndex granted table index refused use = some (answer, next) ∧ next.Valid ∧
        StoredAt table next index value := by
  by_cases grows : Grows granted table index
  · right
    obtain ⟨valid', isFree, bounded, larger⟩ := grows_spec table granted valid outside grows
    obtain ⟨next, done, after, stored⟩ := spec _ valid' isFree
    refine ⟨next, ?_, after, storedAt_resized table value valid larger bounded stored⟩
    rcases reaches.2 with inside | ⟨small, _⟩
    · omega
    · rw [withIndex_grows table refused use granted valid outside small grows, done]
  · left
    exact withIndex_refused table refused use granted valid outside reaches grows

end WithIndex

def Changes (call : Call Item) (success : Bool) (next : Table Item) : Prop :=
  match call with
  | .setItem _ index value | .testAndSetItem _ index value =>
    success = true → StoredAt table next index value
  | .init .. | .add .. | .setSize .. => True

/-- The call has a defined result, and the fields are right after it. -/
def Correct (call : Call Item) : Prop :=
  ∃ success next, perform table call = some (success, next) ∧ next.Valid ∧
    Changes table call success next

/-- What the caller has to see to. -/
def Meets : Call Item → Prop
  | .init granted initial_allocation max_size block_size =>
    let size := firstSize initial_allocation block_size
    -- the array is new or its first slot is free, and the slots fit its maximum
    max_size < block_size ∨
      table.lowest_free = 0 ∧ 0 ≤ size ∧ size ≤ max_size ∧ (granted = true ∨ size = 0)
  | .add granted ptr =>
    if table.number_free = 0 then
      let soft := if table.addr.isNone then 1 else table.size * 2
      soft ≤ intMax ∧ (soft = 0 → table.max_size ≤ 0) ∧
        (granted = true ∧ soft < table.max_size → ptr.isSome = true)
    else ptr.isSome = true
  | .setItem granted index _ => Reaches granted table index
  | .testAndSetItem granted index value =>
    Reaches granted table index ∧
      (value.isNone → if index < table.size then table.slot index ≠ some none
        else ¬ Grows granted table index)
  | .setSize _ _ => True

variable {table}

theorem not_correct_of_none (call : Call Item) (undefined : perform table call = none) :
    ¬ Correct table call := by
  rintro ⟨success, next, done, _⟩
  rw [undefined] at done
  cases done

theorem not_correct_of_invalid
    (done : perform table call = some (success, next)) (invalid : ¬ next.Valid) :
    ¬ Correct table call := by
  rintro ⟨_, _, same, after, _⟩
  rw [done] at same
  cases same
  exact invalid after

theorem correct_iff_valid (call : Call Item)
    (done : perform table call = some (success, next)) (changes : Changes table call success next) :
    Correct table call ↔ next.Valid := by
  constructor
  · rintro ⟨_, _, same, after, _⟩
    rw [done] at same
    cases same
    exact after
  · intro after
    exact ⟨success, next, done, after, changes⟩

theorem init_valid_iff (accepted : ¬ max_size < block_size) :
    (opalPointerArrayInit granted table initial_allocation max_size block_size).2.Valid ↔
      table.lowest_free = 0 ∧ 0 ≤ firstSize initial_allocation block_size ∧
        firstSize initial_allocation block_size ≤ max_size ∧
        (granted = true ∨ firstSize initial_allocation block_size = 0) := by
  generalize size_eq : firstSize initial_allocation block_size = size
  by_cases made : granted = true ∧ 0 ≤ size
  · have after : (opalPointerArrayInit granted table initial_allocation max_size block_size).2 =
        { table with
          max_size, number_free := size, size, addr := some (List.replicate size.toNat none) } := by
      simp [opalPointerArrayInit, accepted, size_eq, made, ↓reduceIte, and_self]
    rw [after]
    constructor
    · rintro ⟨_, _, ⟨lowest, same, isLowest⟩, bounded⟩
      have := (isLowest_replicate size.toNat).mp isLowest
      exact ⟨by change table.lowest_free = _ at same; omega, made.2, bounded, .inl made.1⟩
    · rintro ⟨first, _, bounded, _⟩
      refine ⟨?_, ?_, ⟨0, first, (isLowest_replicate size.toNat).mpr rfl⟩, bounded⟩
      · change size = (List.replicate size.toNat none).length
        rw [List.length_replicate]
        omega
      · change size = ((List.replicate size.toNat none).countP isNone : Nat)
        rw [List.countP_replicate, isNone_none, if_pos rfl]
        omega
  · have after : (opalPointerArrayInit granted table initial_allocation max_size block_size).2 =
        { table with max_size, number_free := size, size, addr := none } := by
      simp [opalPointerArrayInit, accepted, size_eq, made, ↓reduceIte]
    rw [after]
    constructor
    · rintro ⟨empty, _, ⟨lowest, same, isLowest⟩, bounded⟩
      have := (isLowest_replicate 0).mp isLowest
      change size = 0 at empty
      exact ⟨by change table.lowest_free = _ at same; omega, by omega, bounded, .inr empty⟩
    · rintro ⟨first, nonnegative, bounded, allocated⟩
      have empty : size = 0 := by
        rcases allocated with granted | empty
        · exact absurd ⟨granted, nonnegative⟩ made
        · exact empty
      exact ⟨empty, empty, ⟨0, first, (isLowest_replicate 0).mpr rfl⟩, bounded⟩

theorem init_correct_iff (initial_allocation max_size block_size : Int) (valid : table.Valid) :
    Correct table (.init granted initial_allocation max_size block_size) ↔
      Meets table (.init granted initial_allocation max_size block_size) := by
  rw [correct_iff_valid (.init granted initial_allocation max_size block_size) rfl trivial]
  by_cases refused : max_size < block_size
  · have same :
        (opalPointerArrayInit granted table initial_allocation max_size block_size).2 = table := by
      rw [opalPointerArrayInit, if_pos refused]
    rw [same]
    exact ⟨fun _ => .inl refused, fun _ => valid⟩
  · rw [init_valid_iff granted refused]
    simp [Meets, refused]

theorem useLowest_valid_iff (valid : table.Valid) (free : table.number_free ≠ 0) :
    ∃ next, useLowest table ptr = some (.ok table.lowest_free, next) ∧
      (next.Valid ↔ ptr.isSome = true) := by
  cases ptr with
  | none =>
    obtain ⟨next, done, invalid⟩ := useLowest_nothing valid free
    exact ⟨next, done, fun after => absurd after invalid, fun item => by cases item⟩
  | some item =>
    obtain ⟨next, done, after, _⟩ := useLowest_spec valid free item
    exact ⟨next, done, fun _ => rfl, fun _ => after⟩

theorem add_full_correct_iff (valid : table.Valid) (full : table.number_free = 0)
    (soft_eq : soft = if table.addr.isNone then 1 else table.size * 2) :
    Correct table (.add granted ptr) ↔
      soft ≤ intMax ∧ (soft = 0 → table.max_size ≤ 0) ∧
        (granted = true ∧ soft < table.max_size → ptr.isSome = true) := by
  have size := valid.size
  have added : opalPointerArrayAdd granted table ptr =
      if intMax < soft then none
      else (growTable granted table soft intMax).bind fun grown =>
        if grown.1 then useLowest grown.2 ptr else some (Result.fail .outOfResource, grown.2) := by
    rw [opalPointerArrayAdd, if_pos full, ← soft_eq]
  have refused_correct :
      opalPointerArrayAdd granted table ptr = some (Result.fail .outOfResource, table) →
      Correct table (.add granted ptr) := fun refused =>
    ⟨false, table, by rw [perform, refused]; rfl, valid, trivial⟩
  by_cases overflow : intMax < soft
  · rw [if_pos overflow] at added
    have undefined := not_correct_of_none (.add granted ptr) (by rw [perform, added]; rfl)
    exact ⟨fun correct => absurd correct undefined, fun meets => by omega⟩
  · rw [if_neg overflow] at added
    by_cases room : soft < table.max_size
    · by_cases empty : soft = 0
      · have allocated : table.addr.isSome = true := by
          cases addr : table.addr with
          | none => simp [addr, empty] at soft_eq
          | some => rfl
        have undefined : growTable granted table soft intMax = none := by
          have high : ¬ table.max_size < 0 := by omega
          have inside : ¬ table.max_size ≤ 0 := by omega
          simp [growTable, empty, allocated, high, inside]
        rw [undefined] at added
        have incorrect := not_correct_of_none (.add granted ptr) (by rw [perform, added]; rfl)
        exact ⟨fun correct => absurd correct incorrect,
          fun meets => by have := meets.2.1 empty; omega⟩
      · have larger : table.size < soft := by
          cases addr : table.addr with
          | none => simp [Table.slots, addr] at size soft_eq; omega
          | some => simp [addr] at soft_eq; omega
        rw [growTable_room valid larger room] at added
        cases granted with
        | false =>
          exact ⟨fun _ => ⟨by omega, fun zero => absurd zero empty, fun grows => by cases grows.1⟩,
            fun _ => refused_correct added⟩
        | true =>
          have grown := resized_valid valid (Int.le_of_lt larger) (Int.le_of_lt room)
          have free : (table.resized soft).number_free ≠ 0 := by
            change table.number_free + (soft - table.size) ≠ 0
            omega
          obtain ⟨next, done, after⟩ := useLowest_valid_iff grown free
          have performed : perform table (.add true ptr) = some (true, next) := by
            rw [perform, added]
            change (useLowest (table.resized soft) ptr).map _ = _
            rw [done]
            rfl
          rw [correct_iff_valid _ performed trivial, after]
          exact ⟨fun item => ⟨by omega, fun zero => absurd zero empty, fun _ => item⟩,
            fun meets => meets.2.2 ⟨rfl, room⟩⟩
    · rw [growTable_full (by omega) (by omega)] at added
      exact ⟨fun _ => ⟨by omega, by omega, fun grows => absurd grows.2 room⟩, fun _ =>
        refused_correct added⟩

theorem add_correct_iff (valid : table.Valid) :
    Correct table (.add granted ptr) ↔ Meets table (.add granted ptr) := by
  by_cases full : table.number_free = 0
  · rw [add_full_correct_iff granted valid full rfl, Meets, if_pos full]
  · obtain ⟨next, done, after⟩ := useLowest_valid_iff valid full
    have performed : perform table (.add granted ptr) = some (true, next) := by
      rw [perform, opalPointerArrayAdd, if_neg full, done]
      rfl
    rw [correct_iff_valid _ performed trivial, Meets, if_neg full, after]

theorem setItem_correct_iff {index : Int} (valid : table.Valid) :
    Correct table (.setItem granted index value) ↔ Meets table (.setItem granted index value) := by
  constructor
  · contrapose
    intro misses
    apply not_correct_of_none
    have undefined : opalPointerArraySetItem granted table index value = none := by
      apply withIndex_undefined table _ _ granted valid _ misses
      intro other outside
      rw [setSlot, outside]
      rfl
    rw [perform, undefined]
    rfl
  · intro reaches
    obtain ⟨index, rfl⟩ := Int.eq_ofNat_of_zero_le reaches.1
    have size := valid.size
    by_cases inside : (index : Int) < table.size
    · obtain ⟨next, done, after, stored⟩ := setSlot_spec index valid (by omega)
      refine ⟨true, next, ?_, after, fun _ => stored⟩
      rw [perform, opalPointerArraySetItem, withIndex_inside table _ _ granted inside, done]
      rfl
    · have outcome := withIndex_outside table (Result.fail .error)
        (fun table => setSlot table index value) granted
        valid (by omega) reaches (fun grown valid isFree =>
          setSlot_spec index valid (List.getElem?_eq_some_iff.mp isFree).1)
      rcases outcome with refused | ⟨next, done, after, stored⟩
      · refine ⟨false, table, ?_, valid, fun success => by cases success⟩
        rw [perform, opalPointerArraySetItem, refused]
        rfl
      · refine ⟨true, next, ?_, after, fun _ => stored⟩
        rw [perform, opalPointerArraySetItem, done]
        rfl

theorem testAndSetItem_inside_correct_iff {index : Nat} (valid : table.Valid)
    (inside : (index : Int) < table.size) :
    Correct table (.testAndSetItem granted index value) ↔
      (value.isNone = true → table.slot index ≠ some none) := by
  have size := valid.size
  have performed :
      perform table (.testAndSetItem granted index value) = (table.slot index).bind fun old =>
      if old.isNone then reserveSlot table index value else some (false, table) := by
    rw [perform, opalPointerArrayTestAndSetItem, if_pos inside]
  obtain ⟨old, present⟩ : ∃ old, table.slot index = some old :=
    ⟨_, by rw [slot_eq, List.getElem?_eq_getElem (by omega)]⟩
  rw [present] at performed
  cases old with
  | some =>
    rw [correct_iff_valid _ performed fun success => by cases success]
    simp [present, valid]
  | none =>
    have isFree : table.slots[index]? = some none := by rw [← slot_eq, present]
    cases value with
    | none =>
      obtain ⟨next, done, invalid⟩ := reserveSlot_nothing index valid isFree
      have incorrect := not_correct_of_invalid (performed.trans done) invalid
      simp [present, incorrect]
    | some item =>
      obtain ⟨next, done, after, stored⟩ := reserveSlot_spec index valid isFree
      rw [correct_iff_valid _ (performed.trans done) fun _ => stored]
      simp [after]

theorem testAndSetItem_outside_correct_iff {index : Nat} (valid : table.Valid)
    (outside : table.size ≤ index) (reaches : Reaches granted table index) :
    Correct table (.testAndSetItem granted index value) ↔
      (value.isNone = true → ¬ Grows granted table index) := by
  have performed : perform table (.testAndSetItem granted index value) =
      withIndex granted table index false fun table => reserveSlot table index value := by
    rw [perform, opalPointerArrayTestAndSetItem, if_neg (by omega)]
  have refused_correct : perform table (.testAndSetItem granted index value) = some (false, table) →
      Correct table (.testAndSetItem granted index value) := fun refused =>
    ⟨false, table, refused, valid, fun success => by cases success⟩
  cases value with
  | some item =>
    have outcome :=
      withIndex_outside table false (fun table => reserveSlot table index (some item)) granted
      valid outside reaches (fun grown valid isFree =>
        reserveSlot_spec index valid isFree)
    rcases outcome with refused | ⟨next, done, after, stored⟩
    · exact ⟨fun _ nothing => (by cases nothing), fun _ =>
        refused_correct (performed.trans refused)⟩
    · exact ⟨fun _ nothing => (by cases nothing), fun _ => ⟨true, next, performed.trans done, after,
        fun _ => stored⟩⟩
  | none =>
    by_cases grows : Grows granted table index
    · obtain ⟨grown, isFree, _⟩ := grows_spec table granted valid outside grows
      obtain ⟨next, done, invalid⟩ := reserveSlot_nothing index grown isFree
      have small : (index : Int) < 2147483646 := by
        rcases reaches.2 with inside | ⟨small, _⟩
        · omega
        · exact small
      rw [withIndex_grows table _ _ granted valid outside small grows, done] at performed
      have incorrect := not_correct_of_invalid performed invalid
      exact ⟨fun correct => absurd correct incorrect, fun meets => absurd grows (meets rfl)⟩
    · rw [withIndex_refused table _ _ granted valid outside reaches grows] at performed
      exact ⟨fun _ _ => grows, fun _ => refused_correct performed⟩

theorem testAndSetItem_correct_iff {index : Int} (valid : table.Valid) :
    Correct table (.testAndSetItem granted index value) ↔
      Meets table (.testAndSetItem granted index value) := by
  by_cases reaches : Reaches granted table index
  · obtain ⟨index, rfl⟩ := Int.eq_ofNat_of_zero_le reaches.1
    simp only [Meets, reaches, true_and]
    by_cases inside : (index : Int) < table.size
    · rw [testAndSetItem_inside_correct_iff granted value valid inside, if_pos inside]
    · rw [testAndSetItem_outside_correct_iff granted value valid (by omega) reaches, if_neg inside]
  · have undefined : perform table (.testAndSetItem granted index value) = none := by
      rw [perform, opalPointerArrayTestAndSetItem]
      split
      · rename_i inside
        have negative : ¬ 0 ≤ index := fun nonnegative => reaches ⟨nonnegative, .inl inside⟩
        rw [Table.slot, if_neg negative]
        rfl
      · apply withIndex_undefined table _ _ granted valid _ reaches
        intro other outside
        rw [reserveSlot, outside]
        rfl
    have incorrect := not_correct_of_none _ undefined
    exact ⟨fun correct => absurd correct incorrect, fun meets => absurd meets.1 reaches⟩

theorem setSize_correct (valid : table.Valid) :
    Correct table (.setSize granted new_size) := by
  unfold Correct
  simp only [perform, opalPointerArraySetSize]
  by_cases larger : table.size < new_size
  · rw [if_pos larger]
    by_cases room : new_size < table.max_size
    · rw [growTable_room valid larger room]
      cases granted with
      | false => exact ⟨false, table, rfl, valid, trivial⟩
      | true =>
        have grown := resized_valid valid (Int.le_of_lt larger) (Int.le_of_lt room)
        exact ⟨true, _, rfl, grown, trivial⟩
    · rw [growTable_full (by omega) (by omega)]
      exact ⟨false, table, rfl, valid, trivial⟩
  · rw [if_neg larger]
    exact ⟨true, table, rfl, valid, trivial⟩

theorem correct_iff (valid : table.Valid) : Correct table call ↔ Meets table call := by
  cases call with
  | init granted initial_allocation max_size block_size =>
    exact init_correct_iff granted initial_allocation max_size block_size valid
  | add granted ptr => exact add_correct_iff granted valid
  | setItem granted index value => exact setItem_correct_iff granted value valid
  | testAndSetItem granted index value => exact testAndSetItem_correct_iff granted value valid
  | setSize granted new_size => exact ⟨fun _ => trivial, fun _ => setSize_correct granted valid⟩

/-- With memory for every request and no maximum, an addition does to the slots what the array
without stored numbers does. -/
theorem add_refines (item : Item) (valid : table.Valid) (unbounded : table.max_size = intMax)
    (allocated : table.addr.isSome = true) :
    (opalPointerArrayAdd true table (some item)).map (fun done => done.2.slots) =
      PointerArray.opalPointerArrayAdd table.slots item := by
  have size := valid.size
  have numbered : table.addr.isNone = false := by rw [← not_isSome, allocated]; rfl
  have limit : intMax = 2147483647 := rfl
  by_cases full : table.number_free = 0
  · obtain ⟨lowest, same, isLowest⟩ := valid.lowest
    have count := valid.free
    have end_reached : ¬ lowest < table.slots.length := by
      rw [lowest_lt_iff isLowest]
      omega
    rw [opalPointerArrayAdd, if_pos full, PointerArray.opalPointerArrayAdd, put_eq isLowest,
      if_neg end_reached, PointerArray.growTable]
    simp only [numbered, Bool.false_eq_true, ↓reduceIte]
    by_cases fits : table.slots.length * 2 < 2147483648
    · rw [if_neg (show ¬ intMax < table.size * 2 by omega), if_pos fits, bind_some]
      by_cases empty : table.slots.length = 0
      · have none_free : growTable true table (table.size * 2) intMax = none := by
          simp [growTable, size, empty, unbounded, allocated, limit]
        rw [none_free, List.length_eq_zero_iff.mp empty]
        rfl
      · have larger : table.size < table.size * 2 := by omega
        have room : table.size * 2 < table.max_size := by omega
        have grown := resized_valid valid (Int.le_of_lt larger) (Int.le_of_lt room)
        have slots := resized_slots valid (Int.le_of_lt larger)
        have added : (table.size * 2 - table.size).toNat = table.slots.length := by omega
        rw [added] at slots
        rw [growTable_room valid larger room, ← slots]
        exact useLowest_slots grown (by
          change table.number_free + (table.size * 2 - table.size) ≠ 0
          omega)
    · rw [if_pos (show intMax < table.size * 2 by omega), if_neg fits]
      rfl
  · rw [opalPointerArrayAdd, if_neg full, useLowest_slots valid full,
      PointerArray.opalPointerArrayAdd]
    obtain ⟨lowest, same, isLowest⟩ := valid.lowest
    have isFree := lowest_isFree valid full isLowest
    rw [put_eq isLowest, if_pos (List.getElem?_eq_some_iff.mp isFree).1]

/-- The array has one slot, which is taken, and is grown. -/
theorem add_refines_growing :
    (opalPointerArrayAdd true ⟨1, 0, 1, intMax, some [some 5]⟩ (some 7)).map
      (fun done => done.2.slots) = PointerArray.opalPointerArrayAdd [some 5] 7 := by
  have used : ∀ index < 1, ∃ item, [some 5][index]? = some (some item) := fun index less =>
    ⟨5, by simp [Nat.lt_one_iff.mp less]⟩
  exact add_refines 7 ⟨rfl, rfl, ⟨1, rfl, used, .inr rfl⟩, by decide⟩ rfl rfl

end Operations

def AllCorrect : Table Item → List (Call Item) → Prop
  | _, [] => True
  | table, call :: rest =>
    Correct table call ∧ ∀ success next, perform table call = some (success, next) →
      AllCorrect next rest

def AllMeet : Table Item → List (Call Item) → Prop
  | _, [] => True
  | table, call :: rest =>
    Meets table call ∧ ∀ success next, perform table call = some (success, next) →
      AllMeet next rest

theorem construct_valid : (opalPointerArrayConstruct : Table Item).Valid :=
  ⟨rfl, rfl, ⟨0, rfl, (isLowest_replicate 0).mpr rfl⟩, by
    change (0 : Int) ≤ intMax
    decide⟩

theorem allCorrect_iff {table : Table Item} (valid : table.Valid) :
    AllCorrect table calls ↔ AllMeet table calls := by
  induction calls generalizing table with
  | nil => exact Iff.rfl
  | cons call rest ih =>
    rw [AllMeet, ← correct_iff valid]
    apply and_congr_right
    rintro ⟨success, next, done, after, _⟩
    rw [done]
    constructor
    · rintro later _ _ ⟨⟩
      exact (ih after).mp (later success next rfl)
    · rintro later _ _ ⟨⟩
      exact (ih after).mpr (later success next rfl)

/-- The fields of a pointer array are right after every call of a sequence exactly if the sequence
never reuses an array whose first slot is taken, allocates more than the maximum, adds or reserves
nothing, or sets an index that the array is not grown to. -/
theorem pointer_array_fields (calls : List (Call Item)) :
    AllCorrect opalPointerArrayConstruct calls ↔ AllMeet opalPointerArrayConstruct calls :=
  allCorrect_iff construct_valid

/-- An array with room for five items that is asked to hold one at index four. -/
theorem pointer_array_short :
    ¬ AllCorrect (opalPointerArrayConstruct : Table Nat) [.init true 1 5 1,
      .setItem true 4 (some 7)] := by
  intro correct
  have fresh := correct.2 true _ rfl
  exact not_correct_of_none _ (by decide +kernel) fresh.1

end Orcm.PointerArrayCalls
