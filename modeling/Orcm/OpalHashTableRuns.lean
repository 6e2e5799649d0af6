import Orcm.OpalHashTable

/-!
The hash table is a finite map: every key can be found, a cell is free, and the size counts the
keys.
-/

namespace Orcm.OpalHashTable

open Circular LinearProbing List Function Option

variable {Key Other Value : Type} [DecidableEq Key] {hash : Key → ℕ} {ht : HashTable Key Value}
    {map : Key → Option Value}

structure Good (hash : Key → ℕ) (ht : HashTable Key Value) (map : Key → Option Value) : Prop where
  represents : Represents ht.ht_capacity (homeOf hash ht.ht_capacity) ht.ht_table map
  size : ht.ht_size = (live map).ncard
  positive : 0 < ht.ht_capacity
  trigger : ht.ht_growth_trigger = ht.ht_capacity / 2
  room : ht.ht_size < ht.ht_capacity
  density : ht.ht_density_numer = 1 ∧ ht.ht_density_denom = 2
  growth : ht.ht_growth_numer = 2 ∧ ht.ht_growth_denom = 1

omit [DecidableEq Key] in
theorem homeOf_lt (positive : 0 < capacity) (key : Key) : homeOf hash capacity key < capacity :=
  Nat.mod_lt _ positive

omit [DecidableEq Key] in
theorem lt_hashRoundCapacityUp (capacity : ℕ) : capacity < hashRoundCapacityUp capacity := by
  rw [hashRoundCapacityUp]
  omega

omit [DecidableEq Key] in
theorem live_nothing : live (fun _ : Key => (none : Option Value)) = ∅ :=
  Set.eq_empty_iff_forall_notMem.mpr fun _ alive => alive rfl

theorem Good.find (good : Good hash ht map) :
    ∃ way < ht.ht_capacity,
      probe hash ht key = some (position ht.ht_capacity (homeOf hash ht.ht_capacity key) way) ∧
      (∀ before < way,
        ht.ht_table (position ht.ht_capacity (homeOf hash ht.ht_capacity key) before) ≠ none) ∧
      (ht.ht_table (position ht.ht_capacity (homeOf hash ht.ht_capacity key) way) = none ∧
        map key = none ∨
        ∃ value, ht.ht_table (position ht.ht_capacity (homeOf hash ht.ht_capacity key) way) =
          some (key, value) ∧
          map key = some value) :=
  good.represents.find (homeOf_lt good.positive)
    (good.represents.exists_free (good.size ▸ good.room))

omit [DecidableEq Key] in
theorem good_removeAll (good : Good hash ht map) :
    Good otherHash (hashTableRemoveAll ht : HashTable Other Value) fun _ => none where
  represents := represents_empty
  size := by
    rw [live_nothing, Set.ncard_empty]
    rfl
  positive := good.positive
  trigger := good.trigger
  room := good.positive
  density := good.density
  growth := good.growth

theorem Good.get (good : Good hash ht map) (key : Key) :
    hashTableGetValue hash ht key = some (map key) := by
  obtain ⟨way, -, found, -, here⟩ := good.find
  rw [hashTableGetValue, found, map_some]
  rcases here with ⟨free, absent⟩ | ⟨value, held, present⟩
  · rw [free, absent]
    rfl
  · rw [held, present]
    rfl

theorem copyElts_spec (represents : Represents old_capacity home old_table map)
    (larger : (live map).ncard < new_capacity) (inside : jj ≤ old_capacity) :
    ∃ new_table copied, copyElts hash old_table new_capacity jj = some new_table ∧
      Represents new_capacity (homeOf hash new_capacity) new_table copied ∧
      ∀ key value, copied key = some value ↔ ∃ place < jj, old_table place = some (key, value) := by
  have positive : 0 < new_capacity := by omega
  induction jj with
  | zero =>
    refine ⟨_, _, rfl, represents_empty, fun key value => iff_of_false ?_ ?_⟩
    · intro held
      cases held
    · rintro ⟨place, less, -⟩
      exact absurd less (Nat.not_lt_zero place)
  | succ jj ih =>
    obtain ⟨new_table, copied, copies, new_represents, entries⟩ := ih (by omega)
    rw [copyElts, copies, bind_some]
    cases held : old_table jj with
    | none =>
      refine ⟨new_table, copied, rfl, new_represents, ?_⟩
      intro key value
      rw [entries]
      apply exists_congr
      intro place
      constructor
      · exact fun found => ⟨by omega, found.2⟩
      · intro found
        refine ⟨Nat.lt_of_le_of_ne (by omega) ?_, found.2⟩
        rintro rfl
        cases held.symm.trans found.2
    | some elt =>
      obtain ⟨key, value⟩ := elt
      have part : live copied ⊆ live map := by
        intro other alive
        obtain ⟨stored, copiedValue⟩ := ne_none_iff_exists'.mp alive
        obtain ⟨place, less, found⟩ := (entries other stored).mp copiedValue
        change map other ≠ none
        rw [(represents.entries other stored).mpr ⟨place, by omega, found⟩]
        exact some_ne_none stored
      obtain ⟨freePlace, freeInside, isFree⟩ := new_represents.exists_free
        ((Set.ncard_le_ncard part represents.live_finite).trans_lt larger)
      obtain ⟨freeWay, freeLess, rfl⟩ :=
        exists_position positive (homeOf hash new_capacity key) freeInside
      obtain ⟨way, least, found, stops, passed⟩ :=
        scan_ends positive (fun ii => (new_table ii).isNone)
        (Nat.le_of_lt (homeOf_lt positive key)) freeLess (Option.isNone_iff_eq_none.mpr isFree)
      have absent : copied key = none := by
        rw [eq_none_iff_forall_ne_some]
        intro stored present
        obtain ⟨place, less, again⟩ := (entries key stored).mp present
        have same := represents.unique place (by omega) jj (by omega) key stored value again held
        omega
      refine ⟨_, _, ?_, new_represents.write positive (by omega : way < new_capacity) ?_
        (Or.inl ⟨Option.isNone_iff_eq_none.mp stops, absent⟩) value, ?_⟩
      · simp [copyElt, found]
      · intro before earlier empty
        have failed := passed before earlier
        simp only [empty, isNone_none] at failed
        cases failed
      · intro other stored
        by_cases same : other = key
        · subst same
          rw [update_self]
          constructor
          · intro equal
            cases equal
            exact ⟨jj, Nat.lt_succ_self jj, held⟩
          · rintro ⟨place, less, again⟩
            cases represents.unique place (by omega) jj (by omega) other stored value again held
            cases again.symm.trans held
            rfl
        · rw [update_of_ne same, entries]
          apply exists_congr
          intro place
          constructor
          · exact fun found => ⟨by omega, found.2⟩
          · intro found
            refine ⟨Nat.lt_of_le_of_ne (by omega) ?_, found.2⟩
            rintro rfl
            cases held.symm.trans found.2
            exact same rfl

theorem hashGrow_good
    (represents : Represents ht.ht_capacity (homeOf hash ht.ht_capacity) ht.ht_table map)
    (size : ht.ht_size = (live map).ncard) (full : ht.ht_size ≤ ht.ht_capacity)
    (density : ht.ht_density_numer = 1 ∧ ht.ht_density_denom = 2)
    (growth : ht.ht_growth_numer = 2 ∧ ht.ht_growth_denom = 1) :
    ∃ after, hashGrow hash true ht = some (none, after) ∧ Good hash after map := by
  have larger := lt_hashRoundCapacityUp (ht.ht_capacity * 2)
  obtain ⟨new_table, copied, copies, new_represents, entries⟩ :=
    (copyElts_spec represents (by omega) (Nat.le_refl _) : ∃ new_table copied,
      copyElts hash ht.ht_table (hashRoundCapacityUp (ht.ht_capacity * 2)) ht.ht_capacity =
        some new_table ∧ _)
  have same : copied = map := by
    funext key
    apply ext
    intro value
    exact (entries key value).trans (represents.entries key value).symm
  rw [same] at new_represents
  have grown : hashGrow hash true ht = some (none, { ht with
      ht_table := new_table
      ht_capacity := hashRoundCapacityUp (ht.ht_capacity * 2)
      ht_growth_trigger := hashRoundCapacityUp (ht.ht_capacity * 2) / 2 }) := by
    simp [hashGrow, growth.1, growth.2, density.1, density.2, Nat.div_one, copies, map_some]
  refine ⟨_, grown, new_represents, size, Nat.zero_lt_of_lt larger, rfl, ?_, density, growth⟩
  change ht.ht_size < hashRoundCapacityUp (ht.ht_capacity * 2)
  omega

theorem Good.set (good : Good hash ht map) (granted : Bool) (key : Key) (value : Value) :
    ∃ code after, hashTableSetValue hash granted ht key value = some (code, after) ∧
      (code = none ∨ granted = false ∧ code = some .outOfResource) ∧
      (code = none ∨ after.ht_size < after.ht_capacity →
        Good hash after (update map key (some value))) := by
  have trigger := good.trigger
  obtain ⟨way, less, found, passed, here⟩ := good.find
  rw [hashTableSetValue, found, bind_some]
  rcases here with ⟨free, absent⟩ | ⟨old, held, present⟩
  · have represents := good.represents.write good.positive less passed (Or.inl ⟨free, absent⟩) value
    have size : ht.ht_size + 1 = (live (update map key (some value))).ncard := by
      have fresh : key ∉ live map := fun alive => alive absent
      rw [live_set, Set.ncard_insert_of_notMem fresh good.represents.live_finite, good.size]
    simp only [free]
    split
    · cases granted with
      | true =>
        obtain ⟨after, grown, kept⟩ : ∃ after, hashGrow hash true { ht with
            ht_table := _, ht_size := ht.ht_size + 1 } = some (none, after) ∧
            Good hash after (update map key (some value)) :=
          hashGrow_good represents size good.room good.density good.growth
        exact ⟨none, after, grown, .inl rfl, fun _ => kept⟩
      | false =>
        refine ⟨_, _, rfl, .inr ⟨rfl, rfl⟩, fun free => ?_⟩
        exact ⟨represents, size, good.positive, trigger, free.resolve_left (some_ne_none _),
          good.density, good.growth⟩
    · rename_i small
      refine ⟨_, _, rfl, .inl rfl, fun _ =>
        ⟨represents, size, good.positive, trigger, ?_, good.density, good.growth⟩⟩
      change ht.ht_size + 1 < ht.ht_capacity
      have below : ht.ht_size + 1 < ht.ht_growth_trigger := Nat.lt_of_not_le small
      omega
  · have represents := good.represents.write good.positive less passed (Or.inr ⟨old, held⟩) value
    have size : ht.ht_size = (live (update map key (some value))).ncard := by
      have alive : key ∈ live map := by
        change map key ≠ none
        rw [present]
        exact some_ne_none old
      rw [live_set, Set.insert_eq_of_mem alive, good.size]
    simp only [held]
    exact ⟨_, _, rfl, .inl rfl, fun _ =>
      ⟨represents, size, good.positive, trigger, good.room, good.density, good.growth⟩⟩

theorem Good.remove (good : Good hash ht map) :
    ∃ after, hashTableRemoveValue hash ht key = some (if map key = none then some .notFound
      else none, after) ∧
      Good hash after (update map key none) := by
  obtain ⟨way, less, found, -, here⟩ := good.find
  rw [hashTableRemoveValue, found, bind_some]
  rcases here with ⟨free, absent⟩ | ⟨value, held, present⟩
  · have same : update map key none = map := by
      rw [← absent, update_eq_self]
    rw [same]
    simp only [free, absent]
    exact ⟨ht, rfl, good⟩
  · obtain ⟨after, rehashed, represents⟩ := good.represents.remove (homeOf_lt good.positive)
      (good.represents.exists_free (good.size ▸ good.room)) (position_lt _ good.positive way) held
    have alive : key ∈ live map := by
      change map key ≠ none
      rw [present]
      exact some_ne_none value
    have size : ht.ht_size - 1 = (live (update map key none)).ncard := by
      rw [live_remove, Set.ncard_sdiff_singleton_of_mem alive, good.size]
    simp only [held, hashTableRemoveEltAt, rehashed, present]
    refine ⟨_, rfl, represents, size, good.positive, good.trigger, ?_, good.density, good.growth⟩
    exact Nat.lt_of_le_of_lt (Nat.sub_le _ 1) good.room

section Traversal
omit [DecidableEq Key] in
theorem firstValid_cases (table : ℕ → Option (Key × Value)) (left ii : ℕ) :
    (firstValid table left ii = none ∧ (List.range' ii left).filterMap table = []) ∨
      ∃ cell entry, firstValid table left ii = some cell ∧ table cell = some entry ∧ ii ≤ cell ∧
        cell < ii + left ∧
        (List.range' ii left).filterMap table =
          entry :: (List.range' (cell + 1) (ii + left - (cell + 1))).filterMap table := by
  induction left generalizing ii with
  | zero => exact Or.inl ⟨rfl, rfl⟩
  | succ left ih =>
    rw [firstValid, range'_succ]
    cases held : table ii with
    | none =>
      rw [if_neg (by simp), filterMap_cons_none held]
      rcases ih (ii + 1) with ⟨nothing, empty⟩ | ⟨cell, entry, found, valid, low, high, rest⟩
      · exact Or.inl ⟨nothing, empty⟩
      · refine Or.inr ⟨cell, entry, found, valid, by omega, by omega, ?_⟩
        rw [rest, Nat.add_assoc, Nat.add_comm 1 left]
    | some entry =>
      refine Or.inr ⟨ii, entry, if_pos rfl, held, Nat.le_refl ii, by omega, ?_⟩
      have others : ii + (left + 1) - (ii + 1) = left := by omega
      rw [filterMap_cons_some held, others]

omit [DecidableEq Key] in
theorem traverseFrom_eq (ht : HashTable Key Value) (prev : Option ℕ)
    (enough : ht.ht_capacity - (prev.map (· + 1)).getD 0 ≤ fuel) :
    traverseFrom ht fuel (hashTableGetNextKey ht prev) =
      some ((List.range' ((prev.map (· + 1)).getD 0)
      (ht.ht_capacity - (prev.map (· + 1)).getD 0)).filterMap ht.ht_table) := by
  induction fuel generalizing prev with
  | zero =>
    have none_left : ht.ht_capacity - (prev.map (· + 1)).getD 0 = 0 := Nat.le_zero.mp enough
    rw [hashTableGetNextKey, hashTableGetNextElt]
    simp only [none_left]
    rfl
  | succ fuel ih =>
    rw [hashTableGetNextKey, hashTableGetNextElt]
    rcases firstValid_cases ht.ht_table (ht.ht_capacity - (prev.map (· + 1)).getD 0)
      ((prev.map (· + 1)).getD 0) with
      ⟨nothing, empty⟩ | ⟨cell, entry, found, valid, low, high, rest⟩
    · simp only [nothing, empty]
      rfl
    · have total :
          (prev.map (· + 1)).getD 0 + (ht.ht_capacity - (prev.map (· + 1)).getD 0) - (cell + 1) =
          ht.ht_capacity - (cell + 1) := by omega
      have following := ih (some cell) (by
        change ht.ht_capacity - (cell + 1) ≤ fuel
        omega)
      simp only [map_some, getD_some] at following
      simp [found, valid, traverseFrom, following, rest, total]

omit [DecidableEq Key] in
theorem traverse_eq (ht : HashTable Key Value) :
    traverse ht = some ((List.range ht.ht_capacity).filterMap ht.ht_table) := by
  rw [traverse, hashTableGetFirstKey, range_eq_range']
  exact traverseFrom_eq ht none (Nat.le_refl _)

omit [DecidableEq Key] in
theorem nodup_visited {places : List ℕ} (distinct : places.Nodup)
    (unique : ∀ left ∈ places, ∀ right ∈ places, ∀ key first second,
      table left = some (key, first) → table right = some (key, second) → left = right) :
    ((places.filterMap table).map Prod.fst).Nodup := by
  induction places with
  | nil => exact nodup_nil
  | cons place places ih =>
    obtain ⟨fresh, distinct⟩ := List.nodup_cons.mp distinct
    have rest := ih distinct fun left leftIn right rightIn =>
      unique left (mem_cons_of_mem _ leftIn) right (mem_cons_of_mem _ rightIn)
    cases held : table place with
    | none => rwa [filterMap_cons_none held]
    | some entry =>
      obtain ⟨key, value⟩ := entry
      rw [filterMap_cons_some held, map_cons, nodup_cons]
      refine ⟨?_, rest⟩
      intro again
      obtain ⟨⟨other, second⟩, visited, same⟩ := List.mem_map.mp again
      obtain ⟨cell, inside, found⟩ := List.mem_filterMap.mp visited
      cases same
      have equal :=
        unique place mem_cons_self cell (mem_cons_of_mem _ inside) key value second held found
      exact fresh (equal ▸ inside)

end Traversal

theorem Good.shows (good : Good hash ht map) : Shows hash ht map where
  get := good.get
  size := good.size
  traversal := by
    refine ⟨_, traverse_eq ht, ?_, ?_⟩
    · apply nodup_visited nodup_range
      intro left leftInside right rightInside
      exact good.represents.unique left (List.mem_range.mp leftInside) right
        (List.mem_range.mp rightInside)
    · intro key value
      rw [mem_filterMap, good.represents.entries]
      exact exists_congr fun place => and_congr_left' mem_range

theorem Good.run {ht : HashTable (KeyOf kind) Value} {map : KeyOf kind → Option Value}
    (good : Good (hashKey kind) ht map) : AllShown ht map calls := by
  induction calls with
  | done => exact good.shows
  | set granted key value rest ih =>
    obtain ⟨code, after, performed, returned, kept⟩ := good.set granted key value
    exact ⟨good.shows, code, after, performed, returned, fun free => ih (kept free)⟩
  | get key rest ih => exact ⟨good.shows, good.get key, ih good⟩
  | remove key rest ih =>
    obtain ⟨after, performed, kept⟩ := good.remove
    exact ⟨good.shows, after, performed, ih kept⟩
  | removeAll next rest ih => exact ⟨good.shows, ih (good_removeAll good)⟩

end Orcm.OpalHashTable
