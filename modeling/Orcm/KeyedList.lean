import Mathlib.Data.List.Nodup

/-!
Lists of entries that are found by a key, searched from the front. While keys are unique such a list
is a finite map.
-/

namespace Orcm.KeyedList

open List

variable {Entry Key : Type} [DecidableEq Key] (keyOf : Entry → Key)

def lookup (key : Key) (entries : List Entry) : Option Entry :=
  entries.find? fun entry => keyOf entry = key

def replace (key : Key) (entry : Entry) : List Entry → List Entry
  | [] => []
  | first :: rest => if keyOf first = key then entry :: rest else first :: replace key entry rest

def erase (key : Key) (entries : List Entry) : List Entry :=
  entries.eraseP fun entry => keyOf entry = key

def Unique (entries : List Entry) : Prop := (entries.map keyOf).Nodup

variable (key : Key) (entry : Entry) (entries : List Entry)

theorem lookup_key (found : lookup keyOf key entries = some entry) : keyOf entry = key := by
  simpa using find?_some found

variable {entries} {keyOf}

theorem lookup_eq_none : lookup keyOf key entries = none ↔ key ∉ entries.map keyOf := by
  simp [lookup]

theorem lookup_of_mem (unique : Unique keyOf entries) (member : entry ∈ entries) :
    lookup keyOf (keyOf entry) entries = some entry := by
  cases found : lookup keyOf (keyOf entry) entries with
  | none => exact absurd (mem_map_of_mem member) ((lookup_eq_none ..).mp found)
  | some =>
    exact congrArg some (inj_on_of_nodup_map unique (mem_of_find?_eq_some found) member
      (lookup_key _ _ _ _ found))

theorem keys_replace (same : keyOf entry = key) :
    (replace keyOf key entry entries).map keyOf = entries.map keyOf := by
  induction entries with
  | nil => rfl
  | cons first rest ih =>
    simp only [replace]
    split
    · rename_i hit
      simp [same, hit]
    · simp [ih]

variable (keyOf)

theorem lookup_replace (other : Key) (entry : Entry) (entries : List Entry)
    (same : keyOf entry = key) :
    lookup keyOf other (replace keyOf key entry entries) =
      if other = key then (lookup keyOf key entries).map fun _ => entry
        else lookup keyOf other entries := by
  induction entries with
  | nil => simp [lookup, replace]
  | cons first rest ih =>
    simp only [lookup, replace] at ih ⊢
    by_cases hit : keyOf first = key <;> by_cases wanted : other = key
    · simp [hit, wanted, same]
    · simp [hit, wanted, same, Ne.symm wanted]
    · subst wanted
      simp [hit, ih]
    · rw [if_neg wanted] at ih
      simp [hit, wanted, find?_cons, ih]

variable (entries)

theorem unique_replace (same : keyOf entry = key)
    (unique : Unique keyOf entries) : Unique keyOf (replace keyOf key entry entries) := by
  unfold Unique
  rwa [keys_replace key entry same]

theorem mem_replace (member : other ∈ replace keyOf key entry entries) :
    other = entry ∨ other ∈ entries := by
  induction entries with
  | nil => cases member
  | cons first rest ih =>
    rw [replace] at member
    split at member
    · rcases List.mem_cons.mp member with same | later
      · exact .inl same
      · exact .inr (mem_cons_of_mem _ later)
    · rcases List.mem_cons.mp member with same | later
      · exact .inr (same ▸ mem_cons_self)
      · exact (ih later).imp_right (mem_cons_of_mem _)

theorem lookup_append (other : Key) (entry : Entry) {entries : List Entry}
    (fresh : lookup keyOf (keyOf entry) entries = none) :
    lookup keyOf other (entries ++ [entry]) = if other = keyOf entry then some entry
      else lookup keyOf other entries := by
  unfold lookup at fresh ⊢
  by_cases wanted : other = keyOf entry
  · simp [wanted, fresh]
  · simp [wanted, Ne.symm wanted]

theorem unique_append (unique : Unique keyOf entries)
    (fresh : lookup keyOf (keyOf entry) entries = none) : Unique keyOf (entries ++ [entry]) := by
  have absent := (lookup_eq_none (keyOf entry)).mp fresh
  unfold Unique
  rw [map_append, map_singleton, ← concat_eq_append]
  exact unique.concat absent

theorem replace_append (fresh : Entry) (same : keyOf fresh = key)
    (absent : lookup keyOf key entries = none) :
    replace keyOf key entry (entries ++ [fresh]) = entries ++ [entry] := by
  induction entries with
  | nil => simp [replace, same]
  | cons first rest ih =>
    rw [lookup_eq_none, map_cons, mem_cons, not_or] at absent
    rw [cons_append, replace, if_neg (Ne.symm absent.1), ih ((lookup_eq_none ..).mpr absent.2),
      cons_append]

theorem unique_erase (unique : Unique keyOf entries) :
    Unique keyOf (erase keyOf key entries) :=
  unique.sublist (List.eraseP_sublist.map keyOf)

theorem lookup_erase (other : Key) (unique : Unique keyOf entries) :
    lookup keyOf other (erase keyOf key entries) = if other = key then none
      else lookup keyOf other entries := by
  induction entries with
  | nil => simp [lookup, erase]
  | cons first rest ih =>
    obtain ⟨absent, unique⟩ := List.nodup_cons.mp unique
    have later := ih unique
    unfold erase at later ⊢
    by_cases hit : keyOf first = key
    · rw [eraseP_cons_of_pos (by simpa using hit)]
      by_cases wanted : other = key
      · rw [if_pos wanted, lookup_eq_none, wanted, ← hit]
        exact absent
      · rw [if_neg wanted]
        simp [lookup, hit, Ne.symm wanted]
    · rw [eraseP_cons_of_neg (by simpa using hit)]
      by_cases own : keyOf first = other
      · have different : other ≠ key := fun same => hit (own.trans same)
        simp [lookup, own, different]
      · have skip :
            ∀ entries, lookup keyOf other (first :: entries) = lookup keyOf other entries := by
          intro entries
          simp [lookup, own]
        rw [skip, skip, later]

end Orcm.KeyedList
