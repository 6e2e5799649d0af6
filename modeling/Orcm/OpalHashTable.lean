import Mathlib.Data.List.Range
import Orcm.ErrorCode
import Orcm.LinearProbing

/-!
`opal_hash_table_t` of `opal/class/opal_hash_table.c`. The functions for the three kinds of keys
differ in how a key is hashed and compared; a table holds keys of one kind until everything is
removed. A loop that does not end within as many turns as there are cells has the result `none`.
Memory for a larger table may be refused; that for the first table and for copies of keys is
granted. A table that has been allocated is so small that its numbers do not wrap.
-/

namespace Orcm.OpalHashTable

open LinearProbing

variable {Key Other Value : Type}

/-- A cell that is not valid is `none`. -/
structure HashTable (Key Value : Type) where
  ht_table : ℕ → Option (Key × Value)
  ht_capacity : ℕ
  ht_size : ℕ
  ht_growth_trigger : ℕ
  ht_density_numer : ℕ
  ht_density_denom : ℕ
  ht_growth_numer : ℕ
  ht_growth_denom : ℕ

/-- Rounded up to one more than a multiple of thirty. -/
def hashRoundCapacityUp (capacity : ℕ) : ℕ := (capacity + 29) / 30 * 30 + 1

/-- The kind of the keys is forgotten as well. -/
def hashTableRemoveAll (ht : HashTable Key Value) : HashTable Other Value :=
  { ht with
    ht_table := fun _ => none
    ht_size := 0 }

section Generic
variable [DecidableEq Key] (hash : Key → ℕ)

def homeOf (capacity : ℕ) (key : Key) : ℕ := hash key % capacity

def copyElt (new_capacity : ℕ) (new_table : ℕ → Option (Key × Value)) (elt : Key × Value) :
    Option (ℕ → Option (Key × Value)) :=
  (scan new_capacity (fun ii => (new_table ii).isNone) new_capacity
    (homeOf hash new_capacity elt.1)).map fun ii =>
    Function.update new_table ii (some elt)

def copyElts (old_table : ℕ → Option (Key × Value)) (new_capacity : ℕ) :
    ℕ → Option (ℕ → Option (Key × Value))
  | 0 => some fun _ => none
  | jj + 1 =>
    (copyElts old_table new_capacity jj).bind fun new_table =>
      match old_table jj with
      | some elt => copyElt hash new_capacity new_table elt
      | none => some new_table

/-- With the code that is returned; none is `OPAL_SUCCESS`. -/
def hashGrow (granted : Bool) (ht : HashTable Key Value) :
    Option (Option ErrorCode × HashTable Key Value) :=
  let new_capacity := hashRoundCapacityUp (ht.ht_capacity * ht.ht_growth_numer / ht.ht_growth_denom)
  if !granted then some (some .outOfResource, ht)
  else (copyElts hash ht.ht_table new_capacity ht.ht_capacity).map fun new_table =>
    (none, { ht with
      ht_table := new_table
      ht_capacity := new_capacity
      ht_growth_trigger := new_capacity * ht.ht_density_numer / ht.ht_density_denom })

def probe (ht : HashTable Key Value) (key : Key) : Option ℕ :=
  find ht.ht_capacity (homeOf hash ht.ht_capacity) ht.ht_table key

/-- `OPAL_ERR_NOT_FOUND` is `some none`. -/
def hashTableGetValue (ht : HashTable Key Value) (key : Key) : Option (Option Value) :=
  (probe hash ht key).map fun ii => (ht.ht_table ii).map Prod.snd

/-- The value is in the table also where it could not be grown. -/
def hashTableSetValue (granted : Bool) (ht : HashTable Key Value) (key : Key) (value : Value) :
    Option (Option ErrorCode × HashTable Key Value) :=
  (probe hash ht key).bind fun ii =>
    match ht.ht_table ii with
    | none =>
      let ht :=
        { ht with ht_table := Function.update ht.ht_table ii (some (key, value)),
                  ht_size := ht.ht_size + 1 }
      if ht.ht_growth_trigger ≤ ht.ht_size then hashGrow hash granted ht else some (none, ht)
    | some _ =>
      some (none, { ht with ht_table := Function.update ht.ht_table ii (some (key, value)) })

/-- The elements that follow are placed again. -/
def hashTableRemoveEltAt (ht : HashTable Key Value) (ii : ℕ) :
    Option (Option ErrorCode × HashTable Key Value) :=
  match ht.ht_table ii with
  | none => some (some .error, ht)
  | some _ =>
    (rehash ht.ht_capacity (fun elt => homeOf hash ht.ht_capacity elt.1) ht.ht_capacity (ii + 1)
      (Function.update ht.ht_table ii none)).map fun table =>
        (none, { ht with ht_table := table, ht_size := ht.ht_size - 1 })

/-- Without an error code the value has been removed. -/
def hashTableRemoveValue (ht : HashTable Key Value) (key : Key) :
    Option (Option ErrorCode × HashTable Key Value) :=
  (probe hash ht key).bind fun ii =>
    match ht.ht_table ii with
    | none => some (some .notFound, ht)
    | some _ => hashTableRemoveEltAt hash ht ii

end Generic

def firstValid (table : ℕ → Option (Key × Value)) : ℕ → ℕ → Option ℕ
  | 0, _ => none
  | left + 1, ii => if (table ii).isSome then some ii else firstValid table left (ii + 1)

def hashTableGetNextElt (ht : HashTable Key Value) (prev_elt : Option ℕ) : Option ℕ :=
  let ii := (prev_elt.map (· + 1)).getD 0
  firstValid ht.ht_table (ht.ht_capacity - ii) ii

def hashTableGetNextKey (ht : HashTable Key Value) (in_node : Option ℕ) :
    Option ((Key × Value) × ℕ) :=
  (hashTableGetNextElt ht in_node).bind fun elt => (ht.ht_table elt).map fun entry => (entry, elt)

def hashTableGetFirstKey (ht : HashTable Key Value) : Option ((Key × Value) × ℕ) :=
  hashTableGetNextKey ht none

def traverseFrom (ht : HashTable Key Value) :
    ℕ → Option ((Key × Value) × ℕ) → Option (List (Key × Value))
  | _, none => some []
  | 0, some _ => none
  | fuel + 1, some (entry, node) =>
    (traverseFrom ht fuel (hashTableGetNextKey ht (some node))).map fun rest => entry :: rest

def traverse (ht : HashTable Key Value) : Option (List (Key × Value)) :=
  traverseFrom ht ht.ht_capacity (hashTableGetFirstKey ht)

inductive Kind where
  | uint32
  | uint64
  | ptr

abbrev KeyOf : Kind → Type
  | .uint32 => BitVec 32
  | .uint64 => BitVec 64
  | .ptr => List (BitVec 8)

instance (kind : Kind) : DecidableEq (KeyOf kind) :=
  match kind with
  | .uint32 => inferInstanceAs (DecidableEq (BitVec 32))
  | .uint64 => inferInstanceAs (DecidableEq (BitVec 64))
  | .ptr => inferInstanceAs (DecidableEq (List (BitVec 8)))

/-- `HASH_MULTIPLIER` is 31. -/
def hashHashKeyPtr (key : List (BitVec 8)) : ℕ :=
  key.foldl (fun hash byte => (31 * hash + byte.toNat) % 2 ^ 64) 0

def hashKey : (kind : Kind) → KeyOf kind → ℕ
  | .uint32, key => BitVec.toNat key
  | .uint64, key => BitVec.toNat key
  | .ptr, key => hashHashKeyPtr key

/-- A sequence of calls; the kind of the keys may change when everything is removed. -/
inductive Calls (Value : Type) : Kind → Type where
  | done {kind : Kind} : Calls Value kind
  | set {kind : Kind} (granted : Bool) (key : KeyOf kind) (value : Value)
      (rest : Calls Value kind) :
      Calls Value kind
  | get {kind : Kind} (key : KeyOf kind) (rest : Calls Value kind) : Calls Value kind
  | remove {kind : Kind} (key : KeyOf kind) (rest : Calls Value kind) : Calls Value kind
  | removeAll {kind : Kind} (next : Kind) (rest : Calls Value next) : Calls Value kind

/-- Every search ends with what the map holds, the size is the number of live keys, and a traversal
visits each of them once. -/
structure Shows [DecidableEq Key] (hash : Key → ℕ) (ht : HashTable Key Value)
    (map : Key → Option Value) : Prop where
  get : ∀ key, hashTableGetValue hash ht key = some (map key)
  size : ht.ht_size = (live map).ncard
  traversal : ∃ visited, traverse ht = some visited ∧ (visited.map Prod.fst).Nodup ∧
    ∀ key value, (key, value) ∈ visited ↔ map key = some value

/-- Each call ends, returns what the map says and changes the table as the map is changed, up to the
end or until memory has been refused and no cell is left free. -/
def AllShown {Value : Type} :
    {kind : Kind} → HashTable (KeyOf kind) Value → (KeyOf kind → Option Value) →
    Calls Value kind → Prop
  | kind, ht, map, .done => Shows (hashKey kind) ht map
  | kind, ht, map, .set granted key value rest => Shows (hashKey kind) ht map ∧
      ∃ code after, hashTableSetValue (hashKey kind) granted ht key value = some (code, after) ∧
        (code = none ∨ granted = false ∧ code = some .outOfResource) ∧
        (code = none ∨ after.ht_size < after.ht_capacity →
          AllShown after (Function.update map key (some value)) rest)
  | kind, ht, map, .get key rest => Shows (hashKey kind) ht map ∧
      hashTableGetValue (hashKey kind) ht key = some (map key) ∧ AllShown ht map rest
  | kind, ht, map, .remove key rest => Shows (hashKey kind) ht map ∧
      ∃ after, hashTableRemoveValue (hashKey kind) ht key =
          some (if map key = none then some .notFound else none, after) ∧
        AllShown after (Function.update map key none) rest
  | kind, ht, map, .removeAll _ rest => Shows (hashKey kind) ht map ∧
      AllShown (hashTableRemoveAll ht) (fun _ => none) rest

end Orcm.OpalHashTable
