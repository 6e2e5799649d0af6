import Orcm.Attributes
import Orcm.KeyedList
import Orcm.TransitionSystem

/-!
Lists of attributes, `orte/util/attr.c`, compared with the history of calls: what is stored under a
key is what the last successful `set` since the last `remove` put there.
-/

namespace Orcm.AttributeList

open DssTypes Attributes KeyedList TransitionSystem

variable {machine : Machine}

abbrev Key := Word .two

/-- Whether an attribute was found, and the value that was handed out. An error of `unload` is only
logged. -/
def orteGetAttribute (attributes : List (Attribute machine)) (key : Key) (data : Destination)
    (type : AttrType) :
    Bool × Option (AttrValue machine) :=
  match lookup Attribute.key key attributes with
  | none => (false, none)
  | some kv =>
    if kv.value.type.code ≠ type.code then (false, none)
    else if data = .absent then (true, none)
    else (true, (orteAttrUnload machine kv.value data).toOption)

/-- Whether an attribute can be released. Its destructor destructs the buffer of an `OPAL_BUFFER`,
which nothing has constructed: the class pointer of the buffer is `NULL`. -/
def releasable : AttrType → Bool
  | .buffer => false
  | _ => true

def orteSetAttribute (attributes : List (Attribute machine)) (key : Key) (is_local : Bool)
    (type : AttrType)
    (data : Option (Source machine type)) : Result Unit × List (Attribute machine) :=
  match lookup Attribute.key key attributes with
  | some kv =>
    if kv.value.type.code ≠ type.code then (.error (.error .typeMismatch), attributes)
    else
      match orteAttrLoad machine type data with
      | .ok data => (.ok (), replace Attribute.key key { kv with value := ⟨type, data⟩ } attributes)
      | .error fault => (.error fault, attributes)
  | none =>
    match orteAttrLoad machine type data with
    | .ok data => (.ok (), attributes ++ [⟨key, is_local, ⟨type, data⟩⟩])
    -- the new object is released
    | .error fault => (if releasable type then .error fault else Result.undefined, attributes)

def orteRemoveAttribute (attributes : List (Attribute machine)) (key : Key) :
    Result (List (Attribute machine)) :=
  if (lookup Attribute.key key attributes).all (releasable ·.value.type) then
    .ok (erase Attribute.key key attributes)
  else Result.undefined

inductive Request (machine : Machine) where
  | set (key : Key) (is_local : Bool) (type : AttrType) (data : Option (Source machine type))
  | get (key : Key) (data : Destination) (type : AttrType)
  | remove (key : Key)

def Request.key : Request machine → Key
  | .set key _ _ _ => key
  | .get key _ _ => key
  | .remove key => key

/-- The list after a call, if the call is defined. -/
def handle (attributes : List (Attribute machine)) :
    Request machine → Option (List (Attribute machine))
  | .set key is_local type data =>
    match orteSetAttribute attributes key is_local type data with
    | (.error .undefined, _) => none
    | (_, after) => some after
  | .get _ _ _ => some attributes
  | .remove key => (orteRemoveAttribute attributes key).toOption

def attributeSystem (machine : Machine) : System (List (Attribute machine)) (Request machine) where
  initial attributes := attributes = []
  step := handle

/-- Calls that changed something, the latest first. -/
inductive Event (machine : Machine) where
  | set (key : Key) (value : AttrValue machine)
  | removed (key : Key)

/-- A `set` enters the history when it returns success. -/
def record (history : List (Event machine)) (attributes : List (Attribute machine)) :
    Request machine → List (Attribute machine) → List (Event machine)
  | .set key is_local type data, _ =>
    if (orteSetAttribute attributes key is_local type data).1 = .ok () then
      .set key ⟨type, passed machine type data⟩ :: history
    else history
  | .get _ _ _, _ => history
  | .remove key, _ => .removed key :: history

/-- The last value successfully set under the key since its last removal. -/
def lastSet (key : Key) : List (Event machine) → Option (AttrValue machine)
  | [] => none
  | .set other value :: rest => if key = other then some value else lastSet key rest
  | .removed other :: rest => if key = other then none else lastSet key rest

def stored (key : Key) (attributes : List (Attribute machine)) : Option (AttrValue machine) :=
  (lookup Attribute.key key attributes).map Attribute.value

/-- A byte object has the bytes it says, `NULL` is not stored under a type that `unload` has no case
for, and no attribute of type `OPAL_BUFFER` is released: a new one is set to `NULL`, and none is
removed. -/
def allowed (attributes : List (Attribute machine)) : Request machine → Prop
  | .set key _ type data =>
    readable machine type data = true ∧ (data = none → unloadable type = true) ∧
      (type = .buffer → data = none ∨ (stored key attributes).isSome)
  | .get _ _ _ => True
  | .remove key => ∀ value, stored key attributes = some value → value.type ≠ .buffer

variable {type : AttrType} {attributes : List (Attribute machine)} {history : List (Event machine)}

theorem load_eq_ok (ok : orteAttrLoad machine type data = .ok loaded) :
    loaded = passed machine type data ∧ (data = none ∨ loadable type = true) := by
  unfold orteAttrLoad at ok
  split at ok
  · cases ok
  · rename_i supported
    split at ok
    · cases ok
      refine ⟨rfl, ?_⟩
      cases data <;> simp_all
    · cases ok

variable (key : Key)

/-- A `set` either succeeds and changes what is stored under its key, or fails and changes
nothing. -/
theorem set_cases (is_local : Bool) (data : Option (Source machine type))
    (unique : Unique Attribute.key attributes) :
    let outcome := orteSetAttribute attributes key is_local type data
    (outcome.1 ≠ .ok () ∧ outcome.2 = attributes) ∨
      (outcome.1 = .ok () ∧ Unique Attribute.key outcome.2 ∧ (data = none ∨ loadable type = true) ∧
        ∀ other, stored other outcome.2 =
          if other = key then some ⟨type, passed machine type data⟩
            else stored other attributes) := by
  unfold orteSetAttribute
  rcases found : lookup Attribute.key key attributes with _ | kv
  · rcases loads : orteAttrLoad machine type data with fault | loaded
    · exact .inl ⟨by simp only; split <;> simp [Result.undefined], rfl⟩
    · obtain ⟨rfl, source⟩ := load_eq_ok loads
      refine .inr ⟨rfl, unique_append Attribute.key ⟨key, is_local, _⟩ attributes unique found,
        source, fun other => ?_⟩
      simp only [stored, lookup_append Attribute.key other ⟨key, is_local, _⟩ found]
      split <;> rfl
  · by_cases mismatch : kv.value.type.code ≠ type.code
    · simp only [if_pos mismatch]
      exact .inl ⟨by simp, trivial⟩
    · simp only [if_neg mismatch]
      have same : kv.key = key := lookup_key Attribute.key key kv attributes found
      rcases loads : orteAttrLoad machine type data with fault | loaded
      · exact .inl ⟨by simp, rfl⟩
      · obtain ⟨rfl, source⟩ := load_eq_ok loads
        refine .inr ⟨rfl, unique_replace Attribute.key key _ attributes same unique, source,
          fun other => ?_⟩
        have after := lookup_replace Attribute.key key other
          { kv with value := ⟨type, passed machine type data⟩ } attributes same
        rw [stored, after, found]
        split <;> rfl

theorem remove_eq_ok {after : List (Attribute machine)}
    (removes : orteRemoveAttribute attributes key = .ok after) :
    after = erase Attribute.key key attributes := by
  rw [orteRemoveAttribute] at removes
  split at removes
  · cases removes
    rfl
  · cases removes

theorem stored_erase (other : Key) (unique : Unique Attribute.key attributes) :
    stored other (erase Attribute.key key attributes) = if other = key then none
      else stored other attributes := by
  simp only [stored, lookup_erase Attribute.key key attributes other unique]
  split <;> rfl

theorem handle_set {is_local : Bool} {data : Option (Source machine type)}
    {after : List (Attribute machine)}
    (handles : handle attributes (.set key is_local type data) = some after) :
    after = (orteSetAttribute attributes key is_local type data).2 := by
  simp only [handle] at handles
  split at handles
  · cases handles
  · cases handles
    simp_all

theorem handle_remove {after : List (Attribute machine)}
    (handles : handle attributes (.remove key) = some after) :
    after = erase Attribute.key key attributes := by
  rw [handle] at handles
  cases removes : orteRemoveAttribute attributes key with
  | error fault => simp [removes, Except.toOption] at handles
  | ok result =>
    simp only [removes, Except.toOption, Option.some.injEq] at handles
    exact handles ▸ remove_eq_ok key removes

theorem stored_handle_other {request : Request machine} {after : List (Attribute machine)}
    {other : Key}
    (unique : Unique Attribute.key attributes) (handles : handle attributes request = some after)
    (different : other ≠ request.key) : stored other after = stored other attributes := by
  cases request with
  | set key is_local type data =>
    rw [handle_set key handles]
    rcases set_cases key is_local data unique with ⟨-, same⟩ | ⟨-, -, -, changed⟩
    · rw [same]
    · exact (changed other).trans (if_neg different)
  | get =>
    cases handles
    rfl
  | remove key =>
    rw [handle_remove key handles]
    exact (stored_erase key other unique).trans (if_neg different)

theorem load_of_readable {data : Option (Source machine type)}
    (readable : readable machine type data = true) :
    orteAttrLoad machine type data ≠ .error .undefined := by
  unfold orteAttrLoad
  split <;> simp

theorem handle_of_allowed {request : Request machine} (permitted : allowed attributes request) :
    ∃ after, handle attributes request = some after := by
  cases request with
  | set key is_local type data =>
    obtain ⟨readable, -, released⟩ := permitted
    have loads := load_of_readable readable
    have known : (orteSetAttribute attributes key is_local type data).1 ≠ .error .undefined := by
      unfold orteSetAttribute
      rcases found : lookup Attribute.key key attributes with _ | kv
      · cases loaded : orteAttrLoad machine type data with
        | ok => simp
        | error fault =>
          have kind : releasable type = true := by
            cases type <;> try rfl
            rcases released rfl with rfl | there
            · simp [orteAttrLoad, Attributes.readable] at loaded
            · simp [stored, found] at there
          simpa [kind, loaded] using loads
      · dsimp only
        split
        · simp
        · cases loaded : orteAttrLoad machine type data <;> simp_all
    rw [handle]
    split
    · simp_all
    · exact ⟨_, rfl⟩
  | get => exact ⟨attributes, rfl⟩
  | remove key =>
    have kind : (lookup Attribute.key key attributes).all (releasable ·.value.type) = true := by
      rcases found : lookup Attribute.key key attributes with _ | kv
      · rfl
      · have differs := permitted kv.value (by simp [stored, found])
        rw [Option.all_some]
        cases type : kv.value.type <;> simp_all [releasable]
    exact ⟨erase Attribute.key key attributes, by simp [handle, orteRemoveAttribute, kind,
      Except.toOption]⟩

theorem get_eq :
    orteGetAttribute attributes key data type =
      match stored key attributes with
      | none => (false, none)
      | some value =>
        if value.type.code ≠ type.code then (false, none)
        else if data = .absent then (true, none)
        else (true, (orteAttrUnload machine value data).toOption) := by
  unfold orteGetAttribute stored
  cases lookup Attribute.key key attributes <;> rfl

structure Follows (attributes : List (Attribute machine)) (history : List (Event machine)) :
    Prop where
  unique : Unique Attribute.key attributes
  stored : ∀ key, stored key attributes = lastSet key history
  unloadable : ∀ key value, lastSet key history = some value → unloadable value.type = true

theorem follows_set (follows : Follows attributes history)
    (permitted : data = none → unloadable type = true) :
    Follows (orteSetAttribute attributes key is_local type data).2
      (if (orteSetAttribute attributes key is_local type data).1 = .ok () then
        .set key ⟨type, passed machine type data⟩ :: history else history) := by
  rcases set_cases key is_local data follows.unique with ⟨failed, same⟩ | ⟨ok, unique,
    source, changed⟩
  · rw [if_neg failed, same]
    exact follows
  · rw [if_pos ok]
    refine ⟨unique, fun other => ?_, fun other value last => ?_⟩
    · rw [changed other, lastSet, follows.stored other]
    · simp only [lastSet] at last
      split at last
      · cases last
        rcases source with null | known
        · exact permitted null
        · cases type <;> simp_all [loadable, Attributes.unloadable]
      · exact follows.unloadable other value last

theorem follows_remove (follows : Follows attributes history) :
    Follows (erase Attribute.key key attributes) (.removed key :: history) := by
  refine ⟨unique_erase Attribute.key key attributes follows.unique, fun other => ?_,
    fun other value last => ?_⟩
  · rw [stored_erase key other follows.unique, lastSet, follows.stored other]
  · simp only [lastSet] at last
    split at last
    · cases last
    · exact follows.unloadable other value last

theorem reached_follows
    (reached : Reached ((attributeSystem machine).observe [] record)
      (fun observed => allowed observed.1) observed) :
    Follows observed.1 observed.2 := by
  refine Reached.invariant (fun observed => Follows observed.1 observed.2) ?_ ?_ observed reached
  · rintro ⟨attributes, history⟩ ⟨rfl, rfl⟩
    exact ⟨List.nodup_nil, fun _ => rfl, fun _ _ last => by cases last⟩
  · rintro ⟨attributes, history⟩ request ⟨after, later⟩ follows permitted steps
    obtain ⟨steps, recorded⟩ := (observe_step ..).mp steps
    simp only at steps recorded ⊢
    rw [recorded]
    cases request with
    | set key is_local =>
      rw [handle_set key steps]
      exact follows_set key follows permitted.2.1
    | get =>
      cases steps
      exact follows
    | remove key =>
      rw [handle_remove key steps]
      exact follows_remove key follows

/-- The answer of `get` for a caller with storage, from the history of calls. -/
def expected (history : List (Event machine)) (key : Key) (type : AttrType) :
    Bool × Option (AttrValue machine) :=
  match lastSet key history with
  | some value => if value.type.code = type.code then (true, some value) else (false, none)
  | none => (false, none)

theorem get_expected (follows : Follows attributes history) (key : Key) (type : AttrType) :
    orteGetAttribute attributes key .storage type = expected history key type := by
  rw [get_eq, follows.stored key, expected]
  rcases last : lastSet key history with _ | value
  · rfl
  · have known := follows.unloadable key value last
    by_cases same : value.type.code = type.code
    · simp [same, orteAttrUnload, known, Except.toOption]
    · simp [same]

/-- After any sequence of allowed calls: keys are unique; `get` returns the last value and type
successfully set; a `set` with another type fails and changes nothing; a call does not change the
answer for another key; and the next allowed call is defined. -/
theorem attributes_are_finite_map (attributes : List (Attribute machine))
    (history : List (Event machine))
    (reached : Reached ((attributeSystem machine).observe [] record)
      (fun observed => allowed observed.1)
      (attributes, history)) :
    (attributes.map Attribute.key).Nodup ∧
    (∀ key type, orteGetAttribute attributes key .storage type = expected history key type) ∧
    (∀ key is_local type data value, lastSet key history = some value →
      value.type.code ≠ type.code →
      orteSetAttribute attributes key is_local type data = (.error (.error .typeMismatch),
        attributes)) ∧
    (∀ request after key data type, handle attributes request = some after → key ≠ request.key →
      orteGetAttribute after key data type = orteGetAttribute attributes key data type) ∧
    ∀ request, allowed attributes request → ∃ after, handle attributes request = some after := by
  have follows := reached_follows reached
  refine ⟨follows.unique, get_expected follows, ?_, ?_, fun request => handle_of_allowed⟩
  · intro key is_local type data value last differs
    obtain ⟨kv, found, rfl⟩ := Option.map_eq_some_iff.mp ((follows.stored key).trans last)
    unfold orteSetAttribute
    rw [found]
    exact if_pos differs
  · intro request after key data type handles different
    rw [get_eq, get_eq, stored_handle_other follows.unique handles different]

theorem attributes_are_finite_map_one :
    orteGetAttribute ([⟨1, false, ⟨.scalar .int32 rfl, (5 : Word .four)⟩⟩] : List (Attribute .lp64))
      1 .storage
        (.scalar .int32 rfl) =
      expected [.set 1 ⟨.scalar .int32 rfl, (5 : Word .four)⟩] 1 (.scalar .int32 rfl) := by
  refine (attributes_are_finite_map _ _ ?_).2.1 1 (.scalar .int32 rfl)
  refine .step ([], [])
    (.set 1 false (.scalar .int32 rfl) (some (5 : Word .four))) _ (.initial _ ⟨rfl, rfl⟩) ?_ rfl
  refine ⟨rfl, ?_, ?_⟩
  · intro null
    cases null
  · intro buffer
    cases buffer

/-- A double set to `NULL` is accepted, and `get` then reports success without handing out a
value. -/
theorem null_double_is_set_but_not_returned :
    ∃ (attributes : List (Attribute .lp64)) (history : List (Event .lp64)),
      Reachable ((attributeSystem .lp64).observe [] record) (attributes, history) ∧
      lastSet 1 history = some ⟨.other 17 rfl, ()⟩ ∧
      orteGetAttribute attributes 1 .storage (.other 17 rfl) = (true, none) :=
  ⟨_, _, .step ([], []) (.set 1 false (.other 17 rfl) none) _ (.initial _ ⟨rfl, rfl⟩) trivial rfl,
    rfl, rfl⟩

end Orcm.AttributeList
