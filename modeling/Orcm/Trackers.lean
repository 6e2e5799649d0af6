import Orcm.CentralRuns

/-!
The list of ongoing collectives under any sequence of lookups, completions and releases.
-/

namespace Orcm.Trackers

open DssTypes KeyedList CentralAllgather CentralRuns

variable {Data : Type}

/-- A lookup; what is reported to the tracker at an index; the removal of the tracker at an
index. -/
inductive Operation (Data : Type) where
  | lookup (sig : Signature) (create : Bool)
  | complete (index nreported : Nat) (bucket : List Data) (cbfunc : Option Callback)
  | release (index : Nat)

/-- The signature that the copy in a tracker has. -/
def copied (sig : Signature) : List ProcessName × BitVec 32 := (sig.names.getD [], sig.seq_num)

section Runs

variable (site : Site) (me : Vpid)

/-- `orte_grpcomm_base_get_tracker`. With an absent signature the search ends at the first
tracker. -/
def lookupTracker (sig : Signature) (create : Bool) (ongoing : List (Coll Data)) :
    Result (Option (Coll Data) × List (Coll Data)) :=
  if create then getTracker site me sig ongoing
  else .ok (sig.names.bind fun names => KeyedList.lookup Coll.key (names, sig.seq_num) ongoing,
    ongoing)

def perform (ongoing : List (Coll Data)) :
    Operation Data → Result (Option (Coll Data) × List (Coll Data))
  | .lookup sig create => lookupTracker site me sig create ongoing
  | .complete index nreported bucket cbfunc =>
    .ok (none, ongoing.modify index fun coll => { coll with nreported, bucket, cbfunc })
  | .release index => .ok (none, ongoing.eraseIdx index)

def Finds (ongoing : List (Coll Data)) (answer : Option (Coll Data)) : Operation Data → Prop
  | .lookup sig _ => ∀ coll ∈ ongoing, coll.key = copied sig → answer = some coll
  | _ => True

/-- Along the operations no two trackers have equal signatures, and every lookup is defined and
returns the tracker that is there. -/
def OneTracker : List (Operation Data) → List (Coll Data) → Prop
  | [], ongoing => Unique Coll.key ongoing
  | operation :: rest, ongoing =>
    Unique Coll.key ongoing ∧
      match perform site me ongoing operation with
      | .error _ => False
      | .ok (answer, after) => Finds ongoing answer operation ∧ OneTracker rest after

variable {site me} {ongoing after : List (Coll Data)} {answer : Option (Coll Data)}

theorem OneTracker.unique (one : OneTracker site me operations ongoing) :
    Unique Coll.key ongoing := by
  cases operations with
  | nil => exact one
  | cons => exact one.1

end Runs

end Orcm.Trackers
