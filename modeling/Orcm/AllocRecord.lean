import Orcm.AttributeCodec

/-!
`orcm_pack_alloc` and `orcm_unpack_alloc` of `orcm/mca/scd/base/scd_dt_fns.c`. A string is absent
when its pointer is `NULL`.
-/

namespace Orcm.AllocRecord

open Cursor DssTypes DssBuffer DssPack DssUnpack DssWire DssTransfer Attributes AttributeCodec

/-- `orcm_alloc_t` -/
structure Alloc (machine : Machine) where
  id : Word .eight
  priority : Word .four
  account : Option CText
  name : Option CText
  gid : Word .four
  max_nodes : Word .four
  max_pes : Word .four
  min_nodes : Word .four
  min_pes : Word .four
  begin : Word .eight
  walltime : Word .eight
  exclusive : Bool
  caller_uid : Word .four
  caller_gid : Word .four
  interactive : Bool
  originator : ProcessName
  hnp : ProcessName
  hnpname : Option CText
  hnpuri : Option CText
  parent_name : Option CText
  parent_uri : Option CText
  nodefile : Option CText
  nodes : Option CText
  queues : Option CText
  batchfile : Option CText
  notes : Option CText
  constraints : List (Attribute machine)

variable (machine : Machine) (floats : FloatText)

/-- The constraints are packed when their number is positive as an `int32_t`. -/
def packConstraints (constraints : List (Attribute machine)) : Dss Unit := do
  let j := countWord constraints.length
  packScalarBuffer machine .int32 [j]
  if 0 < j.toInt then
    constraints.forM fun attr => packTyped machine attributeCode (packAttr machine floats attr)

def packAlloc (alloc : Alloc machine) : Dss Unit := do
  packScalarBuffer machine .int64 [alloc.id]
  packScalarBuffer machine .int32 [alloc.priority]
  packScalarBuffer machine .string [alloc.account]
  packScalarBuffer machine .string [alloc.name]
  packScalarBuffer machine .int32 [alloc.gid]
  packScalarBuffer machine .int32 [alloc.max_nodes]
  packScalarBuffer machine .int32 [alloc.max_pes]
  packScalarBuffer machine .int32 [alloc.min_nodes]
  packScalarBuffer machine .int32 [alloc.min_pes]
  opalDssPackBuffer machine (.object .time) [alloc.begin]
  opalDssPackBuffer machine (.object .time) [alloc.walltime]
  packScalarBuffer machine .bool [alloc.exclusive]
  packScalarBuffer machine .uint32 [alloc.caller_uid]
  packScalarBuffer machine .uint32 [alloc.caller_gid]
  packScalarBuffer machine .bool [alloc.interactive]
  packScalarBuffer machine .name [alloc.originator]
  packScalarBuffer machine .name [alloc.hnp]
  packScalarBuffer machine .string [alloc.hnpname]
  packScalarBuffer machine .string [alloc.hnpuri]
  packScalarBuffer machine .string [alloc.parent_name]
  packScalarBuffer machine .string [alloc.parent_uri]
  packScalarBuffer machine .string [alloc.nodefile]
  packScalarBuffer machine .string [alloc.nodes]
  packScalarBuffer machine .string [alloc.queues]
  packScalarBuffer machine .string [alloc.batchfile]
  packScalarBuffer machine .string [alloc.notes]
  packConstraints machine floats alloc.constraints

def orcmPackAlloc (allocs : List (Alloc machine)) : Dss Unit :=
  allocs.forM (packAlloc machine floats)

def unpackAlloc : Dss (Alloc machine) := do
  let id ← single (unpackScalarBuffer machine .int64)
  let priority ← single (unpackScalarBuffer machine .int32)
  let account ← single (unpackScalarBuffer machine .string)
  let name ← single (unpackScalarBuffer machine .string)
  let gid ← single (unpackScalarBuffer machine .int32)
  let max_nodes ← single (unpackScalarBuffer machine .int32)
  let max_pes ← single (unpackScalarBuffer machine .int32)
  let min_nodes ← single (unpackScalarBuffer machine .int32)
  let min_pes ← single (unpackScalarBuffer machine .int32)
  let begin ← single (opalDssUnpackBuffer machine (.object .time))
  let walltime ← single (opalDssUnpackBuffer machine (.object .time))
  let exclusive ← single (unpackScalarBuffer machine .bool)
  let caller_uid ← single (unpackScalarBuffer machine .uint32)
  let caller_gid ← single (unpackScalarBuffer machine .uint32)
  let interactive ← single (unpackScalarBuffer machine .bool)
  let originator ← single (unpackScalarBuffer machine .name)
  let hnp ← single (unpackScalarBuffer machine .name)
  let hnpname ← single (unpackScalarBuffer machine .string)
  let hnpuri ← single (unpackScalarBuffer machine .string)
  let parent_name ← single (unpackScalarBuffer machine .string)
  let parent_uri ← single (unpackScalarBuffer machine .string)
  let nodefile ← single (unpackScalarBuffer machine .string)
  let nodes ← single (unpackScalarBuffer machine .string)
  let queues ← single (unpackScalarBuffer machine .string)
  let batchfile ← single (unpackScalarBuffer machine .string)
  let notes ← single (unpackScalarBuffer machine .string)
  let constraints ← unpackCounted (single (unpackScalarBuffer machine .int32))
    (unpackTyped machine attributeCode (unpackAttr machine floats))
  pure { id, priority, account, name, gid, max_nodes, max_pes, min_nodes, min_pes, begin,
         walltime, exclusive,
         caller_uid, caller_gid, interactive, originator, hnp, hnpname, hnpuri, parent_name,
         parent_uri, nodefile, nodes, queues, batchfile, notes, constraints }

def orcmUnpackAlloc (num_vals : Int) : Dss (List (Alloc machine)) :=
  repeated (unpackAlloc machine floats) num_vals.toNat

/-- A new record, as its constructor leaves it. -/
def allocCon : Alloc machine where
  id := 0
  priority := 0
  account := none
  name := none
  gid := 0
  max_nodes := 0
  max_pes := 0
  min_nodes := 0
  min_pes := 0
  begin := 0
  walltime := 0
  exclusive := true
  caller_uid := 0
  caller_gid := 0
  interactive := false
  originator := ⟨0, 0⟩
  hnp := ⟨0, 0⟩
  hnpname := none
  hnpuri := none
  parent_name := none
  parent_uri := none
  nodefile := none
  nodes := none
  queues := none
  batchfile := none
  notes := none
  constraints := []

variable {machine}

def Alloc.strings (alloc : Alloc machine) : List (Option CText) :=
  [alloc.account, alloc.name, alloc.hnpname, alloc.hnpuri, alloc.parent_name, alloc.parent_uri,
    alloc.nodefile, alloc.nodes, alloc.queues, alloc.batchfile, alloc.notes]

/-- The record with its transmitted fields: the flag `local` of the constraints is not sent. -/
def Alloc.transmitted (alloc : Alloc machine) : Alloc machine :=
  { alloc with constraints := alloc.constraints.map fun attr => { attr with is_local := true } }

def Alloc.received (alloc : Alloc machine) : Alloc machine :=
  { alloc with constraints := alloc.constraints.map (arrived floats) }

/-- Lengths that an `int32_t` can count, and constraints whose values can be sent. -/
structure Alloc.Fits (alloc : Alloc machine) : Prop where
  strings : ∀ string ∈ alloc.strings, TextsFit string
  count : alloc.constraints.length < 2147483648
  constraints : ∀ attr ∈ alloc.constraints, Sendable machine attr.value

structure Alloc.Survives (alloc : Alloc machine) : Prop where
  fits : alloc.Fits
  constraints : ∀ attr ∈ alloc.constraints, arrivedValue floats attr.value = attr.value

variable (machine) {floats}

theorem packConstraints_eq (small : constraints.length < 2147483648) :
    packConstraints machine floats constraints =
      packCounted (fun count => packScalarBuffer machine .int32 [count])
        (fun attr => packTyped machine attributeCode (packAttr machine floats attr))
          constraints := by
  have counted : (countWord constraints.length).toInt = constraints.length := count_toInt small
  simp only [packConstraints, packCounted, counted]
  cases constraints with
  | nil => rfl
  | cons first rest =>
    have positive : (0 : Int) < (first :: rest).length :=
      Int.natCast_pos.mpr (Nat.succ_pos rest.length)
    rw [if_pos positive]

theorem packAlloc_carries (fits : alloc.Fits) :
    Carries (packAlloc machine floats alloc) (unpackAlloc machine floats)
      (alloc.received floats) := by
  have text : ∀ string ∈ alloc.strings,
      Carries (packScalarBuffer machine .string [string])
        (single (unpackScalarBuffer machine .string)) string :=
    fun string member => string_carries machine string (fits.strings string member)
  simp only [Alloc.strings, List.forall_mem_cons] at text
  obtain ⟨account, name, hnpname, hnpuri, parent_name, parent_uri, nodefile, nodes, queues,
      batchfile, notes, -⟩ := text
  refine carries_bind (scalar_carries .int64 _ (by decide) trivial) ?_
  refine carries_bind (scalar_carries .int32 _ (by decide) trivial) ?_
  refine carries_bind account ?_
  refine carries_bind name ?_
  refine carries_bind (scalar_carries .int32 _ (by decide) trivial) ?_
  refine carries_bind (scalar_carries .int32 _ (by decide) trivial) ?_
  refine carries_bind (scalar_carries .int32 _ (by decide) trivial) ?_
  refine carries_bind (scalar_carries .int32 _ (by decide) trivial) ?_
  refine carries_bind (scalar_carries .int32 _ (by decide) trivial) ?_
  refine carries_bind (field_carries (.object .time) _ trivial trivial) ?_
  refine carries_bind (field_carries (.object .time) _ trivial trivial) ?_
  refine carries_bind (scalar_carries .bool _ (by decide) trivial) ?_
  refine carries_bind (scalar_carries .uint32 _ (by decide) trivial) ?_
  refine carries_bind (scalar_carries .uint32 _ (by decide) trivial) ?_
  refine carries_bind (scalar_carries .bool _ (by decide) trivial) ?_
  refine carries_bind (scalar_carries .name _ (by decide) trivial) ?_
  refine carries_bind (scalar_carries .name _ (by decide) trivial) ?_
  refine carries_bind hnpname ?_
  refine carries_bind hnpuri ?_
  refine carries_bind parent_name ?_
  refine carries_bind parent_uri ?_
  refine carries_bind nodefile ?_
  refine carries_bind nodes ?_
  refine carries_bind queues ?_
  refine carries_bind batchfile ?_
  refine carries_bind notes ?_
  refine carries_map (fun constraints => { alloc with constraints }) ?_
  rw [packConstraints_eq machine fits.count]
  exact counted_carries alloc.constraints (arrived floats) fits.count
    (fun count => scalar_carries .int32 count (by decide) trivial)
    fun attr member => attribute_carries machine floats (fits.constraints attr member)

theorem packAlloc_needs (alloc : Alloc machine) :
    Returns (fun _ => (∀ string ∈ alloc.strings, TextsFit string) ∧
        (alloc.constraints.length < 2147483648 → ∀ attr ∈ alloc.constraints,
          PackedFits machine attr.value))
      (packAlloc machine floats alloc) := by
  simp only [Alloc.strings, List.forall_mem_cons, and_assoc]
  unfold packAlloc
  -- the strings stand in the order in which they are packed
  iterate 2 refine returns_next fun _ => ?_
  iterate 2 refine returns_both (string_needs _) fun _ => ?_
  iterate 13 refine returns_next fun _ => ?_
  iterate 9 refine returns_both (string_needs _) fun _ => ?_
  have constraints :=
    counted_needs alloc.constraints (fun count => packScalarBuffer machine .int32 [count])
    (attribute_needs machine floats)
  refine fun state result after ran => ⟨by simp, fun small => ?_⟩
  rw [packConstraints_eq machine small] at ran
  exact constraints state result after ran

theorem unpackAlloc_returns :
    Returns (fun alloc : Alloc machine => alloc.constraints.length < 2147483648 ∧
        ∀ attr ∈ alloc.constraints, PackedFits machine attr.value → Sendable machine attr.value)
      (unpackAlloc machine floats) := by
  unfold unpackAlloc
  iterate 26 refine returns_next fun _ => ?_
  exact returns_bind (counted_returns (attribute_returns machine floats)) fun constraints each =>
    returns_pure each

theorem received_eq_iff {alloc : Alloc machine} :
    alloc.received floats = alloc.transmitted ↔
      ∀ attr ∈ alloc.constraints, arrivedValue floats attr.value = attr.value := by
  simp [Alloc.received, Alloc.transmitted, arrived]

variable (floats)

/-- An array of allocation records comes back, and unpacking stops where the packed bytes end,
exactly when all of its records survive. -/
theorem alloc_round_trip_iff (allocs : List (Alloc machine)) :
    ComesBack (orcmPackAlloc machine floats allocs) (orcmUnpackAlloc machine floats allocs.length)
        (allocs.map Alloc.transmitted) ↔
      ∀ alloc ∈ allocs, alloc.Survives floats := by
  constructor
  · intro comesBack
    have packed := comesBack_needs comesBack (returns_forM _ _ allocs (packAlloc_needs machine))
    have unpacked :=
      (comesBack_returns comesBack (returns_repeated (unpackAlloc_returns machine))).2
    have fits : ∀ alloc ∈ allocs, alloc.Fits := by
      intro alloc member
      obtain ⟨strings, fit⟩ := packed alloc member
      obtain ⟨count, sendable⟩ := unpacked alloc.transmitted (List.mem_map_of_mem member)
      have small : alloc.constraints.length < 2147483648 := by simpa [Alloc.transmitted] using count
      refine ⟨strings, small, fun attr present => ?_⟩
      exact sendable { attr with is_local := true } (List.mem_map_of_mem present)
        (fit small attr present)
    have carried := carries_forM _ _ (Alloc.received floats) fun alloc member =>
      packAlloc_carries machine (fits alloc member)
    have same := comesBack_unique comesBack carried
    exact fun alloc member =>
      ⟨fits alloc member, (received_eq_iff machine).mp
        (List.map_inj_left.mp same alloc member).symm⟩
  · intro survive
    have same : allocs.map Alloc.transmitted = allocs.map (Alloc.received floats) :=
      List.map_inj_left.mpr fun alloc member =>
        ((received_eq_iff machine).mpr (survive alloc member).constraints).symm
    rw [same]
    exact comesBack_of_carries (carries_forM _ _ (Alloc.received floats) fun alloc member =>
      packAlloc_carries machine (survive alloc member).fits)

/-- A constraint that holds a pointer is packed, and then the record cannot be unpacked. -/
theorem alloc_with_pointer_is_lost :
    let packed := exec (orcmPackAlloc .lp64 .zero [{ allocCon .lp64 with
      constraints := [⟨1, false, ⟨.ptr, (0 : Word .eight)⟩⟩] }]) (Buffer.empty .nonDesc)
    packed.1 = .ok () ∧
      ((exec (orcmUnpackAlloc .lp64 .zero 1) packed.2).1.map fun _ => ()) = .error
        (.error .error) := by
  decide +kernel

end Orcm.AllocRecord
