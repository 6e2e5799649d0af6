import Orcm.Hierarchy
import Orcm.Routed

/-!
The routes of the daemons of a cluster, `orte/mca/routed/orcm/routed_orcm.c`. Every daemon unpacks
the buffers that the configuration module has packed, to find its parent and the daemons below it.
The function is called for the job of the daemons; output and lifelines are not modelled.
-/

namespace Orcm.ClusterTables

open CLibrary OpalBitmap DssTypes Hierarchy
open Routed (Child initRelatives)

/-- What a buffer of the cluster definition holds. -/
inductive Item where
  | name (name : ProcessName)
  | int32 (value : BitVec 32)
  | buffer (items : List Item)

/-! What `define_system` packs. -/

/-- The size of a list is packed as an `int32_t`. -/
def packSize (size : Nat) : Item := .int32 (BitVec.ofNat 32 size)

def packRack (rack : Rack) : Item :=
  .buffer (.name rack.controller.daemon :: rack.nodes.map fun node => .name node.daemon)

def packRow (row : Row) : Item :=
  .buffer (packSize row.racks.length :: .name row.controller.daemon :: row.racks.map packRack)

def packCluster (cluster : Cluster) : List Item :=
  .name cluster.controller.daemon :: packSize cluster.rows.length :: cluster.rows.map packRow

def schedulerNames (schedulers : Nat) : List ProcessName := (List.range schedulers).map daemonName

def clusterBuffer (schedulers : Nat) (clusters : List Cluster) : List Item :=
  .buffer ((schedulerNames schedulers).map .name) :: clusters.flatMap packCluster

/-! What `init_routes` unpacks. -/

def unpackName : List Item → Result (ProcessName × List Item)
  | [] => Result.fail .unpackReadPastEndOfBuffer
  | .name name :: rest => .ok (name, rest)
  | .int32 _ :: _ | .buffer _ :: _ => Result.fail .packMismatch

def unpackInt32 : List Item → Result (Int × List Item)
  | [] => Result.fail .unpackReadPastEndOfBuffer
  | .int32 value :: rest => .ok (value.toInt, rest)
  | .name _ :: _ | .buffer _ :: _ => Result.fail .packMismatch

def unpackBuffer : List Item → Result (List Item × List Item)
  | [] => Result.fail .unpackReadPastEndOfBuffer
  | .buffer items :: rest => .ok (items, rest)
  | .name _ :: _ | .int32 _ :: _ => Result.fail .packMismatch

structure Tables where
  parent : ProcessName
  children : List Child

/-- `ORTE_PROC_MY_PARENT` starts as `ORTE_NAME_INVALID`. -/
def freshTables : Tables := ⟨invalidName, []⟩

def isValid (name : ProcessName) : Bool := name.jobid ≠ 4294967295 && name.vpid ≠ 4294967295

/-- A daemon or controller that has been unpacked: whether it is there, and whether it is this
daemon. -/
structure Level where
  name : ProcessName
  present : Bool
  isMe : Bool

/-- A row or rack controller is recognised if it is there. -/
def Level.of (me name : ProcessName) : Level := ⟨name, isValid name, isValid name && name = me⟩

/-- The cluster controller is compared with this daemon only if it is not there. -/
def Level.ofCluster (me name : ProcessName) : Level :=
  ⟨name, isValid name, !isValid name && name = me⟩

def nearest (me : ProcessName) : List Level → ProcessName
  | [] => me
  | level :: above => if level.present then level.name else nearest me above

/-! Which levels take a name as a direct child, and which as a relative of their last child. -/

def rowIndirect (sched cluster : Level) : Bool := sched.isMe && cluster.present

def rowDirect (sched cluster : Level) : Bool :=
  !rowIndirect sched cluster && (cluster.isMe || (!cluster.present && sched.isMe))

def rackDirect (sched cluster row : Level) : Bool :=
  row.isMe || (cluster.isMe && !row.present) || (sched.isMe && !cluster.present && !row.present)

def rackIndirect (sched cluster : Level) : Bool := cluster.isMe || sched.isMe

def nodeDirect (sched cluster row rack : Level) : Bool :=
  rack.isMe || (row.isMe && !rack.present) || (cluster.isMe && !row.present && !rack.present) ||
    (sched.isMe && !cluster.present && !row.present && !rack.present)

def nodeIndirect (sched cluster row : Level) : Bool := row.isMe || cluster.isMe || sched.isMe

section Loops

variable (me : ProcessName) (num_procs : Nat)

def addChild (name : ProcessName) (tables : Tables) : Tables :=
  { tables with
    children := tables.children ++ [⟨name.vpid.toNat, initRelatives (toInt num_procs)⟩] }

/-- A relative of the last child. What `opal_bitmap_set_bit` returns is not looked at. -/
def addRelative (name : ProcessName) (tables : Tables) : Result Tables :=
  match tables.children.getLast? with
  | none => Result.undefined
  | some child =>
    match opalBitmapSetBit child.relatives (toInt name.vpid.toNat) with
    | .ok relatives =>
      .ok { tables with children := tables.children.dropLast ++ [{ child with relatives }] }
    | .error (.error _) => .ok tables
    | .error .undefined => Result.undefined

/-- A direct child, a relative of the last child, or neither. -/
def record (direct indirect : Bool) (name : ProcessName) (tables : Tables) : Result Tables :=
  if direct then .ok (addChild num_procs name tables)
  else if indirect then addRelative name tables
  else .ok tables

def setParent (isMe : Bool) (parent : ProcessName) (tables : Tables) : Tables :=
  if isMe then { tables with parent } else tables

variable (sched cluster : Level)

def visitCluster (tables : Tables) : Tables :=
  if cluster.present && sched.isMe then addChild num_procs cluster.name tables else tables

variable (row : Level)

def visitRow (tables : Tables) : Result Tables :=
  if row.present then
    (record num_procs (rowDirect sched cluster) (rowIndirect sched cluster) row.name tables).map
      (setParent row.isMe (nearest me [cluster, sched]))
  else .ok tables

variable (rack : Level)

def visitRack (tables : Tables) : Result Tables :=
  if rack.present then
    (record num_procs (rackDirect sched cluster row) (rackIndirect sched cluster)
      rack.name tables).map
      (setParent rack.isMe (nearest me [row, cluster, sched]))
  else .ok tables

def visitNode (name : ProcessName) (tables : Tables) : Result Tables :=
  (record num_procs (nodeDirect sched cluster row rack) (nodeIndirect sched cluster row)
    name tables).map
    (setParent (decide (name = me)) (nearest me [rack, row, cluster, sched]))

def readNodes : List Item → Tables → Result Tables
  | [], tables => .ok tables
  | .name name :: rest, tables =>
    visitNode me num_procs sched cluster row rack name tables >>= readNodes rest
  | .int32 _ :: _, _ | .buffer _ :: _, _ => Result.fail .packMismatch

def readRacks : Nat → List Item → Tables → Result Tables
  | 0, _, tables => .ok tables
  | racks + 1, items, tables => do
      let (buffer, items) ← unpackBuffer items
      let (rack_name, nodes) ← unpackName buffer
      let rack := Level.of me rack_name
      let tables ← visitRack me num_procs sched cluster row rack tables
      let tables ← readNodes me num_procs sched cluster row rack nodes tables
      readRacks racks items tables

def readRows : Nat → List Item → Tables → Result Tables
  | 0, _, tables => .ok tables
  | rows + 1, items, tables => do
      let (buffer, items) ← unpackBuffer items
      let (nracks, buffer) ← unpackInt32 buffer
      let (row_name, racks) ← unpackName buffer
      let row := Level.of me row_name
      let tables ← visitRow me num_procs sched cluster row tables
      let tables ← readRacks me num_procs sched cluster row nracks.toNat racks tables
      readRows rows items tables

end Loops

/-- `init_routes` of a daemon or a scheduler. Without a scheduler the name that is compared was
never set. -/
def initRoutes (me : ProcessName) (num_procs : Nat) (ndat : List Item) : Result Tables := do
  let (schedulers, ndat) ← unpackBuffer ndat
  match schedulers with
  | [] => Result.undefined
  | .int32 _ :: _ | .buffer _ :: _ => Result.fail .packMismatch
  | .name sched_name :: _ =>
    -- the call returns the code of the unpacking, which has succeeded
    if !isValid sched_name then .ok freshTables
    else
      let sched : Level := ⟨sched_name, true, sched_name = me⟩
      let (cluster_name, ndat) ← unpackName ndat
      let cluster := Level.ofCluster me cluster_name
      let (nrows, ndat) ← unpackInt32 ndat
      readRows me num_procs sched cluster nrows.toNat ndat
        (visitCluster num_procs sched cluster freshTables)

/-- What `get_route` reads of the process that calls it, besides its tables. -/
structure Caller where
  is_tool : Bool
  routing_is_enabled : Bool
  is_scheduler : Bool
  is_daemon : Bool
  my_name : ProcessName
  my_scheduler : ProcessName

/-- The loop over the children: the child itself, or the child that the target is below, and the
parent when there is none. -/
def searchChildren (jobid : BitVec 32) (parent target : ProcessName) :
    List Child → Result ProcessName
  | [] => .ok ⟨jobid, parent.vpid⟩
  | child :: rest => do
      if child.vpid = target.vpid.toNat then .ok target
      else if ← opalBitmapIsSetBit child.relatives (toInt target.vpid.toNat) then
        .ok ⟨jobid, BitVec.ofNat 32 child.vpid⟩
      else searchChildren jobid parent target rest

def getRoute (caller : Caller) (tables : Tables) (target : ProcessName) : Result ProcessName :=
  if caller.is_tool then .ok (if target.jobid = 0 then caller.my_scheduler else target)
  else if !caller.routing_is_enabled then .ok target
  else if target = caller.my_name then .ok target
  else if target.jobid ≠ caller.my_name.jobid ∧ caller.is_scheduler then .ok target
  else if caller.is_daemon then .ok ⟨caller.my_name.jobid, tables.parent.vpid⟩
  else searchChildren caller.my_name.jobid tables.parent target tables.children

end Orcm.ClusterTables
