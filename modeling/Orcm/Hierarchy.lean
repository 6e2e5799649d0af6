import Mathlib.Data.List.Nodup
import Orcm.NodePool

/-!
The hierarchy of `orcm/mca/cfgi/cfgi_types.h`, the process names that `define_system` of
`cfgi_file30.c` gives to its daemons, and the search for dependents in `orcm/util/utils.c`. Of
`define_system` only the naming is modelled; a controller that the configuration leaves out keeps
the invalid name its constructor gave it.
-/

namespace Orcm.Hierarchy

open DssTypes NodePool

structure Rack where
  controller : Node
  nodes : List Node

structure Row where
  controller : Node
  racks : List Rack

structure Cluster where
  controller : Node
  rows : List Row

/-- `ORTE_NAME_INVALID` -/
def invalidName : ProcessName := ⟨4294967295, 4294967295⟩

/-- The daemons of the system are one job. -/
def daemonName (vpid : Nat) : ProcessName := ⟨0, BitVec.ofNat 32 vpid⟩

def nameNode (node : Node) (vpid : Nat) : Node × Nat :=
  ({ node with daemon := daemonName vpid }, vpid + 1)

/-- A controller is part of the system if the configuration gave it a state. -/
def nameController (node : Node) (vpid : Nat) : Node × Nat :=
  if node.state ≠ .undef then nameNode node vpid else (node, vpid)

def nameEach {Part : Type} (name : Part → Nat → Part × Nat) : List Part → Nat → List Part × Nat
  | [], vpid => ([], vpid)
  | part :: rest, vpid =>
    let (named, next) := name part vpid
    let (others, last) := nameEach name rest next
    (named :: others, last)

def nameRack (rack : Rack) (vpid : Nat) : Rack × Nat :=
  let (controller, next) := nameController rack.controller vpid
  let (nodes, last) := nameEach nameNode rack.nodes next
  (⟨controller, nodes⟩, last)

def nameRow (row : Row) (vpid : Nat) : Row × Nat :=
  let (controller, next) := nameController row.controller vpid
  let (racks, last) := nameEach nameRack row.racks next
  (⟨controller, racks⟩, last)

def nameCluster (cluster : Cluster) (vpid : Nat) : Cluster × Nat :=
  let (controller, next) := nameController cluster.controller vpid
  let (rows, last) := nameEach nameRow cluster.rows next
  (⟨controller, rows⟩, last)

/-- The named clusters and the number of processes. Without a scheduler the launcher takes vpid
zero. -/
def defineSystem (schedulers : Nat) (clusters : List Cluster) : List Cluster × Nat :=
  nameEach nameCluster clusters (if schedulers = 0 then 1 else schedulers)

def Rack.dependents (rack : Rack) : List ProcessName := rack.nodes.map Node.daemon

def Row.dependents (row : Row) : List ProcessName :=
  row.racks.flatMap fun rack => rack.controller.daemon :: rack.dependents

def Cluster.dependents (cluster : Cluster) : List ProcessName :=
  cluster.rows.flatMap fun row => row.controller.daemon :: row.dependents

/-- The inner loops of the search; `none` where the source goes on with the next item. -/
def Rack.search (root : ProcessName) (rack : Rack) : Option (List ProcessName) :=
  if rack.controller.daemon = root then some rack.dependents else none

def Row.search (root : ProcessName) (row : Row) : Option (List ProcessName) :=
  if row.controller.daemon = root then some row.dependents
    else row.racks.findSome? (Rack.search root)

def Cluster.search (root : ProcessName) (cluster : Cluster) : Option (List ProcessName) :=
  if cluster.controller.daemon = root then some cluster.dependents
    else cluster.rows.findSome? (Row.search root)

/-- The names appended to `targets`, with `ORCM_ERR_NOT_FOUND` if no controller has the name. -/
def orcmUtilGetDependents (clusters : List Cluster) (root : ProcessName) :
    Result (List ProcessName) :=
  match clusters.findSome? (Cluster.search root) with
  | some targets => .ok targets
  | none => Result.fail .notFound

/-- The nodes that the scheduler manages: those in the racks. -/
def leaves (clusters : List Cluster) : List Node :=
  clusters.flatMap fun cluster => cluster.rows.flatMap fun row => row.racks.flatMap Rack.nodes

/-! All names of the hierarchy, in the order in which they are given. -/

def Rack.roster (rack : Rack) : List ProcessName :=
  rack.controller.daemon :: rack.nodes.map Node.daemon

def Row.roster (row : Row) : List ProcessName :=
  row.controller.daemon :: row.racks.flatMap Rack.roster

def Cluster.roster (cluster : Cluster) : List ProcessName :=
  cluster.controller.daemon :: cluster.rows.flatMap Row.roster

def roster (clusters : List Cluster) : List ProcessName := clusters.flatMap Cluster.roster

def Unnamed (names : List ProcessName) : Prop := ∀ name ∈ names, name = invalidName

instance (names : List ProcessName) : Decidable (Unnamed names) :=
  inferInstanceAs (Decidable (∀ name ∈ names, name = invalidName))

def Consecutive (vpid next : Nat) (names : List ProcessName) : Prop :=
  vpid ≤ next ∧ names.filter (· ≠ invalidName) = (List.range' vpid (next - vpid)).map daemonName

variable (vpid : Nat)

theorem daemonName_ne_invalid : daemonName vpid ≠ invalidName := by
  intro same
  have jobids : (0 : BitVec 32) = 4294967295 := congrArg ProcessName.jobid same
  exact absurd jobids (by decide)

theorem consecutive_nil : Consecutive vpid vpid [] := ⟨Nat.le_refl _, by simp⟩

theorem consecutive_append {vpid : Nat} (first : Consecutive vpid middle front)
    (second : Consecutive middle next back) : Consecutive vpid next (front ++ back) := by
  obtain ⟨le, front⟩ := first
  obtain ⟨le', back⟩ := second
  refine ⟨le.trans le', ?_⟩
  have split : List.range' vpid (next - vpid) = List.range' vpid (middle - vpid) ++
      List.range' middle (next - middle) := by
    have shifted : List.range' middle (next - middle) = List.range' (vpid + (middle - vpid))
        (next - middle) := by
      congr 1
      omega
    rw [shifted, List.range'_append_1]
    congr 1
    omega
  rw [List.filter_append, front, back, split, List.map_append]

theorem nameNode_consecutive (node : Node) :
    Consecutive vpid (nameNode node vpid).2 [(nameNode node vpid).1.daemon] := by
  refine ⟨Nat.le_succ vpid, ?_⟩
  simp [nameNode, daemonName_ne_invalid]

theorem nameController_consecutive (unnamed : node.daemon = invalidName) :
    Consecutive vpid (nameController node vpid).2 [(nameController node vpid).1.daemon] := by
  unfold nameController
  split
  · exact nameNode_consecutive vpid node
  · exact ⟨Nat.le_refl _, by simp [unnamed]⟩

theorem nameEach_consecutive {Part : Type} (name : Part → Nat → Part × Nat)
    (names : Part → List ProcessName) (parts : List Part) (unnamed : Unnamed (parts.flatMap names))
    (each : ∀ part ∈ parts, ∀ vpid, Unnamed (names part) → Consecutive vpid (name part vpid).2
      (names (name part vpid).1)) :
    Consecutive vpid (nameEach name parts vpid).2 ((nameEach name parts vpid).1.flatMap names) := by
  induction parts generalizing vpid with
  | nil => exact consecutive_nil vpid
  | cons part rest ih =>
    rw [List.forall_mem_cons] at each
    have here : Unnamed (names part) :=
      fun name member => unnamed name (List.mem_append_left _ member)
    have later : Unnamed (rest.flatMap names) :=
      fun name member => unnamed name (List.mem_append_right _ member)
    exact consecutive_append (each.1 vpid here) (ih (name part vpid).2 later each.2)

theorem nameNodes_consecutive (unnamed : Unnamed (nodes.map Node.daemon)) :
    Consecutive vpid (nameEach nameNode nodes vpid).2
      ((nameEach nameNode nodes vpid).1.map Node.daemon) := by
  have single :
      ∀ nodes : List Node, nodes.flatMap (fun node => [node.daemon]) = nodes.map Node.daemon :=
    fun nodes => List.map_eq_flatMap.symm
  have named :=
    nameEach_consecutive vpid nameNode (fun node => [node.daemon]) nodes (by rwa [single])
    fun node _ vpid _ => nameNode_consecutive vpid node
  rwa [single] at named

theorem nameRack_consecutive (unnamed : Unnamed rack.roster) :
    Consecutive vpid (nameRack rack vpid).2 (nameRack rack vpid).1.roster := by
  obtain ⟨controller, nodes⟩ := List.forall_mem_cons.mp unnamed
  exact consecutive_append (nameController_consecutive vpid controller)
    (nameNodes_consecutive _ nodes)

theorem nameRow_consecutive (unnamed : Unnamed row.roster) :
    Consecutive vpid (nameRow row vpid).2 (nameRow row vpid).1.roster := by
  obtain ⟨controller, racks⟩ := List.forall_mem_cons.mp unnamed
  exact consecutive_append (nameController_consecutive vpid controller)
    (nameEach_consecutive _ nameRack Rack.roster row.racks racks fun rack _ vpid fresh =>
      nameRack_consecutive vpid fresh)

theorem nameCluster_consecutive (unnamed : Unnamed cluster.roster) :
    Consecutive vpid (nameCluster cluster vpid).2 (nameCluster cluster vpid).1.roster := by
  obtain ⟨controller, rows⟩ := List.forall_mem_cons.mp unnamed
  exact consecutive_append (nameController_consecutive vpid controller)
    (nameEach_consecutive _ nameRow Row.roster cluster.rows rows fun row _ vpid fresh =>
      nameRow_consecutive vpid fresh)

theorem mem_nameEach (member : named ∈ (nameEach name parts vpid).1) :
    ∃ part ∈ parts, ∃ next, named = (name part next).1 := by
  induction parts generalizing vpid with
  | nil => cases member
  | cons part rest ih =>
    rcases List.mem_cons.mp member with rfl | later
    · exact ⟨part, List.mem_cons_self, vpid, rfl⟩
    · obtain ⟨other, otherMember, next, same⟩ := ih _ later
      exact ⟨other, List.mem_cons_of_mem _ otherMember, next, same⟩

theorem defineSystem_leaves (member : node ∈ leaves (defineSystem schedulers clusters).1) :
    node.daemon ≠ invalidName := by
  obtain ⟨cluster, clusterMember, member⟩ := List.mem_flatMap.mp member
  obtain ⟨row, rowMember, member⟩ := List.mem_flatMap.mp member
  obtain ⟨rack, rackMember, member⟩ := List.mem_flatMap.mp member
  obtain ⟨_, -, _, rfl⟩ := mem_nameEach _ clusterMember
  obtain ⟨_, -, _, rfl⟩ := mem_nameEach _ rowMember
  obtain ⟨_, -, _, rfl⟩ := mem_nameEach _ rackMember
  obtain ⟨_, -, _, rfl⟩ := mem_nameEach _ member
  exact daemonName_ne_invalid _

theorem daemonName_injective (small : first < 4294967296) (small' : second < 4294967296)
    (same : daemonName first = daemonName second) : first = second := by
  have vpids : (BitVec.ofNat 32 first).toNat = (BitVec.ofNat 32 second).toNat :=
    congrArg (fun name : ProcessName => name.vpid.toNat) same
  rw [BitVec.toNat_ofNat, BitVec.toNat_ofNat] at vpids
  omega

/-- The names that `define_system` gives follow those of the schedulers. -/
theorem defineSystem_consecutive (schedulers : Nat) (unnamed : Unnamed (roster clusters)) :
    Consecutive (if schedulers = 0 then 1 else schedulers) (defineSystem schedulers clusters).2
      (roster (defineSystem schedulers clusters).1) :=
  nameEach_consecutive _ nameCluster Cluster.roster clusters unnamed fun _ _ vpid fresh =>
    nameCluster_consecutive vpid fresh

theorem defineSystem_distinct (unnamed : Unnamed (roster clusters))
    (small : (defineSystem schedulers clusters).2 ≤ 4294967296) :
    ((roster (defineSystem schedulers clusters).1).filter (· ≠ invalidName)).Nodup := by
  obtain ⟨-, names⟩ := defineSystem_consecutive schedulers unnamed
  rw [names]
  refine List.Nodup.map_on (fun first member second member' same => ?_) List.nodup_range'
  rw [List.mem_range'_1] at member member'
  exact daemonName_injective (by omega) (by omega) same

end Orcm.Hierarchy
