import Mathlib.Data.List.Lemmas
import Mathlib.Data.List.Perm.Basic
import Orcm.Hierarchy

/-!
The `ORCM_NODESTATE_UPDATE_COMMAND` branch of `orcm_scd_base_rm_recv`. The search for the daemon is
a first match over three levels, so its result depends on the names being distinct.
-/

namespace Orcm.NodeReport

open CLibrary DssTypes NodePool Hierarchy List

/-- The reports that the scheduler acts on; a topology that comes with `UP` is not modelled. -/
inductive Report where
  | up (node : ProcessName)
  | down (node : ProcessName)
  | drain (regexp : Option CString)
  | resume (regexp : Option CString)

/-- The names whose state a `DOWN` report changes. -/
def downTargets (clusters : List Cluster) (node : ProcessName) : List ProcessName :=
  let nodelist := match orcmUtilGetDependents clusters node with
    | .ok targets => targets
    | .error _ => []
  -- an empty list means a leaf node
  if nodelist = [] then [node] else nodelist

def nodestateUpdate (clusters : List Cluster) (report : Report) (pool : Pool) :
    Result Unit × Pool :=
  match report with
  | .up node => updateNodestateByproc .up [node] pool
  | .down node => updateNodestateByproc .down (downTargets clusters node) pool
  | .drain regexp => updateNodestateByname .drain regexp pool
  | .resume regexp => updateNodestateByname .resume regexp pool

theorem nodestateUpdate_evolves {clusters : List Cluster} :
    Evolves pool (nodestateUpdate clusters report pool).2 := by
  cases report with
  | up node => exact updateNodestateByproc_evolves
  | down node => exact updateNodestateByproc_evolves
  | drain regexp => exact updateNodestateByname_evolves
  | resume regexp => exact updateNodestateByname_evolves

/-- The nodes of the racks that a controller with this name is responsible for. -/
inductive Below (clusters : List Cluster) (root : ProcessName) : Node → Prop where
  | cluster (cluster : Cluster) (row : Row) (rack : Rack) (node : Node) :
      cluster ∈ clusters → row ∈ cluster.rows → rack ∈ row.racks → node ∈ rack.nodes →
      cluster.controller.daemon = root → Below clusters root node
  | row (cluster : Cluster) (row : Row) (rack : Rack) (node : Node) :
      cluster ∈ clusters → row ∈ cluster.rows → rack ∈ row.racks → node ∈ rack.nodes →
      row.controller.daemon = root → Below clusters root node
  | rack (cluster : Cluster) (row : Row) (rack : Rack) (node : Node) :
      cluster ∈ clusters → row ∈ cluster.rows → rack ∈ row.racks → node ∈ rack.nodes →
      rack.controller.daemon = root → Below clusters root node

def Affected (clusters : List Cluster) (root daemon : ProcessName) : Prop :=
  daemon = root ∨ ∃ node, Below clusters root node ∧ node.daemon = daemon

def Rack.controllers (rack : Rack) : List ProcessName := [rack.controller.daemon]

def Row.controllers (row : Row) : List ProcessName :=
  row.controller.daemon :: row.racks.flatMap Rack.controllers

def Cluster.controllers (cluster : Cluster) : List ProcessName :=
  cluster.controller.daemon :: cluster.rows.flatMap Row.controllers

def controllers (clusters : List Cluster) : List ProcessName := clusters.flatMap Cluster.controllers

theorem findSome_eq_some_iff {Part : Type} {search : Part → Option Found}
    {names : Part → List ProcessName}
    {root : ProcessName} {parts : List Part} (once : (parts.flatMap names).count root ≤ 1)
    (named : ∀ part ∈ parts, ∀ found, search part = some found → root ∈ names part) :
    parts.findSome? search = some found ↔ ∃ part ∈ parts, search part = some found := by
  induction parts with
  | nil => simp
  | cons part rest ih =>
    rw [forall_mem_cons] at named
    rw [flatMap_cons, count_append] at once
    have tail := ih (by omega) named.2
    rw [findSome?_cons]
    cases here : search part with
    | none => simp [tail, here]
    | some first =>
      have present := List.count_pos_iff.mpr (named.1 first here)
      have absent : ∀ other ∈ rest, search other = none := by
        intro other member
        by_contra hit
        obtain ⟨second, hit⟩ := Option.ne_none_iff_exists'.mp hit
        have := List.count_pos_iff.mpr (mem_flatMap_of_mem member (named.2 other member second hit))
        omega
      constructor
      · intro same
        exact ⟨part, mem_cons_self, here.trans same⟩
      · rintro ⟨other, member, hit⟩
        rcases List.mem_cons.mp member with rfl | later
        · rw [← here, hit]
        · rw [absent other later] at hit
          cases hit

/-- One level of the search: the controller itself, or the first part below it that has the name. -/
def searchLevel {Part : Type} (search : Part → Option (List ProcessName)) (own root : ProcessName)
    (dependents : List ProcessName) (parts : List Part) : Option (List ProcessName) :=
  if own = root then some dependents else parts.findSome? search

section Level

variable {Part : Type} {search : Part → Option (List ProcessName)} {names : Part → List ProcessName}
    {own : ProcessName} (root : ProcessName) {dependents : List ProcessName}
    {targets : List ProcessName} {parts : List Part}

theorem searchLevel_named (named : ∀ part ∈ parts, ∀ found, search part = some found →
    root ∈ names part)
    (hit : searchLevel search own root dependents parts = some targets) :
    root ∈ own :: parts.flatMap names := by
  unfold searchLevel at hit
  split at hit
  · rename_i same
    exact same ▸ mem_cons_self
  · obtain ⟨part, member, hit⟩ := exists_of_findSome?_eq_some hit
    exact mem_cons_of_mem _ (mem_flatMap_of_mem member (named part member targets hit))

theorem searchLevel_iff (once : (own :: parts.flatMap names).count root ≤ 1)
    (named : ∀ part ∈ parts, ∀ found, search part = some found → root ∈ names part) :
    searchLevel search own root dependents parts = some targets ↔
      (own = root ∧ dependents = targets) ∨ ∃ part ∈ parts, search part = some targets := by
  rw [count_cons] at once
  unfold searchLevel
  split
  · rename_i same
    -- this controller has the name, so none below it has
    have absent : ¬ ∃ part ∈ parts, search part = some targets := by
      rintro ⟨part, member, hit⟩
      have := List.count_pos_iff.mpr (mem_flatMap_of_mem member (named part member targets hit))
      simp only [same, beq_self_eq_true, if_true] at once
      omega
    simp [same, absent]
  · rename_i other
    simp [findSome_eq_some_iff (by omega) named, other]

end Level

variable (root : ProcessName) {targets : List ProcessName}

theorem rack_search_iff {rack : Rack} :
    rack.search root = some targets ↔ rack.controller.daemon = root ∧
      rack.dependents = targets := by
  unfold Rack.search
  split <;> simp_all

theorem rack_search_named (hit : rack.search root = some targets) : root ∈ Rack.controllers rack :=
  List.mem_singleton.mpr ((rack_search_iff root).mp hit).1.symm

theorem row_search_named (hit : row.search root = some targets) : root ∈ Row.controllers row :=
  searchLevel_named root (fun _ _ _ => rack_search_named root) hit

theorem row_search_iff (once : (Row.controllers row).count root ≤ 1) :
    row.search root = some targets ↔ (row.controller.daemon = root ∧ row.dependents = targets) ∨
      ∃ rack ∈ row.racks, rack.search root = some targets :=
  searchLevel_iff root once fun _ _ _ => rack_search_named root

theorem cluster_search_named (hit : cluster.search root = some targets) :
    root ∈ Cluster.controllers cluster :=
  searchLevel_named root (fun _ _ _ => row_search_named root) hit

theorem cluster_search_iff (once : (Cluster.controllers cluster).count root ≤ 1) :
    cluster.search root = some targets ↔
      (cluster.controller.daemon = root ∧ cluster.dependents = targets) ∨
      ∃ row ∈ cluster.rows, row.search root = some targets :=
  searchLevel_iff root once fun _ _ _ => row_search_named root

theorem count_le_of_mem {Part : Type} (names : Part → List ProcessName) {parts : List Part}
    {part : Part}
    (member : part ∈ parts) : (names part).count root ≤ (parts.flatMap names).count root := by
  obtain ⟨front, back, rfl⟩ := append_of_mem member
  simp only [flatMap_append, flatMap_cons, count_append]
  omega

theorem mem_row_dependents (leaf : daemon ∉ Row.controllers row)
    (member : daemon ∈ row.dependents) :
    ∃ rack ∈ row.racks, ∃ node ∈ rack.nodes, node.daemon = daemon := by
  obtain ⟨rack, rackMember, member⟩ := List.mem_flatMap.mp member
  rcases List.mem_cons.mp member with same | inside
  · refine absurd (mem_cons_of_mem _ (mem_flatMap_of_mem rackMember ?_)) leaf
    exact List.mem_singleton.mpr same
  · obtain ⟨node, nodeMember, same⟩ := List.mem_map.mp inside
    exact ⟨rack, rackMember, node, nodeMember, same⟩

theorem mem_cluster_dependents (leaf : daemon ∉ Cluster.controllers cluster)
    (member : daemon ∈ cluster.dependents) :
    ∃ row ∈ cluster.rows, ∃ rack ∈ row.racks, ∃ node ∈ rack.nodes, node.daemon = daemon := by
  obtain ⟨row, rowMember, member⟩ := List.mem_flatMap.mp member
  have inRow : ∀ name ∈ Row.controllers row, name ∈ Cluster.controllers cluster :=
    fun name named => mem_cons_of_mem _ (mem_flatMap_of_mem rowMember named)
  rcases List.mem_cons.mp member with same | inside
  · exact absurd (inRow daemon (List.mem_cons.mpr (.inl same))) leaf
  · exact ⟨row, rowMember, mem_row_dependents (fun named => leaf (inRow daemon named)) inside⟩

section Search

variable (clusters : List Cluster) (root : ProcessName)
    (once : (controllers clusters).count root ≤ 1)

include once

variable {clusters} {root}

theorem cluster_once (member : cluster ∈ clusters) :
    (Cluster.controllers cluster).count root ≤ 1 :=
  (count_le_of_mem root Cluster.controllers member).trans once

theorem row_once {row : Row} (member : cluster ∈ clusters) (rowMember : row ∈ cluster.rows) :
    (Row.controllers row).count root ≤ 1 := by
  have above := cluster_once once member
  rw [Cluster.controllers, count_cons] at above
  have := count_le_of_mem root Row.controllers rowMember
  omega

theorem search_iff {targets : List ProcessName} :
    clusters.findSome? (Cluster.search root) = some targets ↔
      ∃ cluster ∈ clusters, cluster.search root = some targets :=
  findSome_eq_some_iff once fun _ _ _ => cluster_search_named root

theorem search_of_below (below : Below clusters root node) :
    ∃ targets, clusters.findSome? (Cluster.search root) = some targets ∧ node.daemon ∈ targets := by
  cases below with
  | cluster cluster row rack _ member rowMember rackMember nodeMember own =>
    refine ⟨cluster.dependents, (search_iff once).mpr ⟨cluster, member, ?_⟩, ?_⟩
    · exact (cluster_search_iff root (cluster_once once member)).mpr (.inl ⟨own, rfl⟩)
    · exact mem_flatMap_of_mem rowMember (mem_cons_of_mem _
        (mem_flatMap_of_mem rackMember (mem_cons_of_mem _ (mem_map_of_mem nodeMember))))
  | row cluster row rack _ member rowMember rackMember nodeMember own =>
    refine ⟨row.dependents, (search_iff once).mpr ⟨cluster, member, ?_⟩, ?_⟩
    · refine (cluster_search_iff root (cluster_once once member)).mpr
        (.inr ⟨row, rowMember, ?_⟩)
      exact (row_search_iff root (row_once once member rowMember)).mpr (.inl ⟨own, rfl⟩)
    · exact mem_flatMap_of_mem rackMember (mem_cons_of_mem _ (mem_map_of_mem nodeMember))
  | rack cluster row rack _ member rowMember rackMember nodeMember own =>
    refine ⟨rack.dependents, (search_iff once).mpr ⟨cluster, member, ?_⟩,
      mem_map_of_mem nodeMember⟩
    refine (cluster_search_iff root (cluster_once once member)).mpr
      (.inr ⟨row, rowMember, ?_⟩)
    exact (row_search_iff root (row_once once member rowMember)).mpr
      (.inr ⟨rack, rackMember, (rack_search_iff root).mpr ⟨own, rfl⟩⟩)

theorem below_of_search {targets : List ProcessName} (leaf : daemon ∉ controllers clusters)
    (found : clusters.findSome? (Cluster.search root) = some targets) (member : daemon ∈ targets) :
    ∃ node, Below clusters root node ∧ node.daemon = daemon := by
  obtain ⟨cluster, clusterMember, hit⟩ := (search_iff once).mp found
  have clusterLeaf : daemon ∉ Cluster.controllers cluster :=
    fun named => leaf (mem_flatMap_of_mem clusterMember named)
  rcases (cluster_search_iff root (cluster_once once clusterMember)).mp hit with
    ⟨own, rfl⟩ | ⟨row, rowMember, hit⟩
  · obtain ⟨row, rowMember, rack, rackMember, node, nodeMember, same⟩ :=
      mem_cluster_dependents clusterLeaf member
    exact ⟨node, .cluster cluster row rack node clusterMember rowMember rackMember nodeMember own,
      same⟩
  · have rowLeaf : daemon ∉ Row.controllers row :=
      fun named => clusterLeaf (mem_cons_of_mem _ (mem_flatMap_of_mem rowMember named))
    rcases (row_search_iff root (row_once once clusterMember rowMember)).mp hit with
      ⟨own, rfl⟩ | ⟨rack, rackMember, hit⟩
    · obtain ⟨rack, rackMember, node, nodeMember, same⟩ := mem_row_dependents rowLeaf member
      exact ⟨node, .row cluster row rack node clusterMember rowMember rackMember nodeMember own,
        same⟩
    · obtain ⟨own, rfl⟩ := (rack_search_iff root).mp hit
      obtain ⟨node, nodeMember, same⟩ := List.mem_map.mp member
      exact ⟨node, .rack cluster row rack node clusterMember rowMember rackMember nodeMember own,
        same⟩

theorem mem_downTargets (leaf : daemon ∉ controllers clusters) :
    daemon ∈ downTargets clusters root ↔ Affected clusters root daemon := by
  unfold downTargets orcmUtilGetDependents
  cases found : clusters.findSome? (Cluster.search root) with
  | none =>
    have unbelow : ∀ node, ¬ Below clusters root node := by
      intro node below
      obtain ⟨targets, hit, -⟩ := search_of_below once below
      rw [found] at hit
      cases hit
    simp [Result.fail, Affected, unbelow]
  | some targets =>
    obtain ⟨cluster, clusterMember, hit⟩ := (search_iff once).mp found
    -- the search only answers for controllers
    have differs : daemon ≠ root := by
      rintro rfl
      exact leaf (mem_flatMap_of_mem clusterMember (cluster_search_named daemon hit))
    have below : daemon ∈ targets ↔ ∃ node, Below clusters root node ∧ node.daemon = daemon := by
      constructor
      · exact below_of_search once leaf found
      · rintro ⟨node, below, rfl⟩
        obtain ⟨others, hit, member⟩ := search_of_below once below
        rw [found] at hit
        cases hit
        exact member
    simp only [Affected, differs, false_or, ← below]
    split
    · rename_i empty
      simp [empty, differs]
    · rfl

end Search

def leafDaemons (clusters : List Cluster) : List ProcessName := (leaves clusters).map Node.daemon

theorem roster_perm {clusters : List Cluster} :
    (controllers clusters ++ leafDaemons clusters).Perm (roster clusters) := by
  have rows :
      ∀ row : Row, (Row.controllers row ++ row.racks.flatMap Rack.dependents).Perm row.roster := by
    intro row
    exact (flatMap_append_perm row.racks Rack.controllers Rack.dependents).cons _
  have whole : ∀ cluster : Cluster, (Cluster.controllers cluster ++
      cluster.rows.flatMap fun row => row.racks.flatMap Rack.dependents).Perm cluster.roster := by
    intro cluster
    refine List.Perm.cons _ ((flatMap_append_perm cluster.rows _ _).trans ?_)
    exact List.Perm.flatMap_left _ fun row _ => rows row
  have daemons : leafDaemons clusters =
      clusters.flatMap fun cluster => cluster.rows.flatMap fun row =>
        row.racks.flatMap Rack.dependents := by
    simp only [leafDaemons, leaves, map_flatMap]
    rfl
  rw [daemons]
  refine (flatMap_append_perm clusters Cluster.controllers _).trans ?_
  exact List.Perm.flatMap_left _ fun cluster _ => whole cluster

section Defined

variable (schedulers : Nat) (clusters : List Cluster) (unnamed : Unnamed (roster clusters))
  (small : (defineSystem schedulers clusters).2 ≤ 4294967296)

include unnamed small

theorem defineSystem_count (valid : name ≠ invalidName) :
    (controllers (defineSystem schedulers clusters).1).count name +
      (leafDaemons (defineSystem schedulers clusters).1).count name ≤ 1 := by
  have once := List.nodup_iff_count_le_one.mp (defineSystem_distinct unnamed small) name
  rw [count_filter (by simpa using valid), ← roster_perm.count_eq, count_append] at once
  exact once

theorem defineSystem_leafDaemons_nodup :
    (leafDaemons (defineSystem schedulers clusters).1).Nodup := by
  refine List.nodup_iff_count_le_one.mpr fun name => ?_
  by_cases valid : name = invalidName
  · have absent : name ∉ leafDaemons (defineSystem schedulers clusters).1 := by
      intro member
      obtain ⟨node, member, same⟩ := List.mem_map.mp member
      exact defineSystem_leaves member (same.trans valid)
    rw [count_eq_zero_of_not_mem absent]
    exact Nat.zero_le 1
  · exact (Nat.le_add_left _ _).trans (defineSystem_count schedulers clusters unnamed small valid)

theorem defineSystem_leaf (leaf : name ∈ leafDaemons (defineSystem schedulers clusters).1) :
    name ∉ controllers (defineSystem schedulers clusters).1 := by
  intro controller
  have valid : name ≠ invalidName := by
    obtain ⟨node, member, rfl⟩ := List.mem_map.mp leaf
    exact defineSystem_leaves member
  have once := defineSystem_count schedulers clusters unnamed small valid
  have := List.count_pos_iff.mpr leaf
  have := List.count_pos_iff.mpr controller
  omega

end Defined

open Classical in
/-- A report that a daemon is down marks the nodes of the pool that it is responsible for, its own
node included, and changes nothing else in the pool. -/
theorem down_report_marks_affected (schedulers : Nat) (clusters : List Cluster) (pool : Pool)
    (root : ProcessName) (unnamed : Unnamed (roster clusters))
    (small : (defineSystem schedulers clusters).2 ≤ 4294967296)
    (managed : daemons pool = leafDaemons (defineSystem schedulers clusters).1)
    (valid : root ≠ invalidName) :
    (nodestateUpdate (defineSystem schedulers clusters).1 (.down root) pool).2 =
      pool.map (Option.map fun node =>
        if Affected (defineSystem schedulers clusters).1 root node.daemon then
          { node with state := .down } else node) := by
  have distinct : (daemons pool).Nodup := by
    rw [managed]
    exact defineSystem_leafDaemons_nodup schedulers clusters unnamed small
  have once : (controllers (defineSystem schedulers clusters).1).count root ≤ 1 :=
    (Nat.le_add_right _ _).trans (defineSystem_count schedulers clusters unnamed small valid)
  rw [nodestateUpdate, updateNodestateByproc_pool distinct]
  refine List.map_congr_left fun slot member => ?_
  cases slot with
  | none => rfl
  | some node =>
    have leaf : node.daemon ∉ controllers (defineSystem schedulers clusters).1 := by
      refine defineSystem_leaf schedulers clusters unnamed small ?_
      rw [← managed]
      exact mem_daemons member
    have targets := mem_downTargets once leaf
    have marked : node.report .down .down = { node with state := .down } := by simp [Node.report]
    simp [targets, marked]

def singleRack : List Cluster :=
  let controller (state : NodeState) : Node := ⟨[], invalidName, state, .undef⟩
  let node (name : CString) : Node := ⟨name, invalidName, .unknown, .undef⟩
  [⟨controller .undef, [⟨controller .undef, [⟨controller .unknown, [node ['a'], node ['b']]⟩]⟩]⟩]

def singleRackPool : Pool := (leaves (defineSystem 1 singleRack).1).map some

open Classical in
theorem down_report_marks_single_rack :
    (nodestateUpdate (defineSystem 1 singleRack).1 (.down (daemonName 3)) singleRackPool).2 =
        singleRackPool.map (Option.map fun node =>
          if Affected (defineSystem 1 singleRack).1 (daemonName 3) node.daemon then
            { node with state := .down }
          else node) ∧
      (nodestateUpdate (defineSystem 1 singleRack).1 (.down (daemonName 3)) singleRackPool).2 ≠
        singleRackPool :=
  ⟨down_report_marks_affected 1 singleRack singleRackPool (daemonName 3) (by unfold Unnamed; decide)
    (by decide)
    (by decide) (by decide), by decide⟩

/-- The node of a controller is no node of the scheduler: a report about it marks the nodes of its
rack only. -/
theorem down_report_leaves_controller :
    (controllers (defineSystem 1 singleRack).1).contains (daemonName 1) = true ∧
      (nodestateUpdate (defineSystem 1 singleRack).1 (.down (daemonName 1)) singleRackPool).2 =
        [some ⟨['a'], daemonName 2, .down, .undef⟩, some ⟨['b'], daemonName 3, .down, .undef⟩] ∧
      ¬ ∃ node,
        some node ∈ (nodestateUpdate (defineSystem 1 singleRack).1 (.down (daemonName 1))
          singleRackPool).2 ∧
        node.daemon = daemonName 1 ∧ node.state = .down := by
  refine ⟨by decide, by decide, ?_⟩
  rintro ⟨node, member, own, -⟩
  have managed := mem_daemons member
  rw [own] at managed
  exact absurd managed (by decide)

end Orcm.NodeReport
