import Mathlib.Data.List.Perm.Basic
import Orcm.ClusterPaths

/-!
Whether messages between the daemons of a cluster arrive. A cluster controller that is there is not
recognised by itself, only the first cluster and the first scheduler are read, and a controller that
is not an aggregator sends everything to its parent.
-/

namespace Orcm.ClusterDelivery

open DssTypes NodePool Hierarchy ClusterTables ClusterPaths RootPaths Delivery List

section System

variable (schedulers : Nat) (clusters : List Cluster) (aggregator : ProcessName → Bool)

def systemNames : List ProcessName :=
  schedulerNames schedulers ++ (roster (defineSystem schedulers clusters).1).filter
    (· ≠ invalidName)

/-- The tables that a daemon builds from the buffer that the configuration module packs. -/
def tablesOf (me : ProcessName) : Result Tables :=
  initRoutes me (defineSystem schedulers clusters).2
    (clusterBuffer schedulers (defineSystem schedulers clusters).1)

/-- A daemon is an aggregator, or it is a compute node to `get_route`; a scheduler is neither. -/
def callerOf (me : ProcessName) : Caller where
  is_tool := false
  routing_is_enabled := true
  is_scheduler := decide (me ∈ schedulerNames schedulers)
  is_daemon := decide (me ∉ schedulerNames schedulers) && !aggregator me
  my_name := me
  my_scheduler := daemonName 0

def Hop (target me via : ProcessName) : Prop :=
  me ∈ systemNames schedulers clusters ∧
    ∃ tables, tablesOf schedulers clusters me = .ok tables ∧
      getRoute (callerOf schedulers aggregator me) tables target = .ok via

/-- Every daemon has its tables, and every message arrives without passing a daemon twice. -/
def Delivers : Prop :=
  (∀ me ∈ systemNames schedulers clusters, ∃ tables, tablesOf schedulers clusters me = .ok tables) ∧
  ∀ source ∈ systemNames schedulers clusters, ∀ target ∈ systemNames schedulers clusters,
    ∃ path, Route (Hop schedulers clusters aggregator target) target source path ∧ path.Nodup

theorem getRoute_other {me : ProcessName} (tables : Tables) (other : target ≠ me)
    (sameJob : target.jobid = me.jobid) :
    getRoute (callerOf schedulers aggregator me) tables target =
      if (callerOf schedulers aggregator me).is_daemon then .ok ⟨me.jobid, tables.parent.vpid⟩
      else searchChildren me.jobid tables.parent target tables.children := by
  change (if target = me then _ else _) = _
  rw [if_neg other]
  exact if_neg fun differs => differs.1 sameJob

end System

def uncounted {Part : Type} (parts : List Part) : List Part :=
  parts.drop (BitVec.ofNat 32 parts.length).toInt.toNat

/-- A cluster that the routes work for: it has no controller of its own, all its daemons are read,
and its row and rack controllers with daemons below them are aggregators. -/
structure Supported (aggregator : ProcessName → Bool) (cluster : Cluster) : Prop where
  controller : cluster.controller.daemon = invalidName
  rows : Unnamed ((uncounted cluster.rows).flatMap Row.roster)
  racks : ∀ row ∈ counted cluster.rows, Unnamed ((uncounted row.racks).flatMap Rack.roster)
  row_aggregator : ∀ row ∈ counted cluster.rows, row.controller.daemon ≠ invalidName →
    ¬ Unnamed ((counted row.racks).flatMap Rack.roster) → aggregator row.controller.daemon = true
  rack_aggregator : ∀ row ∈ counted cluster.rows, ∀ rack ∈ counted row.racks,
    rack.controller.daemon ≠ invalidName → rack.nodes ≠ [] →
      aggregator rack.controller.daemon = true

def readRow (row : Row) : List ProcessName :=
  row.controller.daemon :: (counted row.racks).flatMap Rack.roster

def readCluster (cluster : Cluster) : List ProcessName := (counted cluster.rows).flatMap readRow

def valid (names : List ProcessName) : List ProcessName := names.filter (· ≠ invalidName)

variable (front : List ProcessName) (name : ProcessName)

theorem valid_append : valid (front ++ back) = valid front ++ valid back :=
  filter_append ..

theorem valid_cons : valid (name :: rest) = valid [name] ++ valid rest :=
  valid_append [name]

variable {Part : Type} {path : List ProcessName} (names : Part → List ProcessName)
    {parts : List Part}

theorem valid_flatMap :
    valid (parts.flatMap names) = parts.flatMap fun part => valid (names part) :=
  filter_flatMap ..

theorem extend_eq : extend front name = front ++ valid [name] := by
  by_cases absent : name = invalidName <;> simp [extend, valid, absent]

theorem controllerPath_eq :
    controllerPath front name = (valid [name]).map fun name => front ++ [name] := by
  by_cases absent : name = invalidName <;> simp [controllerPath, valid, absent]

def NodesNamed (racks : List Rack) : Prop :=
  ∀ rack ∈ racks, ∀ node ∈ rack.nodes, node.daemon ≠ invalidName

theorem controllerPath_last :
    (controllerPath front name).map List.getLast? = (valid [name]).map some := by
  rw [controllerPath_eq, map_map]
  exact map_congr_left fun name _ => getLast?_concat

variable {front}

theorem rackPaths_last (named : ∀ node ∈ rack.nodes, node.daemon ≠ invalidName) :
    (rackPaths front rack).map List.getLast? = (valid rack.roster).map some := by
  have nodes : valid (rack.nodes.map Node.daemon) = rack.nodes.map Node.daemon := by
    rw [valid, filter_eq_self]
    intro name member
    obtain ⟨node, present, rfl⟩ := List.mem_map.mp member
    simpa using named node present
  rw [rackPaths, Rack.roster, valid_cons, nodes, map_append, map_append,
    controllerPath_last, map_map, map_map]
  exact congrArg _ (map_congr_left fun node _ => getLast?_concat)

theorem flatMap_last
    (each : ∀ part ∈ parts, (paths part).map List.getLast? = (valid (names part)).map some) :
    (parts.flatMap paths).map List.getLast? = (valid (parts.flatMap names)).map some := by
  rw [valid_flatMap, map_flatMap, map_flatMap]
  exact flatMap_congr each

theorem rowPaths_last (named : NodesNamed (counted row.racks)) :
    (rowPaths row).map List.getLast? = (valid (readRow row)).map some := by
  rw [rowPaths, readRow, valid_cons, map_append, map_append, controllerPath_last,
    flatMap_last Rack.roster fun rack member => rackPaths_last (named rack member)]

theorem clusterPaths_last (named : ∀ row ∈ counted cluster.rows, NodesNamed (counted row.racks)) :
    (clusterPaths cluster).map List.getLast? = (valid (readCluster cluster)).map some :=
  flatMap_last _ fun row member => rowPaths_last (named row member)

/-! Each path runs through the names in the order in which they are read. -/

theorem sublist_flatMap (member : part ∈ parts) :
    (names part).Sublist (parts.flatMap names) :=
  sublist_flatten_of_mem (mem_map_of_mem member)

theorem rackPaths_sublist {front : List ProcessName}
    (named : ∀ node ∈ rack.nodes, node.daemon ≠ invalidName)
    (member : path ∈ rackPaths front rack) :
    ∃ below, path = front ++ below ∧ below.Sublist (valid rack.roster) := by
  rw [Rack.roster, valid_cons]
  rcases List.mem_append.mp member with controller | nodes
  · rw [controllerPath_eq] at controller
    obtain ⟨name, present, rfl⟩ := List.mem_map.mp controller
    exact ⟨[name], rfl, (List.singleton_sublist.mpr present).trans (sublist_append_left _ _)⟩
  · obtain ⟨node, present, rfl⟩ := List.mem_map.mp nodes
    refine ⟨valid [rack.controller.daemon] ++ [node.daemon], by rw [extend_eq, append_assoc], ?_⟩
    apply List.Sublist.append (List.Sublist.refl _)
    rw [singleton_sublist, valid, mem_filter]
    exact ⟨mem_map_of_mem present, by simpa using named node present⟩

theorem rowPaths_sublist (named : NodesNamed (counted row.racks))
    (member : path ∈ rowPaths row) :
    ∃ below, path = daemonName 0 :: below ∧ below.Sublist (valid (readRow row)) := by
  rw [readRow, valid_cons]
  rcases List.mem_append.mp member with controller | racks
  · rw [controllerPath_eq] at controller
    obtain ⟨name, present, rfl⟩ := List.mem_map.mp controller
    exact ⟨[name], rfl, (List.singleton_sublist.mpr present).trans (sublist_append_left _ _)⟩
  · obtain ⟨rack, present, inside⟩ := List.mem_flatMap.mp racks
    obtain ⟨below, rfl, sublist⟩ := rackPaths_sublist (named rack present) inside
    refine ⟨valid [row.controller.daemon] ++ below, by rw [extend_eq]; rfl, ?_⟩
    exact List.Sublist.append (List.Sublist.refl _)
      (sublist.trans ((sublist_flatMap _ present).filter _))

theorem clusterPaths_sublist
    (named : ∀ row ∈ counted cluster.rows, NodesNamed (counted row.racks))
    (member : path ∈ clusterPaths cluster) :
    ∃ below, path = daemonName 0 :: below ∧ below.Sublist (valid (readCluster cluster)) := by
  obtain ⟨row, present, inside⟩ := List.mem_flatMap.mp member
  obtain ⟨below, rfl, sublist⟩ := rowPaths_sublist (named row present) inside
  exact ⟨below, rfl, sublist.trans ((sublist_flatMap _ present).filter _)⟩

variable {name}

theorem extend_cases :
    extend front name = front ∨ extend front name ∈ controllerPath front name := by
  by_cases absent : name = invalidName <;> simp [extend, controllerPath, absent]

theorem controllerPath_dropLast {front : List ProcessName} {name : ProcessName}
    (member : path ∈ controllerPath front name) : path.dropLast = front := by
  rw [controllerPath_eq] at member
  obtain ⟨other, _, rfl⟩ := List.mem_map.mp member
  exact dropLast_concat

theorem clusterPaths_closed (member : path ∈ clusterPaths cluster) :
    path.dropLast ∈ [daemonName 0] :: clusterPaths cluster := by
  obtain ⟨row, rowMember, inside⟩ := List.mem_flatMap.mp member
  have inRow : ∀ other ∈ rowPaths row, other ∈ [daemonName 0] :: clusterPaths cluster :=
    fun other present => mem_cons_of_mem _ (List.mem_flatMap.mpr ⟨row, rowMember, present⟩)
  have rowFront :
      extend [daemonName 0] row.controller.daemon ∈ [daemonName 0] :: clusterPaths cluster := by
    rcases extend_cases with same | controller
    · rw [same]
      exact mem_cons_self
    · exact inRow _ (mem_append_left _ controller)
  rcases List.mem_append.mp inside with controller | racks
  · rw [controllerPath_dropLast controller]
    exact mem_cons_self
  · obtain ⟨rack, rackMember, inside⟩ := List.mem_flatMap.mp racks
    rcases List.mem_append.mp inside with controller | nodes
    · rw [controllerPath_dropLast controller]
      exact rowFront
    · obtain ⟨node, _, rfl⟩ := List.mem_map.mp nodes
      rw [dropLast_concat]
      rcases extend_cases with same | controller
      · rw [same]
        exact rowFront
      · exact inRow _ (mem_append_right _ (List.mem_flatMap.mpr
          ⟨rack, rackMember, mem_append_left _ controller⟩))

theorem mem_valid {names : List ProcessName} :
    name ∈ valid names ↔ name ∈ names ∧ name ≠ invalidName := by
  simp [valid]

theorem valid_of_vacant {names : List ProcessName} (vacant : Unnamed names) : valid names = [] := by
  rw [eq_nil_iff_forall_not_mem]
  intro name member
  obtain ⟨inside, there⟩ := mem_valid.mp member
  exact there (vacant name inside)

/-- Everything behind what is read, and the controller of the cluster. -/
def unread (cluster : Cluster) (others : List Cluster) : List ProcessName :=
  cluster.controller.daemon ::
    ((counted cluster.rows).flatMap (fun row => (uncounted row.racks).flatMap Rack.roster) ++
      (uncounted cluster.rows).flatMap Row.roster ++ roster others)

theorem counted_append : counted parts ++ uncounted parts = parts :=
  take_append_drop _ _

theorem row_roster : row.roster = readRow row ++ (uncounted row.racks).flatMap Rack.roster := by
  rw [Row.roster, readRow, cons_append, ← flatMap_append, counted_append]

theorem rows_roster :
    ((counted rows).flatMap readRow ++
      ((counted rows).flatMap (fun row => (uncounted row.racks).flatMap Rack.roster) ++
      (uncounted rows).flatMap Row.roster)).Perm (rows.flatMap Row.roster) := by
  have whole : rows.flatMap Row.roster =
      (counted rows).flatMap
        (fun row => readRow row ++ (uncounted row.racks).flatMap Rack.roster) ++
        (uncounted rows).flatMap Row.roster := by
    rw [← flatMap_congr fun row _ => row_roster, ← flatMap_append, counted_append]
  rw [whole, ← append_assoc]
  exact (flatMap_append_perm _ _ _).append_right _

theorem roster_perm :
    (readCluster cluster ++ unread cluster others).Perm (roster (cluster :: others)) := by
  refine List.perm_middle.trans (List.Perm.cons _ ?_)
  rw [← append_assoc]
  exact rows_roster.append_right _

theorem valid_perm (cluster : Cluster) (others : List Cluster) :
    (valid (readCluster cluster) ++ valid (unread cluster others)).Perm
      (valid (roster (cluster :: others))) := by
  rw [← valid_append]
  exact roster_perm.filter _

theorem vacant_append : Unnamed (front ++ back) ↔ Unnamed front ∧ Unnamed back :=
  forall_mem_append

theorem vacant_flatMap : Unnamed (parts.flatMap names) ↔ ∀ part ∈ parts, Unnamed (names part) :=
  forall_mem_flatMap

theorem unread_vacant_iff :
    Unnamed (unread cluster others) ↔ cluster.controller.daemon = invalidName ∧
      (∀ row ∈ counted cluster.rows, Unnamed ((uncounted row.racks).flatMap Rack.roster)) ∧
      Unnamed ((uncounted cluster.rows).flatMap Row.roster) ∧ Unnamed (roster others) := by
  rw [unread, Unnamed, forall_mem_cons]
  change _ ∧ Unnamed _ ↔ _
  rw [vacant_append, vacant_append, vacant_flatMap, and_assoc]

section Names

variable {schedulers : Nat} {clusters : List Cluster} (unnamed : Unnamed (roster clusters))
  (small : (defineSystem schedulers clusters).2 ≤ 2147483584)
include unnamed

theorem named_vpid (member : name ∈ valid (roster (defineSystem schedulers clusters).1)) :
    ∃ vpid, (if schedulers = 0 then 1 else schedulers) ≤ vpid ∧
      vpid < (defineSystem schedulers clusters).2 ∧
      name = daemonName vpid := by
  obtain ⟨atLeast, names⟩ := defineSystem_consecutive schedulers unnamed
  rw [valid, names, mem_map] at member
  obtain ⟨vpid, inside, rfl⟩ := member
  rw [mem_range'_1] at inside
  exact ⟨vpid, inside.1, by omega, rfl⟩

theorem system_daemon (member : name ∈ systemNames schedulers clusters) :
    IsDaemon (defineSystem schedulers clusters).2 name := by
  rcases List.mem_append.mp member with scheduler | named
  · obtain ⟨vpid, inside, rfl⟩ := List.mem_map.mp scheduler
    rw [mem_range] at inside
    obtain ⟨atLeast, -⟩ := defineSystem_consecutive schedulers unnamed
    rw [if_neg (by omega)] at atLeast
    exact ⟨vpid, by omega, rfl⟩
  · obtain ⟨vpid, -, bound, rfl⟩ := named_vpid unnamed named
    exact ⟨vpid, bound, rfl⟩

include small

theorem named_distinct : (valid (roster (defineSystem schedulers clusters).1)).Nodup :=
  defineSystem_distinct unnamed (by omega)

theorem scheduler_not_named (vpid : Nat) (scheduler : vpid < schedulers) :
    daemonName vpid ∉ valid (roster (defineSystem schedulers clusters).1) := by
  intro member
  obtain ⟨other, atLeast, bound, same⟩ := named_vpid unnamed member
  rw [if_neg (by omega)] at atLeast
  have equal := daemonName_injective (by omega) (by omega) same
  omega

theorem stranded_not_delivers (some_scheduler : schedulers ≠ 0) (aggregator : ProcessName → Bool)
    (me : ProcessName)
    (member : me ∈ systemNames schedulers clusters) (notFirst : daemonName 0 ≠ me)
    (tables : tablesOf schedulers clusters me = .ok freshTables) :
    ¬ Delivers schedulers clusters aggregator := by
  rintro ⟨-, routes⟩
  have firstMember : daemonName 0 ∈ systemNames schedulers clusters :=
    mem_append_left _ (mem_map_of_mem (List.mem_range.mpr (Nat.pos_of_ne_zero some_scheduler)))
  obtain ⟨path, route, -⟩ := routes me member (daemonName 0) firstMember
  obtain ⟨vpid, bound, rfl⟩ := system_daemon unnamed member
  have outside : daemonName 4294967295 ∉ systemNames schedulers clusters := by
    intro inside
    obtain ⟨other, small_vpid, same⟩ := system_daemon unnamed inside
    have equal := daemonName_injective (by omega) (by omega) same
    omega
  apply not_route_of_closed (fun name => name = daemonName vpid ∨
    name = daemonName 4294967295) _ _ _ (.inl rfl) path route
  · rintro name via (rfl | rfl) ⟨inside, other, own, step⟩
    · rw [tables] at own
      cases own
      rw [getRoute_other schedulers aggregator freshTables notFirst rfl] at step
      right
      split at step <;> cases step <;> rfl
    · exact absurd inside outside
  · rintro (same | same)
    · exact notFirst same
    · exact outside (same ▸ firstMember)

end Names

/-! What the tables of a daemon say about one target. -/

theorem lookup_entries {me : ProcessName} (goalEnds : goal.getLast? = some target)
    {visited : List (List ProcessName)}
    (single : ∀ path ∈ visited, path.getLast? = some target → path = goal) :
    (visited.flatMap (entry me)).lookup target = if goal ∈ visited then after me goal
      else none := by
  induction visited with
  | nil => rfl
  | cons path rest ih =>
    rw [forall_mem_cons] at single
    rw [List.flatMap_cons, List.lookup_append, ih single.2]
    by_cases ends : path.getLast? = some target
    · obtain rfl := single.1 ends
      rw [entry, ends]
      cases next : after me path with
      | none => simp
      | some => simp
    · have notGoal : goal ≠ path := by
        rintro rfl
        exact ends goalEnds
      have nothing : (entry me path).lookup target = none := by
        rw [entry]
        cases last : path.getLast? with
        | none => rfl
        | some name =>
          have differs : target ≠ name := by
            rintro rfl
            exact ends last
          cases after me path with
          | none => rfl
          | some => simp [beq_false_of_ne differs]
      simp [nothing, Option.none_or, mem_cons, or_iff_right notGoal]

theorem parentIn_absent {me : ProcessName}
    (absent : ∀ path ∈ visited, path.getLast? ≠ some me) : parentIn me visited = invalidName := by
  induction visited using List.reverseRecOn with
  | nil => rfl
  | append_singleton visited path ih =>
    rw [forall_mem_append, forall_mem_singleton] at absent
    rw [parentIn, foldl_append, foldl_cons, if_neg absent.2]
    exact ih absent.1

theorem parentIn_single {me : ProcessName} (ends : path.getLast? = some me)
    (isParent : path.dropLast.getLast? = some parent) (member : path ∈ visited)
    (single : ∀ other ∈ visited, other.getLast? = some me → other = path) :
    parentIn me visited = parent := by
  induction visited using List.reverseRecOn with
  | nil => cases member
  | append_singleton visited other ih =>
    rw [forall_mem_append, forall_mem_singleton] at single
    rw [parentIn, foldl_append, foldl_cons, foldl_nil]
    by_cases last : other.getLast? = some me
    · rw [if_pos last, single.2 last, above, isParent, Option.getD_some]
    · rw [if_neg last]
      have earlier : path ∈ visited := by
        rcases List.mem_append.mp member with earlier | same
        · exact earlier
        · exact absurd (List.mem_singleton.mp same ▸ ends) last
      exact ih earlier single.1

/-! One scheduler, and a first cluster that is read as a whole. -/

section Single

variable {clusters others : List Cluster} {first : Cluster} (unnamed : Unnamed (roster clusters))
  (small : (defineSystem 1 clusters).2 ≤ 2147483584)
  (named : (defineSystem 1 clusters).1 = first :: others)

def systemPaths (cluster : Cluster) : List (List ProcessName) :=
  [daemonName 0] :: clusterPaths cluster

section Read

include named

theorem nodes_named : ∀ row ∈ counted first.rows, NodesNamed (counted row.racks) := by
  intro row rowMember rack rackMember node nodeMember
  apply defineSystem_leaves
  rw [named]
  exact List.mem_flatMap.mpr ⟨first, mem_cons_self,
    List.mem_flatMap.mpr ⟨row, mem_of_mem_take rowMember,
    List.mem_flatMap.mpr ⟨rack, mem_of_mem_take rackMember, nodeMember⟩⟩⟩

theorem read_subset (member : name ∈ valid (readCluster first)) :
    name ∈ valid (roster (defineSystem 1 clusters).1) := by
  rw [named]
  exact (valid_perm first others).subset (mem_append_left _ member)

theorem systemPaths_last :
    (systemPaths first).map List.getLast? = (daemonName 0 :: valid (readCluster first)).map
      some := by
  rw [systemPaths, map_cons, clusterPaths_last (nodes_named named)]
  rfl

theorem member_iff_read (name : ProcessName) :
    Member (systemPaths first) name ↔ name ∈ daemonName 0 :: valid (readCluster first) := by
  have same : some name ∈ (systemPaths first).map List.getLast? ↔
      name ∈ daemonName 0 :: valid (readCluster first) := by
    rw [systemPaths_last named, mem_map_of_injective (Option.some_injective _)]
  rw [← same, mem_map]
  rfl

include unnamed small

theorem read_distinct : (daemonName 0 :: valid (readCluster first)).Nodup := by
  rw [nodup_cons]
  constructor
  · intro member
    exact scheduler_not_named unnamed small 0 Nat.one_pos (read_subset named member)
  · have distinct := named_distinct unnamed small
    rw [named] at distinct
    exact (((valid_perm first others).nodup_iff.mpr distinct).of_append_left)

theorem paths_proper (path : List ProcessName) (member : path ∈ clusterPaths first) :
    Proper (defineSystem 1 clusters).2 path := by
  obtain ⟨below, rfl, sublist⟩ := clusterPaths_sublist (nodes_named named) member
  constructor
  · exact (read_distinct unnamed small named).sublist (sublist.cons_cons _)
  · intro name inside
    apply system_daemon unnamed
    rcases List.mem_cons.mp inside with rfl | later
    · exact mem_append_left _ mem_cons_self
    · exact mem_append_right _ (read_subset named (sublist.subset later))

theorem systemPaths_tree : Tree (daemonName 0) (systemPaths first) where
  rooted := mem_cons_self
  starts := by
    rw [systemPaths, forall_mem_cons]
    refine ⟨rfl, fun path member => ?_⟩
    obtain ⟨below, rfl, -⟩ := clusterPaths_sublist (nodes_named named) member
    rfl
  simple := by
    rw [systemPaths, forall_mem_cons]
    exact ⟨nodup_singleton _, fun path member => (paths_proper unnamed small named path member).1⟩
  closed := by
    rw [systemPaths, forall_mem_cons]
    exact ⟨fun more => absurd rfl more, fun path member _ => clusterPaths_closed member⟩
  single := by
    intro path member other otherMember same
    apply inj_on_of_nodup_map _ member otherMember same
    rw [systemPaths_last named]
    exact (read_distinct unnamed small named).map (Option.some_injective _)

variable (vacant : Unnamed (unread first others)) (aggregator : ProcessName → Bool)
include vacant

omit unnamed small in
theorem member_iff (name : ProcessName) :
    Member (systemPaths first) name ↔ name ∈ systemNames 1 clusters := by
  rw [member_iff_read named, systemNames, named]
  change _ ↔ name ∈ [daemonName 0] ++ valid (roster (first :: others))
  have read := (valid_perm first others).mem_iff (a := name)
  rw [valid_of_vacant vacant, append_nil] at read
  rw [singleton_append, mem_cons, mem_cons, read]

variable (me : ProcessName)

theorem tables_stand (inside : me ∈ systemNames 1 clusters) :
    ∃ tables ends, tablesOf 1 clusters me = .ok tables ∧
      Stands (defineSystem 1 clusters).2 me (clusterPaths first) ends tables := by
  obtain ⟨vpid, -, rfl⟩ := system_daemon unnamed inside
  rw [tablesOf, named]
  exact initRoutes_stands small (daemonName_ne_invalid vpid)
    (unread_vacant_iff.mp vacant).1 (paths_proper unnamed small named)

omit vacant in
theorem root_not_path (member : path ∈ clusterPaths first) : path ≠ [daemonName 0] := by
  rintro rfl
  exact path_ne_nil (systemPaths_tree unnamed small named) [] (clusterPaths_closed member) rfl

theorem parent_eq (pathMember : path ∈ systemPaths first) (pathEnds : path.getLast? = some me)
    (stands : Stands (defineSystem 1 clusters).2 me (clusterPaths first) ends tables) :
    (⟨0, tables.parent.vpid⟩ : ProcessName) = above (daemonName 4294967295) path := by
  have tree := systemPaths_tree unnamed small named
  have single : ∀ other ∈ clusterPaths first, other.getLast? = some me → other = path :=
    fun other member same =>
    tree.single other (mem_cons_of_mem _ member) path pathMember (same.trans pathEnds.symm)
  rw [stands.parent]
  rcases List.mem_cons.mp pathMember with rfl | member
  · rw [parentIn_absent]
    · rfl
    · intro other otherMember same
      exact root_not_path unnamed small named otherMember (single other otherMember same)
  · have shorter := clusterPaths_closed member
    have upEnds : path.dropLast.getLast? = some (above (daemonName 4294967295) path) := by
      rw [above, getLast?_eq_some_getLast (path_ne_nil tree _ shorter), Option.getD_some]
    rw [parentIn_single pathEnds upEnds member single]
    obtain ⟨vpid, -, same⟩ := system_daemon unnamed
      ((member_iff named vacant _).mp ⟨_, shorter, upEnds⟩)
    rw [same]
    rfl

omit vacant in
theorem answer_eq (goalMember : goal ∈ systemPaths first) (goalEnds : goal.getLast? = some target) :
    ((clusterPaths first).flatMap (entry me)).lookup target = after me goal := by
  have tree := systemPaths_tree unnamed small named
  rw [lookup_entries goalEnds fun other member same =>
    tree.single other (mem_cons_of_mem _ member) goal goalMember (same.trans goalEnds.symm)]
  rcases List.mem_cons.mp goalMember with rfl | member
  · exact ite_self _
  · exact if_pos member

theorem hop_iff (pathMember : path ∈ systemPaths first) (goalMember : goal ∈ systemPaths first)
    (ends : path.getLast? = some me)
    (goalEnds : goal.getLast? = some target) (away : me ≠ target) (via : ProcessName) :
    Hop 1 clusters aggregator target me via ↔
      via = if (callerOf 1 aggregator me).is_daemon then above (daemonName 4294967295) path
        else (after me goal).getD (above (daemonName 4294967295) path) := by
  have inside : me ∈ systemNames 1 clusters :=
    (member_iff named vacant me).mp ⟨path, pathMember, ends⟩
  have targetInside : target ∈ systemNames 1 clusters :=
    (member_iff named vacant target).mp ⟨goal, goalMember, goalEnds⟩
  have targetDaemon := system_daemon unnamed targetInside
  obtain ⟨vpid, -, isDaemon⟩ := system_daemon unnamed inside
  obtain ⟨targetVpid, -, isTarget⟩ := id targetDaemon
  have jobid : me.jobid = 0 := by rw [isDaemon]; rfl
  have sameJob : target.jobid = me.jobid := by rw [jobid, isTarget]; rfl
  obtain ⟨tables, last, built, stands⟩ := tables_stand unnamed small named vacant me inside
  have parent := parent_eq unnamed small named vacant me pathMember ends stands
  have searched := search_eq_seek small tables.parent targetDaemon stands.answers.room
  rw [stands.answers.answers target targetDaemon,
    answer_eq unnamed small named me goalMember goalEnds, parent] at searched
  have route : getRoute (callerOf 1 aggregator me) tables target =
      .ok (if (callerOf 1 aggregator me).is_daemon then above (daemonName 4294967295) path
        else (after me goal).getD (above (daemonName 4294967295) path)) := by
    rw [getRoute_other 1 aggregator tables (Ne.symm away) sameJob, jobid]
    split
    · exact congrArg Except.ok parent
    · exact searched
  constructor
  · rintro ⟨-, other, own, step⟩
    rw [built] at own
    cases own
    rw [route] at step
    cases step
    rfl
  · rintro rfl
    exact ⟨inside, tables, built, route⟩

def Forwards (aggregator : ProcessName → Bool) (me : ProcessName) : Prop :=
  me = daemonName 0 ∨ aggregator me = true

omit unnamed small named vacant in
theorem not_is_daemon_iff :
    (callerOf 1 aggregator me).is_daemon = false ↔ Forwards aggregator me := by
  change (decide (me ∉ [daemonName 0]) && !aggregator me) = false ↔ _
  by_cases scheduler : me = daemonName 0 <;> simp [Forwards, scheduler]

theorem system_sends :
    Sends (daemonName 4294967295) (systemPaths first) (Forwards aggregator)
      (Hop 1 clusters aggregator) where
  down := by
    intro path pathMember goal goalMember me target ends goalEnds away forwards via
    rw [hop_iff unnamed small named vacant aggregator me pathMember goalMember ends goalEnds away,
      (not_is_daemon_iff aggregator me).mpr forwards, if_neg Bool.false_ne_true]
  up := by
    intro path pathMember goal goalMember me target ends goalEnds away notForwards via
    rw [hop_iff unnamed small named vacant aggregator me pathMember goalMember ends goalEnds away,
      Bool.eq_true_of_not_eq_false (mt (not_is_daemon_iff aggregator me).mp notForwards),
      if_pos rfl]

theorem delivers_iff_forwards :
    Delivers 1 clusters aggregator ↔ ∀ goal ∈ systemPaths first, ∀ me ∈ goal.dropLast,
      Forwards aggregator me := by
  rw [← delivered_iff (systemPaths_tree unnamed small named)
    (system_sends unnamed small named vacant aggregator) (.inl rfl)]
  simp only [member_iff named vacant]
  constructor
  · rintro ⟨-, routes⟩ source target sourceMember targetMember
    exact routes source sourceMember target targetMember
  · intro routes
    refine ⟨fun me inside => ?_, fun source sourceMember target targetMember =>
      routes source target sourceMember targetMember⟩
    obtain ⟨tables, -, built, -⟩ := tables_stand unnamed small named vacant me inside
    exact ⟨tables, built⟩

end Read

/-! Which daemons are passed on the way to others. -/

section Passed

variable {row : Row} (rowMember : row ∈ counted first.rows) {rack : Rack}
    (rackMember : rack ∈ counted row.racks)
include rowMember rackMember

theorem rackPaths_subset
    (member : path ∈ rackPaths (extend [daemonName 0] row.controller.daemon) rack) :
    path ∈ systemPaths first :=
  mem_cons_of_mem _ (List.mem_flatMap.mpr ⟨row, rowMember,
    mem_append_right _ (List.mem_flatMap.mpr ⟨rack, rackMember, member⟩)⟩)

theorem rack_passed (nodeMember : node ∈ rack.nodes)
    (there : rack.controller.daemon ≠ invalidName) :
    ∃ path ∈ systemPaths first, rack.controller.daemon ∈ path.dropLast := by
  refine ⟨_, rackPaths_subset rowMember rackMember
    (mem_append_right _ (mem_map_of_mem nodeMember)), ?_⟩
  rw [dropLast_concat, extend, if_neg there]
  exact mem_append_right _ mem_cons_self

theorem row_passed (inside : name ∈ rack.roster) (present : name ≠ invalidName)
    (there : row.controller.daemon ≠ invalidName) :
    ∃ path ∈ systemPaths first, row.controller.daemon ∈ path.dropLast := by
  have rowInside : row.controller.daemon ∈ extend [daemonName 0] row.controller.daemon := by
    rw [extend, if_neg there]
    exact mem_append_right _ mem_cons_self
  rcases List.mem_cons.mp inside with rfl | nodes
  · refine ⟨extend [daemonName 0] row.controller.daemon ++ [rack.controller.daemon],
      rackPaths_subset rowMember rackMember (mem_append_left _ ?_), ?_⟩
    · rw [controllerPath, if_neg present]
      exact mem_cons_self
    · rwa [dropLast_concat]
  · obtain ⟨node, nodeMember, rfl⟩ := List.mem_map.mp nodes
    refine ⟨_, rackPaths_subset rowMember rackMember
      (mem_append_right _ (mem_map_of_mem nodeMember)), ?_⟩
    rw [dropLast_concat, extend]
    split
    · exact rowInside
    · exact mem_append_left _ rowInside

end Passed

theorem mem_extend {me : ProcessName} :
    me ∈ extend front name ↔ me ∈ front ∨ name ≠ invalidName ∧ me = name := by
  rw [extend]
  by_cases absent : name = invalidName <;> simp [absent]

theorem passed_forwards {aggregator : ProcessName → Bool}
    (rows : ∀ row ∈ counted first.rows, row.controller.daemon ≠ invalidName →
      ¬ Unnamed ((counted row.racks).flatMap Rack.roster) → aggregator row.controller.daemon = true)
    (racks : ∀ row ∈ counted first.rows, ∀ rack ∈ counted row.racks,
      rack.controller.daemon ≠ invalidName →
      rack.nodes ≠ [] → aggregator rack.controller.daemon = true)
    (nodesNamed : ∀ row ∈ counted first.rows, NodesNamed (counted row.racks))
    (goal : List ProcessName) (goalMember : goal ∈ systemPaths first) (me : ProcessName)
    (passed : me ∈ goal.dropLast) :
    Forwards aggregator me := by
  rcases List.mem_cons.mp goalMember with rfl | member
  · cases passed
  obtain ⟨row, rowMember, member⟩ := List.mem_flatMap.mp member
  have inRow : ∀ rack ∈ counted row.racks, ∀ name ∈ rack.roster, name ≠ invalidName →
      me ∈ extend [daemonName 0] row.controller.daemon → Forwards aggregator me := by
    intro rack rackMember name inside present onPath
    rcases mem_extend.mp onPath with scheduler | ⟨there, rfl⟩
    · exact .inl (List.mem_singleton.mp scheduler)
    · exact .inr (rows row rowMember there fun vacant =>
        present (vacant name (List.mem_flatMap.mpr ⟨rack, rackMember, inside⟩)))
  rcases List.mem_append.mp member with controller | inRacks
  · rw [controllerPath_dropLast controller] at passed
    exact .inl (List.mem_singleton.mp passed)
  · obtain ⟨rack, rackMember, member⟩ := List.mem_flatMap.mp inRacks
    rcases List.mem_append.mp member with controller | inNodes
    · rw [controllerPath_dropLast controller] at passed
      rw [controllerPath_eq] at controller
      obtain ⟨name, present, -⟩ := List.mem_map.mp controller
      obtain ⟨isController, there⟩ := mem_valid.mp present
      rw [mem_singleton] at isController
      exact inRow rack rackMember name (isController ▸ mem_cons_self) there passed
    · obtain ⟨node, nodeMember, rfl⟩ := List.mem_map.mp inNodes
      rw [dropLast_concat] at passed
      rcases mem_extend.mp passed with onPath | ⟨there, rfl⟩
      · exact inRow rack rackMember node.daemon (mem_cons_of_mem _ (mem_map_of_mem nodeMember))
          (nodesNamed row rowMember rack rackMember node nodeMember) onPath
      · exact .inr (racks row rowMember rack rackMember there (ne_nil_of_mem nodeMember))

include unnamed small named in
theorem delivers_iff_supported (vacant : Unnamed (unread first others))
    {aggregator : ProcessName → Bool} :
    Delivers 1 clusters aggregator ↔ Supported aggregator first := by
  obtain ⟨controller, racks, rows, -⟩ := unread_vacant_iff.mp vacant
  rw [delivers_iff_forwards unnamed small named vacant aggregator]
  constructor
  · intro forwards
    have isAggregator : ∀ name ∈ valid (readCluster first), Forwards aggregator name →
        aggregator name = true := by
      rintro name member (rfl | holds)
      · exact absurd member (List.nodup_cons.mp (read_distinct unnamed small named)).1
      · exact holds
    refine ⟨controller, rows, racks, ?_, ?_⟩
    · intro row rowMember there occupied
      rw [Unnamed] at occupied
      push Not at occupied
      obtain ⟨name, inside, present⟩ := occupied
      obtain ⟨rack, rackMember, inside⟩ := List.mem_flatMap.mp inside
      obtain ⟨path, pathMember, passed⟩ := row_passed rowMember rackMember inside present there
      exact isAggregator _ (mem_valid.mpr ⟨List.mem_flatMap.mpr ⟨row, rowMember, mem_cons_self⟩,
        there⟩)
        (forwards path pathMember _ passed)
    · intro row rowMember rack rackMember there some_node
      obtain ⟨node, nodeMember⟩ := exists_mem_of_ne_nil _ some_node
      obtain ⟨path, pathMember, passed⟩ := rack_passed rowMember rackMember nodeMember there
      have read : rack.controller.daemon ∈ readCluster first :=
        List.mem_flatMap.mpr ⟨row, rowMember,
        mem_cons_of_mem _ (List.mem_flatMap.mpr ⟨rack, rackMember, mem_cons_self⟩)⟩
      exact isAggregator _ (mem_valid.mpr ⟨read, there⟩) (forwards path pathMember _ passed)
  · intro supported
    exact passed_forwards supported.row_aggregator supported.rack_aggregator (nodes_named named)

end Single

section Needs

variable {schedulers : Nat} {clusters : List Cluster} (unnamed : Unnamed (roster clusters))
  (small : (defineSystem schedulers clusters).2 ≤ 2147483584) {aggregator : ProcessName → Bool}
  (delivers : Delivers schedulers clusters aggregator)
  (some_daemon : systemNames schedulers clusters ≠ [])
include delivers some_daemon

theorem some_scheduler : schedulers ≠ 0 := by
  rintro rfl
  obtain ⟨me, member⟩ := exists_mem_of_ne_nil _ some_daemon
  obtain ⟨tables, built⟩ := delivers.1 me member
  cases built

theorem some_cluster : ∃ first others, (defineSystem schedulers clusters).1 = first :: others := by
  obtain ⟨me, member⟩ := exists_mem_of_ne_nil _ some_daemon
  obtain ⟨tables, built⟩ := delivers.1 me member
  obtain ⟨fewer, rfl⟩ := Nat.exists_eq_succ_of_ne_zero (some_scheduler delivers some_daemon)
  cases named : (defineSystem (fewer + 1) clusters).1 with
  | cons first others => exact ⟨first, others, rfl⟩
  | nil =>
    rw [tablesOf, named, clusterBuffer, schedulerNames, range_succ_eq_map] at built
    cases built

variable {first : Cluster} {others : List Cluster}
    (named : (defineSystem schedulers clusters).1 = first :: others)
include unnamed small named

theorem all_read {me : ProcessName} (member : me ∈ systemNames schedulers clusters)
    (notFirst : daemonName 0 ≠ me) :
    me ∈ readCluster first := by
  by_contra absent
  have some_scheduler := some_scheduler delivers some_daemon
  apply stranded_not_delivers unnamed small some_scheduler aggregator me member notFirst _ delivers
  rw [tablesOf, named]
  apply initRoutes_stranded some_scheduler (daemon_valid small (system_daemon unnamed member))
    notFirst
  intro row rowMember
  constructor
  · rintro rfl
    exact absent (List.mem_flatMap.mpr ⟨row, rowMember, mem_cons_self⟩)
  · intro inside
    exact absent (List.mem_flatMap.mpr ⟨row, rowMember, mem_cons_of_mem _ inside⟩)

theorem one_scheduler : schedulers = 1 := by
  have positive := some_scheduler delivers some_daemon
  by_contra several
  have member : daemonName 1 ∈ systemNames schedulers clusters :=
    mem_append_left _ (mem_map_of_mem (List.mem_range.mpr (by omega)))
  have read := all_read unnamed small delivers some_daemon named member (by decide)
  apply scheduler_not_named unnamed small 1 (by omega)
  rw [named]
  exact (valid_perm first others).subset
    (mem_append_left _ (mem_valid.mpr ⟨read, daemonName_ne_invalid 1⟩))

theorem unread_vacant : Unnamed (unread first others) := by
  intro name inside
  by_contra there
  have notRead : name ∈ valid (unread first others) := mem_valid.mpr ⟨inside, there⟩
  have member : name ∈ valid (roster (defineSystem schedulers clusters).1) := by
    rw [named]
    exact (valid_perm first others).subset (mem_append_right _ notRead)
  have notFirst : daemonName 0 ≠ name := by
    rintro rfl
    exact scheduler_not_named unnamed small 0
      (Nat.pos_of_ne_zero (some_scheduler delivers some_daemon)) member
  have read :=
    all_read unnamed small delivers some_daemon named (mem_append_right _ member) notFirst
  have distinct := named_distinct unnamed small
  rw [named, ← (valid_perm first others).nodup_iff] at distinct
  exact disjoint_of_nodup_append distinct (mem_valid.mpr ⟨read, there⟩) notRead

end Needs

/-- Messages between the daemons of a system arrive exactly if there is one scheduler, only one
cluster has daemons, and that cluster is one that the routes support. -/
theorem cluster_routing_delivers (schedulers : Nat) (clusters : List Cluster)
    (aggregator : ProcessName → Bool) (unnamed : Unnamed (roster clusters))
    (small : (defineSystem schedulers clusters).2 ≤ 2147483584) :
    Delivers schedulers clusters aggregator ↔ systemNames schedulers clusters = [] ∨
      schedulers = 1 ∧ ∃ first others, (defineSystem schedulers clusters).1 = first :: others ∧
        Unnamed (roster others) ∧
        Supported aggregator first := by
  constructor
  · intro delivers
    by_cases empty : systemNames schedulers clusters = []
    · exact .inl empty
    obtain ⟨first, others, named⟩ := some_cluster delivers empty
    have vacant := unread_vacant unnamed small delivers empty named
    obtain rfl := one_scheduler unnamed small delivers empty named
    exact .inr ⟨rfl, first, others, named, (unread_vacant_iff.mp vacant).2.2.2,
      (delivers_iff_supported unnamed small named vacant).mp delivers⟩
  · rintro (empty | ⟨rfl, first, others, named, othersVacant, supported⟩)
    · constructor
      · rw [empty]
        exact fun me member => absurd member List.not_mem_nil
      · rw [empty]
        exact fun source member => absurd member List.not_mem_nil
    · have vacant := unread_vacant_iff.mpr
        ⟨supported.controller, supported.racks, supported.rows, othersVacant⟩
      exact (delivers_iff_supported unnamed small named vacant).mpr supported

def part (state : NodeState) : Node := ⟨[], invalidName, state, .undef⟩

/-- A cluster of one row and one rack with two nodes; the row and the rack have controllers. -/
def smallCluster (controller : NodeState) : Cluster :=
  ⟨part controller, [⟨part .unknown, [⟨part .unknown, [part .unknown, part .unknown]⟩]⟩]⟩

theorem cluster_routing_delivers_small :
    Unnamed (roster [smallCluster .undef]) ∧ (defineSystem 1 [smallCluster .undef]).2 ≤ 2147483584 ∧
      Delivers 1 [smallCluster .undef] fun _ => true := by
  have unnamed : Unnamed (roster [smallCluster .undef]) := by decide
  have small : (defineSystem 1 [smallCluster .undef]).2 ≤ 2147483584 := by decide
  refine ⟨unnamed, small, (cluster_routing_delivers 1 _ _ unnamed small).mpr
    (.inr ⟨rfl, _, [], rfl, ?_, ?_⟩)⟩
  · exact fun name member => absurd member List.not_mem_nil
  · exact ⟨rfl, by decide, by decide, fun _ _ _ _ => rfl, fun _ _ _ _ _ _ => rfl⟩

/-- The controller of a cluster does not find itself: what it sends goes to no daemon. -/
theorem cluster_controller_stranded : ¬ Delivers 1 [smallCluster .unknown] fun _ => true := by
  have unnamed : Unnamed (roster [smallCluster .unknown]) := by decide
  have small : (defineSystem 1 [smallCluster .unknown]).2 ≤ 2147483584 := by decide
  exact stranded_not_delivers unnamed small Nat.one_ne_zero _ (daemonName 1) (by decide)
    (by decide) rfl

end Orcm.ClusterDelivery
