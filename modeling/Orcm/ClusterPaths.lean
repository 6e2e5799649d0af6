import Orcm.ClusterTables
import Orcm.RootPaths

/-!
What a daemon's tables say, in terms of the paths from the scheduler to the daemons. Each name that
a daemon visits adds one path, and the daemon answers for the last name of a path with the name that
follows its own on it.
-/

namespace Orcm.ClusterPaths

open CLibrary OpalBitmap DssTypes NodePool Hierarchy ClusterTables RootPaths List Option Result
open Routed (Child initRelatives)

def IsDaemon (num_procs : Nat) (name : ProcessName) : Prop :=
  ∃ vpid < num_procs, name = daemonName vpid

section Names

variable {num_procs : Nat} (small : num_procs ≤ 2147483584)
include small

theorem daemon_vpid {name : ProcessName} (daemon : IsDaemon num_procs name) :
    name.vpid.toNat < num_procs ∧ name = daemonName name.vpid.toNat := by
  obtain ⟨vpid, bound, rfl⟩ := daemon
  have same : (daemonName vpid).vpid.toNat = vpid := by
    change (BitVec.ofNat 32 vpid).toNat = vpid
    exact Nat.mod_eq_of_lt (by omega)
  rw [same]
  exact ⟨bound, rfl⟩

theorem daemon_valid {name : ProcessName} (daemon : IsDaemon num_procs name) :
    isValid name = true := by
  obtain ⟨bound, same⟩ := daemon_vpid small daemon
  have vpid : name.vpid ≠ 4294967295 := by
    intro last
    have value : name.vpid.toNat = 4294967295 := by
      rw [last]
      rfl
    omega
  have jobid : name.jobid ≠ 4294967295 := by
    rw [same]
    change (0 : BitVec 32) ≠ 4294967295
    decide
  rw [isValid, Bool.and_eq_true, decide_eq_true_eq, decide_eq_true_eq]
  exact ⟨jobid, vpid⟩

end Names

theorem invalid_not_valid : isValid invalidName = false := by decide

def has (relatives : Bitmap) (bit : Nat) : Bool :=
  (relatives.words.getD (bit / 64) 0).getLsbD (bit % 64)

def seek (children : List Child) (target : ProcessName) : Option ProcessName :=
  children.findSome? fun child =>
    if child.vpid = target.vpid.toNat ∨ has child.relatives target.vpid.toNat then
      some (daemonName child.vpid) else none

def entry (me : ProcessName) (path : List ProcessName) : List (ProcessName × ProcessName) :=
  match path.getLast? with
  | some name => (after me path).toList.map fun via => (name, via)
  | none => []

def parentIn (me : ProcessName) (visited : List (List ProcessName)) : ProcessName :=
  visited.foldl (fun parent path => if path.getLast? = some me then above parent path else parent)
    invalidName

/-- The children give these answers; the last child is named. -/
structure Answers (num_procs : Nat) (found : List (ProcessName × ProcessName))
    (last : Option ProcessName) (children : List Child) : Prop where
  room : ∀ child ∈ children, child.relatives.Room num_procs ∧ child.vpid < num_procs
  answers : ∀ target, IsDaemon num_procs target → seek children target = found.lookup target
  last : children.getLast?.map (fun child => daemonName child.vpid) = last

theorem seek_append :
    seek (children ++ [child]) target = (seek children target).or
      (if child.vpid = target.vpid.toNat ∨ has child.relatives target.vpid.toNat then
        some (daemonName child.vpid)
      else none) := by
  rw [seek, findSome?_append, findSome?_singleton]
  rfl

theorem lookup_append {name : ProcessName} :
    (found ++ [(name, via)]).lookup target = (found.lookup target).or
      (if target = name then some via else none) := by
  rw [List.lookup_append]
  congr 1
  by_cases same : target = name
  · rw [same, lookup_cons_self, if_pos rfl]
  · rw [lookup_cons, beq_false_of_ne same, if_neg same]
    rfl

section Visits

variable {num_procs : Nat} (small : num_procs ≤ 2147483584)
include small

theorem search_eq_seek (parent : ProcessName) (daemon : IsDaemon num_procs target)
    (room : ∀ child ∈ children, child.relatives.Room num_procs ∧ child.vpid < num_procs) :
    searchChildren 0 parent target children = .ok
      ((seek children target).getD ⟨0, parent.vpid⟩) := by
  obtain ⟨bound, named⟩ := daemon_vpid small daemon
  have converted : toInt target.vpid.toNat = (target.vpid.toNat : Int) := by
    rw [toInt, Int.bmod]
    split <;> omega
  induction children with
  | nil => rfl
  | cons child rest ih =>
    rw [forall_mem_cons] at room
    rw [searchChildren, seek, findSome?_cons, converted]
    by_cases itself : child.vpid = target.vpid.toNat
    · simp only [itself, true_or, ↓reduceIte, getD_some]
      rw [← named]
    · obtain ⟨answer, queried, holds⟩ :=
        @opalBitmapIsSetBit_room ErrorCode child.relatives num_procs target.vpid.toNat
          room.1.1 small
      have same : answer = has child.relatives target.vpid.toNat := Bool.eq_iff_iff.mpr holds
      rw [if_neg itself, queried, same]
      cases below : has child.relatives target.vpid.toNat with
      | true => simp only [or_true, ↓reduceIte, getD_some]; rfl
      | false =>
        simp only [itself]
        exact ih room.2

variable (name : ProcessName) {found : List (ProcessName × ProcessName)}

theorem same_vpid (daemon : IsDaemon num_procs name) (otherDaemon : IsDaemon num_procs other) :
    name.vpid.toNat = other.vpid.toNat ↔ other = name := by
  obtain ⟨_, named⟩ := daemon_vpid small daemon
  obtain ⟨_, otherNamed⟩ := daemon_vpid small otherDaemon
  constructor
  · intro same
    rw [otherNamed, ← same, ← named]
  · rintro rfl
    rfl

variable {tables : Tables} {last : Option ProcessName}

theorem answers_addChild (answers : Answers num_procs found last tables.children)
    (daemon : IsDaemon num_procs name) :
    Answers num_procs (found ++ [(name, name)]) (some name)
      (addChild num_procs name tables).children := by
  obtain ⟨bound, named⟩ := daemon_vpid small daemon
  obtain ⟨fresh, init, room, empty⟩ := opalBitmapInit_construct num_procs (by omega) (by omega)
  have converted : toInt num_procs = (num_procs : Int) := by
    rw [toInt, Int.bmod]
    split <;> omega
  have added : (addChild num_procs name tables).children = tables.children ++
      [⟨name.vpid.toNat, fresh⟩] := by
    rw [addChild, initRelatives, converted, init]
  rw [added]
  refine ⟨?_, ?_, ?_⟩
  · intro child member
    rcases List.mem_append.mp member with old | new
    · exact answers.room child old
    · rw [List.mem_singleton.mp new]
      exact ⟨room, bound⟩
  · intro target targetDaemon
    have none_below : has fresh target.vpid.toNat = false := Bool.eq_false_iff.mpr (empty _)
    rw [seek_append, lookup_append, answers.answers target targetDaemon, none_below, ← named]
    simp [same_vpid small name daemon targetDaemon]
  · rw [getLast?_concat, map_some, ← named]

theorem answers_addRelative (answers : Answers num_procs found (some via) tables.children)
    (daemon : IsDaemon num_procs name) :
    ∃ after, addRelative name tables = .ok after ∧ after.parent = tables.parent ∧
      Answers num_procs (found ++ [(name, via)]) (some via) after.children := by
  obtain ⟨child, ends, named⟩ := Option.map_eq_some_iff.mp answers.last
  have whole := dropLast_append_getLast? child ends
  have member := mem_of_getLast? ends
  obtain ⟨bound, _⟩ := daemon_vpid small daemon
  have converted : toInt name.vpid.toNat = (name.vpid.toNat : Int) := by
    rw [toInt, Int.bmod]
    split <;> omega
  obtain ⟨relatives, set, room, holds⟩ :=
    opalBitmapSetBit_room (answers.room child member).1 bound (by omega)
  refine ⟨{ tables with children := tables.children.dropLast ++ [{ child with relatives }] }, ?_,
    rfl, ?_, ?_, ?_⟩
  · rw [addRelative, ends, converted]
    simp only [set]
  · intro other present
    rcases List.mem_append.mp present with old | new
    · exact answers.room other (dropLast_subset _ old)
    · rw [List.mem_singleton.mp new]
      exact ⟨room, (answers.room child member).2⟩
  · intro target targetDaemon
    have before := answers.answers target targetDaemon
    have recorded : has relatives target.vpid.toNat = true ↔
        target = name ∨ has child.relatives target.vpid.toNat = true := by
      rw [← same_vpid small name daemon targetDaemon, eq_comm (a := name.vpid.toNat)]
      exact holds target.vpid.toNat
    rw [← whole, seek_append] at before
    rw [seek_append, lookup_append, ← before, Option.or_assoc, ← named]
    refine congrArg (Option.or _) ?_
    by_cases known : child.vpid = target.vpid.toNat ∨ has child.relatives target.vpid.toNat = true
    · rw [if_pos known, if_pos (known.imp_right fun below => recorded.mpr (.inr below)), some_or]
    · rw [if_neg known, none_or]
      rw [not_or] at known
      simp [known.1, false_or, recorded, known.2, Bool.false_eq_true, or_false]
  · rw [getLast?_concat, map_some, named]

def Proper (num_procs : Nat) (path : List ProcessName) : Prop :=
  path.Nodup ∧ ∀ name ∈ path, IsDaemon num_procs name

omit small in
theorem entry_append {me : ProcessName} {name : ProcessName} (simple : (front ++ [name]).Nodup) :
    entry me (front ++ [name]) =
      if front.getLast? = some me then [(name, name)]
        else (after me front).toList.map fun via => (name, via) := by
  rw [entry, getLast?_concat, after_append simple]
  by_cases ends : front.getLast? = some me <;> simp [ends]

/-- The last child is the one that what lies below this path is recorded with. -/
def LastOn (me : ProcessName) (front : List ProcessName) (last : Option ProcessName) : Prop :=
  me ∈ front → front.getLast? ≠ some me → last = after me front

omit small in
theorem lastOn_front {me name : ProcessName}
    (simple : (front ++ [name]).Nodup) (lastOn : LastOn me (front ++ [name]) last) :
    LastOn me front last := by
  intro member notLast
  have away : name ≠ me := by
    rintro rfl
    exact disjoint_of_nodup_append simple member mem_cons_self
  have found := lastOn (mem_append_left _ member) (by simpa using away)
  rwa [after_append simple, if_neg notLast] at found

omit small in
theorem parentIn_append {me : ProcessName} (isParent : front.getLast? = some parent)
    (visited : List (List ProcessName)) :
    parentIn me (visited ++ [front ++ [name]]) = if name = me then parent
      else parentIn me visited := by
  simp [parentIn, above, isParent]

theorem record_answers {me : ProcessName} (proper : Proper num_procs (front ++ [name]))
    (isDirect : direct = true ↔ front.getLast? = some me)
    (isIndirect : (direct || indirect) = true ↔ me ∈ front)
    (answers : Answers num_procs found last tables.children) (lastOn : LastOn me front last) :
    ∃ next ends, record num_procs direct indirect name tables = .ok next ∧
      next.parent = tables.parent ∧
      Answers num_procs (found ++ entry me (front ++ [name])) ends next.children ∧
        LastOn me (front ++ [name]) ends := by
  have daemon := proper.2 name (mem_append_right _ mem_cons_self)
  have lastName : ∀ ends, (front.getLast? = some me → ends = some name) →
      (front.getLast? ≠ some me → ends = last) →
      LastOn me (front ++ [name]) ends := by
    intro ends isName isLast member notLast
    rw [after_append proper.1]
    rw [getLast?_concat] at notLast
    have before : me ∈ front := by
      rcases List.mem_append.mp member with before | same
      · exact before
      · exact absurd (congrArg some (List.mem_singleton.mp same).symm) notLast
    split
    · rename_i here
      exact isName here
    · rename_i away
      rw [isLast away, lastOn before away]
  rw [entry_append proper.1]
  by_cases here : front.getLast? = some me
  · rw [if_pos here, record, if_pos (isDirect.mpr here)]
    exact ⟨_, some name, rfl, rfl, answers_addChild small name answers daemon,
      lastName _ (fun _ => rfl) fun away => absurd here away⟩
  · have notDirect : direct = false := Bool.eq_false_iff.mpr (mt isDirect.mp here)
    rw [if_neg here, record, notDirect]
    rw [notDirect, Bool.false_or] at isIndirect
    by_cases member : me ∈ front
    · obtain ⟨via, next⟩ := after_of_passed (by
        have some_before := ne_nil_of_mem member
        exact passed_of_mem (getLast?_eq_some_getLast some_before) member
          fun same => here (by rw [getLast?_eq_some_getLast some_before, ← same]))
      rw [lastOn member here, next] at answers
      obtain ⟨after, added, sameParent, answers⟩ := answers_addRelative small name answers daemon
      rw [if_pos (isIndirect.mpr member), next]
      exact ⟨after, some via, added, sameParent, answers,
        lastName _ (fun ends => absurd ends here) fun _ => by rw [lastOn member here, next]⟩
    · have nothing : after me front = none := by
        cases next : after me front with
        | none => rfl
        | some => exact absurd (dropLast_subset front (after_mem next).1) member
      rw [if_neg (mt isIndirect.mp member), nothing, toList_none, map_nil, append_nil]
      exact ⟨tables, last, rfl, rfl, answers, lastName _ (fun ends => absurd ends here)
        fun _ => rfl⟩

/-- The tables of a daemon after it has visited these paths. -/
structure Stands (num_procs : Nat) (me : ProcessName) (visited : List (List ProcessName))
    (last : Option ProcessName) (tables : Tables) : Prop where
  answers : Answers num_procs (visited.flatMap (entry me)) last tables.children
  parent : tables.parent = parentIn me visited

theorem visit_stands {me name : ProcessName} (proper : Proper num_procs (front ++ [name]))
    (isDirect : direct = true ↔ front.getLast? = some me)
    (isIndirect : (direct || indirect) = true ↔ me ∈ front)
    (isParent : front.getLast? = some parent) (same : isMe = true ↔ name = me)
    (stands : Stands num_procs me visited last tables) (lastOn : LastOn me front last) :
    ∃ next ends, (record num_procs direct indirect name tables).map (setParent isMe parent) =
      .ok next ∧
      Stands num_procs me (visited ++ [front ++ [name]]) ends next ∧
        LastOn me (front ++ [name]) ends := by
  obtain ⟨next, ends, recorded, sameParent, answers, endsOn⟩ := record_answers small name proper
    isDirect isIndirect stands.answers lastOn
  have children : (setParent isMe parent next).children = next.children := by
    rw [setParent]
    split <;> rfl
  refine ⟨setParent isMe parent next, ends, by rw [recorded]; rfl, ⟨?_, ?_⟩, endsOn⟩
  · rw [children, flatMap_append, flatMap_singleton]
    exact answers
  · rw [parentIn_append name isParent, ← stands.parent, ← sameParent, setParent]
    by_cases mine : name = me
    · rw [if_pos mine, if_pos (same.mpr mine)]
    · rw [if_neg mine, if_neg (mt same.mp mine)]

end Visits

def extend (front : List ProcessName) (name : ProcessName) : List ProcessName :=
  if name = invalidName then front else front ++ [name]

def controllerPath (front : List ProcessName) (name : ProcessName) : List (List ProcessName) :=
  if name = invalidName then [] else [front ++ [name]]

def rackPaths (front : List ProcessName) (rack : Rack) : List (List ProcessName) :=
  controllerPath front rack.controller.daemon ++
    rack.nodes.map fun node => extend front rack.controller.daemon ++ [node.daemon]

def counted {Part : Type} (parts : List Part) : List Part :=
  parts.take (BitVec.ofNat 32 parts.length).toInt.toNat

def rowPaths (row : Row) : List (List ProcessName) :=
  controllerPath [daemonName 0] row.controller.daemon ++
    (counted row.racks).flatMap (rackPaths (extend [daemonName 0] row.controller.daemon))

def clusterPaths (cluster : Cluster) : List (List ProcessName) :=
  (counted cluster.rows).flatMap rowPaths

section Loops

variable {num_procs : Nat} (small : num_procs ≤ 2147483584) (me : ProcessName)
    (mine : me ≠ invalidName)

def schedLevel : Level := ⟨daemonName 0, true, daemonName 0 = me⟩

def noCluster : Level := ⟨invalidName, false, false⟩

/-- A level that is on the path exactly if its controller is there. -/
def Known (name : ProcessName) : Prop := isValid name = decide (name ≠ invalidName)

variable {me}

theorem known_present {name : ProcessName} (known : Known name) (there : name ≠ invalidName) :
    Level.of me name = ⟨name, true, decide (name = me)⟩ := by
  rw [Level.of, known, decide_eq_true there, Bool.true_and]

theorem invalid_absent : Level.of me invalidName = ⟨invalidName, false, false⟩ := by
  rw [Level.of, invalid_not_valid, Bool.false_and]

theorem row_flags :
    (rowDirect (schedLevel me) noCluster = true ↔ [daemonName 0].getLast? = some me) ∧
    ((rowDirect (schedLevel me) noCluster || rowIndirect (schedLevel me) noCluster) = true ↔
      me ∈ [daemonName 0]) ∧
    [daemonName 0].getLast? = some (nearest me [noCluster, schedLevel me]) := by
  simp [rowDirect, rowIndirect, schedLevel, noCluster, nearest, eq_comm]

variable {row : ProcessName}

theorem rack_flags (rowKnown : Known row) :
    (rackDirect (schedLevel me) noCluster (Level.of me row) = true ↔
      (extend [daemonName 0] row).getLast? = some me) ∧
    ((rackDirect (schedLevel me) noCluster (Level.of me row) ||
      rackIndirect (schedLevel me) noCluster) = true ↔
      me ∈ extend [daemonName 0] row) ∧
    (extend [daemonName 0] row).getLast? =
      some (nearest me [Level.of me row, noCluster, schedLevel me]) := by
  by_cases rowAbsent : row = invalidName
  · subst row
    rw [invalid_absent]
    simp [extend, rackDirect, rackIndirect, schedLevel, noCluster, nearest, eq_comm]
  · rw [known_present rowKnown rowAbsent]
    simp only [extend, rackDirect, rackIndirect, schedLevel, noCluster, nearest]
    grind

theorem node_flags (rowKnown : Known row) (rackKnown : Known rack) :
    (nodeDirect (schedLevel me) noCluster (Level.of me row) (Level.of me rack) = true ↔
      (extend (extend [daemonName 0] row) rack).getLast? = some me) ∧
    ((nodeDirect (schedLevel me) noCluster (Level.of me row) (Level.of me rack) ||
        nodeIndirect (schedLevel me) noCluster (Level.of me row)) = true ↔
      me ∈ extend (extend [daemonName 0] row) rack) ∧
    (extend (extend [daemonName 0] row) rack).getLast? =
      some (nearest me [Level.of me rack, Level.of me row, noCluster, schedLevel me]) := by
  by_cases rowAbsent : row = invalidName <;> by_cases rackAbsent : rack = invalidName
  · subst row rack
    rw [invalid_absent]
    simp [extend, nodeDirect, nodeIndirect, schedLevel, noCluster, nearest, eq_comm]
  · subst row
    rw [invalid_absent, known_present rackKnown rackAbsent]
    simp only [extend, nodeDirect, nodeIndirect, schedLevel, noCluster, nearest]
    grind
  · subst rack
    rw [invalid_absent, known_present rowKnown rowAbsent]
    simp only [extend, nodeDirect, nodeIndirect, schedLevel, noCluster, nearest]
    grind
  · rw [known_present rowKnown rowAbsent, known_present rackKnown rackAbsent]
    simp only [extend, nodeDirect, nodeIndirect, schedLevel, noCluster, nearest]
    grind

theorem counted_le {size : Nat} : (BitVec.ofNat 32 size).toInt.toNat ≤ size := by
  rw [BitVec.toInt_ofNat', Int.bmod]
  split <;> omega

include small in
theorem known_of_proper {name : ProcessName}
    (proper : ∀ path ∈ controllerPath front name, Proper num_procs path) : Known name := by
  by_cases absent : name = invalidName
  · rw [Known, absent, invalid_not_valid]
    simp
  · have path :=
      proper (front ++ [name]) (by rw [controllerPath, if_neg absent]; exact mem_cons_self)
    rw [Known, daemon_valid small (path.2 name (mem_append_right _ mem_cons_self)),
      decide_eq_true absent]

include small in
theorem controller_stands {name : ProcessName} (known : Known name)
    (proper : ∀ path ∈ controllerPath front name, Proper num_procs path)
    (flags : (direct = true ↔ front.getLast? = some me) ∧
      ((direct || indirect) = true ↔ me ∈ front) ∧
      front.getLast? = some parent) {tables : Tables}
    (stands : Stands num_procs me visited last tables) (lastOn : LastOn me front last) :
    ∃ next ends, (if (Level.of me name).present then
        (record num_procs direct indirect (Level.of me name).name tables).map
          (setParent (Level.of me name).isMe parent)
      else .ok tables) = .ok next ∧
      Stands num_procs me (visited ++ controllerPath front name) ends next ∧
        LastOn me (extend front name) ends := by
  by_cases absent : name = invalidName
  · subst name
    rw [invalid_absent, controllerPath, if_pos rfl, append_nil, extend, if_pos rfl]
    exact ⟨tables, last, rfl, stands, lastOn⟩
  · rw [known_present known absent, extend, if_neg absent]
    rw [controllerPath, if_neg absent] at proper ⊢
    exact visit_stands small (proper _ mem_cons_self) flags.1 flags.2.1
      flags.2.2 (by simp) stands lastOn

include small in
theorem readNodes_stands (rowKnown : Known row) (rackKnown : Known rack) {nodes : List Node}
    (proper : ∀ node ∈ nodes,
      Proper num_procs (extend (extend [daemonName 0] row) rack ++ [node.daemon])) {tables : Tables}
    (stands : Stands num_procs me visited last tables)
    (lastOn : LastOn me (extend (extend [daemonName 0] row) rack) last) :
    ∃ next ends, readNodes me num_procs (schedLevel me) noCluster (Level.of me row)
      (Level.of me rack)
        (nodes.map fun node => .name node.daemon) tables = .ok next ∧
      Stands num_procs me
        (visited ++ nodes.map fun node => extend (extend [daemonName 0] row) rack ++ [node.daemon])
          ends next ∧
      LastOn me (extend (extend [daemonName 0] row) rack) ends := by
  induction nodes generalizing visited last tables with
  | nil => exact ⟨tables, last, rfl, by simpa using stands, lastOn⟩
  | cons node rest ih =>
    rw [forall_mem_cons] at proper
    obtain ⟨direct, indirect, parent⟩ := node_flags rowKnown rackKnown
    obtain ⟨next, ends, done, stands, lastOn⟩ := visit_stands small proper.1 direct indirect parent
      decide_eq_true_iff stands lastOn
    obtain ⟨final, finalEnds, rest_done, finalStands, finalOn⟩ := ih proper.2 stands
      (lastOn_front proper.1.1 lastOn)
    refine ⟨final, finalEnds, ?_, ?_, finalOn⟩
    · rw [map_cons, readNodes, visitNode, done]
      exact rest_done
    · rw [map_cons]
      rwa [append_assoc] at finalStands

theorem lastOn_extend {name : ProcessName}
    (proper : ∀ path ∈ controllerPath front name, Proper num_procs path)
    (lastOn : LastOn me (extend front name) last) :
    LastOn me front last := by
  by_cases absent : name = invalidName
  · rwa [extend, if_pos absent] at lastOn
  · rw [extend, if_neg absent] at lastOn
    rw [controllerPath, if_neg absent] at proper
    exact lastOn_front (proper _ mem_cons_self).1 lastOn

include small in
theorem readRacks_stands (rowKnown : Known row) {racks : List Rack} {count : Nat}
    (within : count ≤ racks.length)
    (proper : ∀ rack ∈ racks.take count, ∀ path ∈ rackPaths (extend [daemonName 0] row) rack,
      Proper num_procs path)
    {tables : Tables} (stands : Stands num_procs me visited last tables)
    (lastOn : LastOn me (extend [daemonName 0] row) last) :
    ∃ next ends, readRacks me num_procs (schedLevel me) noCluster (Level.of me row) count
      (racks.map packRack) tables =
        .ok next ∧
      Stands num_procs me
        (visited ++ (racks.take count).flatMap (rackPaths (extend [daemonName 0] row))) ends next ∧
      LastOn me (extend [daemonName 0] row) ends := by
  induction count generalizing racks visited last tables with
  | zero => exact ⟨tables, last, rfl, by simpa using stands, lastOn⟩
  | succ count ih =>
    cases racks with
    | nil => cases within
    | cons rack =>
      rw [take_succ_cons, forall_mem_cons] at proper
      have controllerProper :
          ∀ path ∈ controllerPath (extend [daemonName 0] row) rack.controller.daemon,
          Proper num_procs path := fun path member => proper.1 path (mem_append_left _ member)
      have nodesProper : ∀ node ∈ rack.nodes, Proper num_procs
          (extend (extend [daemonName 0] row) rack.controller.daemon ++ [node.daemon]) :=
            fun node member => proper.1 _ (mem_append_right _ (mem_map_of_mem member))
      have rackKnown := known_of_proper small controllerProper
      obtain ⟨first, ends, done, stands, lastOn⟩ :=
        controller_stands small rackKnown controllerProper
        (rack_flags rowKnown) stands lastOn
      obtain ⟨second, secondEnds, nodes_done, stands, lastOn⟩ :=
        readNodes_stands small rowKnown rackKnown
        nodesProper stands lastOn
      obtain ⟨final, finalEnds, rest_done, stands, lastOn⟩ := ih (by simpa using within) proper.2
        stands (lastOn_extend controllerProper lastOn)
      refine ⟨final, finalEnds, ?_, ?_, lastOn⟩
      · rw [map_cons, readRacks]
        simp only [packRack, unpackBuffer, unpackName, ok_bind, visitRack]
        rw [done, ok_bind, nodes_done, ok_bind]
        exact rest_done
      · rw [take_succ_cons, flatMap_cons, rackPaths]
        simpa only [append_assoc] using stands

include small in
theorem readRows_stands {rows : List Row} {count : Nat} (within : count ≤ rows.length)
    (proper : ∀ row ∈ rows.take count, ∀ path ∈ rowPaths row, Proper num_procs path)
    {tables : Tables}
    (stands : Stands num_procs me visited last tables) (lastOn : LastOn me [daemonName 0] last) :
    ∃ next ends, readRows me num_procs (schedLevel me) noCluster count (rows.map packRow ++ others)
      tables = .ok next ∧
      Stands num_procs me (visited ++ (rows.take count).flatMap rowPaths) ends next := by
  induction count generalizing rows visited last tables with
  | zero => exact ⟨tables, last, rfl, by simpa using stands⟩
  | succ count ih =>
    cases rows with
    | nil => cases within
    | cons row =>
      rw [take_succ_cons, forall_mem_cons] at proper
      have controllerProper : ∀ path ∈ controllerPath [daemonName 0] row.controller.daemon,
          Proper num_procs path := fun path member => proper.1 path (mem_append_left _ member)
      have racksProper : ∀ rack ∈ counted row.racks, ∀ path ∈
          rackPaths (extend [daemonName 0] row.controller.daemon) rack, Proper num_procs path :=
        fun rack member path inside => proper.1 path
          (mem_append_right _ (List.mem_flatMap.mpr ⟨rack, member, inside⟩))
      have rowKnown := known_of_proper small controllerProper
      obtain ⟨first, ends, done, stands, lastOn⟩ :=
        controller_stands small rowKnown controllerProper
        row_flags stands lastOn
      obtain ⟨second, secondEnds, racks_done, stands, lastOn⟩ := readRacks_stands small rowKnown
        counted_le racksProper stands
        lastOn
      obtain ⟨final, finalEnds, rest_done, stands⟩ := ih (by simpa using within) proper.2
        stands (lastOn_extend controllerProper lastOn)
      refine ⟨final, finalEnds, ?_, ?_⟩
      · rw [map_cons, cons_append, readRows]
        simp only [packRow, packSize, unpackBuffer, unpackInt32, unpackName, ok_bind, visitRow]
        rw [done, ok_bind, racks_done, ok_bind]
        exact rest_done
      · rw [take_succ_cons, flatMap_cons, rowPaths, counted]
        simpa only [append_assoc] using stands

end Loops

section Stranded

variable {me : ProcessName} (num_procs : Nat)

theorem level_other {name : ProcessName} (differs : name ≠ me) :
    (Level.of me name).isMe = false := by
  rw [Level.of, decide_eq_false differs, Bool.and_false]

variable {sched cluster : Level} (notSched : sched.isMe = false) (notCluster : cluster.isMe = false)
include notSched notCluster

variable (tables : Tables) {num_procs}

theorem readNodes_stranded (notRow : row.isMe = false) (notRack : rack.isMe = false)
    {nodes : List Node} (absent : me ∉ nodes.map Node.daemon) (tables : Tables) :
    readNodes me num_procs sched cluster row rack (nodes.map fun node => .name node.daemon) tables =
      .ok tables := by
  induction nodes with
  | nil => rfl
  | cons node rest ih =>
    rw [map_cons, mem_cons, not_or] at absent
    have notDirect : nodeDirect sched cluster row rack = false := by
      simp [nodeDirect, notSched, notCluster, notRow, notRack]
    have notIndirect : nodeIndirect sched cluster row = false := by
      simp [nodeIndirect, notSched, notCluster, notRow]
    have visited :
        visitNode me num_procs sched cluster row rack node.daemon tables = .ok tables := by
      rw [visitNode, notDirect, notIndirect, decide_eq_false (Ne.symm absent.1)]
      rfl
    rw [map_cons, readNodes, visited]
    exact ih absent.2

theorem visitRack_stranded (notRow : row.isMe = false) {name : ProcessName} (differs : name ≠ me)
    (tables : Tables) :
    visitRack me num_procs sched cluster row (Level.of me name) tables = .ok tables := by
  have notDirect : rackDirect sched cluster row = false := by
    simp [rackDirect, notSched, notCluster, notRow]
  have notIndirect : rackIndirect sched cluster = false := by
    simp [rackIndirect, notSched, notCluster]
  rw [visitRack, notDirect, notIndirect, level_other differs]
  split <;> rfl

theorem visitRow_stranded {name : ProcessName} (differs : name ≠ me) (tables : Tables) :
    visitRow me num_procs sched cluster (Level.of me name) tables = .ok tables := by
  have notDirect : rowDirect sched cluster = false := by simp [rowDirect, notSched, notCluster]
  have notIndirect : rowIndirect sched cluster = false := by simp [rowIndirect, notSched]
  rw [visitRow, notDirect, notIndirect, level_other differs]
  split <;> rfl

theorem readRacks_stranded (notRow : row.isMe = false) {racks : List Rack} {count : Nat}
    (within : count ≤ racks.length) (absent : me ∉ (racks.take count).flatMap Rack.roster)
    (tables : Tables) :
    readRacks me num_procs sched cluster row count (racks.map packRack) tables = .ok tables := by
  induction count generalizing racks with
  | zero => rfl
  | succ count ih =>
    cases racks with
    | nil => cases within
    | cons =>
      rw [take_succ_cons, flatMap_cons, mem_append, Rack.roster, mem_cons, not_or, not_or] at absent
      have differs := Ne.symm absent.1.1
      rw [map_cons, readRacks]
      simp only [packRack, unpackBuffer, unpackName, ok_bind]
      rw [visitRack_stranded notSched notCluster notRow differs, ok_bind,
        readNodes_stranded notSched notCluster notRow (level_other differs) absent.1.2, ok_bind]
      exact ih (by simpa using within) absent.2

theorem readRows_stranded {rows : List Row} {count : Nat} (within : count ≤ rows.length)
    (absent : ∀ row ∈ rows.take count, row.controller.daemon ≠ me ∧
      me ∉ (counted row.racks).flatMap Rack.roster) :
    readRows me num_procs sched cluster count (rows.map packRow ++ others) tables = .ok tables := by
  induction count generalizing rows with
  | zero => rfl
  | succ count ih =>
    cases rows with
    | nil => cases within
    | cons row =>
      rw [take_succ_cons, forall_mem_cons] at absent
      rw [map_cons, cons_append, readRows]
      simp only [packRow, packSize, unpackBuffer, unpackInt32, unpackName, ok_bind]
      rw [visitRow_stranded notSched notCluster absent.1.1, ok_bind,
        readRacks_stranded notSched notCluster (level_other absent.1.1) counted_le absent.1.2,
        ok_bind]
      exact ih (by simpa using within) absent.2

end Stranded

theorem initRoutes_rows {me : ProcessName} {num_procs : Nat} (some_scheduler : schedulers ≠ 0)
    (cluster : Cluster) (others : List Cluster) :
    initRoutes me num_procs (clusterBuffer schedulers (cluster :: others)) =
      readRows me num_procs (schedLevel me) (Level.ofCluster me cluster.controller.daemon)
        (BitVec.ofNat 32 cluster.rows.length).toInt.toNat
          (cluster.rows.map packRow ++ others.flatMap packCluster)
        (visitCluster num_procs (schedLevel me) (Level.ofCluster me cluster.controller.daemon)
          freshTables) := by
  obtain ⟨fewer, rfl⟩ := Nat.exists_eq_succ_of_ne_zero some_scheduler
  have schedulerValid : isValid (daemonName 0) = true := by decide
  simp only [initRoutes, clusterBuffer, schedulerNames, range_succ_eq_map, map_cons, unpackBuffer,
    ok_bind, schedulerValid, Bool.not_true, Bool.false_eq_true, ↓reduceIte, flatMap_cons,
    packCluster, cons_append, unpackName, unpackInt32, packSize]
  rfl

theorem initRoutes_stands {num_procs : Nat} (small : num_procs ≤ 2147483584) {me : ProcessName}
    (mine : me ≠ invalidName)
    {cluster : Cluster} (controller : cluster.controller.daemon = invalidName)
    (proper : ∀ path ∈ clusterPaths cluster, Proper num_procs path) :
    ∃ tables ends, initRoutes me num_procs (clusterBuffer 1 (cluster :: others)) = .ok tables ∧
      Stands num_procs me (clusterPaths cluster) ends tables := by
  have fresh : Stands num_procs me [] none freshTables :=
    ⟨⟨fun child member => absurd member not_mem_nil, fun _ _ => rfl, rfl⟩, rfl⟩
  have lastOn : LastOn me [daemonName 0] none := by
    intro member notLast
    rw [mem_singleton] at member
    exact absurd (congrArg some member.symm) notLast
  obtain ⟨tables, ends, done, stands⟩ := readRows_stands small
    counted_le
    (fun row member path inside => proper path (List.mem_flatMap.mpr ⟨row, member, inside⟩))
      fresh lastOn
  have level : Level.ofCluster me cluster.controller.daemon = noCluster := by
    rw [controller, Level.ofCluster, decide_eq_false mine.symm]
    rfl
  refine ⟨tables, ends, ?_, stands⟩
  rw [initRoutes_rows Nat.one_ne_zero, level]
  exact done

theorem initRoutes_stranded {me : ProcessName} {num_procs schedulers : Nat}
    (some_scheduler : schedulers ≠ 0)
    (mine : isValid me = true) (notFirst : daemonName 0 ≠ me) (cluster : Cluster)
    (others : List Cluster) (absent : ∀ row ∈ counted cluster.rows,
      row.controller.daemon ≠ me ∧ me ∉ (counted row.racks).flatMap Rack.roster) :
    initRoutes me num_procs (clusterBuffer schedulers (cluster :: others)) = .ok freshTables := by
  have notSched : (schedLevel me).isMe = false := decide_eq_false notFirst
  -- the controller of the cluster is compared only where it is not there
  have notCluster : (Level.ofCluster me cluster.controller.daemon).isMe = false := by
    by_cases same : cluster.controller.daemon = me
    · rw [Level.ofCluster, same, mine]
      rfl
    · rw [Level.ofCluster, decide_eq_false same, Bool.and_false]
  have noChild : visitCluster num_procs (schedLevel me)
      (Level.ofCluster me cluster.controller.daemon) freshTables =
      freshTables := by
    rw [visitCluster, notSched, Bool.and_false]
    rfl
  rw [initRoutes_rows some_scheduler, noChild]
  exact readRows_stranded notSched notCluster _ counted_le absent

end Orcm.ClusterPaths
