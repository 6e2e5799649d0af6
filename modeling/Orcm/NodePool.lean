import Orcm.DssTypes
import Orcm.RegexExtract

/-!
The node pool of the scheduler, `orcm_scd_base.nodes`: a pointer array whose unused slots are
`NULL`. Of `orcm_node_t` only the fields that the scheduler decides on are modelled.
-/

namespace Orcm.NodePool

open CLibrary DssTypes RegexExtract List

/-- `orcm_node_state_t` -/
inductive NodeState where
  | undef | unknown | up | down | sesterm | drain | resume
  deriving DecidableEq, Repr

/-- `orcm_scd_node_state_t` -/
inductive ScdNodeState where
  | undef | unknown | unalloc | alloc | exclusive
  deriving DecidableEq, Repr

structure Node where
  name : CString
  daemon : ProcessName
  state : NodeState
  scd_state : ScdNodeState
  deriving DecidableEq, Repr

abbrev Pool := List (Option Node)

/-- `size - number_free` -/
def definedNodes (pool : Pool) : Nat := pool.countP Option.isSome

def Node.isFree (node : Node) : Bool := node.scd_state = .unalloc && node.state = .up

def freeNodes (pool : Pool) : List Node := (pool.filterMap id).filter Node.isFree

/-- Every node with the name, in all slots. -/
def setByName (name : CString) (scd_state : ScdNodeState) (pool : Pool) : Pool :=
  pool.map (Option.map fun node => if node.name = name then { node with scd_state } else node)

/-- The loops over names and slots that mark an allocation. -/
def setScdState (names : List CString) (scd_state : ScdNodeState) (pool : Pool) : Pool :=
  names.foldl (fun pool name => setByName name scd_state pool) pool

/-- The loop over the slots that stops at the first match; `none` if there is none. -/
def updateFirst (found : Node → Bool) (update : Node → Node) : Pool → Option Pool
  | [] => none
  | none :: rest => (updateFirst found update rest).map (none :: ·)
  | some node :: rest =>
    if found node then some (some (update node) :: rest)
      else (updateFirst found update rest).map (some node :: ·)

/-- What both update functions do with a node: a node that comes online becomes available for
scheduling if it was not known before. -/
def Node.report (node : Node) (state newstate : NodeState) : Node :=
  { node with
    state := newstate
    scd_state := if state = .up ∧
      (node.scd_state = .undef ∨ node.scd_state = .unknown) then .unalloc
      else node.scd_state }

/-- The outer loop over the reported nodes: the pool, and whether any of them was found. -/
def updateEach {Key : Type} (found : Key → Node → Bool) (update : Node → Node) :
    List Key → Pool → Pool × Bool
  | [], pool => (pool, false)
  | key :: rest, pool =>
    match updateFirst (found key) update pool with
    | some updated => ((updateEach found update rest updated).1, true)
    | none => updateEach found update rest pool

def updateNodestateByproc (state : NodeState) (nodelist : List ProcessName) (pool : Pool) :
    Result Unit × Pool :=
  let (updated, any) :=
    updateEach (fun daemon node => node.daemon = daemon) (·.report state state) nodelist pool
  (if any then .ok () else Result.fail .notFound, updated)

/-- `RESUME` brings a node up, but without the effect of an `UP` report on the scheduling state. -/
def updateNodestateByname (state : NodeState) (regexp : Option CString) (pool : Pool) :
    Result Unit × Pool :=
  let newstate := if state = .resume then .up else state
  match orteRegexExtractNodeNames regexp with
  | .error fault => (.error fault, pool)
  | .ok nodenames =>
    let (updated, any) :=
      updateEach (fun name node => node.name = name) (·.report state newstate) nodenames pool
    (if any then .ok () else Result.fail .notFound, updated)

def setWhere (chosen : Node → Bool) (update : Node → Node) (pool : Pool) : Pool :=
  pool.map (Option.map fun node => if chosen node then update node else node)

def daemons (pool : Pool) : List ProcessName := (pool.filterMap id).map Node.daemon

variable (update : Node → Node) {chosen : Node → Bool}

@[simp] theorem setWhere_cons_none :
    setWhere chosen update (none :: rest) = none :: setWhere chosen update rest := rfl

@[simp] theorem setWhere_cons_some :
    setWhere chosen update (some node :: rest) =
      some (if chosen node then update node else node) :: setWhere chosen update rest := rfl

variable {pool : Pool}

theorem setWhere_congr (agree : ∀ node, some node ∈ pool → first node = second node) :
    setWhere first update pool = setWhere second update pool := by
  refine map_congr_left fun slot member => ?_
  cases slot with
  | none => rfl
  | some node => simp [agree node member]

theorem setWhere_none (absent : ∀ node, some node ∈ pool → chosen node = false) :
    setWhere chosen update pool = pool := by
  rw [setWhere_congr update absent]
  simp [setWhere]

variable {node : Node}

theorem mem_daemons (member : some node ∈ pool) : node.daemon ∈ daemons pool :=
  mem_map_of_mem (List.mem_filterMap.mpr ⟨some node, member, rfl⟩)

theorem setWhere_daemons (keeps : ∀ node, (update node).daemon = node.daemon) (pool : Pool) :
    daemons (setWhere chosen update pool) = daemons pool := by
  induction pool with
  | nil => rfl
  | cons slot rest ih =>
    cases slot with
    | none => exact ih
    | some node =>
      have same : (if chosen node then update node else node).daemon = node.daemon := by
        split
        · exact keeps node
        · rfl
      exact congrArg₂ List.cons same ih

theorem updateFirst_eq (daemon : ProcessName) (distinct : (daemons pool).Nodup) :
    (updateFirst (fun node => node.daemon = daemon) update pool).getD pool =
      setWhere (fun node => node.daemon = daemon) update pool := by
  induction pool with
  | nil => rfl
  | cons slot rest ih =>
    cases slot with
    | none =>
      rw [setWhere_cons_none, ← ih distinct, updateFirst]
      cases updateFirst (fun node => decide (node.daemon = daemon)) update rest <;> rfl
    | some node =>
      obtain ⟨fresh, distinct⟩ :=
        List.nodup_cons.mp (show (node.daemon :: daemons rest).Nodup from distinct)
      rw [setWhere_cons_some, updateFirst]
      by_cases same : node.daemon = daemon
      · have others : ∀ other, some other ∈ rest → decide (other.daemon = daemon) = false := by
          intro other member
          have := mem_daemons member
          exact decide_eq_false fun equal => fresh (by rwa [same, ← equal])
        rw [setWhere_none update others]
        simp [same]
      · rw [← ih distinct]
        simp only [same]
        cases updateFirst (fun node => decide (node.daemon = daemon)) update rest <;> rfl

theorem report_again {node : Node} {state : NodeState} :
    (node.report state state).report state state = node.report state state := by
  simp only [Node.report]
  split <;> simp_all

variable (state : NodeState) (nodelist : List ProcessName)

theorem setWhere_report {daemon : ProcessName} :
    setWhere (fun node => node.daemon ∈ rest) (·.report state state)
        (setWhere (fun node => node.daemon = daemon) (·.report state state) pool) =
      setWhere (fun node => node.daemon ∈ daemon :: rest) (·.report state state) pool := by
  simp only [setWhere, map_map]
  refine map_congr_left fun slot _ => ?_
  cases slot with
  | none => rfl
  | some node =>
    by_cases here : node.daemon = daemon <;> by_cases later : node.daemon ∈ rest <;>
      simp_all [report_again]

variable {nodelist} {state}

theorem updateEach_daemons (distinct : (daemons pool).Nodup) :
    (updateEach (fun daemon node => decide (node.daemon = daemon)) (·.report state state)
      nodelist pool).1 =
      setWhere (fun node => node.daemon ∈ nodelist) (·.report state state) pool := by
  induction nodelist generalizing pool with
  | nil => exact (setWhere_none _ fun _ _ => by simp).symm
  | cons daemon rest ih =>
    have first := updateFirst_eq (·.report state state) daemon distinct
    have kept :
        (daemons (setWhere (fun node => node.daemon = daemon) (·.report state state)
          pool)).Nodup := by
      rwa [setWhere_daemons (·.report state state) (fun _ => rfl)]
    rw [← setWhere_report, ← ih kept, ← first, updateEach]
    cases updateFirst (fun node => decide (node.daemon = daemon)) (·.report state state) pool <;>
      rfl

theorem updateNodestateByproc_pool (distinct : (daemons pool).Nodup) :
    (updateNodestateByproc state nodelist pool).2 =
      setWhere (fun node => node.daemon ∈ nodelist) (·.report state state) pool :=
  updateEach_daemons distinct

theorem mem_setWhere :
    some node ∈ setWhere chosen update pool ↔
      ∃ old, some old ∈ pool ∧ node = if chosen old then update old else old := by
  simp only [setWhere, mem_map]
  constructor
  · rintro ⟨slot, member, same⟩
    obtain ⟨old, rfl, rfl⟩ := Option.map_eq_some_iff.mp same
    exact ⟨old, member, rfl⟩
  · rintro ⟨old, member, rfl⟩
    exact ⟨some old, member, rfl⟩

theorem setScdState_eq :
    setScdState names scd_state pool = setWhere (fun node => node.name ∈ names)
      ({ · with scd_state }) pool := by
  induction names generalizing pool with
  | nil => exact (setWhere_none _ fun _ _ => by simp).symm
  | cons name rest ih =>
    refine ih.trans ?_
    simp only [setWhere, setByName, map_map]
    refine map_congr_left fun slot _ => ?_
    cases slot with
    | none => rfl
    | some node =>
      by_cases here : node.name = name <;> by_cases later : node.name ∈ rest <;> simp_all

theorem freeNodes_alloc :
    freeNodes (setScdState names .alloc pool) = (freeNodes pool).filter (·.name ∉ names) := by
  rw [setScdState_eq]
  induction pool with
  | nil => rfl
  | cons slot rest ih =>
    cases slot with
    | none => exact ih
    | some node =>
      simp only [freeNodes] at ih ⊢
      by_cases named : node.name ∈ names <;> by_cases free : node.isFree = true <;>
        simp_all [Node.isFree]

theorem mem_freeNodes (member : node ∈ freeNodes pool) :
    some node ∈ pool ∧ node.scd_state = .unalloc := by
  obtain ⟨present, free⟩ := List.mem_filter.mp member
  obtain ⟨slot, member, rfl⟩ := List.mem_filterMap.mp present
  simp only [Node.isFree, Bool.and_eq_true, decide_eq_true_eq] at free
  exact ⟨member, free.1⟩

/-- A report can make a node available that was not known before, and otherwise leaves names and
scheduling states alone. -/
def Reported (node after : Node) : Prop :=
  after.name = node.name ∧ (after.scd_state = node.scd_state ∨
    (node.scd_state = .undef ∨ node.scd_state = .unknown) ∧ after.scd_state = .unalloc)

structure Evolves (pool after : Pool) : Prop where
  source : ∀ node, some node ∈ after → ∃ old, some old ∈ pool ∧ Reported old node
  target : ∀ node, some node ∈ pool → ∃ new, some new ∈ after ∧ Reported node new

theorem reported_refl : Reported node node := ⟨rfl, .inl rfl⟩

theorem reported_trans (before : Reported first second) (after : Reported second third) :
    Reported first third := by
  obtain ⟨name, state⟩ := before
  obtain ⟨name', state'⟩ := after
  refine ⟨name'.trans name, ?_⟩
  rcases state with same | ⟨fresh, available⟩
  · rwa [same] at state'
  · rcases state' with same | ⟨impossible | impossible, -⟩
    · exact .inr ⟨fresh, same.trans available⟩
    · rw [available] at impossible
      cases impossible
    · rw [available] at impossible
      cases impossible

theorem evolves_refl : Evolves pool pool :=
  ⟨fun node member => ⟨node, member, reported_refl⟩, fun node member =>
    ⟨node, member, reported_refl⟩⟩

theorem evolves_trans (before : Evolves first second) (after : Evolves second third) :
    Evolves first third := by
  constructor
  · intro node member
    obtain ⟨middle, member, reported⟩ := after.source node member
    obtain ⟨old, member, earlier⟩ := before.source middle member
    exact ⟨old, member, reported_trans earlier reported⟩
  · intro node member
    obtain ⟨middle, member, reported⟩ := before.target node member
    obtain ⟨new, member, later⟩ := after.target middle member
    exact ⟨new, member, reported_trans reported later⟩

theorem evolves_cons {after : Pool} (evolves : Evolves pool after) :
    Evolves (slot :: pool) (slot :: after) := by
  constructor
  · intro node member
    rcases List.mem_cons.mp member with rfl | member
    · exact ⟨node, mem_cons_self, reported_refl⟩
    · obtain ⟨old, member, reported⟩ := evolves.source node member
      exact ⟨old, mem_cons_of_mem _ member, reported⟩
  · intro node member
    rcases List.mem_cons.mp member with rfl | member
    · exact ⟨node, mem_cons_self, reported_refl⟩
    · obtain ⟨new, member, reported⟩ := evolves.target node member
      exact ⟨new, mem_cons_of_mem _ member, reported⟩

theorem updateFirst_evolves {after : Pool} (reports : ∀ node, Reported node (update node))
    (updated : updateFirst found update pool = some after) : Evolves pool after := by
  induction pool generalizing after with
  | nil => cases updated
  | cons slot rest ih =>
    cases slot with
    | none =>
      obtain ⟨others, inRest, rfl⟩ := Option.map_eq_some_iff.mp updated
      exact evolves_cons (ih inRest)
    | some node =>
      rw [updateFirst] at updated
      split at updated
      · cases updated
        constructor
        · intro other member
          rcases List.mem_cons.mp member with same | member
          · cases same
            exact ⟨node, mem_cons_self, reports node⟩
          · exact ⟨other, mem_cons_of_mem _ member, reported_refl⟩
        · intro other member
          rcases List.mem_cons.mp member with same | member
          · cases same
            exact ⟨update node, mem_cons_self, reports node⟩
          · exact ⟨other, mem_cons_of_mem _ member, reported_refl⟩
      · obtain ⟨others, inRest, rfl⟩ := Option.map_eq_some_iff.mp updated
        exact evolves_cons (ih inRest)

theorem updateEach_evolves {keys : List Key} (reports : ∀ node, Reported node (update node)) :
    Evolves pool (updateEach found update keys pool).1 := by
  induction keys generalizing pool with
  | nil => exact evolves_refl
  | cons key rest ih =>
    rw [updateEach]
    cases updated : updateFirst (found key) update pool with
    | none => exact ih
    | some after => exact evolves_trans (updateFirst_evolves update reports updated) ih

theorem report_reported : Reported node (node.report state newstate) := by
  refine ⟨rfl, ?_⟩
  simp only [Node.report]
  split
  · rename_i fresh
    exact .inr ⟨fresh.2, rfl⟩
  · exact .inl rfl

theorem updateNodestateByproc_evolves :
    Evolves pool (updateNodestateByproc state nodelist pool).2 :=
  updateEach_evolves _ fun _ => report_reported

theorem updateNodestateByname_evolves :
    Evolves pool (updateNodestateByname state regexp pool).2 := by
  unfold updateNodestateByname
  cases orteRegexExtractNodeNames regexp with
  | error => exact evolves_refl
  | ok nodenames => exact updateEach_evolves _ fun _ => report_reported

end Orcm.NodePool
