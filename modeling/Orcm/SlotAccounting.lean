import Mathlib.Logic.Function.Basic
import Orcm.TransitionSystem

/-!
Slots in use on the nodes: `orte_rmaps_base_setup_proc` takes them when a process is mapped,
`cleanup_node` returns them when the process terminates, and `orte_state_base_check_all_complete`
when its job is complete. The array of a node is the list of its entries that are not NULL.
-/

namespace Orcm.SlotAccounting

open TransitionSystem

structure ProcName where
  jobid : Nat
  vpid : Nat
  deriving DecidableEq

structure Node where
  slots : Int
  slots_inuse : Int
  num_procs : Int
  procs : List ProcName

def setupProc (cpus_per_rank : Int) (node : Node) (proc : ProcName) : Node :=
  { node with
    num_procs := node.num_procs + 1
    slots_inuse := if node.slots_inuse < node.slots then node.slots_inuse + cpus_per_rank
      else node.slots_inuse
    procs := node.procs ++ [proc] }

/-- The counts go down whether or not the process is found. -/
def cleanupNode (node : Node) (proc : ProcName) : Node :=
  { node with
    num_procs := node.num_procs - 1
    slots_inuse := node.slots_inuse - 1
    procs := node.procs.erase proc }

/-- The loop over the array of a node when a job is complete; the entries seen so far and kept are
those of the node. -/
def releaseFrom (jobid : Nat) : List ProcName → Node → Node
  | [], node => node
  | proc :: rest, node =>
    if proc.jobid ≠ jobid then releaseFrom jobid rest { node with procs := node.procs ++ [proc] }
    else releaseFrom jobid rest
      { node with slots_inuse := node.slots_inuse - 1, num_procs := node.num_procs - 1 }

def releaseProcs (jobid : Nat) (node : Node) : Node :=
  releaseFrom jobid node.procs { node with procs := [] }

/-- A mapping of a job is a run of `setup` events. -/
inductive Event where
  | setup (cpus_per_rank : Nat) (node : Nat) (proc : ProcName)
  | terminated (node : Nat) (proc : ProcName)
  | completed (jobid : Nat)

abbrev Nodes := Nat → Node

/-- A process terminates once, on the node it was mapped to. -/
def step (nodes : Nodes) : Event → Option Nodes
  | .setup cpus_per_rank node proc =>
    some (Function.update nodes node (setupProc cpus_per_rank (nodes node) proc))
  | .terminated node proc =>
    if proc ∈ (nodes node).procs then
      some (Function.update nodes node (cleanupNode (nodes node) proc)) else none
  | .completed jobid => some fun node => releaseProcs jobid (nodes node)

def system : System Nodes Event where
  initial nodes := ∀ node, (nodes node).slots_inuse = 0 ∧ (nodes node).num_procs = 0 ∧
    (nodes node).procs = []
  step := step

/-- One slot is taken for a process, and the node has one left. -/
def fits (nodes : Nodes) : Event → Prop
  | .setup cpus_per_rank node _ => cpus_per_rank = 1 ∧ (nodes node).slots_inuse < (nodes node).slots
  | _ => True

/-- Each process in the array holds one slot. The `extra` entries are those that the loop over the
array has yet to look at. -/
structure Balanced (extra : Nat) (node : Node) : Prop where
  counted : node.num_procs = node.procs.length + extra
  held : node.slots_inuse = node.procs.length + extra

variable {node : Node}

theorem Balanced.setupProc (balanced : Balanced 0 node)
    (room : node.slots_inuse < node.slots) : Balanced 0 (setupProc 1 node proc) := by
  constructor
  · simp [SlotAccounting.setupProc, balanced.counted]
  · simp only [SlotAccounting.setupProc, if_pos room, List.length_append, List.length_singleton]
    have held := balanced.held
    omega

theorem Balanced.cleanupNode (balanced : Balanced 0 node) (member : proc ∈ node.procs) :
    Balanced 0 (cleanupNode node proc) := by
  have positive := List.length_pos_of_mem member
  have shorter := List.length_erase_of_mem member
  constructor
  · simp only [SlotAccounting.cleanupNode, balanced.counted]
    omega
  · simp only [SlotAccounting.cleanupNode, balanced.held]
    omega

theorem Balanced.releaseFrom (balanced : Balanced entries.length node) :
    Balanced 0 (releaseFrom jobid entries node) := by
  induction entries generalizing node with
  | nil => exact balanced
  | cons proc rest ih =>
    have counted := balanced.counted
    have held := balanced.held
    rw [List.length_cons] at counted held
    unfold SlotAccounting.releaseFrom
    split
    · apply ih
      constructor <;> simp only [List.length_append, List.length_singleton] <;> omega
    · apply ih
      constructor <;> dsimp only <;> omega

theorem Balanced.releaseProcs (balanced : Balanced 0 node) :
    Balanced 0 (releaseProcs jobid node) := by
  apply Balanced.releaseFrom
  constructor
  · simpa using balanced.counted
  · simpa using balanced.held

theorem step_balanced (nodes : Nodes) (event : Event) (next : Nodes)
    (balanced : ∀ node, Balanced 0 (nodes node))
    (fitting : fits nodes event) (steps : step nodes event = some next) :
    ∀ node, Balanced 0 (next node) := by
  have others (target : Nat) (node : Node) (good : Balanced 0 node) :
      ∀ other, Balanced 0 (Function.update nodes target node other) :=
    (Function.forall_update_iff nodes fun _ => Balanced 0).mpr ⟨good, fun other _ => balanced other⟩
  cases event with
  | setup cpus_per_rank target proc =>
    obtain ⟨rfl, room⟩ := fitting
    cases steps
    exact others target _ ((balanced target).setupProc room)
  | terminated target proc =>
    obtain ⟨member, rfl⟩ : proc ∈ (nodes target).procs ∧ _ = next := by simpa [step] using steps
    exact others target _ ((balanced target).cleanupNode member)
  | completed jobid =>
    cases steps
    exact fun node => (balanced node).releaseProcs

/-- Where every process takes one slot of a node that has one left, the counts of each node are
those of its array. -/
theorem slots_accounted (nodes : Nodes) (reached : Reached system fits nodes) (node : Nat) :
    (nodes node).num_procs = (nodes node).procs.length ∧ 0 ≤ (nodes node).slots_inuse ∧
      ((nodes node).procs = [] → (nodes node).slots_inuse = 0) := by
  have balanced : Balanced 0 (nodes node) := by
    refine reached.invariant (fun nodes => ∀ node, Balanced 0 (nodes node)) ?_ ?_ nodes node
    · intro nodes initially node
      obtain ⟨inuse, counted, empty⟩ := initially node
      constructor <;> simp [inuse, counted, empty]
    · exact step_balanced
  have held := balanced.held
  refine ⟨by simpa using balanced.counted, by omega, fun empty => ?_⟩
  simpa [empty] using held

def idle (slots : Int) : Nodes := fun _ => ⟨slots, 0, 0, []⟩

theorem idle_initial : system.initial (idle slots) := fun _ => ⟨rfl, rfl, rfl⟩

/-- Of two processes on a node one terminates, and the other is released with its job. -/
theorem slots_accounted_pair :
    ∃ nodes, Reached system fits nodes ∧ (nodes 0).procs = [] ∧ (nodes 0).slots_inuse = 0 := by
  have first : Reached system fits _ :=
    .step _ (Event.setup 1 0 ⟨1, 0⟩) _ (.initial (idle 2) idle_initial) ⟨rfl, by decide⟩ rfl
  have second : Reached system fits _ :=
    .step _ (Event.setup 1 0 ⟨1, 1⟩) _ first ⟨rfl, by decide⟩ rfl
  have third : Reached system fits _ := .step _ (Event.terminated 0 ⟨1, 0⟩) _ second trivial rfl
  have reached : Reached system fits _ := .step _ (Event.completed 1) _ third trivial rfl
  exact ⟨_, reached, rfl, (slots_accounted _ reached 0).2.2 rfl⟩

/-- Two slots are taken for one process and one is returned; and two processes on one slot return
one slot more than they took. -/
theorem slots_unaccounted :
    (∃ nodes, Reachable system nodes ∧ (nodes 0).procs = [] ∧ (nodes 0).slots_inuse = 1) ∧
      ∃ nodes, Reachable system nodes ∧ (nodes 0).procs = [] ∧ (nodes 0).slots_inuse = -1 := by
  have seen (slots : Int) (events : List Event) (inuse : Int)
      (runs : (system.run (fun _ _ => true) (idle slots) events).map
        (fun nodes => ((nodes 0).procs, (nodes 0).slots_inuse)) = some ([], inuse)) :
      ∃ nodes, Reachable system nodes ∧ (nodes 0).procs = [] ∧ (nodes 0).slots_inuse = inuse := by
    obtain ⟨nodes, reached, same⟩ := reached_seen system _ _ events _ _ idle_initial runs
    exact ⟨nodes, reachable_of_reached reached, congrArg Prod.fst same, congrArg Prod.snd same⟩
  constructor
  · exact seen 2 [.setup 2 0 ⟨1, 0⟩, .terminated 0 ⟨1, 0⟩] 1 (by decide)
  · exact seen 1 [.setup 1 0 ⟨1, 0⟩, .setup 1 0 ⟨1, 1⟩, .terminated 0 ⟨1, 0⟩, .terminated 0 ⟨1, 1⟩]
      (-1) (by decide)

end Orcm.SlotAccounting
