import Orcm.SlotAccounting

/-!
`orte_state_base_check_all_complete` and `orte_state_base_cleanup_job`. The array of jobs is the
list of its entries from the first application job on; the job of the daemons is number 0. Output,
exit codes, the timeout and the notice that a debugger has detached are left out.
-/

namespace Orcm.JobCompletion

open SlotAccounting TransitionSystem Function

/-- All states before `ORTE_JOB_STATE_UNTERMINATED` are one. -/
inductive JobState where
  | active | terminated | notified | killedByCmd | abnormal
  deriving DecidableEq

structure Job where
  num_procs : Nat
  num_terminated : Nat
  state : JobState
  /-- The job is recoverable or operates continuously. -/
  continuous : Bool
  do_not_monitor : Bool
  map : Option (List Nat)

inductive Event where
  | terminated (jdata : Option Nat)
  | notifyCompleted (jobid : Nat)
  | daemonsTerminated
  deriving DecidableEq

structure Hnp where
  jobs : Nat → Job
  job_data : List Nat
  nodes : Nodes
  num_routes : Nat
  events : List Event
  /-- How often the daemons were ordered to terminate. -/
  orders : Nat

def Hnp.setJob (hnp : Hnp) (jobid : Nat) (job : Job) : Hnp :=
  { hnp with jobs := Function.update hnp.jobs jobid job }

def Hnp.activate (hnp : Hnp) (event : Event) : Hnp := { hnp with events := hnp.events ++ [event] }

def Hnp.releaseMap (hnp : Hnp) (jobid : Nat) : Hnp :=
  match (hnp.jobs jobid).map with
  | none => hnp
  | some map =>
    if (hnp.jobs jobid).state ≠ .terminated then hnp
    else { hnp.setJob jobid { hnp.jobs jobid with map := none } with
      nodes := fun node => if node ∈ map then releaseProcs jobid (hnp.nodes node)
        else hnp.nodes node }

/-- The flag that the loop over the jobs computes. -/
def Hnp.oneStillAlive (hnp : Hnp) (jobid : Nat) : Bool :=
  hnp.job_data.any fun other =>
    if other = jobid then (hnp.jobs other).state = .terminated
    else !(hnp.jobs other).do_not_monitor &&
      (hnp.jobs other).num_terminated < (hnp.jobs other).num_procs

/-- What the loop does when it comes to the job itself. The first job is never released. -/
def Hnp.settle (hnp : Hnp) (jobid : Nat) : Hnp :=
  if jobid ∉ hnp.job_data then hnp
  else match (hnp.jobs jobid).state with
    | .terminated => hnp.activate (.notifyCompleted jobid)
    | .killedByCmd | .notified =>
      if 1 < jobid then { hnp with job_data := hnp.job_data.erase jobid } else hnp
    | _ => hnp

def Hnp.terminate (hnp : Hnp) (jobid : Nat) : Hnp :=
  let job := hnp.jobs jobid
  hnp.setJob jobid (if job.state = .active then { job with state := .terminated } else job)

def Hnp.release (hnp : Hnp) (jobid : Nat) : Hnp :=
  if (hnp.jobs jobid).continuous then hnp else hnp.releaseMap jobid

def checkAllComplete (hnp : Hnp) : Option Nat → Hnp
  | none | some 0 => if hnp.num_routes = 0 then hnp.activate .daemonsTerminated else hnp
  | some jobid =>
    let hnp := (hnp.terminate jobid).release jobid
    if hnp.oneStillAlive jobid then hnp.settle jobid
    else { hnp.settle jobid with orders := hnp.orders + 1 }

def cleanupJob (hnp : Hnp) (jobid : Nat) : Hnp :=
  (hnp.setJob jobid { hnp.jobs jobid with state := .notified }).activate (.terminated (some jobid))

inductive Label where
  | procTerminated (jobid : Nat)
  | handle (event : Event)

/-- A process terminates, as the tracker counts it, or an event is handled, in any order. -/
def step (hnp : Hnp) : Label → Option Hnp
  | .procTerminated jobid =>
    let job := hnp.jobs jobid
    if jobid ∈ hnp.job_data ∧ job.num_terminated < job.num_procs then
      let next := hnp.setJob jobid { job with num_terminated := job.num_terminated + 1 }
      some (if job.num_terminated + 1 = job.num_procs then next.activate (.terminated (some jobid))
        else next)
    else none
  | .handle event =>
    if event ∈ hnp.events then
      let hnp := { hnp with events := hnp.events.erase event }
      some (match event with
        | .terminated jdata => checkAllComplete hnp jdata
        | .notifyCompleted jobid => cleanupJob hnp jobid
        | .daemonsTerminated => hnp)
    else none

/-- Jobs that have processes and have all of them to terminate. -/
def system (monitored : List Nat) : System Hnp Label where
  initial hnp := hnp.job_data = monitored ∧ hnp.events = [] ∧ hnp.orders = 0 ∧
    ∀ jobid ∈ monitored, 0 < jobid ∧ (hnp.jobs jobid).num_terminated = 0 ∧
      0 < (hnp.jobs jobid).num_procs ∧
      (hnp.jobs jobid).state = .active ∧ (hnp.jobs jobid).do_not_monitor = false
  step := step

/-- The last process of a job terminates when no completion is under way. -/
def alone (hnp : Hnp) : Label → Bool
  | .procTerminated jobid =>
    (hnp.jobs jobid).num_terminated + 1 = (hnp.jobs jobid).num_procs → hnp.events = []
  | .handle _ => true

variable {monitored : List Nat} {hnp : Hnp} {jobid : Nat}

def Open (hnp : Hnp) (jobid : Nat) : Prop :=
  jobid ∈ hnp.job_data ∧ (hnp.jobs jobid).num_terminated < (hnp.jobs jobid).num_procs ∧
    (hnp.jobs jobid).state = .active

def Done (hnp : Hnp) (jobid : Nat) : Prop :=
  (hnp.jobs jobid).num_procs ≤ (hnp.jobs jobid).num_terminated ∧ (hnp.jobs jobid).state = .notified

/-- The event of the job whose completion is under way: it terminates, is notified and terminates
again. -/
def Stage (events : List Event) (jobid : Nat) (state : JobState) : Prop :=
  (events = [.terminated (some jobid)] ∧ (state = .active ∨ state = .notified)) ∨
    (events = [.notifyCompleted jobid] ∧ state = .terminated)

def Busy (hnp : Hnp) (jobid : Nat) : Prop :=
  jobid ∈ hnp.job_data ∧ (hnp.jobs jobid).num_procs ≤ (hnp.jobs jobid).num_terminated ∧
    Stage hnp.events jobid (hnp.jobs jobid).state

/-- How many events the completion that is under way still takes. -/
def Hnp.rounds (hnp : Hnp) : Nat :=
  match hnp.events with
  | [] => 0
  | .terminated (some jobid) :: _ => if (hnp.jobs jobid).state = .active then 3 else 1
  | _ => 2

/-- At most one job is completing, and each of the others is open or done. -/
structure Ordered (monitored : List Nat) (busy : Option Nat) (hnp : Hnp) : Prop where
  known : ∀ jobid ∈ hnp.job_data, jobid ∈ monitored
  plain : ∀ jobid ∈ monitored, 0 < jobid ∧ (hnp.jobs jobid).do_not_monitor = false
  others : ∀ jobid ∈ monitored, busy ≠ some jobid → Open hnp jobid ∨ Done hnp jobid
  completing : ∀ jobid, busy = some jobid → Busy hnp jobid
  calm : busy = none → hnp.events = []
  given : hnp.orders = 1 ↔ busy = none ∧ monitored ≠ [] ∧ ∀ jobid ∈ monitored, Done hnp jobid
  most : hnp.orders ≤ 1

structure Frame (jobid : Nat) (hnp next : Hnp) : Prop where
  jobs : ∀ other, other ≠ jobid → next.jobs other = hnp.jobs other
  listed : ∀ other, other ≠ jobid → (other ∈ next.job_data ↔ other ∈ hnp.job_data)
  flag : (next.jobs jobid).do_not_monitor = (hnp.jobs jobid).do_not_monitor

variable {busy : Option Nat} {next : Hnp}

theorem Frame.others (frame : Frame jobid hnp next) (apart : other ≠ jobid) :
    (Open next other ↔ Open hnp other) ∧ (Done next other ↔ Done hnp other) := by
  simp [Open, Done, frame.jobs other apart, frame.listed other apart, and_self]

theorem Frame.plain (frame : Frame jobid hnp next) (ordered : Ordered monitored busy hnp) :
    ∀ other ∈ monitored, 0 < other ∧ (next.jobs other).do_not_monitor = false := by
  intro other member
  by_cases same : other = jobid
  · subst same
    rw [frame.flag]
    exact ordered.plain other member
  · rw [frame.jobs other same]
    exact ordered.plain other member

theorem Frame.known (frame : Frame jobid hnp next) (ordered : Ordered monitored busy hnp)
    (member : jobid ∈ monitored) :
    ∀ other ∈ next.job_data, other ∈ monitored := by
  intro other listed
  by_cases same : other = jobid
  · exact same ▸ member
  · exact ordered.known other ((frame.listed other same).mp listed)

theorem Ordered.none_given (ordered : Ordered monitored busy hnp)
    (early : ¬ (busy = none ∧ ∀ jobid ∈ monitored, Done hnp jobid)) : hnp.orders = 0 := by
  have most := ordered.most
  have notOnce : hnp.orders ≠ 1 :=
    fun once => early ⟨(ordered.given.mp once).1, (ordered.given.mp once).2.2⟩
  omega

theorem Ordered.complete (ordered : Ordered monitored busy hnp) (frame : Frame jobid hnp next)
    (only : ∀ other, busy = some other → other = jobid) (member : jobid ∈ monitored)
    (completing : Busy next jobid)
    (orders : next.orders = 0) : Ordered monitored (some jobid) next where
  known := frame.known ordered member
  plain := frame.plain ordered
  others other listed apart := by
    have different : other ≠ jobid := fun same => apart (congrArg some same.symm)
    rw [(frame.others different).1, (frame.others different).2]
    exact ordered.others other listed fun same => different (only other same)
  completing other same := Option.some.inj same ▸ completing
  calm := by simp
  given := by simp [orders]
  most := by omega

theorem Ordered.finish (ordered : Ordered monitored (some jobid) hnp) (frame : Frame jobid hnp next)
    (member : jobid ∈ monitored) (done : Done next jobid) (calm : next.events = [])
    (orders : next.orders = if hnp.oneStillAlive jobid then 0 else 1)
    (quiet : (hnp.jobs jobid).state = .notified) :
    Ordered monitored none next := by
  have others (other : Nat) (listed : other ∈ monitored) (apart : other ≠ jobid) :
      Open next other ∨ Done next other := by
    rw [(frame.others apart).1, (frame.others apart).2]
    exact ordered.others other listed fun same => apart (Option.some.inj same).symm
  have alive : hnp.oneStillAlive jobid = true ↔ ∃ other ∈ monitored, other ≠ jobid ∧
      Open next other := by
    simp only [Hnp.oneStillAlive, List.any_eq_true]
    constructor
    · rintro ⟨other, listed, running⟩
      by_cases same : other = jobid
      · subst same
        simp [quiet] at running
      · have member := ordered.known other listed
        rcases ordered.others other member fun equal =>
          same (Option.some.inj equal).symm with opened | done
        · exact ⟨other, member, same, (frame.others same).1.mpr opened⟩
        · have full := done.1
          simp [same] at running
          omega
    · rintro ⟨other, member, apart, opened⟩
      obtain ⟨listed, running, -⟩ := (frame.others apart).1.mp opened
      exact ⟨other, listed, by simp [apart, (ordered.plain other member).2, running]⟩
  refine ⟨frame.known ordered member, frame.plain ordered, ?_, by simp, fun _ => calm, ?_, ?_⟩
  · intro other listed _
    by_cases same : other = jobid
    · exact .inr (same ▸ done)
    · exact others other listed same
  · rw [orders]
    constructor
    · intro once
      refine ⟨rfl, List.ne_nil_of_mem member, fun other listed => ?_⟩
      by_cases same : other = jobid
      · exact same ▸ done
      · have none : ¬ Open next other := fun opened => by
          rw [if_pos (alive.mpr ⟨other, listed, same, opened⟩)] at once
          omega
        exact (others other listed same).resolve_left none
    · rintro ⟨-, -, all⟩
      rw [if_neg]
      rintro running
      obtain ⟨other, listed, -, opened⟩ := alive.mp running
      have active := opened.2.2
      rw [(all other listed).2] at active
      simp at active
  · rw [orders]
    split <;> omega

theorem release_eq :
    ∃ map nodes, hnp.release jobid = { hnp.setJob jobid { hnp.jobs jobid with map } with
      nodes } := by
  have same : ∃ map nodes, hnp = { hnp.setJob jobid { hnp.jobs jobid with map } with nodes } :=
    ⟨(hnp.jobs jobid).map, hnp.nodes, by simp [Hnp.setJob]⟩
  unfold Hnp.release Hnp.releaseMap
  split
  · exact same
  · split
    · exact same
    · split
      · exact same
      · exact ⟨none, _, rfl⟩

structure Ready (jobid : Nat) (hnp ready : Hnp) : Prop extends Frame jobid hnp ready where
  num_procs : (ready.jobs jobid).num_procs = (hnp.jobs jobid).num_procs
  num_terminated : (ready.jobs jobid).num_terminated = (hnp.jobs jobid).num_terminated
  state : (ready.jobs jobid).state =
    if (hnp.jobs jobid).state = .active then .terminated else (hnp.jobs jobid).state
  job_data : ready.job_data = hnp.job_data
  events : ready.events = hnp.events
  orders : ready.orders = hnp.orders

theorem release_ready (hnp : Hnp) (jobid : Nat) :
    Ready jobid hnp ((hnp.terminate jobid).release jobid) := by
  obtain ⟨map, nodes, released⟩ := release_eq
  rw [released]
  constructor
  · constructor
    · intro other apart
      simp [Hnp.terminate, Hnp.setJob, update_of_ne apart]
    · exact fun _ _ => Iff.rfl
    · simp only [Hnp.terminate, Hnp.setJob, update_self]
      split <;> rfl
  all_goals simp only [Hnp.terminate, Hnp.setJob, update_self]
  all_goals split <;> rfl

theorem Ordered.check (ordered : Ordered monitored (some jobid) hnp) (member : jobid ∈ monitored)
    (events : hnp.events = [.terminated (some jobid)])
    (turn : (hnp.jobs jobid).state = .active ∨ (hnp.jobs jobid).state = .notified) :
    ∃ busy, Ordered monitored busy (checkAllComplete { hnp with events := [] } (some jobid)) ∧
      (checkAllComplete { hnp with events := [] } (some jobid)).rounds < hnp.rounds := by
  obtain ⟨listed, full, -⟩ := ordered.completing jobid rfl
  obtain ⟨number, rfl⟩ : ∃ number, jobid = number + 1 :=
    Nat.exists_eq_add_one.mpr (ordered.plain jobid member).1
  have ready := release_ready { hnp with events := [] } (number + 1)
  simp only [checkAllComplete]
  generalize (Hnp.terminate _ _).release _ = after at ready ⊢
  have still : number + 1 ∈ after.job_data := ready.job_data ▸ listed
  have zero : after.orders = 0 := ready.orders.trans (ordered.none_given (by simp))
  have final := ready.state
  rcases turn with state | state
  · rw [state, if_pos rfl] at final
    have alive : after.oneStillAlive (number + 1) = true :=
      List.any_eq_true.mpr ⟨number + 1, still, by simp [final]⟩
    refine ⟨some (number + 1), ?_⟩
    rw [if_pos alive, Hnp.settle, if_neg (not_not.mpr still), final]
    change Ordered monitored _ (after.activate (.notifyCompleted (number + 1))) ∧
      (after.activate (.notifyCompleted (number + 1))).rounds < _
    refine ⟨ordered.complete ⟨ready.jobs, ready.listed, ready.flag⟩
      (fun other same => (Option.some.inj same).symm) member ⟨still, ?_, .inr ⟨?_, final⟩⟩ zero, ?_⟩
    · rw [Hnp.activate, ready.num_procs, ready.num_terminated]
      exact full
    · simp [Hnp.activate, ready.events]
    · simp [Hnp.rounds, Hnp.activate, ready.events, events, state]
  · rw [state, if_neg (by simp)] at final
    obtain ⟨data, settled, kept⟩ :
        ∃ data, after.settle (number + 1) = { after with job_data := data } ∧
        ∀ other, other ≠ number + 1 → (other ∈ data ↔ other ∈ hnp.job_data) := by
      rw [Hnp.settle, if_neg (not_not.mpr still), final]
      dsimp only
      split
      · exact ⟨_, rfl, fun other apart => (List.mem_erase_of_ne apart).trans
          (ready.listed other apart)⟩
      · exact ⟨_, rfl, ready.listed⟩
    have same : after.oneStillAlive (number + 1) = hnp.oneStillAlive (number + 1) := by
      simp only [Hnp.oneStillAlive, ready.job_data]
      congr 1
      funext other
      by_cases here : other = number + 1
      · simp [here, final, state]
      · simp [here, ready.jobs other here]
    have done : Done after (number + 1) :=
      ⟨by rw [ready.num_procs, ready.num_terminated]; exact full, final⟩
    refine ⟨none, ?_⟩
    rw [same, settled]
    by_cases alive : hnp.oneStillAlive (number + 1) = true
    · rw [if_pos alive]
      refine ⟨ordered.finish ⟨ready.jobs, kept, ready.flag⟩ member done ready.events
        (by simp [alive, zero]) state, ?_⟩
      simp [Hnp.rounds, ready.events, events, state]
    · rw [if_neg alive]
      refine ⟨ordered.finish ⟨ready.jobs, kept, ready.flag⟩ member done ready.events
        (by simp [alive, zero]) state, ?_⟩
      simp [Hnp.rounds, ready.events, events, state]

theorem Ordered.handle (ordered : Ordered monitored busy hnp)
    (steps : step hnp (.handle event) = some next) :
    ∃ busy, Ordered monitored busy next ∧ next.rounds < hnp.rounds := by
  obtain ⟨waits, same⟩ := Option.ite_none_right_eq_some.mp steps
  cases busy with
  | none =>
    rw [ordered.calm rfl] at waits
    simp at waits
  | some jobid =>
    obtain ⟨listed, full, stage⟩ := ordered.completing jobid rfl
    have member := ordered.known jobid listed
    rcases stage with ⟨events, turn⟩ | ⟨events, state⟩ <;>
      obtain rfl := List.mem_singleton.mp (events ▸ waits) <;>
      rw [events, List.erase_cons_head, Option.some.injEq] at same <;> subst same
    · exact ordered.check member events turn
    · have frame : Frame jobid hnp (cleanupJob { hnp with events := [] } jobid) := by
        refine ⟨fun other apart => update_of_ne apart .., fun _ _ => Iff.rfl, ?_⟩
        simp [cleanupJob, Hnp.activate, Hnp.setJob]
      refine ⟨some jobid,
        ordered.complete frame (fun other here => (Option.some.inj here).symm) member
        ⟨listed, ?_, .inl ⟨rfl, .inr ?_⟩⟩ (ordered.none_given (by simp)), ?_⟩
      · simpa [cleanupJob, Hnp.activate, Hnp.setJob] using full
      · simp [cleanupJob, Hnp.activate, Hnp.setJob]
      · simp [Hnp.rounds, cleanupJob, Hnp.activate, Hnp.setJob, events]

/-- The events of a completion run out: each one that is handled leaves fewer of them. -/
theorem Ordered.runs_out (ordered : Ordered monitored busy hnp) :
    ∃ (events : List Event) (final : Hnp), final.events = [] ∧
      (system monitored).run alone hnp (events.map .handle) = some final := by
  induction left : hnp.rounds using Nat.strongRecOn generalizing hnp busy with
  | ind rounds ih =>
    cases pending : hnp.events with
    | nil => exact ⟨[], hnp, pending, rfl⟩
    | cons event rest =>
      obtain ⟨next, steps⟩ : ∃ next, step hnp (.handle event) = some next :=
        ⟨_, if_pos (by simp [pending])⟩
      obtain ⟨busy, ordered, fewer⟩ := ordered.handle steps
      obtain ⟨events, final, calm, runs⟩ := ih next.rounds (left ▸ fewer) ordered rfl
      refine ⟨event :: events, final, calm, ?_⟩
      -- every event may be handled
      change (step hnp (.handle event)).bind _ = _
      rw [steps]
      exact runs

theorem Ordered.procTerminated (ordered : Ordered monitored busy hnp)
    (permitted : alone hnp (.procTerminated jobid) = true)
    (steps : step hnp (.procTerminated jobid) = some next) :
    ∃ busy, Ordered monitored busy next := by
  obtain ⟨⟨listed, running⟩, same⟩ := Option.ite_none_right_eq_some.mp steps
  have member := ordered.known jobid listed
  have undone : ¬ Done hnp jobid := fun done => by
    have full := done.1
    omega
  have idle : busy ≠ some jobid := fun here => by
    have full := (ordered.completing jobid here).2.1
    omega
  have opened : Open hnp jobid := (ordered.others jobid member idle).resolve_right undone
  have frame : Frame jobid hnp (hnp.setJob jobid
      { hnp.jobs jobid with num_terminated := (hnp.jobs jobid).num_terminated + 1 }) := by
    refine ⟨fun other apart => update_of_ne apart .., fun _ _ => Iff.rfl, ?_⟩
    simp [Hnp.setJob]
  by_cases last : (hnp.jobs jobid).num_terminated + 1 = (hnp.jobs jobid).num_procs
  · rw [if_pos last, Option.some.injEq] at same
    subst same
    have empty : hnp.events = [] := of_decide_eq_true permitted last
    have calm (other : Nat) (here : busy = some other) : other = jobid := by
      have stage := (ordered.completing other here).2.2
      simp [empty, Stage] at stage
    refine ⟨some jobid, ordered.complete ⟨frame.jobs, frame.listed, frame.flag⟩ calm member
      ⟨listed, ?_, .inl ⟨?_, .inl ?_⟩⟩
      (ordered.none_given fun all => undone (all.2 jobid member))⟩
    · simp [Hnp.activate, Hnp.setJob, last]
    · simp [Hnp.activate, Hnp.setJob, empty]
    · simp [Hnp.activate, Hnp.setJob, opened.2.2]
  · rw [if_neg last, Option.some.injEq] at same
    subst same
    have more : Open (hnp.setJob jobid
        { hnp.jobs jobid with num_terminated := (hnp.jobs jobid).num_terminated + 1 }) jobid := by
      refine ⟨listed, ?_, ?_⟩
      · simp only [Hnp.setJob, update_self]
        omega
      · simp [Hnp.setJob, opened.2.2]
    refine ⟨busy, frame.known ordered member, frame.plain ordered, ?_, ?_, ordered.calm,
      ?_, ordered.most⟩
    · intro other inside apart
      by_cases here : other = jobid
      · exact .inl (here ▸ more)
      · rw [(frame.others here).1, (frame.others here).2]
        exact ordered.others other inside apart
    · intro other here
      have apart : other ≠ jobid := fun same => idle (same ▸ here)
      have completing := ordered.completing other here
      rwa [Busy, ← frame.jobs other apart] at completing
    · refine iff_of_false (fun once => undone ((ordered.given.mp once).2.2 jobid member))
        fun all => ?_
      exact absurd (all.2.2 jobid member).1 (Nat.not_le.mpr more.2.1)

/-- If no job terminates while another one completes, the daemons are ordered to terminate once,
after all jobs have been notified. The events that are pending run out when they are handled. -/
theorem ordered_once (monitored : List Nat) (hnp : Hnp)
    (reached : Reached (system monitored) (fun hnp label => alone hnp label = true) hnp) :
    hnp.orders ≤ 1 ∧ (hnp.orders = 1 → ∀ jobid ∈ monitored, (hnp.jobs jobid).state = .notified) ∧
      (monitored ≠ [] → hnp.events = [] →
        (∀ jobid ∈ monitored, (hnp.jobs jobid).num_procs ≤ (hnp.jobs jobid).num_terminated) →
        hnp.orders = 1) ∧
      ∃ (events : List Event) (final : Hnp), final.events = [] ∧
        (system monitored).run alone hnp (events.map .handle) = some final := by
  obtain ⟨busy, ordered⟩ : ∃ busy, Ordered monitored busy hnp := by
    refine reached.invariant (fun hnp => ∃ busy, Ordered monitored busy hnp) ?_ ?_
    · rintro hnp ⟨data, events, orders, start⟩
      have opened (jobid : Nat) (member : jobid ∈ monitored) : Open hnp jobid := by
        obtain ⟨-, terminated, procs, state, -⟩ := start jobid member
        exact ⟨data ▸ member, by omega, state⟩
      refine ⟨none, fun jobid listed => data ▸ listed, fun jobid member =>
        ⟨(start jobid member).1, (start jobid member).2.2.2.2⟩,
        fun jobid member _ => .inl (opened jobid member), by simp, fun _ => events, ?_, by omega⟩
      refine iff_of_false (by omega) fun all => ?_
      obtain ⟨jobid, member⟩ := List.exists_mem_of_ne_nil monitored all.2.1
      have active := (opened jobid member).2.2
      rw [(all.2.2 jobid member).2] at active
      simp at active
    · rintro hnp label next ⟨busy, ordered⟩ permitted steps
      cases label with
      | procTerminated => exact ordered.procTerminated permitted steps
      | handle =>
        obtain ⟨busy, ordered, -⟩ := ordered.handle steps
        exact ⟨busy, ordered⟩
  obtain ⟨events, final, drained⟩ := ordered.runs_out
  refine ⟨ordered.most, fun once jobid member => ((ordered.given.mp once).2.2 jobid member).2, ?_,
    events, final, drained⟩
  intro nonempty calm full
  have none : busy = none := by
    cases busy with
    | none => rfl
    | some jobid =>
      have stage := (ordered.completing jobid rfl).2.2
      simp [calm, Stage] at stage
  refine ordered.given.mpr ⟨none, nonempty, fun jobid member => ?_⟩
  refine (ordered.others jobid member (by simp [none])).resolve_left fun opened => ?_
  have running := opened.2.1
  have all := full jobid member
  omega

def small (monitored : List Nat) : Hnp :=
  ⟨fun _ => ⟨1, 0, .active, false, false, none⟩, monitored, idle 1, 0, [], 0⟩

theorem small_seen (monitored : List Nat) (allowed : Hnp → Label → Bool) (labels : List Label)
    (view : Hnp → View) (seen : View) (positive : ∀ jobid ∈ monitored, 0 < jobid)
    (runs : ((system monitored).run allowed (small monitored) labels).map view = some seen) :
    ∃ hnp, Reached (system monitored) (fun hnp label => allowed hnp label = true) hnp ∧
      view hnp = seen :=
  reached_seen (system monitored) allowed _ labels view seen
    ⟨rfl, rfl, rfl, fun jobid member => ⟨positive jobid member, rfl, Nat.one_pos, rfl, rfl⟩⟩ runs

/-- Two jobs, one after the other. -/
theorem ordered_once_pair :
    ∃ hnp, Reached (system [1, 2]) (fun hnp label => alone hnp label = true) hnp ∧
      hnp.orders = 1 := by
  obtain ⟨hnp, reached, same⟩ := small_seen [1, 2] alone
    [.procTerminated 1, .handle (.terminated (some 1)), .handle (.notifyCompleted 1),
      .handle (.terminated (some 1)), .procTerminated 2, .handle (.terminated (some 2)),
      .handle (.notifyCompleted 2), .handle (.terminated (some 2))]
    (fun hnp => (hnp.events, [1, 2].map fun jobid =>
      ((hnp.jobs jobid).num_procs, (hnp.jobs jobid).num_terminated)))
    ([], [(1, 1), (1, 1)]) (by simp) (by decide)
  simp only [Prod.mk.injEq, List.map_cons, List.map_nil, List.cons.injEq] at same
  exact ⟨hnp, reached, (ordered_once [1, 2] hnp reached).2.2.1 (by simp) same.1 (by simp [same])⟩

/-- Two jobs terminate before either is notified: the second round of each of them gives the order,
and that of the first may come before the notice of the other. -/
theorem ordered_twice :
    (∃ hnp, Reachable (system [1, 2]) hnp ∧ hnp.orders = 2) ∧
      ∃ hnp, Reachable (system [1, 2]) hnp ∧ hnp.orders = 1 ∧ (hnp.jobs 2).state = .terminated := by
  constructor
  · obtain ⟨hnp, reached, orders⟩ := small_seen [1, 2] (fun _ _ => true)
      [.procTerminated 1, .procTerminated 2, .handle (.terminated (some 1)),
        .handle (.terminated (some 2)),
        .handle (.notifyCompleted 1), .handle (.notifyCompleted 2), .handle (.terminated (some 1)),
        .handle (.terminated (some 2))] (·.orders) 2 (by simp) (by decide)
    exact ⟨hnp, reachable_of_reached reached, orders⟩
  · obtain ⟨hnp, reached, same⟩ := small_seen [1, 2] (fun _ _ => true)
      [.procTerminated 1, .procTerminated 2, .handle (.terminated (some 1)),
        .handle (.terminated (some 2)),
        .handle (.notifyCompleted 1), .handle (.terminated (some 1))]
      (fun hnp => (hnp.orders, (hnp.jobs 2).state)) (1, .terminated) (by simp) (by decide)
    exact ⟨hnp, reachable_of_reached reached, congrArg Prod.fst same, congrArg Prod.snd same⟩

end Orcm.JobCompletion
