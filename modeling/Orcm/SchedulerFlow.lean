import Mathlib.Data.List.Range
import Orcm.SchedulerEffects
import Orcm.SessionFlow

/-!
The scheduler as a flow of sessions: arriving while the `INIT` event is pending, asked for while the
`REQ` event is, granted while the `ALLOCD` event is. The two harmful moves happen under known
conditions only.
-/

namespace Orcm.SchedulerFlow

open Hierarchy NodePool Scheduler SchedulerEffects SessionFlow TransitionSystem Function

/-- What has happened to the sessions so far. -/
structure History where
  accepted : List Ref
  queued : List Ref
  started : List Ref
  terminated : List Ref
  cancelled : List Ref

/-- A session is accepted when its `INIT` event puts it on a queue, and it starts when its `ALLOCD`
event leaves it at the end of the running queue. -/
def record (history : History) (s : State) (label : Label) (next : State) : History :=
  match label, s.scd with
  | .scd, .init session :: _ =>
    { history with
      accepted := history.accepted ++ [session]
      queued := history.queued ++ next.default.drop s.default.length }
  | .scd, .allocd _ :: _ =>
    { history with started := history.started ++ next.running.drop s.running.length }
  | .scd, .terminated _ :: _ =>
    { history with terminated := history.terminated ++ s.running.filter (· ∉ next.running) }
  | .scd, .cancel _ :: _ =>
    { history with
      cancelled := history.cancelled ++ s.hold.filter (· ∉ next.hold) ++ s.default.filter
        (· ∉ next.default) }
  | _, _ => history

def noHistory : History := ⟨[], [], [], [], []⟩

def observed (clusters : List Cluster) : System (State × History) Label :=
  (scheduler clusters).observe noHistory record

def inits (events : List ScdEvent) : List Ref :=
  events.filterMap fun
    | .init session => some session
    | _ => none

def allocds (events : List ScdEvent) : List Ref :=
  events.filterMap fun
    | .allocd session => some session
    | _ => none

def reqs (events : List RmEvent) : List Ref :=
  events.filterMap fun
    | .req session => some session
    | _ => none

theorem reqs_append : reqs (front ++ back) = reqs front ++ reqs back :=
  List.filterMap_append

def flow (s : State) (history : History) : Flow Ref where
  arrived := List.range s.allocated
  arriving := inits s.scd
  parked := s.hold
  waiting := s.default
  asked := reqs s.rm
  granted := allocds s.scd
  running := s.running
  accepted := history.accepted
  queued := history.queued
  started := history.started
  finished := history.terminated
  withdrawn := history.cancelled

/-- The circumstances of the harmful moves: the session asks for no nodes, or its node list is
unusable. -/
def Explained (s : State) (label : Label) : Move Ref → Prop
  | .lose session =>
    label = .rm ∧ s.rm.head? = some (.req session) ∧ (s.object session).alloc.min_nodes ≤ 0
  | .putBack session =>
    label = .scd ∧ s.scd.head? = some (.allocd session) ∧ usable (s.object session).alloc = false
  | _ => True

variable {clusters : List Cluster} {s : State}

theorem step_moves (effect : Effect clusters s label next) :
    ∃ move, Moves (flow s history) move (flow next (record history s label next)) ∧
      Explained s label move := by
  cases effect with
  | hold session rest pending =>
    refine ⟨.park session, ?_, trivial⟩
    have := Moves.park (f := flow s history) session (inits rest) (by simp [flow, inits, pending])
    simpa [flow, record, pending, inits, allocds] using this
  | enqueue session rest pending =>
    refine ⟨.enqueue session, ?_, trivial⟩
    have := Moves.enqueue (f := flow s history) session (inits rest)
      (by simp [flow, inits, pending])
    simpa [flow, record, pending, inits, allocds] using this
  | wait rest pending =>
    refine ⟨.internal, ?_, trivial⟩
    have := Moves.internal (f := flow s history)
    simpa [flow, record, pending, inits, allocds] using this
  | schedule session rest waiting pending intact queued =>
    refine ⟨.ask session, ?_, trivial⟩
    have := Moves.ask (f := flow s history) session waiting queued
    simpa [flow, record, pending, inits, allocds, reqs] using this
  | requeue session rest rm pending intact bad which =>
    refine ⟨.putBack session, ?_, rfl, by rw [pending]; rfl, bad⟩
    have := Moves.putBack (f := flow s history) session (allocds rest)
      (by simp [flow, allocds, pending])
    rcases which with rfl | rfl <;> simpa [flow, record, pending, inits, allocds, reqs] using this
  | run session rest nodenames pending =>
    refine ⟨.start session, ?_, trivial⟩
    have := Moves.start (f := flow s history) session (allocds rest)
      (by simp [flow, allocds, pending])
    simpa [flow, record, pending, inits, allocds, reqs] using this
  -- an unreadable node list: nothing is released, and nothing finishes
  | linger session rest pending =>
    refine ⟨.finish, ?_, trivial⟩
    have := Moves.finish (f := flow s history) s.running (List.Sublist.refl _)
    simpa [flow, record, pending, inits, allocds] using this
  | release session rest nodenames pending =>
    refine ⟨.finish, ?_, trivial⟩
    have := Moves.finish (f := flow s history) (s.running.filter fun ref =>
      (s.object ref).id ≠ session.id)
      List.filter_sublist
    simpa [flow, record, pending, inits, allocds] using this
  | cancel id rest pending =>
    refine ⟨.withdraw, ?_, trivial⟩
    have := Moves.withdraw (f := flow s history) (s.hold.eraseP (hasId s id))
      (s.default.eraseP (hasId s id))
      List.eraseP_sublist List.eraseP_sublist
    have kills : reqs ((s.running.find? (hasId s id)).toList.map .kill) = [] := by
      cases s.running.find? (hasId s id) <;> rfl
    cases s.hold.any (hasId s id) <;> cases s.default.any (hasId s id) <;>
      simpa [flow, record, pending, inits, allocds, reqs_append, kills] using this
  | lose session rest pending none =>
    refine ⟨.lose session, ?_, rfl, by rw [pending]; rfl, none⟩
    have := Moves.lose (f := flow s history) session (reqs rest) (by simp [flow, reqs, pending])
    simpa [flow, record, reqs] using this
  | grant session rest nodes pending =>
    refine ⟨.grant session, ?_, trivial⟩
    have := Moves.grant (f := flow s history) session (reqs rest) (by simp [flow, reqs, pending])
    simpa [flow, record, inits, allocds, reqs] using this
  | launch session rest sent pending =>
    refine ⟨.internal, ?_, trivial⟩
    have := Moves.internal (f := flow s history)
    simpa [flow, record, pending, reqs] using this
  | stall session rest pending =>
    refine ⟨.internal, ?_, trivial⟩
    have := Moves.internal (f := flow s history)
    simpa [flow, record, pending, reqs] using this
  | kill session rest sent pending =>
    refine ⟨.internal, ?_, trivial⟩
    have := Moves.internal (f := flow s history)
    simpa [flow, record, pending, reqs] using this
  | refuse => exact ⟨.internal, .internal, trivial⟩
  | submit =>
    refine ⟨.arrive s.allocated, ?_, trivial⟩
    have := Moves.arrive (f := flow s history) s.allocated (by simp [flow])
    simpa [flow, record, inits, allocds, List.range_succ] using this
  | askCancel =>
    refine ⟨.internal, ?_, trivial⟩
    have := Moves.internal (f := flow s history)
    simpa [flow, record, inits, allocds] using this
  | checkIn => exact ⟨.internal, .internal, trivial⟩
  | complete =>
    refine ⟨.internal, ?_, trivial⟩
    have := Moves.internal (f := flow s history)
    simpa [flow, record, inits, allocds] using this
  | report => exact ⟨.internal, .internal, trivial⟩

theorem flow_invariant (clusters : List Cluster) (allowed : State → Label → Prop)
    (holds : Flow Ref → Prop) (initially : ∀ nodes, holds (flow (start nodes) noHistory))
    (keeps : ∀ s history label move next, holds (flow s history) → allowed s label →
      Explained s label move →
      Moves (flow s history) move next → holds next) (s : State) (history : History)
    (reached : Reached (observed clusters) (fun observed => allowed observed.1) (s, history)) :
    holds (flow s history) := by
  refine reached.invariant (fun observed => holds (flow observed.1 observed.2)) ?_ ?_ (s, history)
  · rintro ⟨_, _⟩ ⟨⟨nodes, rfl⟩, rfl⟩
    exact initially nodes
  · intro before label after held permitted steps
    obtain ⟨steps, recorded⟩ := (observe_step ..).mp steps
    obtain ⟨move, moves, explained⟩ :=
      step_moves (step_effect before.1 steps)
    rw [recorded]
    exact keeps before.1 before.2 label move _ held permitted explained moves

/-- Sessions are numbered in the order of their requests, and an allocation has the number of its
session. -/
structure Numbered (s : State) : Prop where
  below : ∀ ref < s.allocated, (s.object ref).id ≤ s.last_session_id
  increasing : ∀ first second, first < second → second < s.allocated →
    (s.object first).id < (s.object second).id
  named : ∀ ref < s.allocated, (s.object ref).alloc.id = (s.object ref).id
  small : s.last_session_id < 4294967296

theorem Numbered.injective (numbered : Numbered s) (known : first < s.allocated)
    (known' : second < s.allocated) (same : (s.object first).id = (s.object second).id) :
    first = second := by
  rcases Nat.lt_trichotomy first second with lower | equal | higher
  · have := numbered.increasing first second lower known'
    omega
  · exact equal
  · have := numbered.increasing second first higher known
    omega

/-- The counter of session identifiers does not wrap around. -/
def counts (s : State) : Label → Bool
  | .submit _ _ => s.last_session_id + 1 < 4294967296
  | _ => true

theorem nextSessionId_eq (counting : s.last_session_id + 1 < 4294967296) :
    orcmScdBaseGetNextSessionId s = s.last_session_id + 1 := Nat.mod_eq_of_lt counting

theorem grantNodes_id :
    (grantNodes object session nodes ref).id = (object ref).id ∧
      (grantNodes object session nodes ref).alloc.id = (object ref).alloc.id := by
  by_cases same : ref = session
  · subst same
    simp [grantNodes]
  · simp [grantNodes, update_of_ne same]

theorem Numbered.submit (numbered : Numbered s) {alloc : Alloc}
    (counting : s.last_session_id + 1 < 4294967296) :
    Numbered { s with
      object := update s.object s.allocated
        ⟨orcmScdBaseGetNextSessionId s, { alloc with id := orcmScdBaseGetNextSessionId s }⟩,
      allocated := s.allocated + 1, scd := s.scd ++ [.init s.allocated],
      last_session_id := orcmScdBaseGetNextSessionId s } := by
  rw [nextSessionId_eq counting]
  have old : ∀ ref < s.allocated, ∀ session : Session, update s.object s.allocated session ref =
      s.object ref :=
    fun ref known session => update_of_ne (Nat.ne_of_lt known) _ _
  constructor
  · intro ref known
    rcases Nat.lt_succ_iff_lt_or_eq.mp known with known | rfl
    · simp only [old ref known]
      exact Nat.le_succ_of_le (numbered.below ref known)
    · simp
  · intro first second lower known
    rcases Nat.lt_succ_iff_lt_or_eq.mp known with known | rfl
    · simp only [old second known, old first (Nat.lt_trans lower known)]
      exact numbered.increasing first second lower known
    -- the new session has the highest number
    · simp only [old first lower, update_self]
      exact Nat.lt_succ_of_le (numbered.below first lower)
  · intro ref known
    rcases Nat.lt_succ_iff_lt_or_eq.mp known with known | rfl
    · simp only [old ref known]
      exact numbered.named ref known
    · simp
  · exact counting

theorem Numbered.step (numbered : Numbered s) (counting : counts s label = true)
    (effect : Effect clusters s label next) : Numbered next := by
  cases effect with
  | grant session rest nodes =>
    constructor
    · intro ref known
      rw [grantNodes_id.1]
      exact numbered.below ref known
    · intro first second lower known
      rw [grantNodes_id.1, grantNodes_id.1]
      exact numbered.increasing first second lower known
    · intro ref known
      rw [grantNodes_id.1, grantNodes_id.2]
      exact numbered.named ref known
    · exact numbered.small
  | refuse =>
    have counting : s.last_session_id + 1 < 4294967296 := of_decide_eq_true counting
    rw [nextSessionId_eq counting]
    exact ⟨fun ref known => Nat.le_succ_of_le (numbered.below ref known), numbered.increasing,
      numbered.named, counting⟩
  | submit alloc => exact numbered.submit (of_decide_eq_true counting)
  | _ => exact ⟨numbered.below, numbered.increasing, numbered.named, numbered.small⟩

theorem Numbered.start {nodes : Pool} : Numbered (start nodes) := by
  have none : ∀ ref : Ref, ¬ ref < (Scheduler.start nodes).allocated := Nat.not_lt_zero
  exact ⟨fun ref known => absurd known (none ref), fun _ second _ known =>
    absurd known (none second), fun ref known => absurd known (none ref), Nat.zero_lt_succ _⟩

theorem numbered_of_reached
    (counting : ∀ s label, allowed s label → counts s label = true)
    (reached : Reached (scheduler clusters) allowed s) :
    Numbered s := by
  refine reached.invariant Numbered ?_ ?_ s
  · rintro _ ⟨nodes, rfl⟩
    exact Numbered.start
  · intro s label next numbered permitted steps
    exact numbered.step (counting s label permitted) (step_effect s steps)

end Orcm.SchedulerFlow
