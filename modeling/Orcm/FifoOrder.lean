import Orcm.SchedulerFlow

/-!
First in, first out. The sessions whose `ALLOCD` or `REQ` event is pending and those on the default
queue form one line. It is kept unless the resource manager drops a request for no nodes, or a
session whose node list is unusable goes back to the default queue behind the requests that overtook
it.
-/

namespace Orcm.FifoOrder

open Hierarchy Scheduler SchedulerEffects SchedulerFlow SessionFlow TransitionSystem

/-- A request asks for at least one node, and a session with an unusable node list is put back only
while no other session is running or on its way from the default queue. -/
def orderly (s : State) : Label → Bool
  | .scd =>
    match s.scd with
    | .allocd session :: rest =>
      usable (s.object session).alloc || (allocds rest = [] && reqs s.rm = [] && s.running = [])
    | _ => true
  | .rm =>
    match s.rm with
    | .req session :: _ => 0 < (s.object session).alloc.min_nodes
    | _ => true
  | _ => true

theorem fair_of_orderly
    (permitted : orderly s label = true) (explained : Explained s label move) :
    Fair (flow s history) move := by
  cases move with
  | lose =>
    obtain ⟨rfl, pending, none⟩ := explained
    obtain ⟨rest, pending⟩ := List.head?_eq_some_iff.mp pending
    simp only [orderly, pending, decide_eq_true_eq] at permitted
    omega
  | putBack =>
    obtain ⟨rfl, pending, bad⟩ := explained
    obtain ⟨rest, pending⟩ := List.head?_eq_some_iff.mp pending
    simp only [orderly, pending, bad, Bool.false_or, Bool.and_eq_true,
      decide_eq_true_eq] at permitted
    refine ⟨?_, permitted.1.2⟩
    simp [flow, pending, allocds, show List.filterMap _ rest = [] from permitted.1.1]
  | _ => trivial

/-- In every run with orderly steps only, a session that was put on the default queue before another
one and was not cancelled has started if the other one has. -/
theorem sessions_start_in_order (clusters : List Cluster) (s : State) (history : History)
    (reached : Reached (observed clusters) (fun observed label => orderly observed.1 label = true)
      (s, history))
    (first second : Ref) (before : [first, second].Sublist history.queued)
    (kept : first ∉ history.cancelled)
    (begun : second ∈ history.started) : first ∈ history.started := by
  have ordered : Ordered (flow s history) := by
    refine flow_invariant clusters (fun s label => orderly s label = true) Ordered ?_ ?_ s
      history reached
    · intro nodes
      exact ⟨List.nodup_nil, by simp [flow, start, inits, noHistory], List.Sublist.refl _,
        List.nil_subset _, by simp [flow, noHistory], fun _ _ _ inLine => by cases inLine⟩
    · intro s history label move next ordered permitted explained moves
      exact ordered.moves moves (fair_of_orderly permitted explained)
  rcases ordered.settled first (before.subset (by simp)) with inLine | started | cancelled
  · exact absurd begun (ordered.ahead first second before inLine)
  · exact started
  · exact absurd cancelled kept

/-- Two sessions that ask for one node each, scheduled one after the other. -/
theorem sessions_start_in_order_twice :
    ∃ s history, Reached (observed []) (fun observed label => orderly observed.1 label = true)
      (s, history) ∧
      [0, 1].Sublist history.queued ∧ 0 ∉ history.cancelled ∧ 1 ∈ history.started ∧
        0 ∈ history.started := by
  obtain ⟨⟨s, history⟩, reached, seen⟩ :=
    reached_seen (observed []) (fun observed => orderly observed.1)
    (start twoNodes, noHistory)
    [.report (.up (daemonName 1)), .report (.up (daemonName 2)), request 1, request 1, .scd, .scd,
      .scd, .rm, .scd, .scd, .rm, .rm, .scd]
    (fun observed => (observed.2.queued, observed.2.started, observed.2.cancelled))
      ([0, 1], [0, 1], [])
    ⟨⟨twoNodes, rfl⟩, rfl⟩ (by decide)
  obtain ⟨queued, started, cancelled⟩ : history.queued = [0, 1] ∧ history.started = [0, 1] ∧
      history.cancelled = [] := by
    simpa using seen
  have before : [0, 1].Sublist history.queued := queued ▸ List.Sublist.refl _
  have kept : 0 ∉ history.cancelled := cancelled ▸ List.not_mem_nil
  have begun : 1 ∈ history.started := by simp [started]
  exact ⟨s, history, reached, before, kept, begun,
    sessions_start_in_order [] s history reached 0 1 before kept begun⟩

/-- Two sessions are requested for one node. The node is down when the first request is handled, so
the first session keeps the node list of its client, which is unusable and sends it back to the
default queue. The node is up again when the second request is handled, and the second session
starts. -/
theorem session_overtakes :
    ∃ s history, Reachable (observed []) (s, history) ∧ [0, 1].Sublist history.queued ∧
      0 ∉ history.cancelled ∧
      1 ∉ history.cancelled ∧ 1 ∈ history.started ∧ 0 ∉ history.started := by
  obtain ⟨⟨s, history⟩, reached, seen⟩ :=
    reached_seen (observed []) (fun _ _ => true) (start twoNodes, noHistory)
    [.report (.up (daemonName 1)), .submit ⟨0, 1, some ['x', ',', 'y']⟩ true, request 1, .scd,
      .scd, .scd, .scd,
      .report (.down (daemonName 1)), .rm, .report (.up (daemonName 1)), .rm, .scd, .scd]
    (fun observed => (observed.2.queued, observed.2.started, observed.2.cancelled))
      ([0, 1], [1], [])
    ⟨⟨twoNodes, rfl⟩, rfl⟩ (by decide)
  obtain ⟨queued, started, cancelled⟩ : history.queued = [0, 1] ∧ history.started = [1] ∧
      history.cancelled = [] := by
    simpa using seen
  refine ⟨s, history, reachable_of_reached reached, queued ▸ List.Sublist.refl _, ?_⟩
  simp [started, cancelled]

end Orcm.FifoOrder
