import Orcm.ExclusiveAllocation

/-! How sessions end in the runs of exclusive allocation: `TERMINATED` carries a copy of the session
as it was started. -/

namespace Orcm.SessionEnds

open Hierarchy Scheduler SchedulerEffects SchedulerFlow SchedulerGrants SessionTokens
    TransitionSystem ExclusiveAllocation

theorem run_keeps_record (settled : Settled s session)
    (runs : (scheduler clusters).run (fun _ _ => true) s labels = some final) :
    final.object session = s.object session := by
  induction labels generalizing s with
  | nil =>
    cases runs
    rfl
  | cons label rest ih =>
    obtain ⟨next, steps, runs⟩ := Option.bind_eq_some_iff.mp runs
    have effect := step_effect s steps
    exact (ih (settled.step effect) runs).trans (settled.object effect)

/-- A session has at most one of the `ACTIVE` event, the tracker and the `TERMINATED` event that
lead to its end, and only while it runs. Whatever happens after it was started, its record stays the
same. -/
theorem sessions_end_once (clusters : List Cluster) (s : State)
    (reached : Reached (scheduler clusters) (fun s label => exclusively s label = true) s) :
    (∀ id, (tokens s).count id ≤ 1) ∧
      (∀ id ∈ tokens s, ∃ session ∈ s.running, token (s.object session) = id) ∧
      (∀ session ∈ terminateds s.scd, ∃ ref ∈ s.running, session = s.object ref) ∧
      ∀ session ∈ s.running, ∀ labels final, (scheduler clusters).run (fun _ _ => true) s labels =
        some final →
        final.object session = s.object session := by
  have ⟨sound, _, tokens, _⟩ : Sound s ∧ Numbered s ∧ Tokens s ∧ Assigned s := by
    refine reached.invariant (fun s => Sound s ∧ Numbered s ∧ Tokens s ∧ Assigned s) ?_ ?_ s
    · rintro _ ⟨nodes, rfl⟩
      exact ⟨Sound.start, Numbered.start, Tokens.start, Assigned.start⟩
    · intro s label next held permitted steps
      exact invariants_step held permitted (step_effect s steps)
  refine ⟨tokens.once, tokens.runs, tokens.ended, fun session runs labels final later => ?_⟩
  exact run_keeps_record (settled_of_running sound runs) later

/-- The step daemon has reported, and the event is pending. -/
theorem sessions_end_once_reported :
    ∃ s, Reached (scheduler []) (fun s label => exclusively s label = true) s ∧
      terminateds s.scd = [s.object 0] ∧
      (∀ id, (tokens s).count id ≤ 1) ∧ ∃ ref ∈ s.running, s.object 0 = s.object ref := by
  obtain ⟨s, reached, seen⟩ := reached_seen (scheduler []) exclusively (start twoNodes)
    [.report (.up (daemonName 1)), request 1, .scd, .scd, .rm, .scd, .rm,
      .complete ⟨1, 1, some ['a']⟩]
    (fun s => decide (terminateds s.scd = [s.object 0])) true ⟨twoNodes, rfl⟩ (by decide)
  have ended := of_decide_eq_true seen
  obtain ⟨once, -, same, -⟩ := sessions_end_once [] s reached
  exact ⟨s, reached, ended, once, same _ (by simp [ended])⟩

end Orcm.SessionEnds
