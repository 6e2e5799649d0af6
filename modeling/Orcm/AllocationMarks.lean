import Orcm.ExclusiveAllocation

/-!
A node is marked when the session that was granted it starts to run, and its mark is taken away with
the `TERMINATED` event of that session.
-/

namespace Orcm.AllocationMarks

open NodePool Hierarchy NodeReport Scheduler SchedulerEffects SchedulerFlow SchedulerGrants
open SessionFlow SessionTokens TransitionSystem ExclusiveAllocation

/-- The scheduler with the nodes as the configuration leaves them: none of them is allocated. -/
def configured (clusters : List Cluster) : System State Label where
  initial s := ∃ nodes, (∀ node, some node ∈ nodes → node.scd_state ≠ .alloc) ∧ s = start nodes
  step := step clusters

/-- A node is marked exactly if it is on the node list of a running session. -/
def MarksAgree (s : State) : Prop :=
  ∀ node, some node ∈ s.nodes →
    (node.scd_state = .alloc ↔ ∃ session ∈ s.running, node.name ∈ allocatedNodes s session)

/-- Every mark has a session it was set for. -/
def Owned (s : State) : Prop :=
  ∀ node, some node ∈ s.nodes → node.scd_state = .alloc → ∃ session ∈ s.running,
    node.name ∈ nodeList (s.object session).alloc

variable {s next : State}

theorem Owned.frame (owned : Owned s) (object : ∀ ref ∈ s.running, next.object ref = s.object ref)
    (running : s.running ⊆ next.running)
    (nodes : ∀ node, some node ∈ next.nodes → node.scd_state = .alloc →
      ∃ old, some old ∈ s.nodes ∧ node.name = old.name ∧ old.scd_state = .alloc) : Owned next := by
  intro node present marked
  obtain ⟨old, present, name, marked⟩ := nodes node present marked
  obtain ⟨session, runs, listed⟩ := owned old present marked
  refine ⟨session, running runs, ?_⟩
  rwa [object session runs, name]

theorem Owned.run (owned : Owned s) (object : next.object = s.object)
    (running : next.running = s.running ++ [session])
    (nodes : next.nodes = setScdState (nodeList (s.object session).alloc) .alloc s.nodes) :
    Owned next := by
  intro node present marked
  rw [nodes, setScdState_eq, mem_setWhere] at present
  obtain ⟨old, present, rfl⟩ := present
  rw [object, running]
  by_cases new : old.name ∈ nodeList (s.object session).alloc
  · exact ⟨session, by simp, by simp [new]⟩
  · simp only [new, decide_false, Bool.false_eq_true, if_false] at marked ⊢
    obtain ⟨other, runs, listed⟩ := owned old present marked
    exact ⟨other, List.mem_append_left _ runs, listed⟩

/-- A node that keeps its mark is on the list of another session, and that session goes on:
identifiers are distinct. -/
theorem Owned.release (owned : Owned s) (sound : Sound s) (numbered : Numbered s)
    (ends : own ∈ s.running) (object : next.object = s.object)
    (running : next.running = s.running.filter fun ref => (s.object ref).id ≠ (s.object own).id)
    (nodes : next.nodes = setScdState (nodeList (s.object own).alloc) .unalloc s.nodes) :
    Owned next := by
  intro node present marked
  rw [nodes, setScdState_eq, mem_setWhere] at present
  obtain ⟨old, present, rfl⟩ := present
  by_cases released : old.name ∈ nodeList (s.object own).alloc
  · simp [released] at marked
  · simp only [released, decide_false, Bool.false_eq_true, if_false] at marked ⊢
    obtain ⟨other, runs, listed⟩ := owned old present marked
    have known : ∀ ref ∈ s.running, ref < s.allocated := fun ref runs => sound.known (by
      simp only [SessionFlow.all, places, List.mem_append]
      tauto)
    have differs : (s.object other).id ≠ (s.object own).id := by
      intro same
      rw [numbered.injective (known other runs) (known own ends) same] at listed
      exact released listed
    rw [object, running]
    exact ⟨other, List.mem_filter.mpr ⟨runs, decide_eq_true differs⟩, listed⟩

theorem Owned.step (owned : Owned s)
    (held : Sound s ∧ Numbered s ∧ Tokens s ∧ Assigned s) (effect : Effect clusters s label next) :
    Owned next := by
  obtain ⟨sound, numbered, tokens, assigned⟩ := held
  have pool : ∀ node, some node ∈ s.nodes → node.scd_state = .alloc →
      ∃ old, some old ∈ s.nodes ∧ node.name = old.name ∧ old.scd_state = .alloc :=
    fun node present marked => ⟨node, present, rfl, marked⟩
  have still : ∀ other : State, other.object = s.object → other.running = s.running →
      other.nodes = s.nodes → Owned other := by
    intro other object running nodes
    exact owned.frame (fun _ _ => by rw [object]) (running ▸ List.Subset.refl _) (nodes ▸ pool)
  cases effect with
  | requeue session rest rm pending intact bad =>
    rw [sound.usable_next pending] at bad
    cases bad
  | run session rest nodenames pending intact good extracted =>
    exact owned.run rfl rfl (by rw [nodeList_eq good extracted])
  | release session rest nodenames pending intact extracted =>
    obtain ⟨own, runs, rfl⟩ := tokens.ended session (by simp [pending, terminateds])
    exact owned.release sound numbered runs rfl rfl
      (by rw [nodeList_eq (assigned.good own runs) extracted])
  | grant session rest nodes pending =>
    refine owned.frame (fun ref runs => ?_) (List.Subset.refl _) pool
    exact Function.update_of_ne (sound.elsewhere pending ref (List.mem_append_left _ runs)) _ _
  | submit =>
    refine owned.frame (fun ref runs => ?_) (List.Subset.refl _) pool
    refine Function.update_of_ne (Nat.ne_of_lt (sound.known ?_)) _ _
    simp only [SessionFlow.all, places, List.mem_append]
    tauto
  | report report =>
    refine owned.frame (fun _ _ => rfl) (List.Subset.refl _) fun node present marked => ?_
    obtain ⟨old, present, name, state⟩ := nodestateUpdate_evolves.source node present
    refine ⟨old, present, name, ?_⟩
    -- a report makes a node available at most
    rcases state with same | ⟨-, available⟩
    · rw [← same, marked]
    · rw [marked] at available
      cases available
  | _ => exact still _ rfl rfl rfl

/-- Under the conditions of exclusive allocation marks and running queue agree in every state,
events pending or not. -/
theorem marks_agree (clusters : List Cluster) (s : State)
    (reached : Reached (configured clusters) (fun s label => exclusively s label = true) s) :
    MarksAgree s := by
  have ⟨⟨_, _, _, assigned⟩, owned⟩ : (Sound s ∧ Numbered s ∧ Tokens s ∧ Assigned s) ∧ Owned s := by
    refine reached.invariant (fun s => (Sound s ∧ Numbered s ∧ Tokens s ∧ Assigned s) ∧
      Owned s) ?_ ?_ s
    · rintro _ ⟨nodes, unmarked, rfl⟩
      exact ⟨⟨Sound.start, Numbered.start, Tokens.start, Assigned.start⟩,
        fun node present marked => absurd marked (unmarked node present)⟩
    · rintro s label next ⟨held, owned⟩ permitted steps
      have effect := step_effect s steps
      exact ⟨invariants_step held permitted effect, owned.step held effect⟩
  intro node present
  constructor
  · intro marked
    obtain ⟨session, runs, listed⟩ := owned node present marked
    exact ⟨session, runs, by rwa [allocatedNodes_eq (assigned.good session runs)]⟩
  · rintro ⟨session, runs, listed⟩
    rw [allocatedNodes_eq (assigned.good session runs)] at listed
    exact assigned.marked session runs node present listed

theorem twoNodes_unmarked : ∀ node, some node ∈ twoNodes → node.scd_state ≠ .alloc := by
  simp [twoNodes]

/-- A session on the first node, and the second one free. -/
theorem marks_agree_one :
    ∃ s, Reached (configured []) (fun s label => exclusively s label = true) s ∧ s.running = [0] ∧
      s.nodes.map (Option.map Node.scd_state) = [some .alloc, some .unalloc] ∧ MarksAgree s := by
  obtain ⟨s, reached, seen⟩ := reached_seen (configured []) exclusively (start twoNodes)
    [.report (.up (daemonName 1)), .report (.up (daemonName 2)), request 1, .scd, .scd,
      .rm, .scd, .rm]
    (fun s => (s.running, s.nodes.map (Option.map Node.scd_state)))
      ([0], [some .alloc, some .unalloc])
    ⟨twoNodes, twoNodes_unmarked, rfl⟩ (by decide)
  simp only [Prod.mk.injEq] at seen
  exact ⟨s, reached, seen.1, seen.2, marks_agree [] s reached⟩

/-- Two sessions have been given the same node. When the first one ends, the mark goes though the
second one still runs there, and nothing is pending. -/
theorem shared_node_loses_mark :
    ∃ s, Reachable (configured []) s ∧ s.scd = [] ∧ s.rm = [] ∧ ¬ MarksAgree s := by
  obtain ⟨s, reached, seen⟩ := reached_seen (configured []) (fun _ _ => true) (start twoNodes)
    [.report (.up (daemonName 1)), request 1, request 1, .scd, .scd, .scd, .scd, .rm, .rm, .scd,
      .scd, .rm, .rm, .complete ⟨1, 1, some ['a']⟩, .scd, .scd]
    (fun s => decide (s.scd = [] ∧ s.rm = [] ∧ s.running = [1] ∧ allocatedNodes s 1 = [['a']] ∧
      s.nodes.head? = some (some ⟨['a'], daemonName 1, .up, .unalloc⟩))) true
        ⟨twoNodes, twoNodes_unmarked, rfl⟩ (by decide)
  obtain ⟨noScd, noRm, running, listed, first⟩ := of_decide_eq_true seen
  refine ⟨s, reachable_of_reached reached, noScd, noRm, fun agree => ?_⟩
  have marked := (agree _ (List.mem_of_head? first)).mpr ⟨1, by simp [running], by simp [listed]⟩
  cases marked

end Orcm.AllocationMarks
