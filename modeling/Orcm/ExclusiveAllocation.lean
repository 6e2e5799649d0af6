import Orcm.SessionTokens

/-!
The nodes of a running session stay marked until its own `TERMINATED` event. Those of a session
whose `ALLOCD` event is pending are not marked yet; a request that is handled in between may choose
them again.
-/

namespace Orcm.ExclusiveAllocation

open CLibrary NodePool Hierarchy NodeReport RegexExtract Scheduler SchedulerEffects SchedulerFlow
    SchedulerGrants List
open SessionFlow SessionTokens TransitionSystem

def allocatedNodes (s : State) (session : Ref) : List Name :=
  (orteRegexExtractNodeNames (s.object session).alloc.nodes).toOption.getD []

def Exclusive (s : State) : Prop :=
  ∀ first ∈ s.running, ∀ second ∈ s.running, first ≠ second →
    ∀ name ∈ allocatedNodes s first, name ∉ allocatedNodes s second

/-- Requests are sound and session identifiers do not wrap around. -/
def exclusively (s : State) (label : Label) : Bool := soundRequest s label && counts s label

def assigned (s : State) : List Ref := s.running ++ allocds s.scd

structure Assigned (s : State) : Prop where
  good : ∀ session ∈ s.running, usable (s.object session).alloc = true
  apart : ∀ first ∈ assigned s, ∀ second ∈ assigned s, first ≠ second →
    ∀ name ∈ nodeList (s.object first).alloc, name ∉ nodeList (s.object second).alloc
  marked : ∀ session ∈ s.running, ∀ node, some node ∈ s.nodes →
    node.name ∈ nodeList (s.object session).alloc →
    node.scd_state = .alloc

theorem Assigned.start {nodes : Pool} : Assigned (start nodes) :=
  ⟨fun _ member => (by cases member), fun _ member => (by cases member),
    fun _ member => by cases member⟩

variable {s : State}

theorem Assigned.frame {next : State} (held : Assigned s)
    (object : ∀ ref ∈ assigned s, next.object ref = s.object ref)
    (running : next.running ⊆ s.running) (granted : allocds next.scd ⊆ allocds s.scd)
    (nodes : ∀ node, some node ∈ next.nodes → ∃ old, some old ∈ s.nodes ∧ node.name = old.name ∧
      (old.scd_state = .alloc → node.scd_state = .alloc)) : Assigned next := by
  have before : ∀ ref ∈ assigned next, ref ∈ assigned s := fun ref member => by
    rcases List.mem_append.mp member with runs | waits
    · exact mem_append_left _ (running runs)
    · exact mem_append_right _ (granted waits)
  have runs : ∀ ref ∈ next.running, next.object ref = s.object ref := fun ref member =>
    object ref (mem_append_left _ (running member))
  constructor
  · intro session member
    rw [runs session member]
    exact held.good session (running member)
  · intro first member second member' differs
    rw [object first (before first member), object second (before second member')]
    exact held.apart first (before first member) second (before second member') differs
  · intro session member node present named
    rw [runs session member] at named
    obtain ⟨old, present, same, keeps⟩ := nodes node present
    rw [same] at named
    exact keeps (held.marked session (running member) old present named)

theorem Assigned.run (held : Assigned s)
    (pending : s.scd = .allocd session :: rest) (good : usable (s.object session).alloc = true) :
    Assigned { s with
      scd := rest, rm, running := s.running ++ [session],
      nodes := setScdState (nodeList (s.object session).alloc) .alloc s.nodes } := by
  have same : ∀ ref, ref ∈ s.running ++ [session] ++ allocds rest ↔ ref ∈ assigned s := by
    simp [assigned, pending, allocds]
  constructor
  · intro ref member
    rcases List.mem_append.mp member with before | now
    · exact held.good ref before
    · rw [List.mem_singleton.mp now]
      exact good
  · intro first member second member'
    exact held.apart first ((same first).mp member) second ((same second).mp member')
  · intro ref member node present named
    rw [setScdState_eq, mem_setWhere] at present
    obtain ⟨old, present, rfl⟩ := present
    by_cases marked : old.name ∈ nodeList (s.object session).alloc
    · simp [marked]
    · simp only [marked, decide_false, Bool.false_eq_true, if_false] at named ⊢
      rcases List.mem_append.mp member with before | now
      · exact held.marked ref before old present named
      · rw [List.mem_singleton.mp now] at named
        exact absurd named marked

/-- The session that ends is a running one, so the nodes that are released are those of no other
session. -/
theorem Assigned.release (held : Assigned s) (runs : own ∈ s.running)
    (pending : s.scd = .terminated (s.object own) :: rest) :
    Assigned { s with
      scd := rest ++ [.schedule],
      nodes := setScdState (nodeList (s.object own).alloc) .unalloc s.nodes,
      running := s.running.filter fun ref => (s.object ref).id ≠ (s.object own).id } := by
  have fewer : (s.running.filter fun ref => (s.object ref).id ≠ (s.object own).id) ⊆ s.running :=
    List.filter_sublist.subset
  have granted : allocds (rest ++ [.schedule]) = allocds s.scd := by simp [pending, allocds]
  constructor
  · exact fun session member => held.good session (fewer member)
  · have before :
        ∀ ref, ref ∈ (s.running.filter fun ref => (s.object ref).id ≠ (s.object own).id) ++
        allocds (rest ++ [.schedule]) → ref ∈ assigned s := by
      intro ref member
      rw [granted] at member
      rcases List.mem_append.mp member with runs | waits
      · exact mem_append_left _ (fewer runs)
      · exact mem_append_right _ waits
    intro first member second member'
    exact held.apart first (before first member) second (before second member')
  · intro session member node present named
    have differs : session ≠ own := by
      rintro rfl
      simp at member
    rw [setScdState_eq, mem_setWhere] at present
    obtain ⟨old, present, rfl⟩ := present
    by_cases released : old.name ∈ nodeList (s.object own).alloc
    · simp only [released, decide_true, if_true] at named
      exact absurd released (held.apart session (mem_append_left _ (fewer member)) own
        (mem_append_left _ runs) differs _ named)
    · simp only [released, decide_false, Bool.false_eq_true, if_false] at named ⊢
      exact held.marked session (fewer member) old present named

/-- Chosen nodes are free, so they are marked for no running session, and a sound request does not
choose nodes that are promised. -/
theorem Assigned.grant (held : Assigned s) (sound : Sound s) {session : Ref} {rest : List RmEvent}
    {nodes : Option CString} (pending : s.rm = .req session :: rest)
    (asked : 0 < (s.object session).alloc.min_nodes)
    (permitted : soundRequest s .rm = true)
    (chosen : chooseNodes (s.object session).alloc s.nodes = .ok nodes) :
    Assigned { s with rm := rest, scd := s.scd ++ [.allocd session],
                      object := grantNodes s.object session nodes } := by
  obtain ⟨enough, keeps, plain, fresh⟩ := (soundRequest_iff pending asked).mp permitted
  obtain ⟨-, picked⟩ := chooseNodes_sound enough keeps plain chosen
  have elsewhere : ∀ ref ∈ assigned s, ref ≠ session := sound.elsewhere pending
  have old : ∀ ref ∈ assigned s, grantNodes s.object session nodes ref = s.object ref :=
    fun ref member => by
    simp [grantNodes, Function.update_of_ne (elsewhere ref member)]
  have new : (grantNodes s.object session nodes session).alloc =
      ⟨(s.object session).alloc.id, (s.object session).alloc.min_nodes, nodes⟩ := by
        simp [grantNodes]
  have apart : ∀ ref ∈ assigned s, ∀ name ∈ nodeList (s.object ref).alloc,
      name ∉ nodeList (grantNodes s.object session nodes session).alloc := by
    intro ref member name listed again
    rw [new] at again
    have choice := picked.mem_iff.mp again
    -- a running session's nodes are marked and so not free; those of a granted one are promised
    rcases List.mem_append.mp member with runs | waits
    · obtain ⟨node, taken, rfl⟩ := List.mem_map.mp choice
      obtain ⟨present, free⟩ := mem_freeNodes (mem_of_mem_take taken)
      rw [held.marked ref runs node present listed] at free
      cases free
    · exact fresh name choice (List.mem_flatMap.mpr ⟨ref, waits, listed⟩)
  have members : ∀ ref ∈ s.running ++ allocds (s.scd ++ [.allocd session]), ref = session ∨
      ref ∈ assigned s := by
    intro ref member
    simp only [allocds, filterMap_append, mem_append] at member
    simp only [assigned, mem_append]
    rcases member with runs | waits | now
    · exact .inr (.inl runs)
    · exact .inr (.inr waits)
    · exact .inl (by simpa using now)
  constructor
  · intro ref member
    simp only [old ref (mem_append_left _ member)]
    exact held.good ref member
  · intro first member second member' differs name listed
    rcases members first member with rfl | before <;>
      rcases members second member' with rfl | before'
    · exact absurd rfl differs
    · intro again
      simp only [old second before'] at again
      exact apart second before' name again listed
    · simp only [old first before] at listed
      exact apart first before name listed
    · simp only [old first before] at listed
      simp only [old second before']
      exact held.apart first before second before' differs name listed
  · intro ref member node present named
    simp only [old ref (mem_append_left _ member)] at named
    exact held.marked ref member node present named

theorem Assigned.step {next : State} (held : Assigned s) (sound : Sound s)
    (tokens : Tokens s) (permitted : soundRequest s label = true)
    (effect : Effect clusters s label next) :
    Assigned next := by
  have pool : ∀ node, some node ∈ s.nodes → ∃ old, some old ∈ s.nodes ∧ node.name = old.name ∧
      (old.scd_state = .alloc → node.scd_state = .alloc) := fun node present =>
        ⟨node, present, rfl, id⟩
  have all : ∀ queue : List Ref, queue ⊆ queue := List.Subset.refl
  -- neither the running queue nor the nodes change, and no grant is added
  have still : ∀ other : State, other.object = s.object → other.running = s.running →
      other.nodes = s.nodes →
      allocds other.scd ⊆ allocds s.scd → Assigned other := by
    intro other object running nodes granted
    exact held.frame (fun _ _ => by rw [object]) (running ▸ all _) granted (nodes ▸ pool)
  cases effect with
  | hold session rest pending => exact still _ rfl rfl rfl (by simp [pending, allocds])
  | enqueue session rest pending => exact still _ rfl rfl rfl (by simp [pending, allocds])
  | wait rest pending => exact still _ rfl rfl rfl (by simp [pending, allocds])
  | schedule session rest waiting pending => exact still _ rfl rfl rfl (by simp [pending, allocds])
  | requeue session rest rm pending intact bad =>
    rw [sound.usable_next pending] at bad
    cases bad
  | run session rest nodenames pending intact good extracted =>
    rw [← nodeList_eq good extracted]
    exact held.run pending good
  | linger session rest pending => exact still _ rfl rfl rfl (by simp [pending, allocds])
  | release session rest nodenames pending intact extracted =>
    obtain ⟨own, runs, rfl⟩ := tokens.ended session (by simp [pending, terminateds])
    rw [← nodeList_eq (held.good own runs) extracted]
    exact held.release runs pending
  | cancel id rest pending =>
    refine still _ rfl rfl rfl ?_
    cases s.hold.any (hasId s id) <;> cases s.default.any (hasId s id) <;> simp [pending, allocds]
  | grant session rest nodes pending asked chosen =>
    exact held.grant sound pending asked permitted chosen
  | submit =>
    refine held.frame (fun ref member => ?_) (all _) (by simp [allocds]) pool
    refine Function.update_of_ne (Nat.ne_of_lt (sound.known ?_)) _ _
    simp only [assigned, SessionFlow.all, places, mem_append] at member ⊢
    tauto
  | report report =>
    refine held.frame (fun _ _ => rfl) (all _) (all _) fun node present => ?_
    obtain ⟨old, present, name, state⟩ := nodestateUpdate_evolves.source node present
    refine ⟨old, present, name, fun marked => ?_⟩
    -- a report changes the scheduling state only of nodes that are not allocated
    rcases state with same | ⟨unknown | unknown, -⟩
    · rw [same, marked]
    · rw [marked] at unknown
      cases unknown
    · rw [marked] at unknown
      cases unknown
  | askCancel => exact still _ rfl rfl rfl (by simp [allocds])
  | complete => exact still _ rfl rfl rfl (by simp [allocds])
  | _ => exact still _ rfl rfl rfl (all _)

theorem allocatedNodes_eq (good : usable (s.object session).alloc = true) :
    allocatedNodes s session = nodeList (s.object session).alloc := by
  obtain ⟨nodenames, extracted, -, same⟩ := usable_extract good
  rw [same, allocatedNodes, extracted]
  rfl

theorem invariants_step {next : State} (held : Sound s ∧ Numbered s ∧ Tokens s ∧ Assigned s)
    (permitted : exclusively s label = true) (effect : Effect clusters s label next) :
    Sound next ∧ Numbered next ∧ Tokens next ∧ Assigned next := by
  obtain ⟨sound, numbered, tokens, held⟩ := held
  obtain ⟨requests, counting⟩ := (Bool.and_eq_true ..).mp permitted
  exact ⟨sound.step requests effect, numbered.step counting effect,
    tokens.step clusters s sound numbered requests effect,
    held.step sound tokens requests effect⟩

/-- In every run with sound requests and without a wrapped identifier, no two running sessions share
a node. -/
theorem running_sessions_exclusive (clusters : List Cluster) (s : State)
    (reached : Reached (scheduler clusters) (fun s label => exclusively s label = true) s) :
    Exclusive s := by
  have ⟨_, _, _, held⟩ : Sound s ∧ Numbered s ∧ Tokens s ∧ Assigned s := by
    refine reached.invariant (fun s => Sound s ∧ Numbered s ∧ Tokens s ∧ Assigned s) ?_ ?_ s
    · rintro _ ⟨nodes, rfl⟩
      exact ⟨Sound.start, Numbered.start, Tokens.start, Assigned.start⟩
    · intro s label next held permitted steps
      exact invariants_step held permitted (step_effect s steps)
  intro first member second member' differs
  rw [allocatedNodes_eq (held.good first member), allocatedNodes_eq (held.good second member')]
  exact held.apart first (List.mem_append_left _ member) second
    (List.mem_append_left _ member') differs

/-- Two sessions run on one node each. -/
theorem running_sessions_exclusive_two :
    ∃ s, Reached (scheduler []) (fun s label => exclusively s label = true) s ∧ s.running = [0, 1] ∧
      allocatedNodes s 0 = [['a']] ∧ allocatedNodes s 1 = [['b']] ∧ Exclusive s := by
  obtain ⟨s, reached, seen⟩ := reached_seen (scheduler []) exclusively (start twoNodes)
    [.report (.up (daemonName 1)), .report (.up (daemonName 2)), request 1, .scd, .scd, .rm, .scd,
      request 1, .scd, .scd, .rm, .rm, .scd]
    (fun s => (s.running, allocatedNodes s 0, allocatedNodes s 1)) ([0, 1], [['a']], [['b']])
      ⟨twoNodes, rfl⟩ (by decide)
  simp only [Prod.mk.injEq] at seen
  obtain ⟨running, first, second⟩ := seen
  exact ⟨s, reached, running, first, second, running_sessions_exclusive [] s reached⟩

/-- Both sessions are scheduled and requested while the only node is still free. -/
theorem sessions_share_node : ∃ s, Reachable (scheduler []) s ∧ ¬ Exclusive s := by
  obtain ⟨s, reached, seen⟩ := reached_seen (scheduler []) (fun _ _ => true) (start twoNodes)
    [.report (.up (daemonName 1)), request 1, request 1, .scd, .scd, .scd, .scd, .rm,
      .rm, .scd, .scd]
    (fun s => (s.running, allocatedNodes s 0, allocatedNodes s 1)) ([0, 1], [['a']], [['a']])
      ⟨twoNodes, rfl⟩ (by decide)
  simp only [Prod.mk.injEq] at seen
  obtain ⟨running, first, second⟩ := seen
  refine ⟨s, reachable_of_reached reached, fun exclusive => ?_⟩
  exact exclusive 0 (by simp [running]) 1 (by simp [running]) (by decide) ['a'] (by simp [first])
    (by simp [second])

end Orcm.ExclusiveAllocation
