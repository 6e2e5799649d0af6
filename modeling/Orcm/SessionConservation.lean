import Orcm.SchedulerFlow

/-!
A session that has been accepted is on one queue, or its `REQ` or `ALLOCD` event is pending;
`SCHEDULE`, `ACTIVE` and `KILL` events also point to sessions but do not hold them.
-/

namespace Orcm.SessionConservation

open Hierarchy Scheduler SchedulerEffects SchedulerFlow SessionFlow TransitionSystem

def sessionPlaces (s : State) : List Ref :=
  s.running ++ s.hold ++ s.default ++ reqs s.rm ++ allocds s.scd

def Removed (s next : State) (ref : Ref) : Prop :=
  (ref ∈ s.running ∧ ref ∉ next.running) ∨ (ref ∈ s.hold ∧ ref ∉ next.hold) ∨
    (ref ∈ s.default ∧ ref ∉ next.default)

def Handles (s : State) (label : Label) (ref : Ref) : Prop :=
  label = .scd ∧
    match s.scd.head? with
    | none => False
    | some (.init session) => ref = session
    | some .schedule => s.default.head? = some ref
    | some (.allocd session) => ref = session
    | some (.terminated session) => (s.object ref).id = session.id
    | some (.cancel id) => (s.object ref).id = id

structure KeepsOthers (s : State) (label : Label) (next : State) : Prop where
  handled : ∀ ref, Removed s next ref → Handles s label ref
  single : ∀ ref other, Removed s next ref → Removed s next other → ref = other

/-- A request asks for at least one node, a session with an unusable node list is put back only
while no session is running, and session identifiers do not wrap around. -/
def careful (s : State) : Label → Bool
  | .scd =>
    match s.scd with
    | .allocd session :: _ => usable (s.object session).alloc || s.running = []
    | _ => true
  | .rm =>
    match s.rm with
    | .req session :: _ => 0 < (s.object session).alloc.min_nodes
    | _ => true
  | label => counts s label

theorem counts_of_careful (s : State) (label : Label) (permitted : careful s label = true) :
    counts s label = true := by
  cases label with
  | submit => exact permitted
  | _ => rfl

variable {label : Label} {s : State}

theorem tidy_of_careful (history : History) (permitted : careful s label = true)
    (explained : Explained s label move) :
    Tidy (flow s history) move ∧ ∀ session, move ≠ .lose session := by
  cases move with
  | lose =>
    obtain ⟨rfl, pending, none⟩ := explained
    obtain ⟨rest, pending⟩ := List.head?_eq_some_iff.mp pending
    simp only [careful, pending, decide_eq_true_eq] at permitted
    omega
  | putBack =>
    obtain ⟨rfl, pending, bad⟩ := explained
    obtain ⟨rest, pending⟩ := List.head?_eq_some_iff.mp pending
    simp only [careful, pending, bad, Bool.false_or, decide_eq_true_eq] at permitted
    exact ⟨permitted, fun _ impossible => by cases impossible⟩
  | _ => exact ⟨trivial, fun _ impossible => by cases impossible⟩

theorem not_removed (removed : Removed s next ref) (running : s.running ⊆ next.running)
    (hold : s.hold ⊆ next.hold) (waiting : s.default ⊆ next.default) : False := by
  rcases removed with ⟨member, absent⟩ | ⟨member, absent⟩ | ⟨member, absent⟩
  · exact absent (running member)
  · exact absent (hold member)
  · exact absent (waiting member)

theorem removed_handled (permitted : careful s label = true)
    (effect : Effect clusters s label next) (ref : Ref) (removed : Removed s next ref) :
    Handles s label ref := by
  have all : ∀ queue : List Ref, queue ⊆ queue := List.Subset.refl
  have more : ∀ (queue : List Ref) (session : Ref), queue ⊆ queue ++ [session] :=
    fun queue session => List.subset_append_left queue [session]
  cases effect with
  | hold => exact (not_removed removed (all _) (more _ _) (all _)).elim
  | enqueue => exact (not_removed removed (all _) (all _) (more _ _)).elim
  | run =>
    exact (not_removed removed (more _ _) (all _) (all _)).elim
  | schedule =>
    refine ⟨rfl, ?_⟩
    simp only [Removed] at removed
    grind
  | requeue session rest rm pending intact bad =>
    -- only the session itself was on the running queue
    simp only [careful, pending, bad, Bool.false_or, decide_eq_true_eq] at permitted
    exact (not_removed removed (by simp [permitted]) (all _)
      (List.subset_cons_self session s.default)).elim
  | release =>
    refine ⟨rfl, ?_⟩
    simp only [Removed] at removed
    grind
  | cancel id rest pending =>
    refine ⟨rfl, ?_⟩
    simp only [pending]
    by_contra differs
    have kept : ¬ hasId s id ref = true := by simpa [hasId] using differs
    simp only [Removed, List.mem_eraseP_of_neg kept] at removed
    tauto
  | _ => exact (not_removed removed (all _) (all _) (all _)).elim

theorem handles_unique (numbered : Numbered s) (known : ref < s.allocated)
    (known' : other < s.allocated) (first : Handles s label ref) (second : Handles s label other) :
    ref = other := by
  obtain ⟨-, first⟩ := first
  obtain ⟨-, second⟩ := second
  cases pending : s.scd.head? with
  | none =>
    rw [pending] at first
    exact first.elim
  | some event =>
    rw [pending] at first second
    cases event with
    | init => exact first.trans second.symm
    | schedule => exact Option.some.inj (first.symm.trans second)
    | allocd => exact first.trans second.symm
    | terminated => exact numbered.injective known known' (first.trans second.symm)
    | cancel => exact numbered.injective known known' (first.trans second.symm)

/-- In every run with careful steps only, an accepted session is in exactly one place until it is
terminated or cancelled, and no step takes a session from a queue that it is not about. -/
theorem sessions_conserved (clusters : List Cluster) (s : State) (history : History)
    (reached : Reached (observed clusters) (fun observed label => careful observed.1 label = true)
      (s, history)) :
    (∀ ref ∈ history.accepted, ref ∉ history.terminated → ref ∉ history.cancelled →
      (sessionPlaces s).count ref = 1) ∧
    ∀ label next, careful s label = true → step clusters s label = some next →
      KeepsOthers s label next := by
  have ⟨distinct, complete⟩ : Distinct (flow s history) ∧ Complete (flow s history) := by
    refine flow_invariant clusters (fun s label => careful s label = true) (fun f => Distinct f ∧
      Complete f) ?_ ?_
      s history reached
    · intro nodes
      exact ⟨⟨fun _ => Nat.zero_le 1, fun _ member => by cases member⟩,
        fun _ member => by cases member⟩
    · rintro s history label move next ⟨distinct, complete⟩ permitted explained moves
      obtain ⟨tidy, keeps⟩ := tidy_of_careful history permitted explained
      exact ⟨distinct.moves moves tidy, complete.moves moves tidy keeps⟩
  have numbered : Numbered s := numbered_of_reached counts_of_careful
    (reached_of_observed (scheduler clusters) (fun s label => careful s label = true) reached)
  constructor
  · intro ref accepted alive uncancelled
    have present : ref ∈ places (flow s history) := by
      rcases complete ref accepted with here | terminated | cancelled
      · exact here
      · exact absurd terminated alive
      · exact absurd cancelled uncancelled
    have counted := List.count_pos_iff.mpr present
    have once := distinct.once ref
    simp only [all, places, flow, List.count_append] at counted once
    simp only [sessionPlaces, List.count_append]
    omega
  · intro label next permitted steps
    have handled := removed_handled permitted (step_effect s steps)
    have known : ∀ ref, Removed s next ref → ref < s.allocated := by
      intro ref removed
      refine List.mem_range.mp (distinct.known ref ?_)
      simp only [all, places, flow, List.mem_append]
      rcases removed with ⟨member, -⟩ | ⟨member, -⟩ | ⟨member, -⟩ <;> tauto
    refine ⟨handled, fun ref other removed removed' => ?_⟩
    exact handles_unique numbered (known ref removed) (known other removed') (handled ref removed)
      (handled other removed')

/-- A running session, a waiting one and one on hold. -/
theorem sessions_conserved_three :
    ∃ s history, Reached (observed []) (fun observed label => careful observed.1 label = true)
      (s, history) ∧
      history.accepted = [0, 1, 2] ∧
      (∀ ref ∈ history.accepted, ref ∉ history.terminated → ref ∉ history.cancelled →
        (sessionPlaces s).count ref = 1) ∧
      (∀ label next, careful s label = true → step [] s label = some next →
        KeepsOthers s label next) := by
  obtain ⟨⟨s, history⟩, reached, seen⟩ :=
    reached_seen (observed []) (fun observed => careful observed.1)
    (start twoNodes, noHistory)
    [.report (.up (daemonName 1)), request 1, request 2, request 3, .scd, .scd, .scd, .scd,
      .rm, .scd, .scd]
    (fun observed => observed.2.accepted) [0, 1, 2] ⟨⟨twoNodes, rfl⟩, rfl⟩ (by decide)
  exact ⟨s, history, reached, seen, sessions_conserved [] s history reached⟩

/-- A session that asks for no nodes is dropped when its request is handled. And a session with an
unusable node list takes a session from the running queue that has nothing to do with it. -/
theorem session_dropped_and_removed :
    (∃ s history, Reachable (observed []) (s, history) ∧ 0 ∈ history.accepted ∧
      0 ∉ history.terminated ∧
      0 ∉ history.cancelled ∧ (sessionPlaces s).count 0 = 0) ∧
    (∃ s history next, Reachable (observed []) (s, history) ∧ step [] s .scd = some next ∧
      ¬ KeepsOthers s .scd next) := by
  constructor
  · obtain ⟨⟨s, history⟩, reached, seen⟩ :=
      reached_seen (observed []) (fun _ _ => true) (start twoNodes, noHistory)
      [request 0, .scd, .scd, .rm]
      (fun observed => (observed.2.accepted, observed.2.terminated, observed.2.cancelled,
        sessionPlaces observed.1))
      ([0], [], [], []) ⟨⟨twoNodes, rfl⟩, rfl⟩ (by decide)
    simp only [Prod.mk.injEq] at seen
    obtain ⟨accepted, terminated, cancelled, nowhere⟩ := seen
    exact ⟨s, history, reachable_of_reached reached, by simp [accepted], by simp [terminated],
      by simp [cancelled], by simp [nowhere]⟩
  · obtain ⟨⟨s, history⟩, reached, seen⟩ :=
      reached_seen (observed []) (fun _ _ => true) (start twoNodes, noHistory)
      [.report (.up (daemonName 1)), .report (.up (daemonName 2)), request 1,
        .submit ⟨0, 1, some ['x', ',', 'y']⟩ true,
        .scd, .scd, .scd, .scd, .rm, .scd, .report (.down (daemonName 2)), .rm]
      (fun observed =>
        (observed.1.running, observed.1.scd, (step [] observed.1 .scd).map State.running))
      ([0], [.allocd 1], some [1]) ⟨⟨twoNodes, rfl⟩, rfl⟩ (by decide)
    simp only [Prod.mk.injEq] at seen
    obtain ⟨running, pending, after⟩ := seen
    obtain ⟨next, steps, after⟩ := Option.map_eq_some_iff.mp after
    refine ⟨s, history, next, reachable_of_reached reached, steps, fun keeps => ?_⟩
    have handled := keeps.handled 0 (.inl ⟨by simp [running], by simp [after]⟩)
    simp [Handles, pending] at handled

end Orcm.SessionConservation
