import Mathlib.Data.Int.Order.Basic
import Orcm.SchedulerGrants

/-!
Lost wake-ups. A scheduling pass looks at the first session of the default queue only, so every
session that could be started needs a pending `SCHEDULE` event of its own. A termination, a
cancellation or a node report can make several sessions ready at once and activates one `SCHEDULE`
event or none.
-/

namespace Orcm.WakeUp

open List hiding all
open CLibrary NodePool Hierarchy NodeReport RegexExtract Scheduler SchedulerEffects SchedulerFlow
open SchedulerGrants SessionFlow TransitionSystem

def startable : Int → List Nat → Nat
  | _, [] => 0
  | spare, demand :: rest => if demand ≤ spare then startable (spare - demand) rest + 1 else 0

theorem startable_mono (le : low ≤ high) :
    startable low demands ≤ startable high demands := by
  induction demands generalizing low high with
  | nil => exact Nat.le_refl _
  | cons demand rest ih =>
    simp only [startable]
    split
    · rw [if_pos (by omega)]
      exact Nat.succ_le_succ (ih (by omega))
    · exact Nat.zero_le _

theorem startable_append_one (demands : List Nat) (spare : Int) (last : Nat) :
    startable spare (demands ++ [last]) ≤ startable spare demands + 1 := by
  induction demands generalizing spare with
  | nil =>
    simp only [nil_append, startable]
    split <;> omega
  | cons demand rest ih =>
    simp only [cons_append, startable]
    split
    · exact Nat.succ_le_succ (ih _)
    · exact Nat.zero_le _

theorem startable_negative (negative : spare < 0) : startable spare demands = 0 := by
  cases demands with
  | nil => rfl
  | cons =>
    rw [startable, if_neg]
    omega

theorem startable_le_length (spare : Int) (demands : List Nat) :
    startable spare demands ≤ demands.length := by
  induction demands generalizing spare with
  | nil => exact Nat.le_refl _
  | cons demand rest ih =>
    simp only [startable, length_cons]
    split
    · exact Nat.succ_le_succ (ih _)
    · exact Nat.zero_le _

def demand (session : Session) : Nat := session.alloc.min_nodes.toNat

/-- The free nodes that no session on its way will take. -/
def spare (s : State) : Int :=
  ((freeNodes s.nodes).filter (·.name ∉ promised s)).length -
    ((reqs s.rm).map fun session => (demand (s.object session) : Int)).sum

/-- The number of sessions of the default queue that could be started. -/
def ready (s : State) : Nat :=
  startable (spare s) (s.default.map fun session => demand (s.object session))

def wakeUps (s : State) : Nat := s.scd.count .schedule

/-- Whether a report can bring nodes up. -/
def raises : Report → Bool
  | .up _ | .resume _ => true
  | .down _ | .drain _ => false

/-- Requests are sound. Nodes come up when as many scheduling passes are pending as sessions wait on
the default queue. A termination activates one pass more, and a cancellation also takes a session
off the queue. -/
def wakes (s : State) : Label → Bool
  | .scd =>
    match s.scd with
    | .terminated _ :: _ => s.default.length ≤ wakeUps s + 1
    | .cancel id :: _ => s.default.all (! hasId s id ·) || s.default.length ≤ wakeUps s + 2
    | _ => true
  | .report report => ! raises report || s.default.length ≤ wakeUps s
  | label => soundRequest s label

variable {s : State}

theorem soundRequest_of_wakes (permitted : wakes s label = true) : soundRequest s label = true := by
  cases label with
  | rm => exact permitted
  | _ => rfl

theorem ready_le_length (s : State) : ready s ≤ s.default.length :=
  (startable_le_length _ _).trans_eq (length_map _)

section Lowering

variable {update : Node → Node} (never : ∀ node, (update node).isFree = false)
include never

theorem updateFirst_freeNodes {found : Node → Bool} {pool after : Pool}
    (updates : updateFirst found update pool = some after) : freeNodes after <+ freeNodes pool := by
  induction pool generalizing after with
  | nil => cases updates
  | cons slot rest ih =>
    cases slot with
    | none =>
      obtain ⟨tail, later, rfl⟩ := Option.map_eq_some_iff.mp updates
      have shorter := ih later
      exact shorter
    | some node =>
      rw [updateFirst] at updates
      split at updates
      · cases updates
        simp only [freeNodes, filterMap_cons, id, filter_cons, never, Bool.false_eq_true, if_false]
        split
        · exact sublist_cons_self _ _
        · exact Sublist.refl _
      · obtain ⟨tail, later, rfl⟩ := Option.map_eq_some_iff.mp updates
        have shorter := ih later
        simp only [freeNodes, filterMap_cons, id, filter_cons] at shorter ⊢
        split
        · exact shorter.cons_cons node
        · exact shorter

theorem updateEach_freeNodes {Key : Type} (found : Key → Node → Bool) (keys : List Key)
    (pool : Pool) :
    freeNodes (updateEach found update keys pool).1 <+ freeNodes pool := by
  induction keys generalizing pool with
  | nil => exact Sublist.refl _
  | cons key rest ih =>
    rw [updateEach]
    split
    · rename_i updates
      exact (ih _).trans (updateFirst_freeNodes never updates)
    · exact ih pool

end Lowering

theorem report_freeNodes (clusters : List Cluster) {report : Report}
    (lowers : raises report = false) (pool : Pool) :
    freeNodes (nodestateUpdate clusters report pool).2 <+ freeNodes pool := by
  cases report with
  | up node => cases lowers
  | resume regexp => cases lowers
  | down node =>
    exact updateEach_freeNodes (by simp [Node.report, Node.isFree]) _ _ pool
  | drain regexp =>
    rw [nodestateUpdate, updateNodestateByname]
    split
    · exact Sublist.refl _
    · exact updateEach_freeNodes (by simp [Node.report, Node.isFree]) _ _ pool

theorem ready_report (clusters : List Cluster) {report : Report} (lowers : raises report = false)
    (s : State) :
    ready { s with nodes := (nodestateUpdate clusters report s.nodes).2 } ≤ ready s := by
  have fewer := ((report_freeNodes clusters lowers s.nodes).filter (·.name ∉ promised s)).length_le
  apply startable_mono
  exact Int.sub_le_sub_right (Int.ofNat_le.mpr fewer) _

theorem spare_le_free (s : State) : spare s ≤ (freeNodes s.nodes).length := by
  have fewer := length_filter_le (fun node => decide (node.name ∉ promised s)) (freeNodes s.nodes)
  have demanded : 0 ≤ ((reqs s.rm).map fun session => (demand (s.object session) : Int)).sum :=
    sum_nonneg (by simp)
  simp only [spare]
  omega

theorem ready_congr (s next : State)
    (object : ∀ ref ∈ all (flow s noHistory), next.object ref = s.object ref)
    (nodes : next.nodes = s.nodes) (queue : next.default = s.default)
    (asked : reqs next.rm = reqs s.rm)
    (granted : allocds next.scd = allocds s.scd) : ready next = ready s := by
  have names : promised next = promised s := by
    unfold promised
    rw [granted]
    exact List.flatMap_congr fun ref member => by
      rw [object ref (by simp [all, places, flow, member])]
  have demands : (next.default.map fun session => demand (next.object session)) =
      s.default.map fun session => demand (s.object session) := by
    rw [queue]
    exact List.map_congr_left fun ref member => by
      rw [object ref (by simp [all, places, flow, member])]
  have demanded : ((reqs next.rm).map fun session => (demand (next.object session) : Int)) =
      (reqs s.rm).map fun session => (demand (s.object session) : Int) := by
    rw [asked]
    exact List.map_congr_left fun ref member => by
      rw [object ref (by simp [all, places, flow, member])]
  unfold ready spare
  rw [names, demands, demanded, nodes]

theorem length_filter_promise {free : List Node} {count : Nat} {names : List Name}
    (enough : (free.take count).length = count)
    (fresh : ∀ node ∈ free.take count, node.name ∉ before)
    (named : ∀ node ∈ free.take count, node.name ∈ names) :
    (free.filter (·.name ∉ before ++ names)).length + count ≤
      (free.filter (·.name ∉ before)).length := by
  have taken : (free.take count).filter (·.name ∉ before) = free.take count :=
    List.filter_eq_self.mpr fun node member => by simpa using fresh node member
  have gone : (free.take count).filter (·.name ∉ before ++ names) = [] :=
    List.filter_eq_nil_iff.mpr fun node member => by simp [named node member]
  have others : ((free.drop count).filter (·.name ∉ before ++ names)).length ≤
      ((free.drop count).filter (·.name ∉ before)).length := by
    simp only [← countP_eq_length_filter]
    exact countP_mono_left fun node _ absent => by simp_all
  calc (free.filter (·.name ∉ before ++ names)).length + count
      = ((free.take count ++ free.drop count).filter (·.name ∉ before ++ names)).length +
        count := by
        rw [take_append_drop]
    _ = ((free.drop count).filter (·.name ∉ before ++ names)).length + count := by
        rw [filter_append, gone, nil_append]
    _ ≤ count + ((free.drop count).filter (·.name ∉ before)).length := by omega
    _ = ((free.take count ++ free.drop count).filter (·.name ∉ before)).length := by
        rw [filter_append, taken, length_append, enough]
    _ = (free.filter (·.name ∉ before)).length := by rw [take_append_drop]

variable {rest : List ScdEvent} {session : Ref}

theorem ready_run (pending : s.scd = .allocd session :: rest)
    (listed : nodeList (s.object session).alloc = nodenames) :
    ready { s with
      scd := rest, rm := s.rm ++ [.active session], running,
      nodes := setScdState nodenames .alloc s.nodes } = ready s := by
  have names : promised s = nodenames ++ promised { s with scd := rest } := by
    simp [promised, pending, allocds, listed]
  have asked : reqs (s.rm ++ [.active session]) = reqs s.rm := by simp [reqs]
  have free :
      ((freeNodes (setScdState nodenames .alloc s.nodes)).filter
        (·.name ∉ promised { s with scd := rest })) =
      (freeNodes s.nodes).filter (·.name ∉ promised s) := by
    rw [freeNodes_alloc, filter_filter, names]
    exact filter_congr fun node _ => by simp [Bool.and_comm]
  have same : spare { s with
      scd := rest, rm := s.rm ++ [.active session], running,
      nodes := setScdState nodenames .alloc s.nodes } = spare s := by
    unfold spare
    rw [← free, ← asked]
    rfl
  unfold ready
  rw [same]

theorem grantNodes_demand :
    demand (grantNodes object session nodes ref) = demand (object ref) := by
  by_cases same : ref = session
  · subst same
    simp [grantNodes, demand]
  · simp [grantNodes, Function.update_of_ne same]

theorem spare_grant {rest : List RmEvent} (sound : Sound s)
    (pending : s.rm = .req session :: rest) (asked : 0 < (s.object session).alloc.min_nodes)
    (permitted : soundRequest s .rm = true)
    (chosen : chooseNodes (s.object session).alloc s.nodes = .ok nodes) :
    spare { s with rm := rest, scd := s.scd ++ [.allocd session],
                   object := grantNodes s.object session nodes } ≤ spare s := by
  obtain ⟨enough, keeps, plain, fresh⟩ := (soundRequest_iff pending asked).mp permitted
  obtain ⟨-, same⟩ := chooseNodes_sound enough keeps plain chosen
  have elsewhere : ∀ ref ∈ allocds s.scd, ref ≠ session := fun ref member =>
    sound.elsewhere pending ref (mem_append_right _ member)
  have names : promised { s with
      rm := rest, scd := s.scd ++ [.allocd session], object := grantNodes s.object session nodes } =
      promised s ++ nodeList ⟨(s.object session).alloc.id, (s.object session).alloc.min_nodes,
        nodes⟩ := by
    have old : ∀ ref ∈ allocds s.scd, nodeList (grantNodes s.object session nodes ref).alloc =
        nodeList (s.object ref).alloc := fun ref member => by
      simp [grantNodes, Function.update_of_ne (elsewhere ref member)]
    have granted : allocds (s.scd ++ [.allocd session]) = allocds s.scd ++ [session] := by
      simp [allocds]
    simp only [promised, granted, flatMap_append, List.flatMap_congr old]
    simp [grantNodes]
  have taken : ((freeNodes s.nodes).take (s.object session).alloc.min_nodes.toNat).length =
      (s.object session).alloc.min_nodes.toNat := by
    simp only [pickNodes, length_map] at enough
    omega
  have counted := length_filter_promise
    taken
    (fun node member => fresh node.name (mem_map_of_mem member))
    (fun node member => same.mem_iff.mpr (mem_map_of_mem member))
  have demanded : ((reqs s.rm).map fun session => (demand (s.object session) : Int)).sum =
      demand (s.object session) + ((reqs rest).map fun session =>
        (demand (s.object session) : Int)).sum := by
    simp [pending, reqs]
  simp only [spare, names, grantNodes_demand]
  have : demand (s.object session) = (s.object session).alloc.min_nodes.toNat := rfl
  omega

theorem ready_wait (pending : s.scd = .schedule :: rest)
    (short : ∀ session ∈ s.default.head?,
      (freeNodes s.nodes).length < (s.object session).alloc.min_nodes) :
    ready { s with scd := rest } ≤ rest.count .schedule := by
  have same : ready { s with scd := rest } = ready s :=
    ready_congr s _ (fun _ _ => rfl) rfl rfl rfl (by simp [pending, allocds])
  -- the head of the queue is too large, so nothing behind it counts either
  suffices none : ready s = 0 by omega
  unfold ready
  cases queue : s.default with
  | nil => rfl
  | cons session =>
    have tooMany := short session (by simp [queue])
    have bound := spare_le_free s
    rw [map_cons, startable, if_neg]
    simp only [demand]
    omega

/-- Sound requests so far, and enough scheduling passes. -/
structure Awake (s : State) : Prop where
  sound : Sound s
  enough : ready s ≤ wakeUps s

theorem Awake.schedule (awake : Awake s) (pending : s.scd = .schedule :: rest)
    (queued : s.default = session :: waiting) :
    ready { s with scd := rest, default := waiting, rm := s.rm ++ [.req session] } ≤
      rest.count .schedule := by
  have less : spare { s with scd := rest, default := waiting, rm := s.rm ++ [.req session] } =
      spare s - demand (s.object session) := by
    have names : promised { s with scd := rest, default := waiting, rm := s.rm ++ [.req session] } =
        promised s := by
      simp [promised, pending, allocds]
    unfold spare
    rw [names]
    simp [reqs]
    omega
  have before := awake.enough
  unfold ready at before ⊢
  rw [less]
  dsimp only
  simp only [queued, map_cons, startable] at before
  have counted : wakeUps s = rest.count .schedule + 1 := by simp [wakeUps, pending]
  -- the pass compares with all free nodes, so it may schedule a session that the spare nodes do not
  -- cover
  by_cases fits : (demand (s.object session) : Int) ≤ spare s
  · rw [if_pos fits] at before
    omega
  · rw [startable_negative (by omega)]
    exact Nat.zero_le _

theorem Awake.enqueue (awake : Awake s) (pending : s.scd = .init session :: rest) :
    ready { s with scd := rest ++ [.schedule], default := s.default ++ [session] } ≤
      (rest ++ [ScdEvent.schedule]).count .schedule := by
  have same :
      spare { s with scd := rest ++ [.schedule], default := s.default ++ [session] } = spare s := by
    have names : promised { s with scd := rest ++ [.schedule], default := s.default ++ [session] } =
        promised s := by
      simp [promised, pending, allocds]
    unfold spare
    rw [names]
  have before := awake.enough
  have counted : wakeUps s = rest.count .schedule := by simp [wakeUps, pending]
  have longer :=
    startable_append_one (s.default.map fun session => demand (s.object session)) (spare s)
    (demand (s.object session))
  unfold ready at before ⊢
  rw [same]
  rw [map_append, map_singleton]
  simp only [count_append, count_singleton_self]
  omega

theorem Awake.lose (awake : Awake s) {rest : List RmEvent} (pending : s.rm = .req session :: rest)
    (none : (s.object session).alloc.min_nodes ≤ 0) : ready { s with rm := rest } ≤ wakeUps s := by
  have nothing : demand (s.object session) = 0 := Int.toNat_of_nonpos none
  have same : spare { s with rm := rest } = spare s := by
    simp [spare, promised, pending, reqs, nothing]
  have before := awake.enough
  unfold ready at before ⊢
  rwa [same]

theorem Awake.cancel (awake : Awake s) {id : Nat} (pending : s.scd = .cancel id :: rest)
    (permitted : s.default.any (hasId s id) = true → s.default.length ≤ wakeUps s + 2) :
    ready { s with
        scd := rest ++ ((if s.hold.any (hasId s id) then [.schedule] else []) ++
          (if s.default.any (hasId s id) then [.schedule] else [])),
        rm := s.rm ++ (s.running.find? (hasId s id)).toList.map .kill,
        hold := s.hold.eraseP (hasId s id), default := s.default.eraseP (hasId s id) } ≤
      (rest ++ ((if s.hold.any (hasId s id) then [ScdEvent.schedule] else []) ++
        (if s.default.any (hasId s id) then [ScdEvent.schedule] else []))).count
          ScdEvent.schedule := by
  have granted :
      ∀ inHold inDefault : Bool, allocds (rest ++ ((if inHold then [ScdEvent.schedule] else []) ++
      (if inDefault then [.schedule] else []))) = allocds s.scd := by
    intro inHold inDefault
    cases inHold <;> cases inDefault <;> simp [pending, allocds]
  have asked : reqs (s.rm ++ (s.running.find? (hasId s id)).toList.map .kill) = reqs s.rm := by
    cases s.running.find? (hasId s id) <;> simp [reqs]
  have counted : wakeUps s = rest.count .schedule := by simp [wakeUps, pending]
  refine le_of_eq_of_le
    (ready_congr { s with default := s.default.eraseP (hasId s id) } _ (fun _ _ => rfl) rfl rfl
      asked (granted _ _)) ?_
  cases inDefault : s.default.any (hasId s id) with
  | true =>
    obtain ⟨ref, member, named⟩ := List.any_eq_true.mp inDefault
    have shorter := length_eraseP_of_mem member named
    have bound : ready { s with default := s.default.eraseP (hasId s id) } ≤
        (s.default.eraseP (hasId s id)).length := ready_le_length _
    have passes := permitted inDefault
    simp only [count_append, if_true, count_singleton_self]
    omega
  | false =>
    -- the queue is as before, so the balance is
    have unchanged : s.default.eraseP (hasId s id) = s.default :=
      eraseP_of_forall_not fun ref member => List.any_eq_false.mp inDefault ref member
    have before := awake.enough
    rw [unchanged, count_append]
    change ready s ≤ _
    omega

theorem Awake.step {next : State} {clusters : List Cluster} (awake : Awake s)
    (permitted : wakes s label = true) (effect : Effect clusters s label next) : Awake next := by
  have requests := soundRequest_of_wakes permitted
  refine ⟨awake.sound.step requests effect, ?_⟩
  have before := awake.enough
  -- nothing that counts changes, and no wake-up is used
  have idle : ∀ other : State, (∀ ref ∈ all (flow s noHistory), other.object ref = s.object ref) →
      other.nodes = s.nodes →
      other.default = s.default → reqs other.rm = reqs s.rm → allocds other.scd = allocds s.scd →
      wakeUps s ≤ wakeUps other → ready other ≤ wakeUps other := by
    intro other object nodes queue asked granted passes
    rw [ready_congr s other object nodes queue asked granted]
    exact Nat.le_trans before passes
  cases effect with
  | hold session rest pending =>
    exact idle _ (fun _ _ => rfl) rfl rfl rfl (by simp [pending, allocds])
      (by simp [wakeUps, pending])
  | enqueue session rest pending => exact awake.enqueue pending
  | wait rest pending intact short => exact ready_wait pending short
  | schedule session rest waiting pending intact queued =>
    exact awake.schedule pending queued
  | requeue session rest rm pending intact bad =>
    rw [awake.sound.usable_next pending] at bad
    cases bad
  | run session rest nodenames pending intact good extracted =>
    rw [ready_run pending (nodeList_eq good extracted)]
    simpa [wakeUps, pending] using before
  | linger session rest pending =>
    exact idle _ (fun _ _ => rfl) rfl rfl rfl (by simp [pending, allocds])
      (by simp [wakeUps, pending])
  | release session rest nodenames pending intact extracted =>
    have passes : s.default.length ≤ wakeUps s + 1 := by simpa [wakes, pending] using permitted
    refine (ready_le_length _).trans (le_of_le_of_eq passes ?_)
    simp [wakeUps, pending]
  | cancel id rest pending =>
    refine awake.cancel pending fun queued => ?_
    have absent : s.default.all (! hasId s id ·) = false := by simpa using queued
    simpa [wakes, pending, absent] using permitted
  | lose session rest pending none => exact awake.lose pending none
  | grant session rest nodes pending asked chosen =>
    have less := spare_grant awake.sound pending asked requests chosen
    have fewer : ready { s with
        rm := rest, scd := s.scd ++ [.allocd session],
        object := grantNodes s.object session nodes } ≤ ready s := by
      unfold ready
      simp only [grantNodes_demand]
      exact startable_mono less
    refine Nat.le_trans fewer (Nat.le_trans before ?_)
    simp [wakeUps]
  | launch session rest sent pending =>
    exact idle _ (fun _ _ => rfl) rfl rfl (by simp [pending, reqs]) rfl (Nat.le_refl _)
  | stall session rest pending =>
    exact idle _ (fun _ _ => rfl) rfl rfl (by simp [pending, reqs]) rfl (Nat.le_refl _)
  | kill session rest sent pending =>
    exact idle _ (fun _ _ => rfl) rfl rfl (by simp [pending, reqs]) rfl (Nat.le_refl _)
  | submit =>
    refine idle _ (fun ref member => ?_) rfl rfl rfl (by simp [allocds]) (by simp [wakeUps])
    exact Function.update_of_ne (Nat.ne_of_lt (awake.sound.known member)) _ _
  | report report =>
    cases up : raises report with
    | false => exact (ready_report clusters up s).trans before
    | true =>
      have passes : s.default.length ≤ wakeUps s := by simpa [wakes, up] using permitted
      exact (ready_le_length _).trans passes
  | refuse => exact before
  | askCancel => exact idle _ (fun _ _ => rfl) rfl rfl rfl (by simp [allocds]) (by simp [wakeUps])
  | checkIn => exact before
  | complete => exact idle _ (fun _ _ => rfl) rfl rfl rfl (by simp [allocds]) (by simp [wakeUps])

/-- In every run in which nodes change and sessions are cancelled only while enough passes are
pending, if no event is pending then the default queue is empty or its first session asks for more
nodes than are free. -/
theorem no_lost_wake_up (clusters : List Cluster) (s : State)
    (reached : Reached (scheduler clusters) (fun s label => wakes s label = true) s)
    (idle : s.scd = []) (resting : s.rm = []) :
    s.default = [] ∨ ∃ session, s.default.head? = some session ∧
      (freeNodes s.nodes).length < (s.object session).alloc.min_nodes := by
  have awake : Awake s := by
    refine reached.invariant Awake ?_ ?_ s
    · rintro _ ⟨nodes, rfl⟩
      exact ⟨Sound.start, Nat.le_refl _⟩
    · intro s label next awake permitted steps
      exact awake.step permitted (step_effect s steps)
  have none : ready s = 0 := by
    have enough := awake.enough
    simp only [wakeUps, idle, List.count_nil] at enough
    omega
  have free : spare s = (freeNodes s.nodes).length := by
    simp [spare, promised, idle, resting, reqs, allocds]
  cases queue : s.default with
  | nil => exact .inl rfl
  | cons session =>
    refine .inr ⟨session, rfl, ?_⟩
    by_contra fits
    have demanded : (demand (s.object session) : Int) ≤ spare s := by
      rw [demand]
      omega
    rw [ready, queue, List.map_cons, startable, if_pos demanded] at none
    cases none

/-- The only free node is allocated to the first session, and the second one waits. -/
theorem no_lost_wake_up_waiting :
    ∃ s, Reached (scheduler []) (fun s label => wakes s label = true) s ∧ s.scd = [] ∧ s.rm = [] ∧
      s.default = [1] ∧
      (s.default = [] ∨ ∃ session, s.default.head? = some session ∧
        (freeNodes s.nodes).length < (s.object session).alloc.min_nodes) := by
  obtain ⟨s, reached, seen⟩ := reached_seen (scheduler []) wakes (start twoNodes)
    [.report (.up (daemonName 1)), request 1, .scd, .scd, .rm, .scd, .rm, request 1, .scd, .scd]
    (fun s => (s.scd, s.rm, s.default)) ([], [], [1]) ⟨twoNodes, rfl⟩ (by decide)
  simp only [Prod.mk.injEq] at seen
  obtain ⟨idle, resting, queue⟩ := seen
  exact ⟨s, reached, idle, resting, queue, no_lost_wake_up [] s reached idle resting⟩

/-- A session waits for a node. The node comes up, and nothing is activated. -/
theorem node_up_wakes_nobody :
    ∃ s, Reachable (scheduler []) s ∧ s.scd = [] ∧ s.rm = [] ∧
      ¬ (s.default = [] ∨ ∃ session, s.default.head? = some session ∧
        (freeNodes s.nodes).length < (s.object session).alloc.min_nodes) := by
  obtain ⟨s, reached, seen⟩ := reached_seen (scheduler []) (fun _ _ => true) (start twoNodes)
    [request 1, .scd, .scd, .report (.up (daemonName 1))]
    (fun s => (s.scd, s.rm, s.default, (s.object 0).alloc.min_nodes, (freeNodes s.nodes).length))
      ([], [], [0], 1, 1)
    ⟨twoNodes, rfl⟩ (by decide)
  simp only [Prod.mk.injEq] at seen
  obtain ⟨idle, resting, queue, asked, free⟩ := seen
  refine ⟨s, reachable_of_reached reached, idle, resting, ?_⟩
  simp [queue, asked, free]

end Orcm.WakeUp
