import Orcm.OpalBitmap
import Orcm.ParentTree

/-!
What the routing components of `orte/mca/routed` have in common: names, routing plans, and the part
of `get_route` that does not depend on the shape of the network.
-/

namespace Orcm.Routed

open CLibrary CInteger OpalBitmap ParentTree Delivery List

/-- `orte_process_name_t` -/
structure Name where
  jobid : Nat
  vpid : Nat
  deriving DecidableEq

/-- `ORTE_JOBID_INVALID` and `ORTE_VPID_INVALID` -/
def invalidId : Nat := 4294967295

/-- `ORTE_JOBID_WILDCARD` and `ORTE_VPID_WILDCARD` -/
def wildcardId : Nat := 4294967294

def nameInvalid : Name := ⟨invalidId, invalidId⟩

/-- `opal_dss_compare_name` finds no difference: a field that is a wildcard on either side is
ignored. -/
def compareName (left right : Name) : Bool :=
  let sameField := fun one other => one = wildcardId || other = wildcardId || one = other
  sameField left.jobid right.jobid && sameField left.vpid right.vpid

/-- `ORTE_JOB_FAMILY` -/
def jobFamily (jobid : Nat) : Nat := jobid / 65536 % 65536

/-- `ORTE_HNP_NAME_FROM_JOB` -/
def hnpNameFromJob (jobid : Nat) : Name := ⟨jobid / 65536 * 65536, 0⟩

/-- `orte_routed_jobfam_t` -/
structure JobFam where
  job_family : Nat
  route : Name

/-- `orte_routed_tree_t` -/
structure Child where
  vpid : Nat
  relatives : Bitmap
  deriving DecidableEq

structure Plan where
  parent : Nat
  children : List Child
  deriving DecidableEq

/-- What `get_route` reads of the process that calls it. -/
structure Process where
  routing_is_enabled : Bool
  is_app : Bool
  is_tool : Bool
  is_daemon : Bool
  my_name : Name
  my_daemon : Name
  my_hnp : Name
  my_parent : Name
  hnp_direct : Bool
  static_ports : Bool
  jobfams : List (Option JobFam)
  /-- `orte_get_proc_daemon_vpid` -/
  daemonVpid : Name → Nat

def familyRoute (jobfams : List (Option JobFam)) (jfamily : Nat) : Name :=
  match jobfams.reduceOption.find? fun jfam => jfam.job_family = jfamily with
  | some jfam => jfam.route
  | none => nameInvalid

/-- `get_route` up to the search for the daemon that hosts the target; `unknown` is the answer when
no daemon is known to host it. -/
def getRouteWith (unknown : Name) (search : Nat → Run Name) (me : Process) (target : Name) :
    Run Name :=
  if target.jobid = invalidId ∨ target.vpid = invalidId then pure nameInvalid
  else if compareName me.my_name target then pure target
  else if me.is_app then pure me.my_daemon
  else if me.is_tool then
    pure (if jobFamily target.jobid = jobFamily me.my_name.jobid then target
      else hnpNameFromJob target.jobid)
  else if jobFamily target.jobid ≠ jobFamily me.my_name.jobid then
    pure (if me.is_daemon then me.my_hnp else familyRoute me.jobfams (jobFamily target.jobid))
  else if me.my_hnp = target then
    pure (if !me.hnp_direct || me.static_ports then me.my_parent else me.my_hnp)
  else
    let vpid := me.daemonVpid target
    if vpid = invalidId then pure unknown
    else if me.my_name.vpid = vpid then pure target
    else search vpid

/-- The loop of `get_route` over the direct children: the child itself, or the child that the daemon
is below, and the parent when there is none. -/
def searchChildren (me : Process) (vpid : Nat) : List Child → Run Name
  | [] => pure ⟨me.my_name.jobid, me.my_parent.vpid⟩
  | child :: rest => do
      if child.vpid = vpid then pure ⟨me.my_name.jobid, vpid⟩
      else if ← opalBitmapIsSetBit child.relatives (toInt vpid) then
        pure ⟨me.my_name.jobid, child.vpid⟩
      else searchChildren me vpid rest

/-- A bit that cannot be set is only reported. -/
def setRelation (relatives : Bitmap) (peer : Int) : Run Bitmap :=
  match opalBitmapSetBit relatives peer with
  | .ok relatives => pure relatives
  | .error (.error _) => pure relatives
  | .error .undefined => .error .undefined

/-- The bit of the peer is set before the search for its own relatives. -/
def recordPeer (search : Int → Bitmap → Run Bitmap) (peer : Int) (relatives : Bitmap) :
    Run Bitmap := do
  let relatives ← setRelation relatives peer
  search peer relatives

/-- The result of `opal_bitmap_init` is not looked at. -/
def initRelatives (num_procs : Int) : Bitmap :=
  match opalBitmapInit opalBitmapConstruct num_procs with
  | .ok relatives => relatives
  | .error _ => opalBitmapConstruct

def listPeer (search : Int → Bitmap → Run Bitmap) (num_procs peer : Int) (children : List Child) :
    Run (List Child) := do
  let relatives ← search peer (initRelatives num_procs)
  pure (children ++ [⟨toVpid peer, relatives⟩])

/-- What is known about the daemons besides their routing plans. Every daemon hosts itself. -/
structure Daemons where
  jobid : Nat
  valid : jobid < wildcardId
  hnp_direct : Nat → Bool
  static_ports : Bool
  jobfams : Nat → List (Option JobFam)
  daemonVpid : Name → Nat
  own : ∀ vpid, daemonVpid ⟨jobid, vpid⟩ = vpid

def plainDaemons : Daemons where
  jobid := 65536
  valid := by decide
  hnp_direct _ := true
  static_ports := false
  jobfams _ := []
  daemonVpid name := name.vpid
  own _ := rfl

/-- The daemon with the given identifier; the first one is the HNP. -/
def Daemons.process (daemons : Daemons) (vpid parent : Nat) : Process where
  routing_is_enabled := true
  is_app := false
  is_tool := false
  is_daemon := decide (vpid ≠ 0)
  my_name := ⟨daemons.jobid, vpid⟩
  my_daemon := ⟨daemons.jobid, vpid⟩
  my_hnp := ⟨daemons.jobid, 0⟩
  my_parent := ⟨daemons.jobid, parent⟩
  hnp_direct := daemons.hnp_direct vpid
  static_ports := daemons.static_ports
  jobfams := daemons.jobfams vpid
  daemonVpid := daemons.daemonVpid

theorem getRouteWith_daemon (daemons : Daemons) (parent : Nat) (unknown : Name)
    (search : Nat → Run Name)
    (apart : vpid ≠ target) (small : vpid < wildcardId) (targetSmall : target < wildcardId) :
    getRouteWith unknown search (daemons.process vpid parent) ⟨daemons.jobid, target⟩ =
      if target = 0 then
        pure (if !daemons.hnp_direct vpid || daemons.static_ports then ⟨daemons.jobid, parent⟩
          else ⟨daemons.jobid, 0⟩)
      else search target := by
  have job := daemons.valid
  have known : ¬ (daemons.jobid = invalidId ∨ target = invalidId) := by
    simp only [wildcardId, invalidId] at *
    omega
  have other : compareName ⟨daemons.jobid, vpid⟩ ⟨daemons.jobid, target⟩ = false := by
    simp only [compareName, Bool.and_eq_false_iff, Bool.or_eq_false_iff, decide_eq_false_iff_not]
    exact .inr ⟨⟨Nat.ne_of_lt small, Nat.ne_of_lt targetSmall⟩, apart⟩
  simp only [getRouteWith, Daemons.process, if_neg known, other, Bool.false_eq_true, if_false,
    ne_eq, not_true_eq_false, Name.mk.injEq, true_and, daemons.own, if_neg apart, eq_comm (a := 0)]
  by_cases hnp : target = 0
  · rw [if_pos hnp, if_pos hnp]
    rfl
  · rw [if_neg hnp, if_neg hnp, if_neg fun same => known (.inr same)]

/-- The plans of the daemons are those of one tree, and each bitmap holds exactly the daemons below
its child. -/
structure ExactPlans (num_procs : Nat) (plan : Nat → Plan) : Prop where
  tree : SpanningTree (· < num_procs) 0 (fun vpid => (plan vpid).parent)
    (fun vpid => (plan vpid).children.map Child.vpid)
  relatives : ∀ vpid < num_procs, ∀ child ∈ (plan vpid).children, ∀ daemon,
    child.relatives.Holds daemon ↔
      Below (· < num_procs) 0 (fun vpid => (plan vpid).parent) child.vpid daemon

theorem plans_of_each {planned : Nat → Plan → Prop}
    (each : ∀ vpid < num_procs, ∃ plan, planned vpid plan) :
    ∃ plan : Nat → Plan, ∀ vpid < num_procs, planned vpid (plan vpid) := by
  have : Nonempty Plan := ⟨⟨0, []⟩⟩
  choose! plan holds using each
  exact ⟨plan, holds⟩

/-- A numbering of the children of every daemon, with parents that have smaller numbers. -/
structure Family (num_procs : Nat) (parent : Nat → Nat) (child : Nat → Nat → Nat)
    (places : Nat → Nat) : Prop where
  rises : ∀ vpid < num_procs, vpid ≠ 0 → parent vpid < vpid
  edge : ∀ vpid < num_procs, ∀ other, Edge (· < num_procs) 0 parent vpid other ↔
    other < num_procs ∧ ∃ place < places vpid, child vpid place = other
  injective : ∀ vpid, Function.Injective (child vpid)

section Families

variable {num_procs : Nat} {parent : Nat → Nat} {child : Nat → Nat → Nat} {places : Nat → Nat}

/-- After some of the places, the daemons at and below the children there have been recorded. -/
structure Recorded (num_procs : Nat) (parent child : Nat → Nat) (relatives : Bitmap) (places : Nat)
    (state : Bitmap) :
    Prop where
  room : state.Room num_procs
  holds : ∀ daemon, state.Holds daemon ↔ relatives.Holds daemon ∨
    ∃ place < places, child place < num_procs ∧
      (daemon = child place ∨ Below (· < num_procs) 0 parent (child place) daemon)

/-- The search for the relatives of a daemon records all daemons below it. -/
def Records (num_procs : Nat) (parent : Nat → Nat) (search : Bitmap → Run Bitmap)
    (vpid : Nat) : Prop :=
  ∀ relatives, relatives.Room num_procs → ∃ after, search relatives = .ok after ∧
    after.Room num_procs ∧
    ∀ daemon, after.Holds daemon ↔ relatives.Holds daemon ∨
      Below (· < num_procs) 0 parent vpid daemon

variable {relatives : Bitmap}

theorem setRelation_ok (small : num_procs ≤ 2147483647) (room : relatives.Room num_procs)
    (member : peer < num_procs) :
    ∃ after, setRelation relatives peer = .ok after ∧ after.Room num_procs ∧
      ∀ other, after.Holds other ↔ other = peer ∨ relatives.Holds other := by
  obtain ⟨after, set, kept, holds⟩ := opalBitmapSetBit_room room member small
  refine ⟨after, ?_, kept, holds⟩
  rw [setRelation, set]
  rfl

variable {place : Nat}

theorem recordPeer_ok (small : num_procs ≤ 2147483647) {child : Nat → Nat}
    (member : child place < num_procs)
    (records : Records num_procs parent (search (child place)) (child place))
    (recorded : Recorded num_procs parent child relatives place state) :
    ∃ after, recordPeer search (child place) state = .ok after ∧
      Recorded num_procs parent child relatives (place + 1) after := by
  obtain ⟨marked, set, markedRoom, markedHolds⟩ := setRelation_ok small recorded.room member
  obtain ⟨after, ran, room, holds⟩ := records marked markedRoom
  rw [recordPeer, set]
  refine ⟨after, ran, room, fun daemon => ?_⟩
  rw [holds, markedHolds, recorded.holds, Nat.exists_lt_succ_right]
  simp [member, true_and, or_assoc, or_left_comm]

theorem recorded_skip {child : Nat → Nat} (outside : ¬ child place < num_procs)
    (recorded : Recorded num_procs parent child relatives place state) :
    Recorded num_procs parent child relatives (place + 1) state := by
  refine ⟨recorded.room, fun daemon => ?_⟩
  rw [recorded.holds, Nat.exists_lt_succ_right]
  simp [outside]

theorem recorded_all (family : Family num_procs parent child places) (member : vpid < num_procs)
    (recorded : Recorded num_procs parent (child vpid) relatives (places vpid) state)
    (daemon : Nat) :
    state.Holds daemon ↔ relatives.Holds daemon ∨ Below (· < num_procs) 0 parent vpid daemon := by
  rw [recorded.holds, below_iff]
  refine or_congr Iff.rfl ?_
  simp only [family.edge vpid member]
  constructor
  · rintro ⟨place, inside, childMember, above⟩
    exact ⟨_, ⟨childMember, place, inside, rfl⟩, above⟩
  · rintro ⟨_, ⟨childMember, place, inside, rfl⟩, above⟩
    exact ⟨place, inside, childMember, above⟩

/-- After some of the places, the children there have been listed. -/
structure Listed (num_procs : Nat) (parent child : Nat → Nat) (places : Nat)
    (children : List Child) : Prop where
  vpids : children.map Child.vpid = ((List.range places).map child).filter (· < num_procs)
  room : ∀ child ∈ children, child.relatives.Room num_procs
  holds : ∀ child ∈ children, ∀ daemon,
    child.relatives.Holds daemon ↔ Below (· < num_procs) 0 parent child.vpid daemon

theorem listPeer_ok (small : num_procs ≤ 2147483647) {child : Nat → Nat}
    (member : child place < num_procs)
    (records : Records num_procs parent (search (child place)) (child place))
    (listed : Listed num_procs parent child place children) :
    ∃ after, listPeer search num_procs (child place) children = .ok after ∧
      Listed num_procs parent child (place + 1) after := by
  obtain ⟨fresh, init, room, empty⟩ := opalBitmapInit_construct num_procs (by omega) small
  obtain ⟨relatives, ran, relativesRoom, holds⟩ := records fresh room
  have converted : toVpid (child place) = child place := toVpid_natCast (by omega)
  rw [listPeer, initRelatives, init, ran, converted]
  refine ⟨_, rfl, ?_, ?_, ?_⟩
  · rw [map_append, listed.vpids, range_succ, map_append, filter_append]
    simp [member]
  · simpa [or_imp, forall_and] using ⟨listed.room, relativesRoom⟩
  · simp only [mem_append, mem_singleton, or_imp, forall_and, forall_eq]
    exact ⟨listed.holds, fun daemon => by rw [holds]; simp [empty]⟩

theorem listed_skip {child : Nat → Nat} (outside : ¬ child place < num_procs)
    (listed : Listed num_procs parent child place children) :
    Listed num_procs parent child (place + 1) children := by
  refine ⟨?_, listed.room, listed.holds⟩
  rw [listed.vpids, range_succ]
  simp [outside]

theorem exactPlans_of_family (family : Family num_procs parent child places) (some : 0 < num_procs)
    (parents : ∀ vpid < num_procs, vpid ≠ 0 → (plan vpid).parent = parent vpid)
    (listed : ∀ vpid < num_procs, Listed num_procs parent (child vpid) (places vpid)
      (plan vpid).children) :
    ExactPlans num_procs plan := by
  have rises : ∀ vpid < num_procs, vpid ≠ 0 → (plan vpid).parent < vpid := fun vpid member proper =>
    parents vpid member proper ▸ family.rises vpid member proper
  have inside : ∀ vpid < num_procs, vpid ≠ 0 → (plan vpid).parent < num_procs :=
    fun vpid member proper => Nat.lt_trans (rises vpid member proper) member
  have edges :
      Edge (· < num_procs) 0 (fun vpid => (plan vpid).parent) = Edge (· < num_procs) 0 parent :=
    edge_congr parents
  have children : ∀ vpid < num_procs, ∀ other, other ∈ (plan vpid).children.map Child.vpid ↔
      Edge (· < num_procs) 0 parent vpid other := by
    intro vpid member other
    rw [(listed vpid member).vpids, family.edge vpid member, mem_filter,
      decide_eq_true_eq, and_comm]
    simp
  refine ⟨⟨some, inside, ?_, ?_, reached_of_height id rises inside⟩, ?_⟩
  · intro vpid member proper
    refine count_eq_one_of_mem ?_ ((children _ (inside vpid member proper) vpid).mpr ?_)
    · rw [(listed _ (inside vpid member proper)).vpids]
      exact (List.nodup_range.map (family.injective _)).filter _
    · rw [parents vpid member proper]
      exact ⟨member, proper, rfl⟩
  · intro vpid member other present
    rw [edges]
    exact (children vpid member other).mp present
  · intro vpid member other present daemon
    rw [Below, edges]
    exact (listed vpid member).holds other present daemon

end Families

variable {num_procs : Nat} {plan : Nat → Plan}

theorem searchChildren_hop (exact : ExactPlans num_procs plan) (daemons : Daemons)
    (vpid target : Nat)
    (member : vpid < num_procs) (small : num_procs ≤ 2147483584) (targetMember : target < num_procs)
    (room : ∀ child ∈ (plan vpid).children, child.relatives.Room num_procs) :
    ∃ via, searchChildren (daemons.process vpid (plan vpid).parent) target (plan vpid).children =
        .ok ⟨daemons.jobid, via⟩ ∧
      Hop (· < num_procs) 0 (fun vpid => (plan vpid).parent) target vpid via := by
  have edges := exact.tree.child vpid member
  have converted : toInt target = target := toInt_natCast (by omega)
  -- no child that has been looked at has the target below it
  suffices search : ∀ children seen, (plan vpid).children = seen ++ children →
      (∀ child ∈ seen, ¬ (target = child.vpid ∨
        Below (· < num_procs) 0 (fun vpid => (plan vpid).parent) child.vpid target)) →
      ∃ via, searchChildren (daemons.process vpid (plan vpid).parent) target children = .ok
        ⟨daemons.jobid, via⟩ ∧
        Hop (· < num_procs) 0 (fun vpid => (plan vpid).parent) target vpid via from
    search _ [] rfl (by simp)
  intro children
  induction children with
  | nil =>
    intro seen whole none
    rw [append_nil] at whole
    refine ⟨_, rfl, .up fun below => ?_⟩
    obtain ⟨next, edge, above⟩ := below_iff.mp below
    have listed := exact.tree.listed next edge.1 edge.2.1
    rw [show (plan next).parent = vpid from edge.2.2] at listed
    obtain ⟨child, present, rfl⟩ := List.mem_map.mp (List.count_pos_iff.mp (by rw [listed]; decide))
    exact none child (whole ▸ present) above
  | cons child rest ih =>
    intro seen whole none
    have present : child ∈ (plan vpid).children := by simp [whole]
    rw [searchChildren]
    by_cases itself : child.vpid = target
    · rw [if_pos itself]
      exact ⟨target, rfl, .direct⟩
    · rw [if_neg itself]
      obtain ⟨answer, queried, holds⟩ :=
        opalBitmapIsSetBit_room child.relatives num_procs target (room child present) small
      rw [exact.relatives vpid member child present] at holds
      rw [converted, queried]
      cases answer with
      | true =>
        exact ⟨child.vpid, rfl, .down child.vpid (edges _ (mem_map_of_mem present)) (holds.mp rfl)⟩
      | false =>
        refine ih (seen ++ [child]) (by simp [whole]) fun other looked => ?_
        rcases List.mem_append.mp looked with earlier | here
        · exact none other earlier
        · rw [List.mem_singleton.mp here]
          rintro (same | below)
          · exact itself same.symm
          · exact absurd (holds.mpr below) (by decide)

theorem plans_route (exact : ExactPlans num_procs plan) (daemons : Daemons)
    (small : num_procs ≤ 2147483647)
    (rises : ∀ vpid < num_procs, vpid ≠ 0 → (plan vpid).parent < vpid)
    (search : Nat → Nat → Run Name)
    (hops : ∀ vpid < num_procs, ∀ target < num_procs, vpid ≠ target → target ≠ 0 →
      ∃ via, search vpid target = .ok ⟨daemons.jobid, via⟩ ∧
        Hop (· < num_procs) 0 (fun vpid => (plan vpid).parent) target vpid via)
    (unknown : Nat → Name) (source target : Nat) (sourceMember : source < num_procs)
    (targetMember : target < num_procs) :
    ∃ path, Route (fun vpid via =>
        getRouteWith (unknown vpid) (search vpid) (daemons.process vpid (plan vpid).parent)
          ⟨daemons.jobid, target⟩ =
          .ok ⟨daemons.jobid, via⟩) target source path ∧
      path.Nodup ∧ ∀ vpid ∈ path, vpid < num_procs := by
  refine tree_route id rises exact.tree.parent_member targetMember
    (fun vpid member away => ?_) sourceMember
  rw [getRouteWith_daemon daemons _ _ _ away (by simp only [wildcardId]; omega)
    (by simp only [wildcardId]; omega)]
  by_cases hnp : target = 0
  · rw [if_pos hnp]
    split
    · refine ⟨_, rfl, .up fun below => ?_⟩
      exact (below_member vpid target below).2 hnp
    · exact ⟨target, by rw [hnp]; rfl, .direct⟩
  · rw [if_neg hnp]
    exact hops vpid member target targetMember away hnp

end Orcm.Routed
