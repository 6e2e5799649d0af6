import Orcm.BinomialTree

/-!
Runs of the binomial component. Every daemon computes its place in one tree that spans all daemons,
and messages between daemons arrive. With more than 2^30 daemons the masks are no longer `int`
values.
-/

namespace Orcm.BinomialRoutes

open CLibrary CInteger Routed ParentTree Delivery BinomialTree

variable {dim fuel : Nat}

section Peers

variable {State : Type} {num_procs : Nat} (cube : Cube num_procs dim) {rank : Nat}
  (visit : Nat → State → Run (Option Int × State))
include cube

theorem mask_shift (inside : bit < dim) : intShiftLeft (2 ^ bit) 1 = .ok (2 ^ (bit + 1)) := by
  have power : 2 ^ (bit + 1) ≤ 2 ^ 30 :=
    Nat.pow_le_pow_right (by decide) (by have := cube.small; omega)
  rw [intShiftLeft, Nat.pow_one, ← Nat.pow_succ, if_pos ⟨by decide, by omega⟩]

theorem peerLoop_all (motive : Nat → State → Prop)
    (step : ∀ place < dim - freeBit rank, ∀ state, motive place state →
      ∃ after, visitPeer num_procs visit (childOf rank place) state = .ok (none, after) ∧
        motive (place + 1) after)
    (turns place : Nat) (whole : place + turns = dim - freeBit rank) (state : State)
    (start : motive place state) :
    ∃ after, peerLoop num_procs rank visit turns (2 ^ (freeBit rank + place)) state = .ok
      (none, after) ∧
      motive (dim - freeBit rank) after := by
  induction turns generalizing place state with
  | zero => exact ⟨state, rfl, whole ▸ start⟩
  | succ turns ih =>
    obtain ⟨after, visited, kept⟩ := step place (by omega) state start
    rw [peerLoop, or_bit, visited, Run.ok_bind]
    simp only
    rw [mask_shift cube (by omega)]
    exact ih (place + 1) (by omega) after kept

theorem peerLoop_found (inside : hit < dim - freeBit rank)
    (before : ∀ place < hit, visitPeer num_procs visit (childOf rank place) state = .ok
      (none, state))
    (there : visitPeer num_procs visit (childOf rank hit) state = .ok (some found, after))
    (place : Nat) (whole : place + turns = dim - freeBit rank) (reached : place ≤ hit) :
    peerLoop num_procs rank visit turns (2 ^ (freeBit rank + place)) state = .ok
      (some found, after) := by
  induction turns generalizing place with
  | zero => omega
  | succ turns ih =>
    rw [peerLoop, or_bit]
    by_cases here : place = hit
    · rw [here, there]
      rfl
    · rw [before place (by omega), Run.ok_bind]
      simp only
      rw [mask_shift cube (by omega)]
      exact ih (place + 1) (by omega) (by omega)

theorem forPeers_eq (same : opalCubeDim num_procs = dim) (member : rank < num_procs)
    (state : State) :
    forPeers num_procs rank visit state =
      peerLoop num_procs rank visit (dim - freeBit rank) (2 ^ (freeBit rank + 0)) state := by
  obtain ⟨hibit, found, free⟩ := opalHibit_ok cube member
  have inside : freeBit rank ≤ dim := freeBit_le rank (Nat.lt_of_lt_of_le member cube.contains)
  have power : 2 ^ freeBit rank ≤ 2 ^ 30 :=
    Nat.pow_le_pow_right (by decide) (by have := cube.small; omega)
  have shifted : intShiftLeft 1 (freeBit rank) = .ok (2 ^ freeBit rank) := by
    rw [intShiftLeft, Nat.one_mul, if_pos ⟨by have := cube.small; omega, by omega⟩]
  rw [forPeers, same, found, Run.ok_bind]
  simp only [free]
  rw [shifted, Run.ok_bind, Nat.add_zero]

end Peers

section Search

variable {State : Type} {num_procs : Nat} {me : Nat} {visit : Int → State → Run State}
    {state after : State}

/-- What the search does at a rank: it finds the daemon there or below, and is without effect
elsewhere. -/
structure Searches (num_procs me : Nat) (visit : Int → State → Run State) (state after : State)
    (fuel rank : Nat) :
    Prop where
  here : me = rank → ∀ parent, binomialTreeWith num_procs me visit fuel rank parent state = .ok
    (parent, after)
  below : Below (· < num_procs) 0 parentOf rank me →
    ∀ parent, binomialTreeWith num_procs me visit fuel rank parent state = .ok
      ((parentOf me : Nat), after)
  elsewhere : ¬ (me = rank ∨ Below (· < num_procs) 0 parentOf rank me) →
    ∀ parent, binomialTreeWith num_procs me visit fuel rank parent state = .ok (-1, state)

def searchPeer (num_procs me : Int) (visit : Int → State → Run State) (fuel rank : Nat) :
    Nat → State → Run (Option Int × State) :=
  stopWhenFound fun peer state => binomialTreeWith num_procs me visit fuel peer rank state

theorem binomialTreeWith_apart (fuel rank : Nat) (apart : me ≠ rank) (parent : Int) :
    binomialTreeWith num_procs me visit (fuel + 1) rank parent state =
      (do
        let result ← forPeers num_procs rank (searchPeer num_procs me visit fuel rank) state
        pure (result.1.getD (-1), result.2)) := by
  rw [binomialTreeWith, if_neg (by omega)]
  rfl

theorem searchPeer_elsewhere
    (searches : peer < num_procs → Searches num_procs me visit state after fuel peer)
    (elsewhere : ¬ (peer < num_procs ∧ (me = peer ∨ Below (· < num_procs) 0 parentOf peer me))) :
    visitPeer num_procs (searchPeer num_procs me visit fuel rank) peer state = .ok
      (none, state) := by
  rw [visitPeer]
  by_cases member : peer < num_procs
  · rw [if_pos (by omega), searchPeer, stopWhenFound,
      (searches member).elsewhere fun there => elsewhere ⟨member, there⟩]
    rfl
  · rw [if_neg (by omega)]
    rfl

theorem searchPeer_there (member : childOf rank place < num_procs)
    (searches : Searches num_procs me visit state after fuel (childOf rank place))
    (above : me = childOf rank place ∨ Below (· < num_procs) 0 parentOf (childOf rank place) me) :
    visitPeer num_procs (searchPeer num_procs me visit fuel rank) (childOf rank place) state =
      .ok (some (parentOf me : Nat), after) := by
  have found : binomialTreeWith num_procs me visit fuel (childOf rank place) rank state = .ok
      ((parentOf me : Nat), after) := by
    rcases above with here | below
    · rw [searches.here here, here, parentOf_childOf]
    · exact searches.below below rank
  rw [visitPeer, if_pos (by omega), searchPeer, stopWhenFound, found]
  rfl

variable (cube : Cube num_procs dim) (same : opalCubeDim num_procs = dim)
include cube same

variable (visits : forPeers num_procs me (keepGoing visit) state = .ok (none, after))
include visits

theorem searches_step (member : rank < num_procs)
    (children : ∀ place, childOf rank place < num_procs →
      Searches num_procs me visit state after fuel (childOf rank place)) :
    Searches num_procs me visit state after (fuel + 1) rank := by
  have family := binomialFamily cube
  constructor
  · intro here parent
    rw [binomialTreeWith, if_pos (by omega), ← here, visits]
    rfl
  · intro below parent
    have apart : me ≠ rank :=
      fun equal => Nat.lt_irrefl _ (equal ▸ height_lt_of_below id family.rises rank me below)
    obtain ⟨child, edge, above⟩ := below_iff.mp below
    obtain ⟨childMember, hit, inside, rfl⟩ := (family.edge rank member child).mp edge
    -- the daemon is below no other child, so the search comes as far as this one
    have before : ∀ place < hit, visitPeer num_procs (searchPeer num_procs me visit fuel rank)
        (childOf rank place) state =
        .ok (none, state) := by
      intro place earlier
      refine searchPeer_elsewhere (children place) fun ⟨peer, also⟩ => ?_
      have otherEdge :=
        (family.edge rank member (childOf rank place)).mpr ⟨peer, place, by omega, rfl⟩
      have equal :=
        family.injective rank (child_unique id family.rises rank _ _ me otherEdge edge also above)
      omega
    have there := searchPeer_there childMember (children hit childMember) above
    rw [binomialTreeWith_apart fuel rank apart, forPeers_eq cube _ same member,
      peerLoop_found cube _ inside before there 0 (Nat.zero_add _) (Nat.zero_le _)]
    rfl
  · intro elsewhere parent
    have nowhere : ∀ place < dim - freeBit rank, ∀ current, current = state →
        ∃ next, visitPeer num_procs (searchPeer num_procs me visit fuel rank)
          (childOf rank place) current =
          .ok (none, next) ∧ next = state := by
      rintro place inside _ rfl
      refine ⟨_, searchPeer_elsewhere (children place) fun ⟨peer, above⟩ =>
        elsewhere (.inr ?_), rfl⟩
      exact below_iff.mpr ⟨_, (family.edge rank member _).mpr ⟨peer, place, inside, rfl⟩, above⟩
    obtain ⟨final, ran, rfl⟩ := peerLoop_all cube _ (fun _ current => current = state) nowhere
      (dim - freeBit rank) 0 (Nat.zero_add _) state rfl
    rw [binomialTreeWith_apart fuel rank (fun equal => elsewhere (.inl equal)),
      forPeers_eq cube _ same member, ran]
    rfl

theorem searches (fuel rank : Nat) (member : rank < num_procs) (enough : num_procs < fuel + rank) :
    Searches num_procs me visit state after fuel rank := by
  induction fuel generalizing rank with
  | zero => omega
  | succ fuel ih =>
    refine searches_step cube same visits member fun place childMember => ih _ childMember ?_
    have deeper : rank < childOf rank place := Nat.lt_add_of_pos_right (Nat.two_pow_pos _)
    omega

theorem search_from_root (fuel : Nat) (member : me < num_procs) (enough : num_procs < fuel) :
    ∃ parent : Nat, binomialTreeWith num_procs me visit fuel 0 0 state = .ok
      ((parent : Int), after) ∧
      parent < num_procs ∧ (me ≠ 0 → parent = parentOf me) := by
  have family := binomialFamily cube
  have found := searches cube same visits fuel 0 (by omega) (by omega)
  by_cases root : me = 0
  · exact ⟨0, found.here root 0, by omega, fun proper => absurd root proper⟩
  · have inside : ∀ vpid < num_procs, vpid ≠ 0 → parentOf vpid < num_procs :=
      fun vpid small proper => Nat.lt_trans (parentOf_lt proper) small
    rcases Relation.reflTransGen_iff_eq_or_transGen.mp
      (reached_of_height id family.rises inside me member) with equal | below
    · exact absurd equal root
    · exact ⟨parentOf me, found.below below 0, inside me member root, fun _ => rfl⟩

end Search

section Daemon

variable {num_procs : Nat} (small : num_procs ≤ 2 ^ 30)
include small

theorem recordRelatives_ok (fuel vpid : Nat) (member : vpid < num_procs)
    (enough : 2 * num_procs + 2 ≤ fuel + vpid) :
    Records num_procs parentOf (recordRelatives num_procs fuel vpid) vpid := by
  have cube := opalCubeDim_cube small
  induction fuel generalizing vpid with
  | zero => omega
  | succ fuel ih =>
    intro relatives room
    have step : ∀ place < opalCubeDim num_procs - freeBit vpid, ∀ state,
        Recorded num_procs parentOf (childOf vpid) relatives place state →
        ∃ after, visitPeer num_procs (keepGoing (recordPeer (recordRelatives num_procs fuel)))
          (childOf vpid place) state =
            .ok (none, after) ∧ Recorded num_procs parentOf (childOf vpid) relatives
              (place + 1) after := by
      intro place _ state recorded
      rw [visitPeer]
      by_cases peer : childOf vpid place < num_procs
      · have deeper : vpid < childOf vpid place := Nat.lt_add_of_pos_right (Nat.two_pow_pos _)
        obtain ⟨after, ran, kept⟩ := recordPeer_ok (by omega) peer (ih _ peer (by omega)) recorded
        rw [if_pos (by omega), keepGoing, ran]
        exact ⟨after, rfl, kept⟩
      · rw [if_neg (by omega)]
        exact ⟨state, rfl, recorded_skip peer recorded⟩
    obtain ⟨after, ran, recorded⟩ :=
      peerLoop_all cube _ _ step _ 0 (Nat.zero_add _) relatives ⟨room, by simp⟩
    rw [← forPeers_eq cube _ rfl member] at ran
    obtain ⟨_, found, -⟩ := search_from_root cube rfl ran fuel member (by omega)
    refine ⟨after, by rw [recordRelatives, found]; rfl, recorded.room, ?_⟩
    exact recorded_all (binomialFamily cube) member recorded

theorem updateRoutingPlan_ok (member : vpid < num_procs) (enough : 2 * num_procs + 2 ≤ fuel) :
    ∃ plan, updateRoutingPlan num_procs fuel vpid = .ok plan ∧
      (vpid ≠ 0 → plan.parent = parentOf vpid) ∧
      Listed num_procs parentOf (childOf vpid) (opalCubeDim num_procs - freeBit vpid)
        plan.children := by
  have cube := opalCubeDim_cube small
  have step : ∀ place < opalCubeDim num_procs - freeBit vpid, ∀ children,
      Listed num_procs parentOf (childOf vpid) place children →
      ∃ after, visitPeer num_procs (keepGoing (listPeer (recordRelatives num_procs fuel) num_procs))
        (childOf vpid place)
          children = .ok (none, after) ∧ Listed num_procs parentOf (childOf vpid)
            (place + 1) after := by
    intro place _ children listed
    rw [visitPeer]
    by_cases peer : childOf vpid place < num_procs
    · obtain ⟨after, ran, kept⟩ := listPeer_ok (by omega) peer
        (recordRelatives_ok small fuel _ peer (by omega)) listed
      rw [if_pos (by omega), keepGoing, ran]
      exact ⟨after, rfl, kept⟩
    · rw [if_neg (by omega)]
      exact ⟨children, rfl, listed_skip peer listed⟩
  obtain ⟨children, ran, listed⟩ :=
    peerLoop_all cube _ _ step _ 0 (Nat.zero_add _) [] ⟨rfl, by simp, by simp⟩
  rw [← forPeers_eq cube _ rfl member] at ran
  obtain ⟨parent, found, parentMember, parentEq⟩ :=
    search_from_root cube rfl ran fuel member (by omega)
  refine ⟨⟨parent, children⟩, ?_, parentEq, listed⟩
  simp only [updateRoutingPlan]
  rw [toInt_natCast (by omega), toInt_natCast (by omega), found, Run.ok_bind,
    toVpid_natCast (by omega)]
  rfl

end Daemon

/-- The answer of a daemon with its plan, for a message to another daemon of the job. -/
def NextHop (daemons : Daemons) (plan : Nat → Plan) (target vpid via : Nat) : Prop :=
  getRoute (plan vpid).children (daemons.process vpid (plan vpid).parent) ⟨daemons.jobid, target⟩ =
    .ok ⟨daemons.jobid, via⟩

/-- Every daemon computes its plan, the plans are those of one tree, and a message between any two
daemons arrives without passing one twice. -/
def BuildsTree (daemons : Daemons) (num_procs : Nat) : Prop :=
  ∃ (fuel : Nat) (plan : Nat → Plan),
    (∀ vpid < num_procs, updateRoutingPlan num_procs fuel vpid = .ok (plan vpid)) ∧
      ExactPlans num_procs plan ∧
    ∀ source < num_procs, ∀ target < num_procs, ∃ path,
      Route (NextHop daemons plan target) target source path ∧
      path.Nodup ∧ ∀ vpid ∈ path, vpid < num_procs

variable {num_procs : Nat}

theorem buildsTree_of_small (some : 1 ≤ num_procs) (small : num_procs ≤ 2 ^ 30) :
    BuildsTree daemons num_procs := by
  have family := binomialFamily (opalCubeDim_cube small)
  obtain ⟨plan, planned⟩ := plans_of_each fun vpid member =>
    updateRoutingPlan_ok small member (Nat.le_refl _)
  have exact := exactPlans_of_family family some (fun vpid member => (planned vpid member).2.1)
    fun vpid member => (planned vpid member).2.2
  have rises : ∀ vpid < num_procs, vpid ≠ 0 → (plan vpid).parent < vpid := fun vpid member proper =>
    (planned vpid member).2.1 proper ▸ parentOf_lt proper
  refine ⟨_, plan, fun vpid member => (planned vpid member).1, exact,
    fun source sourceMember target member => ?_⟩
  refine plans_route exact daemons (by omega) rises
    (fun vpid daemon => searchChildren (daemons.process vpid (plan vpid).parent) daemon
      (plan vpid).children)
    (fun vpid inside daemon daemonMember _ _ => ?_) (fun _ => nameInvalid) source target
      sourceMember member
  exact searchChildren_hop exact daemons vpid daemon inside (by omega) daemonMember
    (planned vpid inside).2.2.room

/-- Above 2^30 the cube has 31 dimensions, and its size is not an `int`. -/
theorem opalHibit_overflow (large : 2 ^ 30 < num_procs) (fits : num_procs ≤ 2147483647) :
    opalHibit rank (opalCubeDim num_procs) = .error .undefined := by
  have proper : num_procs - 1 ≠ 0 := by omega
  have bit : (num_procs - 1).log2 = 30 := by
    rw [Nat.log2_eq_iff proper]
    omega
  have dim : opalCubeDim num_procs = 31 := by
    rw [opalCubeDim, if_neg (by omega), show ((num_procs : Int) - 1).toNat = num_procs - 1 by omega,
      builtinClz, bit]
  rw [dim]
  rfl

theorem forPeers_overflow (large : 2 ^ 30 < num_procs)
    (fits : num_procs ≤ 2147483647) (visit : Nat → State → Run (Option Int × State))
    (state : State) :
    forPeers num_procs rank visit state = .error .undefined := by
  rw [forPeers, opalHibit_overflow large fits]
  rfl

theorem no_plan_of_overflow (large : 2 ^ 30 < num_procs) (fits : num_procs ≤ 2147483647) :
    updateRoutingPlan num_procs fuel 0 ≠ .ok plan := by
  intro computed
  simp only [updateRoutingPlan] at computed
  rw [toInt_natCast fits] at computed
  cases fuel with
  | zero => cases computed
  | succ =>
    rw [binomialTreeWith, forPeers_overflow large fits] at computed
    cases computed

/-- A number of daemons that is negative as an `int` leaves the second one without a parent. -/
theorem parent_of_negative (large : 2147483647 < num_procs) (inType : num_procs < 4294967296)
    (computed : updateRoutingPlan num_procs fuel 1 = .ok plan) : plan.parent = 4294967295 := by
  have negative : toInt num_procs ≤ 1 := by
    rw [toInt, Int.bmod_def]
    split <;> omega
  have none : ∀ (visit : Nat → List Child → Run (Option Int × List Child)),
      forPeers (toInt num_procs) 0 visit [] = .ok (none, []) := by
    intro visit
    rw [forPeers, opalCubeDim, if_pos negative]
    rfl
  have apart : toInt ((1 : Nat) : Int) ≠ ((0 : Nat) : Int) := by decide
  simp only [updateRoutingPlan] at computed
  cases fuel with
  | zero => cases computed
  | succ =>
    rw [binomialTreeWith, if_neg apart, none] at computed
    cases computed
    rfl

/-- The daemons build one tree and deliver all messages exactly when there are at most 2^30 of
them. -/
theorem binomial_tree_iff (daemons : Daemons) (num_procs : Nat) (some : 1 ≤ num_procs)
    (inType : num_procs < 4294967296) :
    BuildsTree daemons num_procs ↔ num_procs ≤ 2 ^ 30 := by
  refine ⟨fun ⟨fuel, plan, computed, exact, _⟩ => ?_, buildsTree_of_small some⟩
  by_contra large
  by_cases fits : num_procs ≤ 2147483647
  · exact no_plan_of_overflow (by omega) fits (computed 0 some)
  · have parent := parent_of_negative (by omega) inType (computed 1 (by omega))
    have member : (plan 1).parent < num_procs := exact.tree.parent_member 1 (by omega) (by decide)
    omega

theorem binomial_tree_six : (1 ≤ 6 ∧ 6 < 4294967296) ∧ BuildsTree plainDaemons 6 :=
  ⟨by decide, (binomial_tree_iff plainDaemons 6 (by decide) (by decide)).mpr (by decide)⟩

/-- With one daemon more than 2^30 the plan of the first one is undefined. -/
theorem binomial_tree_overflows : updateRoutingPlan 1073741825 1 0 = .error .undefined := by
  decide +kernel

end Orcm.BinomialRoutes
