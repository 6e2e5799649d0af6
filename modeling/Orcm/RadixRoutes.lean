import Orcm.RadixTree

/-!
Runs of the radix component. As long as no `int` overflows, every daemon computes its place in one
tree that spans all daemons. The largest daemon decides: its children would stand furthest behind.
-/

namespace Orcm.RadixRoutes

open CLibrary CInteger OpalBitmap Routed Delivery RadixTree

/-- The last peer that the largest daemon computes is still an `int`. -/
def InRange (radix num_procs : Nat) : Prop :=
  ∀ level, total radix level < num_procs → num_procs + (radix + 1) * radix ^ level ≤ 2147483648

def Fits (radix vpid : Nat) : Prop := vpid + (radix + 1) * radix ^ levelOf radix vpid ≤ 2147483647

variable {vpid turns level : Nat}

theorem fits_of_inRange {num_procs : Nat} (inRange : InRange radix num_procs)
    (member : vpid < num_procs) :
    Fits radix vpid := by
  have := inRange (levelOf radix vpid) (Nat.lt_of_le_of_lt (total_levelOf_le radix vpid) member)
  rw [Fits]
  omega

variable {radix : Nat}

theorem levelLoop_ok (positive : 0 < radix) (fits : Fits radix vpid)
    (low : level ≤ levelOf radix vpid) (enough : levelOf radix vpid < fuel + level) :
    levelLoop radix vpid fuel (total radix (level + 1) : Nat) (radix ^ level : Nat) =
      .ok ((total radix (levelOf radix vpid + 1) : Nat), (radix ^ levelOf radix vpid : Nat)) := by
  have bound :
      vpid + (radix * radix ^ levelOf radix vpid + radix ^ levelOf radix vpid) ≤ 2147483647 := by
    rwa [Fits, Nat.add_mul, Nat.one_mul] at fits
  have width : 0 < radix * radix ^ levelOf radix vpid := Nat.mul_pos positive (Nat.pow_pos positive)
  induction fuel generalizing level with
  | zero => omega
  | succ fuel ih =>
    rw [levelLoop, show (1 : Int) = ((1 : Nat) : Int) from rfl, intAdd_natCast (by omega),
      Run.ok_bind]
    by_cases last : level = levelOf radix vpid
    · subst last
      have high := lt_total_levelOf radix vpid positive
      rw [if_neg (by omega)]
      rfl
    · have next : level + 1 ≤ levelOf radix vpid := by omega
      have inside : total radix (level + 1) ≤ total radix (levelOf radix vpid) :=
        (total_strictMono positive).monotone next
      have narrow : radix ^ (level + 1) ≤ radix ^ levelOf radix vpid :=
        Nat.pow_le_pow_right positive next
      have above := total_levelOf_le radix vpid
      rw [if_pos (by omega), intMul_natCast (by rw [← pow_succ]; omega), Run.ok_bind, ← pow_succ,
        intAdd_natCast (by omega), Run.ok_bind]
      exact ih next (by omega)

theorem levelLoop_start (positive : 0 < radix) (fits : Fits radix vpid)
    (enough : levelOf radix vpid < fuel) :
    levelLoop radix vpid fuel 1 1 =
      .ok ((total radix (levelOf radix vpid + 1) : Nat), (radix ^ levelOf radix vpid : Nat)) := by
  simpa [total] using levelLoop_ok positive fits (Nat.zero_le _) (by omega)

theorem levelLoop_eq_ok (positive : 0 < radix) (low : total radix level ≤ vpid)
    (returned : levelLoop radix vpid fuel (total radix (level + 1) : Nat) (radix ^ level : Nat) =
      .ok result) :
    vpid < 2147483647 ∧ result.2 = (radix ^ levelOf radix vpid : Nat) := by
  induction fuel generalizing level with
  | zero => cases returned
  | succ fuel ih =>
    rw [levelLoop, Run.bind_eq_ok] at returned
    obtain ⟨bound, added, returned⟩ := returned
    obtain ⟨rfl, -, small⟩ := intAdd_eq_ok added
    split at returned
    · rename_i more
      obtain ⟨width, multiplied, returned⟩ := (Run.bind_eq_ok ..).mp returned
      obtain ⟨rfl, -⟩ := (intResult_eq_ok ..).mp multiplied
      obtain ⟨sum, summed, returned⟩ := (Run.bind_eq_ok ..).mp returned
      obtain ⟨rfl, -⟩ := intAdd_eq_ok summed
      exact ih (by omega) returned
    · cases returned
      rw [intMax] at small
      rw [levelOf_eq positive low (by omega)]
      exact ⟨by omega, rfl⟩

section Peers

variable {num_procs : Int}

theorem peerLoop_ok (fits : Fits radix vpid) {motive : Nat → State → Prop}
    (step : ∀ place < radix, ∀ state, motive place state →
      ∃ after, visitPeer num_procs visit (childOf radix vpid place) state = .ok after ∧
        motive (place + 1) after)
    (whole : place + turns = radix) (start : motive place state) :
    ∃ after, peerLoop num_procs (radix ^ levelOf radix vpid : Nat) visit turns
      (childOf radix vpid place) state =
        .ok after ∧ motive radix after := by
  induction turns generalizing place state with
  | zero => exact ⟨state, rfl, whole ▸ start⟩
  | succ turns ih =>
    have next :
        childOf radix vpid place + radix ^ levelOf radix vpid = childOf radix vpid (place + 1) := by
      rw [childOf, childOf]
      ring
    have small : childOf radix vpid (place + 1) ≤ 2147483647 := by
      refine Nat.le_trans (Nat.add_le_add_left (Nat.mul_le_mul_right _ ?_) vpid) fits
      omega
    obtain ⟨after, visited, kept⟩ := step place (by omega) state start
    rw [peerLoop, visited, intAdd_natCast (by omega), next]
    exact ih (by omega) kept

theorem peerLoop_eq_ok {width peer : Nat} (small : peer ≤ 2147483647)
    (returned : peerLoop num_procs width visit turns peer state = .ok after) :
    peer + turns * width ≤ 2147483647 := by
  induction turns generalizing peer state with
  | zero => omega
  | succ turns ih =>
    obtain ⟨middle, -, returned⟩ := (Run.bind_eq_ok ..).mp returned
    obtain ⟨next, added, returned⟩ := (Run.bind_eq_ok ..).mp returned
    obtain ⟨rfl, -, high⟩ := intAdd_eq_ok added
    rw [intMax] at high
    have := ih (by omega) returned
    rw [Nat.add_mul]
    omega

theorem radixTreeWith_ok (positive : 0 < radix) (fits : Fits radix vpid) (fuel : Nat)
    (enough : levelOf radix vpid < fuel) {motive : Nat → State → Prop}
    (step : ∀ place < radix, ∀ state, motive place state →
      ∃ after, visitPeer num_procs visit (childOf radix vpid place) state = .ok after ∧
        motive (place + 1) after)
    (state : State) (start : motive 0 state) :
    ∃ after, radixTreeWith radix num_procs fuel visit vpid state = .ok after ∧
      motive radix after := by
  have first : vpid + radix ^ levelOf radix vpid = childOf radix vpid 0 := by
    rw [childOf, Nat.zero_add, Nat.one_mul]
  have small : vpid + radix ^ levelOf radix vpid ≤ 2147483647 := by
    have : radix ^ levelOf radix vpid ≤ (radix + 1) * radix ^ levelOf radix vpid :=
      Nat.le_mul_of_pos_left _ (Nat.succ_pos radix)
    rw [Fits] at fits
    omega
  rw [radixTreeWith, levelLoop_start positive fits enough, Run.ok_bind, intAdd_natCast small,
    Run.ok_bind, first, Int.toNat_natCast]
  exact peerLoop_ok fits step (Nat.zero_add radix) start

theorem radixTreeWith_eq_ok (positive : 0 < radix) {vpid : Nat}
    (returned : radixTreeWith radix num_procs fuel visit vpid state = .ok after) :
    vpid < 2147483647 ∧ Fits radix vpid := by
  obtain ⟨level, looped, returned⟩ := (Run.bind_eq_ok ..).mp returned
  have looped :
      levelLoop radix vpid fuel (total radix (0 + 1) : Nat) (radix ^ 0 : Nat) = .ok level := by
    simpa [total] using looped
  obtain ⟨small, width⟩ := levelLoop_eq_ok positive (Nat.zero_le _) looped
  obtain ⟨peer, added, returned⟩ := (Run.bind_eq_ok ..).mp returned
  obtain ⟨rfl, -, high⟩ := intAdd_eq_ok added
  rw [intMax] at high
  rw [width, Int.toNat_natCast] at returned
  have last := peerLoop_eq_ok (by omega) returned
  refine ⟨small, ?_⟩
  rw [Fits, Nat.add_mul]
  omega

end Peers

/-! Fuel is only a bound: more of it does not change a result. -/

variable {rank width : Int}

section Fuel

variable {State : Type} {num_procs : Int}

theorem levelLoop_mono (enough : fuel ≤ more)
    (returned : levelLoop radix rank fuel sum width = .ok result) :
    levelLoop radix rank more sum width = .ok result := by
  induction fuel generalizing more sum width with
  | zero => cases returned
  | succ fuel ih =>
    obtain ⟨more, rfl⟩ : ∃ rest, more = rest + 1 := ⟨more - 1, by omega⟩
    rw [levelLoop] at returned ⊢
    obtain ⟨bound, added, returned⟩ := (Run.bind_eq_ok ..).mp returned
    rw [added, Run.ok_bind]
    split at returned
    · rename_i below
      obtain ⟨width, multiplied, returned⟩ := (Run.bind_eq_ok ..).mp returned
      obtain ⟨sum, summed, returned⟩ := (Run.bind_eq_ok ..).mp returned
      rw [if_pos below, multiplied, Run.ok_bind, summed]
      exact ih (by omega) returned
    · rename_i done
      rw [if_neg done]
      exact returned

theorem peerLoop_mono {more : Int → State → Run State}
    (each : ∀ peer state after, visit peer state = .ok after → more peer state = .ok after)
    (returned : peerLoop num_procs width visit turns peer state = .ok after) :
    peerLoop num_procs width more turns peer state = .ok after := by
  induction turns generalizing peer state with
  | zero => exact returned
  | succ turns ih =>
    obtain ⟨middle, visited, returned⟩ := (Run.bind_eq_ok ..).mp returned
    obtain ⟨next, added, returned⟩ := (Run.bind_eq_ok ..).mp returned
    have again : visitPeer num_procs more peer state = .ok middle := by
      rw [visitPeer] at visited ⊢
      split at visited
      · rename_i inside
        rw [if_pos inside]
        exact each peer state middle visited
      · rename_i outside
        rw [if_neg outside]
        exact visited
    rw [peerLoop, again, added]
    exact ih returned

theorem radixTreeWith_mono {moreFuel : Nat} (enough : fuel ≤ moreFuel)
    (each : ∀ peer state after, visit peer state = .ok after → more peer state = .ok after)
    {after : State} (returned : radixTreeWith radix num_procs fuel visit rank state = .ok after) :
    radixTreeWith radix num_procs moreFuel more rank state = .ok after := by
  obtain ⟨level, looped, returned⟩ := (Run.bind_eq_ok ..).mp returned
  obtain ⟨peer, added, returned⟩ := (Run.bind_eq_ok ..).mp returned
  rw [radixTreeWith, levelLoop_mono enough looped, Run.ok_bind, added]
  exact peerLoop_mono each returned

theorem recordRelatives_mono (enough : fuel ≤ more)
    (returned : recordRelatives radix num_procs fuel rank relatives = .ok after) :
    recordRelatives radix num_procs more rank relatives = .ok after := by
  induction fuel generalizing more rank relatives after with
  | zero => cases returned
  | succ fuel ih =>
    obtain ⟨more, rfl⟩ : ∃ rest, more = rest + 1 := ⟨more - 1, by omega⟩
    refine radixTreeWith_mono (by omega) (fun peer state result visited => ?_) returned
    obtain ⟨marked, set, visited⟩ := (Run.bind_eq_ok ..).mp visited
    rw [recordPeer, set]
    exact ih (by omega) visited

theorem radixTree_mono (enough : fuel ≤ more)
    (returned : radixTree radix num_procs fuel rank before = .ok children) :
    radixTree radix num_procs more rank before = .ok children := by
  refine radixTreeWith_mono enough (fun peer state result visited => ?_) returned
  obtain ⟨relatives, recorded, visited⟩ := (Run.bind_eq_ok ..).mp visited
  rw [listPeer, recordRelatives_mono enough recorded]
  exact visited

theorem updateRoutingPlan_mono {num_procs : Nat} (more : Nat) (enough : fuel ≤ more)
    (returned : updateRoutingPlan radix num_procs fuel vpid = .ok plan) :
    updateRoutingPlan radix num_procs more vpid = .ok plan := by
  obtain ⟨level, looped, returned⟩ := (Run.bind_eq_ok ..).mp returned
  obtain ⟨parent, computed, returned⟩ := (Run.bind_eq_ok ..).mp returned
  obtain ⟨children, ran, done⟩ := (Run.bind_eq_ok ..).mp returned
  simp only [updateRoutingPlan]
  rw [levelLoop_mono enough looped, Run.ok_bind, computed, Run.ok_bind,
    radixTree_mono enough ran, Run.ok_bind]
  exact done

theorem updateRoutingPlan_unique {num_procs : Nat}
    (returned : updateRoutingPlan radix num_procs fuel vpid = .ok plan)
    (otherReturned : updateRoutingPlan radix num_procs other vpid = .ok otherPlan) :
    plan = otherPlan := by
  have first := updateRoutingPlan_mono (max fuel other) (Nat.le_max_left ..) returned
  have second := updateRoutingPlan_mono (max fuel other) (Nat.le_max_right ..)
    otherReturned
  exact Except.ok.inj (first.symm.trans second)

end Fuel

theorem levelOf_le (positive : 0 < radix) (vpid : Nat) : levelOf radix vpid ≤ vpid :=
  Nat.le_trans (le_total positive) (total_levelOf_le radix vpid)

variable {num_procs fuel : Nat} {plan : Nat → Plan}

theorem num_procs_small (inRange : InRange radix num_procs) (some : 0 < num_procs) :
    num_procs ≤ 2147483647 := by
  have := inRange 0 some
  rw [pow_zero] at this
  omega

theorem childOf_injective (positive : 0 < radix) (vpid : Nat) :
    Function.Injective (childOf radix vpid) := by
  intro one other same
  have := Nat.eq_of_mul_eq_mul_right (Nat.pow_pos positive) (Nat.add_left_cancel same)
  omega

theorem radixFamily (positive : 0 < radix) {num_procs : Nat} :
    Family num_procs (parentOf radix) (childOf radix) (fun _ => radix) where
  rises _ _ proper := parentOf_lt positive proper
  edge _ _ _ := edge_iff positive
  injective := childOf_injective positive

section Daemon

variable (positive : 0 < radix) {num_procs : Nat} (inRange : InRange radix num_procs)
include positive inRange

theorem recordRelatives_ok (fuel vpid : Nat) (member : vpid < num_procs)
    (enough : 2 * num_procs + 2 ≤ fuel + vpid) :
    Records num_procs (parentOf radix) (recordRelatives radix num_procs fuel vpid) vpid := by
  have small := num_procs_small inRange (Nat.zero_lt_of_lt member)
  induction fuel generalizing vpid with
  | zero => omega
  | succ fuel ih =>
    intro relatives room
    have step : ∀ place < radix, ∀ state,
        Recorded num_procs (parentOf radix) (childOf radix vpid) relatives place state →
        ∃ after, visitPeer num_procs (recordPeer (recordRelatives radix num_procs fuel))
          (childOf radix vpid place)
            state = .ok after ∧
          Recorded num_procs (parentOf radix) (childOf radix vpid) relatives (place + 1) after := by
      intro place _ state recorded
      rw [visitPeer]
      by_cases peer : childOf radix vpid place < num_procs
      · have behind : vpid < childOf radix vpid place :=
          Nat.lt_add_of_pos_right (Nat.mul_pos (Nat.succ_pos place) (Nat.pow_pos positive))
        rw [if_pos (by omega)]
        exact recordPeer_ok small peer (ih _ peer (by omega)) recorded
      · rw [if_neg (by omega)]
        exact ⟨state, rfl, recorded_skip peer recorded⟩
    have level := levelOf_le positive vpid
    obtain ⟨after, ran, recorded⟩ := radixTreeWith_ok positive
      (fits_of_inRange inRange member) fuel (by omega) step relatives ⟨room, by simp⟩
    exact ⟨after, ran, recorded.room, recorded_all (radixFamily positive) member recorded⟩

theorem radixTree_ok (member : vpid < num_procs) (enough : 2 * num_procs + 2 ≤ fuel) :
    ∃ children, radixTree radix num_procs fuel vpid [] = .ok children ∧
      Listed num_procs (parentOf radix) (childOf radix vpid) radix children := by
  have small := num_procs_small inRange (Nat.zero_lt_of_lt member)
  have step : ∀ place < radix, ∀ children, Listed num_procs (parentOf radix)
      (childOf radix vpid) place children →
      ∃ after, visitPeer num_procs (listPeer (recordRelatives radix num_procs fuel) num_procs)
          (childOf radix vpid place) children = .ok after ∧
        Listed num_procs (parentOf radix) (childOf radix vpid) (place + 1) after := by
    intro place _ children listed
    rw [visitPeer]
    by_cases peer : childOf radix vpid place < num_procs
    · rw [if_pos (by omega)]
      exact listPeer_ok small peer (recordRelatives_ok positive inRange fuel _ peer (by omega))
        listed
    · rw [if_neg (by omega)]
      exact ⟨children, rfl, listed_skip peer listed⟩
  have level := levelOf_le positive vpid
  exact radixTreeWith_ok positive (fits_of_inRange inRange member) fuel (by omega)
    step [] ⟨rfl, by simp, by simp⟩

omit inRange in
theorem computeParent_ok (fits : Fits radix vpid) :
    ∃ parent, computeParent radix vpid
        ((total radix (levelOf radix vpid + 1) : Nat), (radix ^ levelOf radix vpid : Nat)) =
          .ok parent ∧
      (vpid ≠ 0 → parent = parentOf radix vpid) := by
  have above := total_levelOf_le radix vpid
  have width : radix ^ levelOf radix vpid ≤ (radix + 1) * radix ^ levelOf radix vpid :=
    Nat.le_mul_of_pos_left _ (Nat.succ_pos radix)
  have last : total radix (levelOf radix vpid + 1) - radix ^ levelOf radix vpid = total radix
      (levelOf radix vpid) :=
    Nat.add_sub_cancel ..
  have small : total radix (levelOf radix vpid + 1) ≤ 2147483647 := by
    rw [Fits] at fits
    rw [total]
    omega
  have wide : radix ^ levelOf radix vpid ≤ total radix (levelOf radix vpid + 1) :=
    Nat.le_add_left _ _
  rw [Fits] at fits
  rw [computeParent, intSub_natCast wide small, Run.ok_bind,
    intDiv_natCast positive (by omega), Run.ok_bind, last]
  by_cases root : vpid = 0
  · rw [if_pos (by omega)]
    exact ⟨_, rfl, fun proper => absurd root proper⟩
  · obtain ⟨upper, same⟩ := Nat.exists_eq_succ_of_ne_zero (Nat.ne_of_gt (levelOf_pos positive root))
    have narrow : 0 < radix ^ upper := Nat.pow_pos positive
    have divided : radix ^ (upper + 1) / radix = radix ^ upper := by
      rw [pow_succ, Nat.mul_div_cancel _ positive]
    have step : total radix (upper + 1) = total radix upper + radix ^ upper := rfl
    have place : (vpid - total radix (upper + 1)) % radix ^ upper ≤ vpid - total radix
        (upper + 1) := Nat.mod_le _ _
    rw [Nat.succ_eq_add_one] at same
    rw [same] at above
    rw [parentOf, same, if_neg (by omega), intSub_natCast above (by omega), Run.ok_bind, divided,
      intMod_natCast narrow (by omega), Run.ok_bind, intSub_natCast (by omega) (by omega),
      Run.ok_bind, toVpid_natCast (by omega), toVpid_natCast (by omega), Nat.add_sub_cancel, step,
      Nat.add_sub_cancel]
    refine ⟨_, rfl, fun _ => Nat.mod_eq_of_lt ?_⟩
    rw [← step]
    omega

theorem updateRoutingPlan_ok (member : vpid < num_procs) (enough : 2 * num_procs + 2 ≤ fuel) :
    ∃ plan, updateRoutingPlan radix num_procs fuel vpid = .ok plan ∧
      (vpid ≠ 0 → plan.parent = parentOf radix vpid) ∧
        Listed num_procs (parentOf radix) (childOf radix vpid) radix plan.children := by
  have small := num_procs_small inRange (Nat.zero_lt_of_lt member)
  have fits := fits_of_inRange inRange member
  have level := levelOf_le positive vpid
  obtain ⟨parent, computed, same⟩ := computeParent_ok positive fits
  obtain ⟨children, ran, listed⟩ := radixTree_ok positive inRange member enough
  refine ⟨⟨parent, children⟩, ?_, same, listed⟩
  rw [updateRoutingPlan, toInt_natCast (by omega), toInt_natCast small,
    levelLoop_start positive fits (by omega), Run.ok_bind, computed, Run.ok_bind, ran]
  rfl

end Daemon

/-- Every daemon computes its plan, and the plans are those of one tree. -/
def BuildsTree (radix : Int) (num_procs : Nat) : Prop :=
  ∃ fuel plan, (∀ vpid < num_procs, updateRoutingPlan radix num_procs fuel vpid = .ok (plan vpid)) ∧
    ExactPlans num_procs plan

theorem plans_of_inRange (positive : 0 < radix) (inRange : InRange radix num_procs) :
    ∃ (fuel : Nat) (plan : Nat → Plan), ∀ vpid < num_procs,
      updateRoutingPlan radix num_procs fuel vpid = .ok (plan vpid) ∧
        (vpid ≠ 0 → (plan vpid).parent = parentOf radix vpid) ∧
        Listed num_procs (parentOf radix) (childOf radix vpid) radix (plan vpid).children := by
  obtain ⟨plan, planned⟩ := plans_of_each fun vpid member =>
    updateRoutingPlan_ok positive inRange member (Nat.le_refl _)
  exact ⟨2 * num_procs + 2, plan, planned⟩

theorem fits_of_plan (positive : 0 < radix) (num_procs fuel vpid : Nat) (small : vpid ≤ 2147483647)
    (plan : Plan) (computed : updateRoutingPlan radix num_procs fuel vpid = .ok plan) :
    vpid < 2147483647 ∧ Fits radix vpid := by
  rw [updateRoutingPlan, toInt_natCast small] at computed
  obtain ⟨_, -, computed⟩ := (Run.bind_eq_ok ..).mp computed
  obtain ⟨_, -, computed⟩ := (Run.bind_eq_ok ..).mp computed
  obtain ⟨_, ran, -⟩ := (Run.bind_eq_ok ..).mp computed
  exact radixTreeWith_eq_ok positive ran

theorem inRange_of_plans (positive : 0 < radix)
    (computed : ∀ vpid < num_procs, updateRoutingPlan radix num_procs fuel vpid = .ok (plan vpid)) :
    InRange radix num_procs := by
  intro level above
  have bounded : num_procs ≤ 2147483647 := by
    by_contra large
    have overflow :=
      (fits_of_plan positive num_procs fuel 2147483647 (Nat.le_refl _) _ (computed _ (by omega))).1
    exact Nat.lt_irrefl _ overflow
  have fits :=
    (fits_of_plan positive num_procs fuel (num_procs - 1) (by omega) _ (computed _ (by omega))).2
  have low := lt_total_levelOf radix (num_procs - 1) positive
  have lower : level < levelOf radix (num_procs - 1) + 1 :=
    (total_strictMono positive).lt_iff_lt.mp (by omega)
  have width : (radix + 1) * radix ^ level ≤ (radix + 1) * radix ^ levelOf radix (num_procs - 1) :=
    Nat.mul_le_mul_left _ (Nat.pow_le_pow_right positive (by omega))
  rw [Fits] at fits
  omega

theorem radix_pos_of_plan {plan : Plan}
    (computed : updateRoutingPlan radix num_procs fuel 0 = .ok plan) :
    0 < radix := by
  by_contra zero
  obtain rfl := Nat.eq_zero_of_not_pos zero
  obtain ⟨level, -, computed⟩ := (Run.bind_eq_ok ..).mp computed
  obtain ⟨_, parent, -⟩ := (Run.bind_eq_ok ..).mp computed
  obtain ⟨_, -, parent⟩ := (Run.bind_eq_ok ..).mp parent
  obtain ⟨_, divided, -⟩ := (Run.bind_eq_ok ..).mp parent
  cases divided

theorem exactPlans_of_computed (some : 0 < num_procs)
    (computed : ∀ vpid < num_procs, updateRoutingPlan radix num_procs fuel vpid = .ok (plan vpid)) :
    ExactPlans num_procs plan := by
  have positive := radix_pos_of_plan (computed 0 some)
  obtain ⟨enough, other, plans⟩ := plans_of_inRange positive
    (inRange_of_plans positive computed)
  have same : ∀ vpid < num_procs, other vpid = plan vpid := fun vpid member =>
    updateRoutingPlan_unique (plans vpid member).1 (computed vpid member)
  apply exactPlans_of_family (radixFamily positive) some
  · intro vpid member
    rw [← same vpid member]
    exact (plans vpid member).2.1
  · intro vpid member
    rw [← same vpid member]
    exact (plans vpid member).2.2

/-- With a radix that the component accepts, the daemons build one tree exactly when the radix is
not zero and no `int` overflows. -/
theorem radix_tree_iff (radix : Int) (accepted : orteRoutedRadixComponentQuery radix = .ok 70)
    (num_procs : Nat) (some : 1 ≤ num_procs) :
    BuildsTree radix num_procs ↔ 1 ≤ radix ∧ InRange radix.toNat num_procs := by
  have nonneg : 0 ≤ radix := by
    by_contra negative
    rw [orteRoutedRadixComponentQuery, if_pos (by omega)] at accepted
    cases accepted
  obtain ⟨radix, rfl⟩ := Int.eq_ofNat_of_zero_le nonneg
  constructor
  · rintro ⟨fuel, plan, computed, -⟩
    have positive := radix_pos_of_plan (computed 0 some)
    exact ⟨by omega, inRange_of_plans positive computed⟩
  · rintro ⟨positive, inRange⟩
    obtain ⟨fuel, plan, plans⟩ := plans_of_inRange (by omega) inRange
    have computed :
        ∀ vpid < num_procs, updateRoutingPlan radix num_procs fuel vpid = .ok (plan vpid) :=
      fun vpid member => (plans vpid member).1
    exact ⟨fuel, plan, computed, exactPlans_of_computed some computed⟩

/-- Three daemons with the default radix. -/
theorem radix_tree_three :
    (orteRoutedRadixComponentQuery 64 = .ok 70 ∧ 1 ≤ 3) ∧ BuildsTree 64 3 := by
  refine ⟨⟨rfl, by decide⟩, (radix_tree_iff 64 rfl 3 (by decide)).mpr
    ⟨by decide, fun level above => ?_⟩⟩
  have grows : StrictMono (total 64) := total_strictMono (by decide)
  have lower : level < 2 := grows.lt_iff_lt.mp (Nat.lt_of_lt_of_le above (by decide))
  obtain rfl | rfl : level = 0 ∨ level = 1 := by omega
  · decide
  · decide

theorem levelLoop_zero : levelLoop 0 1 fuel 1 width = Run.outOfFuel := by
  induction fuel generalizing width with
  | zero => rfl
  | succ fuel ih =>
    have product : intMul width 0 = .ok 0 := by rw [intMul, Int.mul_zero]; rfl
    rw [levelLoop, product]
    exact ih

/-- The component accepts a radix of zero, and then the plan of the second daemon is never
finished. -/
theorem radix_zero_never_ends :
    orteRoutedRadixComponentQuery 0 = .ok 70 ∧
      ∀ fuel, updateRoutingPlan 0 2 fuel 1 = Run.outOfFuel := by
  refine ⟨rfl, fun fuel => ?_⟩
  rw [updateRoutingPlan, show toInt ((1 : Nat) : Int) = 1 from rfl, levelLoop_zero]
  rfl

/-- If the job is small enough, messages go directly to the target's daemon. The parameter
`max_connections` is an `int` that is compared as an unsigned number, so its default of -1 stands
for 4294967295. -/
def searchDaemon (num_procs max_connections : Nat) (children : List Child) (me : Process)
    (vpid : Nat) : Run Name :=
  if num_procs < max_connections then pure ⟨me.my_name.jobid, vpid⟩
    else searchChildren me vpid children

def getRoute (num_procs max_connections : Nat) (children : List Child) (me : Process)
    (target : Name) : Run Name :=
  if !me.routing_is_enabled then pure target
  else getRouteWith nameInvalid (searchDaemon num_procs max_connections children me) me target

/-- The answer of a daemon with its plan, for a message to another daemon of the job. -/
def NextHop (num_procs max_connections : Nat) (daemons : Daemons) (plan : Nat → Plan)
    (target vpid via : Nat) : Prop :=
  getRoute num_procs max_connections (plan vpid).children (daemons.process vpid (plan vpid).parent)
    ⟨daemons.jobid, target⟩ = .ok ⟨daemons.jobid, via⟩

/-- Every daemon computes its plan, and a message between any two daemons arrives without passing
one twice. -/
def Delivers (radix num_procs max_connections : Nat) (daemons : Daemons) : Prop :=
  ∃ (fuel : Nat) (plan : Nat → Plan),
    (∀ vpid < num_procs, updateRoutingPlan radix num_procs fuel vpid = .ok (plan vpid)) ∧
    ∀ source < num_procs, ∀ target < num_procs, ∃ path,
      Route (NextHop num_procs max_connections daemons plan target) target source path ∧
        path.Nodup ∧
        ∀ vpid ∈ path, vpid < num_procs

/-- The first daemon asks the bitmap of its first child, and the number of bits is not an `int`. -/
theorem no_hop_of_overflow (positive : 0 < radix) (large : 2147483584 < num_procs)
    (indirect : ¬ num_procs < max_connections)
    (listed : Listed num_procs (parentOf radix) (childOf radix 0) radix (plan 0).children) :
    ∃ target < num_procs, 0 ≠ target ∧
      ∀ via, ¬ NextHop num_procs max_connections daemons plan target 0 via := by
  have child : childOf radix 0 0 ∈ (plan 0).children.map Child.vpid := by
    have first : childOf radix 0 0 = 1 := by rw [childOf, levelOf, Nat.findGreatest_zero]; rfl
    rw [listed.vpids, List.mem_filter]
    exact ⟨List.mem_map_of_mem (List.mem_range.mpr positive),
      by rw [first]; exact decide_eq_true (by omega)⟩
  obtain ⟨first, rest, children⟩ : ∃ first rest, (plan 0).children = first :: rest := by
    cases children : (plan 0).children with
    | nil => rw [children] at child; cases child
    | cons first rest => exact ⟨first, rest, rfl⟩
  obtain ⟨target, small, proper, other⟩ : ∃ target ≤ 2, 0 ≠ target ∧ first.vpid ≠ target := by
    by_cases same : first.vpid = 1
    · exact ⟨2, by decide, by decide, by omega⟩
    · exact ⟨1, by decide, by decide, same⟩
  refine ⟨target, by omega, proper, fun via hop => ?_⟩
  have room : first.relatives.Room num_procs :=
    listed.room first (by rw [children]; exact List.mem_cons_self)
  change getRouteWith nameInvalid (searchDaemon num_procs max_connections (plan 0).children
    (daemons.process 0 (plan 0).parent)) (daemons.process 0 (plan 0).parent)
      ⟨daemons.jobid, target⟩ = _ at hop
  rw [getRouteWith_daemon daemons _ _ _ proper (by decide) (by simp only [wildcardId]; omega),
    if_neg proper.symm, searchDaemon, if_neg indirect, children, searchChildren, if_neg other,
    toInt_natCast (by omega), opalBitmapIsSetBit_overflow room large] at hop
  cases hop

/-- With a radix of at least one, all messages arrive exactly when no `int` overflows: neither in
the computation of the plans nor in the size of a bitmap, unless the daemons are few enough to be
connected directly. -/
theorem radix_routing_iff (radix : Nat) (positive : 1 ≤ radix) (num_procs max_connections : Nat)
    (daemons : Daemons) :
    Delivers radix num_procs max_connections daemons ↔
      InRange radix num_procs ∧ (num_procs < max_connections ∨ num_procs ≤ 2147483584) := by
  constructor
  · rintro ⟨fuel, plan, computed, delivers⟩
    have inRange := inRange_of_plans positive computed
    refine ⟨inRange, ?_⟩
    by_contra neither
    rw [not_or, Nat.not_le] at neither
    obtain ⟨otherFuel, otherPlan, planned⟩ := plans_of_inRange positive inRange
    have first := planned 0 (by omega)
    have same := updateRoutingPlan_unique (computed 0 (by omega)) first.1
    obtain ⟨target, member, proper, stuck⟩ := no_hop_of_overflow positive
      neither.2 neither.1 (same ▸ first.2.2)
    obtain ⟨path, route, -⟩ := delivers 0 (by omega) target member
    cases route with
    | arrived => exact proper rfl
    | hop _ via path away step => exact stuck via step
  · rintro ⟨inRange, direct⟩
    obtain ⟨fuel, plan, planned⟩ := plans_of_inRange positive inRange
    refine ⟨fuel, plan, fun vpid member => (planned vpid member).1,
      fun source sourceMember target member => ?_⟩
    have exact := exactPlans_of_family (radixFamily positive) (Nat.zero_lt_of_lt member)
      (fun vpid inside => (planned vpid inside).2.1) fun vpid inside => (planned vpid inside).2.2
    have rises : ∀ vpid < num_procs, vpid ≠ 0 → (plan vpid).parent < vpid :=
      fun vpid inside proper => (planned vpid inside).2.1 proper ▸ parentOf_lt positive proper
    refine plans_route exact daemons (num_procs_small inRange (Nat.zero_lt_of_lt member)) rises
      (fun vpid => searchDaemon num_procs max_connections (plan vpid).children
        (daemons.process vpid (plan vpid).parent))
      (fun vpid inside daemon daemonMember away proper => ?_) (fun _ => nameInvalid) source target
        sourceMember member
    rw [searchDaemon]
    by_cases few : num_procs < max_connections
    · rw [if_pos few]
      exact ⟨daemon, rfl, .direct⟩
    · rw [if_neg few]
      exact searchChildren_hop exact daemons vpid daemon inside
        (direct.resolve_left few) daemonMember
        (planned vpid inside).2.2.room

/-- Three daemons on a chain, with messages along the tree. -/
theorem radix_routing_three : 1 ≤ 1 ∧ Delivers 1 3 0 plainDaemons := by
  refine ⟨by decide, (radix_routing_iff 1 (by decide) 3 0 plainDaemons).mpr
    ⟨fun level _ => ?_, .inr (by decide)⟩⟩
  rw [Nat.one_pow]
  decide

/-- The largest radix that an `int` can hold is accepted, and the second of two daemons cannot
compute its level. -/
theorem radix_overflows :
    orteRoutedRadixComponentQuery 2147483647 = .ok 70 ∧
      updateRoutingPlan 2147483647 2 2 1 = .error .undefined ∧
      ¬ Delivers 2147483647 2 4294967295 plainDaemons := by
  refine ⟨rfl, by decide +kernel, ?_⟩
  rintro ⟨fuel, plan, computed, -⟩
  have positive : 0 < 2147483647 := by decide
  have fits := (fits_of_plan positive 2 fuel 1 (by decide) _ (computed 1 (by decide))).2
  have width : 0 < 2147483647 ^ levelOf 2147483647 1 := Nat.pow_pos (by decide)
  rw [Fits] at fits
  omega

end Orcm.RadixRoutes
