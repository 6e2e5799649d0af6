import Mathlib.Data.Nat.Find
import Orcm.Routed

/-!
The radix tree of `orte/mca/routed/radix`. The daemons are numbered level by level; a daemon's
children stand at multiples of the width of its level behind it. Parent and children are computed by
separate loops with `int` arithmetic, and the parameter check lets a radix of zero through.
-/

namespace Orcm.RadixTree

open CLibrary CInteger OpalBitmap Routed ParentTree

def orteRoutedRadixComponentQuery (radix : Int) : Result Int :=
  if 0 > radix then Result.fail .badParam else pure 70

/-- `while (Sum < (rank+1))` -/
def levelLoop (radix rank : Int) : Nat → Int → Int → Run (Int × Int)
  | 0, _, _ => Run.outOfFuel
  | fuel + 1, sum, nInLevel => do
      if sum < (← intAdd rank 1) then
        let nInLevel ← intMul nInLevel radix
        let sum ← intAdd sum nInLevel
        levelLoop radix rank fuel sum nInLevel
      else pure (sum, nInLevel)

/-- Peers behind the last daemon are passed over. -/
def visitPeer {State : Type} (num_procs : Int) (visit : Int → State → Run State) (peer : Int)
    (state : State) : Run State :=
  if peer < num_procs then visit peer state else pure state

/-- The loop over the peers; the next peer is also computed behind the last one. -/
def peerLoop {State : Type} (num_procs nInLevel : Int) (visit : Int → State → Run State) :
    Nat → Int → State → Run State
  | 0, _, state => pure state
  | turns + 1, peer, state => do
      let state ← visitPeer num_procs visit peer state
      let peer ← intAdd peer nInLevel
      peerLoop num_procs nInLevel visit turns peer state

/-- `radix_tree`, with what it does for a peer that exists. -/
def radixTreeWith {State : Type} (radix num_procs : Int) (fuel : Nat)
    (visit : Int → State → Run State) (rank : Int) (state : State) : Run State := do
  let level ← levelLoop radix rank fuel 1 1
  let peer ← intAdd rank level.2
  peerLoop num_procs level.2 visit radix.toNat peer state

/-- `radix_tree` when it records someone's relatives. -/
def recordRelatives (radix num_procs : Int) : Nat → Int → Bitmap → Run Bitmap
  | 0, _, _ => Run.outOfFuel
  | fuel + 1, rank, relatives =>
    radixTreeWith radix num_procs fuel (recordPeer (recordRelatives radix num_procs fuel))
      rank relatives

/-- `radix_tree` when it lists the direct children. -/
def radixTree (radix num_procs : Int) (fuel : Nat) (rank : Int) (children : List Child) :
    Run (List Child) :=
  radixTreeWith radix num_procs fuel (listPeer (recordRelatives radix num_procs fuel) num_procs)
    rank children

def computeParent (radix rank : Int) (level : Int × Int) : Run Nat := do
  let sum ← intSub level.1 level.2
  let nInPrevLevel ← intDiv level.2 radix
  if rank = 0 then pure (toVpid (-1))
  else
    let place ← intMod (← intSub rank sum) nInPrevLevel
    let above ← intSub sum nInPrevLevel
    pure ((toVpid place + toVpid above) % 4294967296)

def updateRoutingPlan (radix : Int) (num_procs fuel vpid : Nat) : Run Plan := do
  let rank := toInt vpid
  let level ← levelLoop radix rank fuel 1 1
  let parent ← computeParent radix rank level
  let children ← radixTree radix (toInt num_procs) fuel rank []
  pure ⟨parent, children⟩

def total (radix : Nat) : Nat → Nat
  | 0 => 0
  | level + 1 => total radix level + radix ^ level

variable {vpid level place : Nat}

section Levels

variable {radix : Nat} (positive : 0 < radix)
include positive

theorem total_lt (level : Nat) : total radix level < total radix (level + 1) :=
  Nat.lt_add_of_pos_right (Nat.pow_pos positive)

theorem total_strictMono : StrictMono (total radix) := strictMono_nat_of_lt_succ (total_lt positive)

theorem le_total : level ≤ total radix level := (total_strictMono positive).le_apply

end Levels

def levelOf (radix vpid : Nat) : Nat :=
  Nat.findGreatest (fun level => total radix level ≤ vpid) vpid

theorem total_levelOf_le (radix vpid : Nat) : total radix (levelOf radix vpid) ≤ vpid :=
  Nat.findGreatest_spec (P := fun level => total radix level ≤ vpid) (Nat.zero_le vpid)
    (Nat.zero_le vpid)

theorem lt_total_levelOf (radix vpid : Nat) (positive : 0 < radix) :
    vpid < total radix (levelOf radix vpid + 1) := by
  by_contra above
  have inside := Nat.not_lt.mp above
  have greater : levelOf radix vpid + 1 ≤ levelOf radix vpid :=
    Nat.le_findGreatest (Nat.le_trans (le_total positive) inside) inside
  omega

theorem levelOf_eq (positive : 0 < radix) (low : total radix level ≤ vpid)
    (high : vpid < total radix (level + 1)) : levelOf radix vpid = level := by
  have below := total_levelOf_le radix vpid
  have above := lt_total_levelOf radix vpid positive
  have first := (total_strictMono positive).lt_iff_lt.mp (Nat.lt_of_le_of_lt below high)
  have second := (total_strictMono positive).lt_iff_lt.mp (Nat.lt_of_le_of_lt low above)
  omega

def childOf (radix vpid place : Nat) : Nat := vpid + (place + 1) * radix ^ levelOf radix vpid

def parentOf (radix vpid : Nat) : Nat :=
  (vpid - total radix (levelOf radix vpid)) % radix ^ (levelOf radix vpid - 1) + total radix
    (levelOf radix vpid - 1)

section Family

variable {radix : Nat} (positive : 0 < radix)
include positive

theorem levelOf_childOf (vpid : Nat) (inside : place < radix) :
    levelOf radix (childOf radix vpid place) = levelOf radix vpid + 1 := by
  have low := total_levelOf_le radix vpid
  have high := lt_total_levelOf radix vpid positive
  have width : (place + 1) * radix ^ levelOf radix vpid ≤ radix ^ (levelOf radix vpid + 1) := by
    rw [pow_succ', Nat.mul_comm radix]
    exact Nat.mul_comm radix _ ▸ Nat.mul_le_mul_right _ inside
  have least : radix ^ levelOf radix vpid ≤ (place + 1) * radix ^ levelOf radix vpid :=
    Nat.le_mul_of_pos_left _ (Nat.succ_pos place)
  apply levelOf_eq positive
  · rw [total, childOf]
    omega
  · rw [total, childOf]
    omega

theorem parentOf_childOf (vpid : Nat) (inside : place < radix) :
    parentOf radix (childOf radix vpid place) = vpid := by
  have low := total_levelOf_le radix vpid
  have high := lt_total_levelOf radix vpid positive
  rw [total] at high
  rw [parentOf, levelOf_childOf positive vpid inside, Nat.add_sub_cancel, total]
  have place_eq :
      childOf radix vpid place - (total radix (levelOf radix vpid) + radix ^ levelOf radix vpid) =
      (vpid - total radix (levelOf radix vpid)) + place * radix ^ levelOf radix vpid := by
    rw [childOf, Nat.add_mul]
    omega
  rw [place_eq, Nat.add_mul_mod_self_right, Nat.mod_eq_of_lt (by omega)]
  omega

theorem levelOf_pos (proper : vpid ≠ 0) : 0 < levelOf radix vpid := by
  by_contra zero
  have high := lt_total_levelOf radix vpid positive
  rw [Nat.eq_zero_of_not_pos zero, total, total] at high
  simp at high
  exact proper high

theorem childOf_parentOf (proper : vpid ≠ 0) :
    ∃ place < radix, childOf radix (parentOf radix vpid) place = vpid := by
  have low := total_levelOf_le radix vpid
  have high := lt_total_levelOf radix vpid positive
  obtain ⟨level, same⟩ := Nat.exists_eq_succ_of_ne_zero (Nat.ne_of_gt (levelOf_pos positive proper))
  rw [same, Nat.succ_eq_add_one] at low high
  have width : 0 < radix ^ level := Nat.pow_pos positive
  have parent : parentOf radix vpid = (vpid - total radix (level + 1)) % radix ^ level +
      total radix level := by
    rw [parentOf, same, Nat.succ_eq_add_one, Nat.add_sub_cancel]
  have rest : (vpid - total radix (level + 1)) % radix ^ level < radix ^ level := Nat.mod_lt _ width
  have parentLevel : levelOf radix (parentOf radix vpid) = level := by
    rw [parent]
    apply levelOf_eq positive (Nat.le_add_left _ _)
    change _ < total radix level + radix ^ level
    rw [Nat.add_comm]
    exact Nat.add_lt_add_left rest _
  have offset : vpid - total radix (level + 1) < radix * radix ^ level := by
    rw [total, pow_succ'] at high
    omega
  refine ⟨(vpid - total radix (level + 1)) / radix ^ level,
    Nat.div_lt_of_lt_mul (Nat.mul_comm .. ▸ offset), ?_⟩
  have whole := Nat.mod_add_div (vpid - total radix (level + 1)) (radix ^ level)
  rw [childOf, parentLevel, parent, Nat.add_mul, Nat.mul_comm (_ / _)]
  rw [total] at low whole ⊢
  omega

theorem parentOf_lt (proper : vpid ≠ 0) : parentOf radix vpid < vpid := by
  obtain ⟨place, -, same⟩ := childOf_parentOf positive proper
  have width : 0 < (place + 1) * radix ^ levelOf radix (parentOf radix vpid) :=
    Nat.mul_pos (Nat.succ_pos place) (Nat.pow_pos positive)
  rw [childOf] at same
  omega

theorem edge_iff :
    Edge (· < num_procs) 0 (parentOf radix) vpid child ↔
      child < num_procs ∧ ∃ place < radix, childOf radix vpid place = child := by
  constructor
  · rintro ⟨member, proper, rfl⟩
    exact ⟨member, childOf_parentOf positive proper⟩
  · rintro ⟨member, place, inside, rfl⟩
    have width : 0 < (place + 1) * radix ^ levelOf radix vpid :=
      Nat.mul_pos (Nat.succ_pos place) (Nat.pow_pos positive)
    refine ⟨member, ?_, parentOf_childOf positive vpid inside⟩
    rw [childOf]
    omega

end Family

end Orcm.RadixTree
