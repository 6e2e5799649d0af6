import Mathlib.Data.Nat.Bitwise
import Orcm.Routed

/-!
The binomial tree of `orte/mca/routed/binomial`. The children of a daemon have one more bit, above
its highest one; a daemon finds its place by a search from the root. Masks are `int` values, and
`opal_hibit` shifts by the dimension of the whole cube.
-/

namespace Orcm.BinomialTree

open CLibrary CInteger OpalBitmap Routed

/-- `__builtin_clz` of a value that is not zero. -/
def builtinClz (value : Nat) : Nat := 31 - value.log2

def opalCubeDim (value : Int) : Nat := if value ≤ 1 then 0 else 32 - builtinClz (value - 1).toNat

def opalHibit (value start : Nat) : Run Int := do
  let size ← intShiftLeft 1 start
  let mask := value &&& (size - 1)
  pure (if mask = 0 then -1 else (31 - builtinClz mask : Nat))

variable {State : Type}

/-- Peers that do not exist are passed over. -/
def visitPeer (num_procs : Int) (visit : Nat → State → Run (Option Int × State)) (peer : Nat)
    (state : State) :
    Run (Option Int × State) :=
  if peer < num_procs then visit peer state else pure (none, state)

/-- The loop over the masks above the highest bit; a visit may end it with a result. -/
def peerLoop (num_procs : Int) (rank : Nat) (visit : Nat → State → Run (Option Int × State)) :
    Nat → Nat → State → Run (Option Int × State)
  | 0, _, state => pure (none, state)
  | turns + 1, mask, state => do
      let visited ← visitPeer num_procs visit (rank ||| mask) state
      match visited with
      | (some found, state) => pure (some found, state)
      | (none, state) => do
          let mask ← intShiftLeft mask 1
          peerLoop num_procs rank visit turns mask state

def forPeers (num_procs : Int) (rank : Nat) (visit : Nat → State → Run (Option Int × State))
    (state : State) :
    Run (Option Int × State) := do
  let bitmap := opalCubeDim num_procs
  let hibit ← opalHibit rank bitmap
  let i := (hibit + 1).toNat
  let mask ← intShiftLeft 1 i
  peerLoop num_procs rank visit (bitmap - i) mask state

def keepGoing (visit : Int → State → Run State) (peer : Nat) (state : State) :
    Run (Option Int × State) := do
  let state ← visit peer state
  pure (none, state)

def stopWhenFound (search : Nat → State → Run (Int × State)) (peer : Nat) (state : State) :
    Run (Option Int × State) := do
  let result ← search peer state
  pure (if 0 ≤ result.1 then some result.1 else none, result.2)

/-- `binomial_tree`, with what it does for the children of the rank that is searched for. -/
def binomialTreeWith (num_procs me : Int) (visit : Int → State → Run State) :
    Nat → Nat → Int → State → Run (Int × State)
  | 0, _, _, _ => Run.outOfFuel
  | fuel + 1, rank, parent, state =>
    if me = rank then do
      let result ← forPeers num_procs rank (keepGoing visit) state
      pure (parent, result.2)
    else do
      let result ← forPeers num_procs rank
        (stopWhenFound fun peer state => binomialTreeWith num_procs me visit fuel peer rank state)
          state
      pure (result.1.getD (-1), result.2)

/-- `binomial_tree` when it records someone's relatives, from the root again. -/
def recordRelatives (num_procs : Int) : Nat → Int → Bitmap → Run Bitmap
  | 0, _, _ => Run.outOfFuel
  | fuel + 1, me, relatives => do
      let result ← binomialTreeWith num_procs me (recordPeer (recordRelatives num_procs fuel)) fuel
        0 0 relatives
      pure result.2

/-- The number of daemons is `max_procs` here. -/
def updateRoutingPlan (max_procs fuel vpid : Nat) : Run Plan := do
  let num_procs := toInt max_procs
  let result ← binomialTreeWith num_procs (toInt vpid)
    (listPeer (recordRelatives num_procs fuel) num_procs) fuel 0 0 []
  pure ⟨toVpid result.1, result.2⟩

def getRoute (children : List Child) (me : Process) (target : Name) : Run Name :=
  if !me.routing_is_enabled then pure target
  else getRouteWith nameInvalid (fun vpid => searchChildren me vpid children) me target

def freeBit (rank : Nat) : Nat := if rank = 0 then 0 else rank.log2 + 1

def parentOf (vpid : Nat) : Nat := vpid - 2 ^ vpid.log2

def childOf (rank place : Nat) : Nat := rank + 2 ^ (freeBit rank + place)

variable (rank : Nat)

theorem lt_freeBit : rank < 2 ^ freeBit rank := by
  unfold freeBit
  split
  · rename_i zero
    rw [zero]
    decide
  · exact Nat.lt_log2_self

theorem freeBit_le (small : rank < 2 ^ bit) : freeBit rank ≤ bit := by
  unfold freeBit
  split
  · exact Nat.zero_le bit
  · rename_i proper
    exact (Nat.log2_lt proper).mpr small

theorem lt_childOf_bit (place : Nat) : rank < 2 ^ (freeBit rank + place) :=
  Nat.lt_of_lt_of_le (lt_freeBit rank) (Nat.pow_le_pow_right (by decide) (Nat.le_add_right _ _))

theorem log2_childOf (place : Nat) : (childOf rank place).log2 = freeBit rank + place := by
  have small := lt_childOf_bit rank place
  rw [childOf, Nat.log2_eq_iff (by omega)]
  omega

theorem parentOf_childOf : parentOf (childOf rank place) = rank := by
  rw [parentOf, log2_childOf, childOf, Nat.add_sub_cancel]

theorem childOf_parentOf (proper : vpid ≠ 0) : ∃ place, childOf (parentOf vpid) place = vpid := by
  have low := Nat.log2_self_le proper
  have high : vpid < 2 ^ (vpid.log2 + 1) := Nat.lt_log2_self
  have free : freeBit (parentOf vpid) ≤ vpid.log2 := freeBit_le _ (by rw [parentOf]; omega)
  refine ⟨vpid.log2 - freeBit (parentOf vpid), ?_⟩
  rw [childOf, Nat.add_sub_cancel' free, parentOf]
  omega

theorem parentOf_lt (proper : vpid ≠ 0) : parentOf vpid < vpid := by
  have positive : 0 < 2 ^ vpid.log2 := Nat.two_pow_pos _
  rw [parentOf]
  omega

theorem or_bit (place : Nat) : rank ||| 2 ^ (freeBit rank + place) = childOf rank place := by
  have joined := Nat.two_pow_add_eq_or_of_lt (lt_childOf_bit rank place) 1
  rw [Nat.mul_one] at joined
  rw [Nat.or_comm, ← joined]
  exact Nat.add_comm _ _

structure Cube (num_procs dim : Nat) : Prop where
  small : dim ≤ 30
  contains : num_procs ≤ 2 ^ dim

variable {num_procs : Nat}

theorem opalCubeDim_cube (small : num_procs ≤ 2 ^ 30) : Cube num_procs (opalCubeDim num_procs) := by
  unfold opalCubeDim
  split
  · exact ⟨by decide, by omega⟩
  · rename_i some
    have proper : num_procs - 1 ≠ 0 := by omega
    have high : num_procs - 1 < 2 ^ ((num_procs - 1).log2 + 1) := Nat.lt_log2_self
    have low : (num_procs - 1).log2 < 30 := (Nat.log2_lt proper).mpr (by omega)
    have converted : ((num_procs : Int) - 1).toNat = num_procs - 1 := by omega
    rw [converted, builtinClz, show 32 - (31 - (num_procs - 1).log2) = (num_procs - 1).log2 +
      1 by omega]
    exact ⟨by omega, by omega⟩

theorem opalHibit_ok {rank : Nat} (cube : Cube num_procs dim) (member : rank < num_procs) :
    ∃ hibit, opalHibit rank dim = .ok hibit ∧ (hibit + 1).toNat = freeBit rank := by
  have inside : rank < 2 ^ dim := Nat.lt_of_lt_of_le member cube.contains
  have power : 2 ^ dim ≤ 2 ^ 30 := Nat.pow_le_pow_right (by decide) cube.small
  have shifted : intShiftLeft 1 dim = .ok (2 ^ dim) := by
    rw [intShiftLeft, Nat.one_mul, if_pos ⟨by have := cube.small; omega, by omega⟩]
  have masked : rank &&& (2 ^ dim - 1) = rank := by
    rw [Nat.and_two_pow_sub_one_eq_mod, Nat.mod_eq_of_lt inside]
  refine ⟨_, by rw [opalHibit, shifted, Run.ok_bind, masked]; rfl, ?_⟩
  unfold freeBit
  split
  · rfl
  · rename_i proper
    have low : rank.log2 < 30 := (Nat.log2_lt proper).mpr (by omega)
    rw [builtinClz]
    omega

theorem binomialFamily (cube : Cube num_procs dim) :
    Family num_procs parentOf childOf (fun rank => dim - freeBit rank) where
  rises vpid _ proper := parentOf_lt proper
  edge rank _ other := by
    constructor
    · rintro ⟨member, proper, rfl⟩
      obtain ⟨place, same⟩ := childOf_parentOf proper
      refine ⟨member, place, ?_, same⟩
      have bit := log2_childOf (parentOf other) place
      rw [same] at bit
      have inside : other.log2 < dim :=
        (Nat.log2_lt proper).mpr (Nat.lt_of_lt_of_le member cube.contains)
      omega
    · rintro ⟨member, place, -, rfl⟩
      refine ⟨member, ?_, parentOf_childOf rank⟩
      have positive : 0 < 2 ^ (freeBit rank + place) := Nat.two_pow_pos _
      rw [childOf]
      omega
  injective rank one other same := by
    have := congrArg Nat.log2 same
    rw [log2_childOf, log2_childOf] at this
    omega

end Orcm.BinomialTree
