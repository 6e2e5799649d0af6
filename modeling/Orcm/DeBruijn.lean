import Mathlib.Data.Nat.Bitwise
import Orcm.Routed

/-!
The de Bruijn network of `orte/mca/routed/debruijn`. Identifiers are words of a multiple of a shift.
A hop moves the word of the sender up by one shift and fills in the next bits of the target. A word
that no daemon has is cut off above. The words are shifted as `int` values.
-/

namespace Orcm.DeBruijn

open CLibrary CInteger OpalBitmap Routed

/-- The loop of `ilog2` over its tables, from the largest shift on. -/
def ilog2Loop : List (Nat × Nat) → Nat → Nat → Nat
  | [], _, r => r
  | (b, s) :: rest, v, r =>
    if v &&& b ≠ 0 then ilog2Loop rest (v >>> s) (r ||| s) else ilog2Loop rest v r

def ilog2 (v : Nat) : Nat :=
  ilog2Loop [(0xFFFF0000, 16), (0xFF00, 8), (0xF0, 4), (0xC, 2), (0x2, 1)] v 0

/-- What `update_routing_plan` computes: the globals of the component besides the parent and the
children. -/
structure DebruijnPlan where
  log_nranks : Nat
  log_npeers : Nat
  rank_mask : Nat
  parent : Nat
  children : List Child
  deriving DecidableEq

def logNpeers (log_nranks : Nat) : Nat :=
  if log_nranks < 3 then 1 else if log_nranks < 7 then 2 else 4

/-- `(log_nranks + log_npeers) & ~(log_npeers - 1)`, one more than the rounded `log_nranks`. -/
def width (log_nranks : Nat) : Nat :=
  (log_nranks + logNpeers log_nranks) &&& (4294967295 - (logNpeers log_nranks - 1))

def listedPeers (num_procs my_vpid log_npeers rank_mask shifted : Nat) : List Child :=
  (List.range (2 ^ log_npeers)).reverse.filterMap fun i =>
    let next := (shifted ||| i) &&& rank_mask
    if my_vpid < next ∧ (next : Int) < toInt num_procs then some ⟨next, opalBitmapConstruct⟩
      else none

def updateRoutingPlan (num_procs my_vpid : Nat) : Run DebruijnPlan := do
  let log_nranks := ilog2 num_procs
  -- `assert(log_nranks < 31)`
  if 31 ≤ log_nranks then .error .undefined
  else
    let log_npeers := logNpeers log_nranks
    let size ← intShiftLeft 1 (width log_nranks)
    let rank_mask := size - 1
    let parent := if my_vpid ≠ 0 then my_vpid >>> log_npeers else toVpid (-1)
    let children ←
      if my_vpid >>> (width log_nranks - log_npeers) = 0 then do
        let shifted ← intShiftLeft my_vpid log_npeers
        pure (listedPeers num_procs my_vpid log_npeers rank_mask shifted)
      else pure []
    pure ⟨width log_nranks - 1, log_npeers, rank_mask, parent, children⟩

/-- The loop of `debruijn_next_hop`; it ends with the number of bits to fill in and the joined word.
A shift by 32 or more is undefined, so it makes at most 33 turns. -/
def overlapLoop (log_npeers my_id target : Nat) : Nat → Nat → Nat → Run (Nat × Nat)
  | 0, _, _ => Run.outOfFuel
  | fuel + 1, i, mask => do
      let mask := (mask >>> i) <<< i
      let shifted ← intShiftLeft my_id i
      let route := shifted ||| target
      if route &&& mask ≠ (shifted &&& target) &&& mask then
        overlapLoop log_npeers my_id target fuel (i + log_npeers) mask
      else pure (i, route)

def debruijnNextHop (plan : DebruijnPlan) (num_procs my_id target : Nat) : Run Nat :=
  if target = my_id then pure my_id
  else do
    let overlap ← overlapLoop plan.log_npeers my_id target 34 0 plan.rank_mask
    -- with no bits to fill in, the shift below is by a negative number
    if overlap.1 < plan.log_npeers then .error .undefined
    else
      let next_hop := (overlap.2 >>> (overlap.1 - plan.log_npeers)) &&& plan.rank_mask
      pure (if next_hop < num_procs then next_hop
        else next_hop &&& (plan.rank_mask >>> plan.log_npeers))

/-- A target whose daemon is not known is sent to the parent. -/
def getRoute (plan : DebruijnPlan) (num_procs : Nat) (me : Process) (target : Name) : Run Name :=
  getRouteWith me.my_parent (fun vpid => do
    let next_hop ← debruijnNextHop plan num_procs me.my_name.vpid vpid
    pure ⟨me.my_name.jobid, next_hop⟩) me target

def stages : Nat → List (Nat × Nat)
  | 0 => []
  | stage + 1 => ((2 ^ 2 ^ stage - 1) * 2 ^ 2 ^ stage, 2 ^ stage) :: stages stage

theorem and_upper_half (small : v < 2 ^ half * 2 ^ half) :
    v &&& ((2 ^ half - 1) * 2 ^ half) = v / 2 ^ half * 2 ^ half := by
  have upper : v / 2 ^ half < 2 ^ half := Nat.div_lt_of_lt_mul small
  refine Nat.eq_of_testBit_eq fun bit => ?_
  rw [Nat.testBit_and, Nat.testBit_mul_two_pow, Nat.testBit_mul_two_pow,
    Nat.testBit_two_pow_sub_one, Nat.testBit_div_two_pow]
  by_cases above : half ≤ bit
  · have same : bit - half + half = bit := by omega
    rw [same]
    by_cases top : bit - half < half
    · simp [above, top]
    · have clear : v.testBit bit = false := by
        have := Nat.testBit_lt_two_pow
          (Nat.lt_of_lt_of_le upper (Nat.pow_le_pow_right (by decide) (Nat.not_lt.mp top)))
        rwa [Nat.testBit_div_two_pow, same] at this
      simp [clear]
  · simp [above]

theorem ilog2Loop_bounds (stage v r total : Nat) (positive : 0 < v) (small : v < 2 ^ 2 ^ stage)
    (multiple : 2 ^ stage ∣ r) (value : total / 2 ^ r = v) :
    2 ^ ilog2Loop (stages stage) v r ≤ total ∧ total < 2 ^ (ilog2Loop (stages stage) v r + 1) := by
  induction stage generalizing v r with
  | zero =>
    have one : v = 1 := by
      omega
    rw [one] at value
    rw [stages, ilog2Loop, Nat.pow_succ, Nat.mul_comm]
    constructor
    · simpa using (Nat.le_div_iff_mul_le (Nat.two_pow_pos r)).mp value.ge
    · exact (Nat.div_lt_iff_lt_mul (Nat.two_pow_pos r)).mp (by omega)
  | succ stage ih =>
    rw [stages, ilog2Loop]
    have square : 2 ^ 2 ^ (stage + 1) = 2 ^ 2 ^ stage * 2 ^ 2 ^ stage := by
      rw [← Nat.pow_add, Nat.pow_succ, Nat.mul_two]
    rw [square] at small
    rw [and_upper_half small]
    have half : 0 < 2 ^ 2 ^ stage := Nat.two_pow_pos _
    by_cases high : 2 ^ 2 ^ stage ≤ v
    · have quotient : 0 < v / 2 ^ 2 ^ stage := Nat.div_pos high half
      have joined : r ||| 2 ^ stage = r + 2 ^ stage := by
        obtain ⟨count, rfl⟩ := multiple
        exact (Nat.two_pow_add_eq_or_of_lt
          (Nat.pow_lt_pow_right (by decide) (Nat.lt_succ_self stage)) count).symm
      rw [if_pos (Nat.ne_of_gt (Nat.mul_pos quotient half)), joined, Nat.shiftRight_eq_div_pow]
      refine ih _ _ quotient (Nat.div_lt_of_lt_mul small) ?_ ?_
      · exact Nat.dvd_add (Nat.dvd_trans (Nat.pow_dvd_pow 2 (Nat.le_succ stage)) multiple)
          (Nat.dvd_refl _)
      · rw [Nat.pow_add, ← Nat.div_div_eq_div_mul, value]
    · have zero : v / 2 ^ 2 ^ stage = 0 := Nat.div_eq_of_lt (Nat.not_le.mp high)
      rw [zero, Nat.zero_mul]
      exact ih v r positive (Nat.not_le.mp high)
        (Nat.dvd_trans (Nat.pow_dvd_pow 2 (Nat.le_succ stage)) multiple) value

theorem ilog2_bounds (v : Nat) (positive : 0 < v) (small : v < 4294967296) :
    2 ^ ilog2 v ≤ v ∧ v < 2 ^ (ilog2 v + 1) :=
  ilog2Loop_bounds 5 v 0 v positive small (Nat.dvd_zero _) (Nat.div_one v)

end Orcm.DeBruijn
