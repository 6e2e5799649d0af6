import Mathlib.Order.Lattice.Nat
import Orcm.DeBruijn

/-!
Runs of the de Bruijn component. Up to 2^15 daemons every hop brings the sender's word one shift
nearer to the target's. With more daemons the words are moved out of the range of `int`.
-/

namespace Orcm.DeBruijnRoutes

open CInteger Routed Delivery ParentTree DeBruijn

/-- The width of the words and the shift of a hop: the words hold all daemons, and every word
without its first shift belongs to a daemon. -/
structure Shape (num_procs shift bits : Nat) : Prop where
  positive : 0 < shift
  multiple : shift ∣ bits
  holds : num_procs ≤ 2 ^ bits
  low : 2 ^ (bits - shift) ≤ num_procs
  wide : shift ≤ bits

theorem logs_shape : ∀ log < 31, 0 < logNpeers log ∧ logNpeers log ∣ width log ∧ log < width log ∧
    width log - logNpeers log ≤ log ∧ logNpeers log ≤ width log := by decide

variable {num_procs : Nat} {plan : DebruijnPlan}

theorem shape_of_ilog2 (some : 0 < num_procs) (inType : num_procs < 4294967296)
    (small : ilog2 num_procs < 31) :
    Shape num_procs (logNpeers (ilog2 num_procs)) (width (ilog2 num_procs)) := by
  obtain ⟨low, high⟩ := ilog2_bounds num_procs some inType
  obtain ⟨positive, multiple, above, below, wide⟩ := logs_shape _ small
  refine ⟨positive, multiple, ?_, ?_, wide⟩
  · exact Nat.le_trans (Nat.le_of_lt high) (Nat.pow_le_pow_right (by decide) above)
  · exact Nat.le_trans (Nat.pow_le_pow_right (by decide) below) low

def Overlaps (shift bits target word count : Nat) : Prop :=
  word % 2 ^ (bits - count * shift) = target / 2 ^ (count * shift)

noncomputable def missing (shift bits target word : Nat) : Nat :=
  sInf {count | Overlaps shift bits target word count}

theorem missing_le_of_overlaps {word : Nat} (overlaps : Overlaps shift bits target word count) :
    missing shift bits target word ≤ count := Nat.sInf_le overlaps

section Words

variable {num_procs shift bits : Nat} (shape : Shape num_procs shift bits) {target : Nat}
    (inside : target < 2 ^ bits)
  (word : Nat)
include shape inside

theorem overlaps_all : Overlaps shift bits target word (bits / shift) := by
  rw [Overlaps, Nat.div_mul_cancel shape.multiple, Nat.sub_self, Nat.pow_zero, Nat.mod_one,
    Nat.div_eq_of_lt inside]

theorem overlaps_missing : Overlaps shift bits target word (missing shift bits target word) := by
  have some : {count | Overlaps shift bits target word count}.Nonempty :=
    ⟨_, overlaps_all shape inside word⟩
  exact Nat.sInf_mem some

theorem missing_le : missing shift bits target word ≤ bits / shift :=
  missing_le_of_overlaps (overlaps_all shape inside word)

theorem missing_mul_le : missing shift bits target word * shift ≤ bits :=
  Nat.le_trans (Nat.mul_le_mul_right shift (missing_le shape inside word))
    (Nat.div_mul_le_self bits shift)

end Words

variable {i bound : Nat}

theorem testBit_mask :
    (((2 ^ bits - 1) >>> i) <<< i).testBit bit = (decide (i ≤ bit) && decide (bit < bits)) := by
  by_cases above : i ≤ bit
  · simp [above]
  · simp [above]

theorem mask_mask (bits : Nat) (later : i ≤ next) :
    (((((2 ^ bits - 1) >>> i) <<< i) >>> next) <<< next) = ((2 ^ bits - 1) >>> next) <<< next := by
  refine Nat.eq_of_testBit_eq fun bit => ?_
  by_cases above : next ≤ bit
  · have same : next + (bit - next) = bit := by omega
    have more : i ≤ bit := by omega
    simp [above, more]
  · simp [above]

theorem mask_shiftRight : (2 ^ bits - 1) >>> shift = 2 ^ (bits - shift) - 1 := by
  refine Nat.eq_of_testBit_eq fun bit => ?_
  rw [Nat.testBit_shiftRight, Nat.testBit_two_pow_sub_one, Nat.testBit_two_pow_sub_one]
  exact decide_eq_decide.mpr (by omega)

theorem test_iff {word : Nat} (inside : target < 2 ^ bits) :
    (word * 2 ^ i ||| target) &&& (((2 ^ bits - 1) >>> i) <<< i) =
        (word * 2 ^ i &&& target) &&& (((2 ^ bits - 1) >>> i) <<< i) ↔
      word % 2 ^ (bits - i) = target / 2 ^ i := by
  constructor
  · intro same
    refine Nat.eq_of_testBit_eq fun bit => ?_
    have agree := congrArg (fun value => value.testBit (i + bit)) same
    simp only [Nat.testBit_and, Nat.testBit_or, Nat.testBit_mul_two_pow, testBit_mask,
      Nat.le_add_right, decide_true, Bool.true_and, Nat.add_sub_cancel_left] at agree
    rw [Nat.testBit_mod_two_pow, Nat.testBit_div_two_pow, Nat.add_comm bit i]
    by_cases low : i + bit < bits
    · have below : bit < bits - i := by omega
      simp only [low, below, decide_true, Bool.and_true] at agree ⊢
      have equal : ∀ one other : Bool, (one || other) = (one && other) → one = other := by decide
      exact equal _ _ agree
    · have above : ¬ bit < bits - i := by omega
      have clear : target.testBit (i + bit) = false :=
        Nat.testBit_lt_two_pow
          (Nat.lt_of_lt_of_le inside (Nat.pow_le_pow_right (by decide) (Nat.not_lt.mp low)))
      simp [above, clear]
  · intro same
    refine Nat.eq_of_testBit_eq fun bit => ?_
    simp only [Nat.testBit_and, Nat.testBit_or, Nat.testBit_mul_two_pow, testBit_mask]
    by_cases above : i ≤ bit
    · have agree := congrArg (fun value => value.testBit (bit - i)) same
      simp only [Nat.testBit_mod_two_pow, Nat.testBit_div_two_pow] at agree
      by_cases low : bit < bits
      · have below : bit - i < bits - i := by omega
        simp only [below, decide_true] at agree
        simp [above, agree]
      · simp [low]
    · simp [above]

theorem next_word {word : Nat} (inside : target < 2 ^ bits) (enough : shift ≤ i) (within : i ≤ bits)
    (same : word % 2 ^ (bits - i) = target / 2 ^ i) :
    ((word * 2 ^ i ||| target) >>> (i - shift)) % 2 ^ (bits - (i - shift)) =
      target / 2 ^ (i - shift) := by
  refine Nat.eq_of_testBit_eq fun bit => ?_
  rw [Nat.testBit_mod_two_pow, Nat.testBit_shiftRight, Nat.testBit_or, Nat.testBit_mul_two_pow,
    Nat.testBit_div_two_pow, Nat.add_comm bit]
  by_cases low : bit < bits - (i - shift)
  · by_cases own : i ≤ i - shift + bit
    · -- these bits of the sender are those of the target
      have agree := congrArg (fun value => value.testBit (i - shift + bit - i)) same
      simp only [Nat.testBit_mod_two_pow, Nat.testBit_div_two_pow, Nat.sub_add_cancel own] at agree
      have below : i - shift + bit - i < bits - i := by omega
      simp only [below, decide_true, Bool.true_and] at agree
      simp [low, agree]
    · simp [low, own]
  · have clear : target.testBit (i - shift + bit) = false :=
      Nat.testBit_lt_two_pow
        (Nat.lt_of_lt_of_le inside (Nat.pow_le_pow_right (by decide) (by omega)))
    simp [low, clear]

section Hops

variable {num_procs shift bits : Nat} (shape : Shape num_procs shift bits) (fits : bits < 32)
  {word target : Nat} (inside : target < 2 ^ bits) (range : word * 2 ^ bits ≤ 2147483647)
include shape fits inside range

theorem overlapLoop_ok (fuel count mask : Nat)
    (masked : (mask >>> (count * shift)) <<< (count * shift) = ((2 ^ bits - 1) >>> (count * shift))
      <<< (count * shift))
    (reached : count ≤ missing shift bits target word)
    (enough : missing shift bits target word < fuel + count) :
    overlapLoop shift word target fuel (count * shift) mask =
      .ok (missing shift bits target word * shift,
        word * 2 ^ (missing shift bits target word * shift) ||| target) := by
  have most := missing_mul_le shape inside word
  induction fuel generalizing count mask with
  | zero => omega
  | succ fuel ih =>
    have within : count * shift ≤ bits := Nat.le_trans (Nat.mul_le_mul_right shift reached) most
    have bounded : word * 2 ^ (count * shift) ≤ 2147483647 :=
      Nat.le_trans (Nat.mul_le_mul_left _ (Nat.pow_le_pow_right (by decide) within)) range
    rw [overlapLoop]
    simp only [masked]
    rw [intShiftLeft, if_pos ⟨by omega, bounded⟩, Run.ok_bind]
    simp only [ne_eq, test_iff inside]
    by_cases here : word % 2 ^ (bits - count * shift) = target / 2 ^ (count * shift)
    · have same : missing shift bits target word = count :=
        Nat.le_antisymm (missing_le_of_overlaps here) reached
      rw [if_neg (not_not.mpr here), same]
      rfl
    · have later : count ≠ missing shift bits target word := fun same =>
        here (same ▸ overlaps_missing shape inside word)
      rw [if_pos here, ← Nat.succ_mul]
      have masks := mask_mask bits (Nat.mul_le_mul_right shift (Nat.le_succ count))
      exact ih (count + 1) _ masks (by omega) (by omega)

theorem debruijnNextHop_closer (shiftEq : plan.log_npeers = shift)
    (maskEq : plan.rank_mask = 2 ^ bits - 1)
    (wordMember : word < num_procs) (targetMember : target < num_procs) (away : word ≠ target) :
    ∃ via, debruijnNextHop plan num_procs word target = .ok via ∧ via < num_procs ∧
      missing shift bits target via < missing shift bits target word := by
  have most := missing_mul_le shape inside word
  have bound := missing_le shape inside word
  have overlap := overlaps_missing shape inside word
  have few : bits / shift ≤ bits := Nat.div_le_self _ _
  have looped :=
    overlapLoop_ok shape fits inside range 34 0 (2 ^ bits - 1) rfl (Nat.zero_le _) (by omega)
  rw [Nat.zero_mul] at looped
  -- a word that overlaps completely is the target's
  have whole : ∀ other < 2 ^ bits, Overlaps shift bits target other 0 → other = target := by
    intro other small overlaps
    rwa [Overlaps, Nat.zero_mul, Nat.pow_zero, Nat.div_one, Nat.sub_zero,
      Nat.mod_eq_of_lt small] at overlaps
  obtain ⟨rest, same⟩ : ∃ rest, missing shift bits target word = rest + 1 := by
    refine Nat.exists_eq_succ_of_ne_zero fun zero =>
      away (whole word (Nat.lt_of_lt_of_le wordMember shape.holds) ?_)
    rw [← zero]
    exact overlap
  have back : (rest + 1) * shift - shift = rest * shift := by rw [Nat.succ_mul, Nat.add_sub_cancel]
  rw [same] at looped most overlap
  have next := next_word inside (Nat.le_mul_of_pos_left shift (Nat.succ_pos rest)) most overlap
  rw [back] at next
  generalize moved : (word * 2 ^ ((rest + 1) * shift) ||| target) >>> (rest * shift) =
    joined at next
  have cut : ∀ cutoff ≤ bits, bits - rest * shift ≤ cutoff →
      Overlaps shift bits target (joined % 2 ^ cutoff) rest := by
    intro cutoff _ enough
    rw [Overlaps, Nat.mod_mod_of_dvd _ (Nat.pow_dvd_pow 2 enough), next]
  have hop := cut bits (Nat.le_refl _) (Nat.sub_le _ _)
  have nonzero : ¬ (rest + 1) * shift < shift :=
    Nat.not_lt.mpr (Nat.le_mul_of_pos_left shift (Nat.succ_pos rest))
  rw [debruijnNextHop, if_neg (Ne.symm away), shiftEq, maskEq, looped, Run.ok_bind, if_neg nonzero]
  simp only [back, moved, mask_shiftRight, Nat.and_two_pow_sub_one_eq_mod]
  by_cases present : joined % 2 ^ bits < num_procs
  · rw [if_pos present]
    exact ⟨_, rfl, present, same ▸ Nat.lt_succ_of_le (missing_le_of_overlaps hop)⟩
  · -- the target has not been reached yet, so at least one shift may be cut off
    have more : rest ≠ 0 := by
      rintro rfl
      exact present (whole _ (Nat.mod_lt _ (Nat.two_pow_pos bits)) hop ▸ targetMember)
    have enough : shift ≤ rest * shift := Nat.le_mul_of_pos_left shift (Nat.pos_of_ne_zero more)
    rw [if_neg present, Nat.mod_mod_of_dvd _ (Nat.pow_dvd_pow 2 (Nat.sub_le bits shift))]
    refine ⟨_, rfl, Nat.lt_of_lt_of_le (Nat.mod_lt _ (Nat.two_pow_pos _)) shape.low, ?_⟩
    exact same ▸ Nat.lt_succ_of_le (missing_le_of_overlaps (cut _ (Nat.sub_le _ _) (by omega)))

end Hops

noncomputable def filled (shift word : Nat) : Nat := sInf {count | word < 2 ^ (count * shift)}

theorem filled_le {word count : Nat} (small : word < 2 ^ (count * shift)) :
    filled shift word ≤ count :=
  Nat.sInf_le small

theorem filled_parent {word : Nat} (small : word < 2 ^ (bound * shift)) (proper : word ≠ 0) :
    filled shift (word >>> shift) < filled shift word := by
  have some : {count | word < 2 ^ (count * shift)}.Nonempty := ⟨bound, small⟩
  have fills : word < 2 ^ (filled shift word * shift) := Nat.sInf_mem some
  obtain ⟨rest, same⟩ : ∃ rest, filled shift word = rest + 1 := by
    refine Nat.exists_eq_succ_of_ne_zero fun zero => proper ?_
    rw [zero, Nat.zero_mul] at fills
    omega
  rw [same, Nat.succ_mul, Nat.pow_add] at fills
  rw [same, Nat.shiftRight_eq_div_pow]
  exact Nat.lt_succ_of_le (filled_le (Nat.div_lt_of_lt_mul (Nat.mul_comm .. ▸ fills)))

structure Planned (num_procs vpid : Nat) (plan : DebruijnPlan) : Prop where
  log_nranks : plan.log_nranks = width (ilog2 num_procs) - 1
  log_npeers : plan.log_npeers = logNpeers (ilog2 num_procs)
  rank_mask : plan.rank_mask = 2 ^ width (ilog2 num_procs) - 1
  parent : vpid ≠ 0 → plan.parent = vpid >>> logNpeers (ilog2 num_procs)

theorem updateRoutingPlan_eq (small : ilog2 num_procs < 31)
    (narrow : width (ilog2 num_procs) ≤ 30) :
    updateRoutingPlan num_procs vpid = .ok
      { log_nranks := width (ilog2 num_procs) - 1
        log_npeers := logNpeers (ilog2 num_procs)
        rank_mask := 2 ^ width (ilog2 num_procs) - 1
        parent := if vpid ≠ 0 then vpid >>> logNpeers (ilog2 num_procs) else toVpid (-1)
        children :=
          if vpid >>> (width (ilog2 num_procs) - logNpeers (ilog2 num_procs)) = 0 then
            listedPeers num_procs vpid (logNpeers (ilog2 num_procs))
              (2 ^ width (ilog2 num_procs) - 1)
              (vpid * 2 ^ logNpeers (ilog2 num_procs))
          else [] } := by
  obtain ⟨-, -, -, -, wide⟩ := logs_shape _ small
  have power : 2 ^ width (ilog2 num_procs) ≤ 2 ^ 30 := Nat.pow_le_pow_right (by decide) narrow
  simp only [updateRoutingPlan]
  rw [if_neg (by omega), intShiftLeft, Nat.one_mul, if_pos ⟨by omega, by omega⟩, Run.ok_bind]
  split
  · rename_i low
    have bounded : vpid * 2 ^ logNpeers (ilog2 num_procs) ≤ 2147483647 := by
      rw [Nat.shiftRight_eq_div_pow, Nat.div_eq_zero_iff_lt (Nat.two_pow_pos _)] at low
      have := Nat.mul_le_mul_right (2 ^ logNpeers (ilog2 num_procs)) (Nat.le_of_lt low)
      rw [← Nat.pow_add, Nat.sub_add_cancel wide] at this
      omega
    rw [intShiftLeft, if_pos ⟨by omega, bounded⟩]
    rfl
  · rfl

theorem updateRoutingPlan_ok (small : ilog2 num_procs < 31)
    (narrow : width (ilog2 num_procs) ≤ 30) :
    ∃ plan, updateRoutingPlan num_procs vpid = .ok plan ∧ Planned num_procs vpid plan :=
  ⟨_, updateRoutingPlan_eq small narrow, rfl, rfl, rfl, fun proper => if_pos proper⟩

theorem narrow_of_plan (computed : updateRoutingPlan num_procs vpid = .ok plan) :
    ilog2 num_procs < 31 ∧ width (ilog2 num_procs) ≤ 30 := by
  simp only [updateRoutingPlan] at computed
  split at computed
  · cases computed
  · rename_i small
    obtain ⟨size, shifted, -⟩ := (Run.bind_eq_ok ..).mp computed
    rw [intShiftLeft] at shifted
    split at shifted
    · rename_i bounded
      refine ⟨by omega, Nat.le_of_lt_succ ?_⟩
      have : 2 ^ width (ilog2 num_procs) < 2 ^ 31 := by omega
      exact (Nat.pow_lt_pow_iff_right (by decide)).mp this
    · cases shifted

def NextRoute (num_procs : Nat) (daemons : Daemons) (plan : Nat → DebruijnPlan)
    (target vpid via : Nat) : Prop :=
  getRoute (plan vpid) num_procs (daemons.process vpid (plan vpid).parent) ⟨daemons.jobid, target⟩ =
    .ok ⟨daemons.jobid, via⟩

/-- The message arrives; it stays among the daemons, and the number of hops is at most the width of
the words divided by the shift, rounded up. -/
def Arrives (num_procs : Nat) (plan : DebruijnPlan) (next : Nat → Nat → Prop)
    (source target : Nat) : Prop :=
  ∃ path, Route next target source path ∧ (∀ vpid ∈ path, vpid < num_procs) ∧
    path.length ≤ (plan.log_nranks + 1 + (plan.log_npeers - 1)) / plan.log_npeers + 1

/-- Every daemon computes its plan, and messages arrive by the next hops and by the routes. -/
def Delivers (daemons : Daemons) (num_procs : Nat) : Prop :=
  ∃ plan : Nat → DebruijnPlan,
    (∀ vpid < num_procs, updateRoutingPlan num_procs vpid = .ok (plan vpid)) ∧
    ∀ source < num_procs, ∀ target < num_procs,
      Arrives num_procs (plan source)
        (fun vpid via => debruijnNextHop (plan vpid) num_procs vpid target = .ok via)
        source target ∧
      Arrives num_procs (plan source) (NextRoute num_procs daemons plan target) source target

theorem arrives_of_distance (shape : Shape num_procs shift bits)
    (bitsEq : plan.log_nranks = bits - 1) (shiftEq : plan.log_npeers = shift)
    (next : Nat → Nat → Prop)
    (source target : Nat) (member : source < num_procs) (distance : Nat → Nat)
    (bound : distance source ≤ bits / shift) (closer : ∀ vpid < num_procs, vpid ≠ target →
      ∃ via, next vpid via ∧ via < num_procs ∧ distance via < distance vpid) :
    Arrives num_procs plan next source target := by
  obtain ⟨path, route, -, short, inside⟩ :=
    route_of_distance (· < num_procs) distance closer source member
  refine ⟨path, route, fun vpid present => (inside vpid present).1, ?_⟩
  have positive := shape.positive
  have hops : bits / shift ≤ (bits - 1 + 1 + (shift - 1)) / shift := Nat.div_le_div_right (by omega)
  rw [bitsEq, shiftEq]
  omega

section Small

variable {num_procs : Nat} (small : num_procs ≤ 32768)
include small

theorem narrow_of_small (some : 0 < num_procs) : ilog2 num_procs < 16 := by
  obtain ⟨low, -⟩ := ilog2_bounds num_procs some (by omega)
  have : 2 ^ ilog2 num_procs < 2 ^ 16 := by omega
  exact (Nat.pow_lt_pow_iff_right (by decide)).mp this

theorem width_of_small (some : 0 < num_procs) : width (ilog2 num_procs) ≤ 16 := by
  have narrow : ∀ log < 16, width log ≤ 16 := by decide
  exact narrow _ (narrow_of_small small some)

/-- No word of a daemon is moved out of the range of `int`. -/
theorem range_of_small (member : vpid < num_procs) :
    vpid * 2 ^ width (ilog2 num_procs) ≤ 2147483647 := by
  have power : 2 ^ width (ilog2 num_procs) ≤ 2 ^ 16 :=
    Nat.pow_le_pow_right (by decide) (width_of_small small (Nat.zero_lt_of_lt member))
  calc vpid * 2 ^ width (ilog2 num_procs) ≤ vpid * 2 ^ 16 := Nat.mul_le_mul_left _ power
    _ ≤ 2147483647 := by omega

theorem planned_of_small (vpid : Nat) (member : vpid < num_procs) :
    ∃ plan, updateRoutingPlan num_procs vpid = .ok plan ∧ Planned num_procs vpid plan := by
  have log := narrow_of_small small (Nat.zero_lt_of_lt member)
  have bits := width_of_small small (Nat.zero_lt_of_lt member)
  exact updateRoutingPlan_ok (by omega) (by omega)

theorem shape_of_small (some : 0 < num_procs) :
    Shape num_procs (logNpeers (ilog2 num_procs)) (width (ilog2 num_procs)) := by
  have log := narrow_of_small small some
  exact shape_of_ilog2 some (by omega) (by omega)

theorem nextHop_closer (planned : Planned num_procs vpid plan) (member : vpid < num_procs)
    (targetMember : target < num_procs) (away : vpid ≠ target) :
    ∃ via, debruijnNextHop plan num_procs vpid target = .ok via ∧ via < num_procs ∧
      missing (logNpeers (ilog2 num_procs)) (width (ilog2 num_procs)) target via <
        missing (logNpeers (ilog2 num_procs)) (width (ilog2 num_procs)) target vpid := by
  have some := Nat.zero_lt_of_lt member
  have bits := width_of_small small some
  have shape := shape_of_small small some
  have inside : target < 2 ^ width (ilog2 num_procs) := Nat.lt_of_lt_of_le targetMember shape.holds
  exact debruijnNextHop_closer shape (by omega) inside (range_of_small small member)
    planned.log_npeers
    planned.rank_mask member targetMember away

section Routes

variable (daemons : Daemons) (plan : Nat → DebruijnPlan)
  (planned : ∀ vpid < num_procs, Planned num_procs vpid (plan vpid))
include planned

theorem route_closer_to_hnp (member : vpid < num_procs) (away : vpid ≠ 0)
    (fills : vpid < 2 ^ (bound * logNpeers (ilog2 num_procs))) :
    ∃ via, NextRoute num_procs daemons plan 0 vpid via ∧ via < num_procs ∧
      filled (logNpeers (ilog2 num_procs)) via < filled (logNpeers (ilog2 num_procs)) vpid := by
  have nearer := filled_parent fills away
  have answer := getRouteWith_daemon daemons (plan vpid).parent
    (daemons.process vpid (plan vpid).parent).my_parent (fun other => do
      let next_hop ← debruijnNextHop (plan vpid) num_procs vpid other
      pure ⟨daemons.jobid, next_hop⟩) away (by simp only [wildcardId]; omega) (by decide)
  by_cases up : (!daemons.hnp_direct vpid || daemons.static_ports) = true
  · refine ⟨(plan vpid).parent, answer.trans (by rw [if_pos rfl, if_pos up]; rfl), ?_⟩
    rw [(planned vpid member).parent away]
    exact ⟨Nat.lt_of_le_of_lt (Nat.shiftRight_le _ _) member, nearer⟩
  · refine ⟨0, answer.trans (by rw [if_pos rfl, if_neg up]; rfl), Nat.zero_lt_of_lt member, ?_⟩
    exact Nat.lt_of_le_of_lt (filled_le (Nat.two_pow_pos _)) (Nat.zero_lt_of_lt nearer)

theorem route_closer (member : vpid < num_procs) (targetMember : target < num_procs)
    (away : vpid ≠ target) (proper : target ≠ 0) :
    ∃ via, NextRoute num_procs daemons plan target vpid via ∧ via < num_procs ∧
      missing (logNpeers (ilog2 num_procs)) (width (ilog2 num_procs)) target via <
        missing (logNpeers (ilog2 num_procs)) (width (ilog2 num_procs)) target vpid := by
  obtain ⟨via, hop, closer⟩ :=
    nextHop_closer small (planned vpid member) member targetMember away
  have answer := getRouteWith_daemon daemons (plan vpid).parent
    (daemons.process vpid (plan vpid).parent).my_parent (fun other => do
      let next_hop ← debruijnNextHop (plan vpid) num_procs vpid other
      pure ⟨daemons.jobid, next_hop⟩) away (by simp only [wildcardId]; omega)
        (by simp only [wildcardId]; omega)
  refine ⟨via, answer.trans ?_, closer⟩
  rw [if_neg proper, hop]
  rfl

end Routes

theorem delivers_of_small {daemons : Daemons} : Delivers daemons num_procs := by
  have : Nonempty DebruijnPlan := ⟨⟨0, 0, 0, 0, []⟩⟩
  choose! plan computed planned using planned_of_small small
  refine ⟨plan, computed, fun source sourceMember target member => ?_⟩
  have shape := shape_of_small small (Nat.zero_lt_of_lt member)
  have inside : target < 2 ^ width (ilog2 num_procs) := Nat.lt_of_lt_of_le member shape.holds
  have arrives := arrives_of_distance shape (planned source sourceMember).log_nranks
    (planned source sourceMember).log_npeers
  constructor
  · exact arrives _ source target sourceMember _ (missing_le shape inside source)
      fun vpid vpidMember away =>
      nextHop_closer small (planned vpid vpidMember) vpidMember member away
  · by_cases hnp : target = 0
    · subst hnp
      have fills : ∀ vpid < num_procs,
          vpid < 2 ^ (width (ilog2 num_procs) / logNpeers (ilog2 num_procs) * logNpeers
            (ilog2 num_procs)) := by
        intro vpid vpidMember
        rw [Nat.div_mul_cancel shape.multiple]
        exact Nat.lt_of_lt_of_le vpidMember shape.holds
      exact arrives _ source 0 sourceMember _ (filled_le (fills source sourceMember))
        fun vpid vpidMember away =>
        route_closer_to_hnp small daemons plan planned vpidMember away (fills vpid vpidMember)
    · exact arrives _ source target sourceMember _ (missing_le shape inside source)
        fun vpid vpidMember away =>
        route_closer small daemons plan planned vpidMember member away hnp

end Small

/-- The word of daemon 32768 has no overlap with that of daemon 4096 until it is moved by 16
bits. -/
theorem overlapLoop_overflow : ∀ bits ∈ [16, 20, 24, 28],
    overlapLoop 4 32768 4096 34 0 (2 ^ bits - 1) = .error .undefined := by
  decide +kernel

theorem large_shapes :
    ∀ log < 31, 15 ≤ log → width log ≤ 30 → logNpeers log = 4 ∧ width log ∈ [16, 20, 24, 28] := by
  decide

theorem no_hop_of_large (large : 32768 < num_procs) (inType : num_procs < 4294967296)
    (computed : updateRoutingPlan num_procs 32768 = .ok plan) :
    debruijnNextHop plan num_procs 32768 4096 ≠ .ok via := by
  intro hop
  obtain ⟨small, narrow⟩ := narrow_of_plan computed
  obtain ⟨-, high⟩ := ilog2_bounds num_procs (by omega) inType
  have least : 15 ≤ ilog2 num_procs := by
    have : 2 ^ 15 < 2 ^ (ilog2 num_procs + 1) := by omega
    have := (Nat.pow_lt_pow_iff_right (by decide)).mp this
    omega
  obtain ⟨shift, bits⟩ := large_shapes _ small least narrow
  obtain ⟨other, again, planned⟩ := updateRoutingPlan_ok small narrow
  obtain rfl : plan = other := Except.ok.inj (computed.symm.trans again)
  rw [debruijnNextHop, if_neg (by decide), planned.log_npeers, planned.rank_mask, shift,
    overlapLoop_overflow _ bits] at hop
  cases hop

/-- All messages arrive in time exactly when there are at most 2^15 daemons. -/
theorem debruijn_routing_iff (daemons : Daemons) (num_procs : Nat)
    (inType : num_procs < 4294967296) :
    Delivers daemons num_procs ↔ num_procs ≤ 32768 := by
  refine ⟨fun ⟨plan, computed, delivers⟩ => ?_, fun small => delivers_of_small small⟩
  by_contra large
  obtain ⟨⟨path, route, -⟩, -⟩ := delivers 32768 (by omega) 4096 (by omega)
  cases route with
  | hop _ via path away step =>
    exact no_hop_of_large (by omega) inType (computed 32768 (by omega)) step

/-- Ten daemons, with words of four bits and hops by two. -/
theorem debruijn_routing_ten : 10 < 4294967296 ∧ Delivers plainDaemons 10 :=
  ⟨by decide, (debruijn_routing_iff plainDaemons 10 (by decide)).mpr (by decide)⟩

/-- With one daemon more than 2^15, the next hop of daemon 32768 for daemon 4096 is undefined: its
word moved by 16 bits is not an `int`. From 2^28 daemons on there is no plan, because the mask of 32
bits is shifted out of an `int`. -/
theorem debruijn_hop_overflows :
    (∃ plan, updateRoutingPlan 32769 32768 = .ok plan ∧
      debruijnNextHop plan 32769 32768 4096 = .error .undefined) ∧
      updateRoutingPlan 268435456 1 = .error .undefined := by
  exact ⟨⟨⟨15, 4, 65535, 2048, []⟩, by decide +kernel, by decide +kernel⟩, by decide +kernel⟩

/-- Every daemon computes its plan, and the plans are those of one tree. -/
def BuildsTree (num_procs : Nat) : Prop :=
  ∃ plan : Nat → DebruijnPlan,
    (∀ vpid < num_procs, updateRoutingPlan num_procs vpid = .ok (plan vpid)) ∧
    SpanningTree (· < num_procs) 0 (fun vpid => (plan vpid).parent) fun vpid =>
      (plan vpid).children.map Child.vpid

section Tree

variable {shift bits vpid : Nat} (shape : Shape num_procs shift bits)
include shape

theorem listedPeers_vpids (small : num_procs ≤ 2147483647) :
    (if vpid >>> (bits - shift) = 0 then listedPeers num_procs vpid shift (2 ^ bits - 1)
      (vpid * 2 ^ shift) else []).map
      Child.vpid =
      ((List.range (2 ^ shift)).reverse.map (vpid * 2 ^ shift + ·)).filter fun child =>
        vpid < child ∧ child < num_procs := by
  have counted : CLibrary.toInt num_procs = num_procs :=
    CLibrary.toInt_of_nonneg (by omega) (by simpa [CLibrary.intMax])
  have power : 2 ^ bits = 2 ^ (bits - shift) * 2 ^ shift := by
    rw [← Nat.pow_add, Nat.sub_add_cancel shape.wide]
  have low_iff : vpid >>> (bits - shift) = 0 ↔ vpid < 2 ^ (bits - shift) := by
    rw [Nat.shiftRight_eq_div_pow, Nat.div_eq_zero_iff_lt (Nat.two_pow_pos _)]
  rw [if_congr low_iff rfl rfl]
  split
  · rename_i low
    have room := Nat.mul_le_mul_right (2 ^ shift) low
    rw [listedPeers, List.map_filterMap, ← List.filterMap_eq_filter, List.filterMap_map]
    refine List.filterMap_congr fun i member => ?_
    have bound : i < 2 ^ shift := by simpa using member
    have next : (vpid * 2 ^ shift ||| i) &&& (2 ^ bits - 1) = vpid * 2 ^ shift + i := by
      rw [Nat.mul_comm, ← Nat.two_pow_add_eq_or_of_lt bound, Nat.and_two_pow_sub_one_eq_mod,
        Nat.mul_comm, Nat.mod_eq_of_lt (by rw [Nat.succ_mul] at room; omega)]
    simp only [next, counted, Function.comp_apply, Option.guard, decide_eq_true_eq, Nat.cast_lt]
    split <;> rfl
  · -- the words of its children would be too wide
    rename_i high
    have beyond := Nat.mul_le_mul_right (2 ^ shift) (Nat.not_lt.mp high)
    have holds := shape.holds
    rw [List.map_nil, eq_comm, List.filter_eq_nil_iff]
    intro child member
    obtain ⟨i, -, rfl⟩ := List.mem_map.mp member
    simp only [decide_eq_true_eq]
    omega

theorem mem_peers :
    child ∈ ((List.range (2 ^ shift)).reverse.map (node * 2 ^ shift + ·)).filter
      (fun child => node < child ∧ child < num_procs) ↔
      child < num_procs ∧ child ≠ 0 ∧ child >>> shift = node := by
  have wide : 1 < 2 ^ shift := Nat.one_lt_two_pow (Nat.ne_of_gt shape.positive)
  have split := Nat.div_add_mod child (2 ^ shift)
  rw [Nat.shiftRight_eq_div_pow, List.mem_filter, List.mem_map, decide_eq_true_eq]
  constructor
  · rintro ⟨⟨i, member, rfl⟩, above, inside⟩
    refine ⟨inside, by omega, ?_⟩
    have bound : i < 2 ^ shift := by simpa using member
    rw [Nat.mul_comm, Nat.mul_add_div (by omega), Nat.div_eq_of_lt bound, Nat.add_zero]
  · rintro ⟨inside, proper, rfl⟩
    refine ⟨⟨child % 2 ^ shift, by simp [Nat.mod_lt], by rw [Nat.mul_comm]; exact split⟩,
      ?_, inside⟩
    exact Nat.div_lt_self (Nat.pos_of_ne_zero proper) wide

end Tree

/-- The plans are those of one tree as long as the words are `int` values, whatever the number of
daemons. -/
theorem debruijn_tree_iff (num_procs : Nat) (some : 0 < num_procs)
    (inType : num_procs < 4294967296) :
    BuildsTree num_procs ↔ num_procs < 268435456 := by
  obtain ⟨low, high⟩ := ilog2_bounds num_procs some inType
  constructor
  · rintro ⟨plan, computed, -⟩
    obtain ⟨small, narrow⟩ := narrow_of_plan (computed 0 some)
    have few : ∀ log < 31, width log ≤ 30 → log < 28 := by decide
    have := Nat.pow_le_pow_right (show 0 < 2 by decide) (few _ small narrow)
    omega
  · intro few
    have small : ilog2 num_procs < 28 :=
      (Nat.pow_lt_pow_iff_right (show 1 < 2 by decide)).mp (by omega)
    have narrow : ∀ log < 28, width log ≤ 30 := by decide
    have shape := shape_of_ilog2 some inType (by omega)
    have rises : ∀ node < num_procs, node ≠ 0 →
        (if node ≠ 0 then node >>> logNpeers (ilog2 num_procs) else toVpid (-1)) < node := by
      intro node _ proper
      rw [if_pos proper, Nat.shiftRight_eq_div_pow]
      exact Nat.div_lt_self (Nat.pos_of_ne_zero proper)
        (Nat.one_lt_two_pow (Nat.ne_of_gt shape.positive))
    refine ⟨_, fun vpid _ => updateRoutingPlan_eq (by omega) (narrow _ small), some, ?_, ?_, ?_, ?_⟩
    · exact fun node member proper => (rises node member proper).trans member
    · intro node member proper
      simp only [listedPeers_vpids shape (by omega)]
      refine List.count_eq_one_of_mem ?_
        ((mem_peers shape).mpr ⟨member, proper, (if_pos proper).symm⟩)
      exact ((List.nodup_reverse.mpr List.nodup_range).map fun _ _ => Nat.add_left_cancel).filter _
    · intro node member child listed
      simp only [listedPeers_vpids shape (show num_procs ≤ 2147483647 by omega)] at listed
      obtain ⟨inside, proper, parent⟩ := (mem_peers shape).mp listed
      exact ⟨inside, proper, (if_pos proper).trans parent⟩
    · exact reached_of_height id rises fun node member proper =>
        (rises node member proper).trans member

theorem debruijn_tree_ten : 0 < 10 ∧ 10 < 4294967296 ∧ BuildsTree 10 :=
  ⟨by decide, by decide, (debruijn_tree_iff 10 (by decide) (by decide)).mpr (by decide)⟩

/-- The mask is shifted out of an `int`. -/
theorem debruijn_mask_overflows : ¬ BuildsTree 268435456 := by
  rintro ⟨plan, computed, -⟩
  exact absurd (narrow_of_plan (computed 1 (by decide))) (by decide +kernel)

end Orcm.DeBruijnRoutes
