import Mathlib.Data.Nat.Log
import Mathlib.Data.Nat.ModEq
import Orcm.AllgatherNetwork

/-!
Recursive doubling and the algorithm of Bruck as patterns of levels. Recursive doubling is exact for
every power of two, but its mask has one word for each level and one bit for each distance. The
algorithm of Bruck repeats ranks in groups of any other size.
-/

namespace Orcm.DoublingAlgorithms

open DistanceAllgather Doubling AllgatherDaemon AllgatherNetwork List

theorem perm_finRange {size : Nat} {ranks : List (Fin size)} (distinct : ranks.Nodup)
    (length : ranks.length = size) :
    ranks.Perm (List.finRange size) := by
  rw [perm_ext_iff_of_nodup distinct (nodup_finRange size)]
  have all : ranks.toFinset = Finset.univ := by
    rw [← Finset.card_eq_iff_eq_univ, toFinset_card_of_nodup distinct, length, Fintype.card_fin]
  intro rank
  have member : rank ∈ ranks.toFinset := all ▸ Finset.mem_univ rank
  exact iff_of_true (List.mem_toFinset.mp member) (mem_finRange rank)

def partner (size level : Nat) (rank : Fin size) : Fin size :=
  if inside : rank.val ^^^ 2 ^ level < size then ⟨rank.val ^^^ 2 ^ level, inside⟩ else rank

variable {level : Nat}

section Exchange

variable {size exponent : Nat} (power : size = 2 ^ exponent)
include power

theorem partner_val (bound : level < exponent) (rank : Fin size) :
    (partner size level rank).val = rank.val ^^^ 2 ^ level := by
  subst power
  have inside : rank.val ^^^ 2 ^ level < 2 ^ exponent :=
    Nat.xor_lt_two_pow rank.isLt (Nat.pow_lt_pow_right (by omega) bound)
  rw [partner, dif_pos inside]

theorem partner_partner (level : Nat) (bound : level < exponent) (rank : Fin size) :
    partner size level (partner size level rank) = rank := by
  apply Fin.ext
  rw [partner_val power bound, partner_val power bound, Nat.xor_assoc, Nat.xor_self, Nat.xor_zero]

def exchange : Pattern (Fin size) where
  levels := exponent
  source := partner size
  target := partner size
  source_target := partner_partner power
  target_source := partner_partner power

/-- Before a level, the ranks that differ only in lower bits have been collected, each once. -/
theorem exchange_content (bound : level ≤ exponent) :
    ((exchange power).content level rank).Nodup ∧
      ∀ other ∈ (exchange power).content level rank, other.val >>> level = rank.val >>> level := by
  induction level generalizing rank with
  | zero => simp [Pattern.content]
  | succ level ih =>
    obtain ⟨distinct, own⟩ := ih (by omega)
    obtain ⟨otherDistinct, others⟩ := ih (by omega)
    have flipped : (partner size level rank).val >>> level = rank.val >>> level ^^^ 1 := by
      rw [partner_val power (by omega), Nat.shiftRight_xor_distrib,
        Nat.shiftRight_eq_div_pow (2 ^ level), Nat.div_self (Nat.two_pow_pos level)]
    rw [flipped] at others
    constructor
    · rw [Pattern.content, nodup_append]
      refine ⟨distinct, otherDistinct, ?_⟩
      rintro common mine _ theirs rfl
      have same := (own common mine).symm.trans (others common theirs)
      have cancelled := congrArg (rank.val >>> level ^^^ ·) same
      rw [Nat.xor_self, ← Nat.xor_assoc, Nat.xor_self, Nat.zero_xor] at cancelled
      cases cancelled
    · intro other member
      rw [Nat.shiftRight_add, Nat.shiftRight_add rank.val]
      rcases List.mem_append.mp member with mine | theirs
      · rw [own other mine]
      · rw [others other theirs, Nat.shiftRight_xor_distrib]
        exact Nat.xor_zero _

theorem exchange_all (rank : Fin size) :
    ((exchange power).content exponent rank).Perm (List.finRange size) :=
  perm_finRange (exchange_content power (Nat.le_refl _)).1 (content_length.trans power.symm)

end Exchange

theorem rcd_slot : rcd.slot (2 ^ level) = some level := by
  change (if 2 ^ level = 0 then none else some (2 ^ level).log2) = some level
  rw [if_neg (Nat.two_pow_pos level).ne', Nat.log2_two_pow]

variable (group : Group)

theorem rcd_suits (power : group.dmns.length = 2 ^ exponent) :
    Suits rcd group (exchange power) where
  levels level := by
    have powers : 2 ^ level < 2 ^ exponent ↔ level < exponent := Nat.pow_lt_pow_iff_right (by omega)
    rw [← power] at powers
    exact powers.symm
  peer level bound rank := (partner_val power bound rank).symm
  slot level bound := by
    refine ⟨level, ?_, ?_⟩
    · change level < Nat.log2 group.dmns.length
      rw [power, Nat.log2_two_pow]
      exact bound
    · exact rcd_slot
  slot_injective level _ other _ same := by
    rw [rcd_slot, rcd_slot] at same
    exact Option.some.inj same
  overflow index found := by cases found
  mask several := by
    change (if 1 < group.dmns.length then some group.dmns.length.log2 else none).isSome = true
    rw [if_pos several]
    rfl

theorem rcd_implements {group : Group} (power : group.dmns.length = 2 ^ exponent) :
    Implements rcdComponent rcd group where
  allgather me coll := by
    apply if_pos
    rw [power, Nat.and_two_pow_sub_one_eq_mod, Nat.mod_self]
  recvDist _ _ _ _ := rfl

theorem room_small : ∀ exponent ≤ 9, ∀ level < exponent, 2 ^ level / 32 < exponent := by decide

theorem no_room (exponent : Nat) (large : 10 ≤ exponent) : exponent * 32 ≤ 2 ^ (exponent - 1) := by
  induction exponent, large using Nat.le_induction with
  | base => decide
  | succ exponent =>
    have doubled : 2 ^ (exponent + 1 - 1) = 2 ^ (exponent - 1) * 2 := by
      rw [← Nat.pow_succ]
      congr 1
      omega
    omega

theorem rcd_fits_iff (power : group.dmns.length = 2 ^ exponent) :
    Fits rcd group (exchange power) ↔ exponent ≤ 9 := by
  have size : 1 ≤ exponent → maskSize rcd group = exponent := by
    intro several
    have more : 1 < 2 ^ exponent := Nat.one_lt_two_pow (by omega)
    rw [maskSize, power]
    change Option.getD (if 1 < 2 ^ exponent then some (Nat.log2 (2 ^ exponent)) else none) 0 =
      exponent
    rw [if_pos more, Option.getD_some, Nat.log2_two_pow]
  constructor
  · intro fits
    by_contra large
    have last := fits (exponent - 1) (show exponent - 1 < exponent by omega)
    have more := no_room exponent (by omega)
    omega
  · intro small level bound
    rw [size (Nat.one_le_of_lt bound)]
    exact room_small exponent small level bound

theorem rcd_completes_iff (exponent : Nat) (power : group.dmns.length = 2 ^ exponent) :
    Completes rcdComponent group ↔ exponent ≤ 9 := by
  rw [completes_iff (rcd_implements power) (rcd_suits group power), rcd_fits_iff]
  exact and_iff_left (exchange_all power)

/-- Recursive doubling completes among at most 512 daemons. Among more, the distance 512 is marked
behind the end of the mask. -/
theorem recursive_doubling_completes (group : Group) (exponent : Nat)
    (power : group.dmns.length = 2 ^ exponent) :
    Completes rcdComponent group ↔ group.dmns.length ≤ 512 := by
  rw [rcd_completes_iff group exponent power, power, show 512 = 2 ^ 9 from rfl,
    Nat.pow_le_pow_iff_right (by omega)]

def firstDaemons (size : Nat) (some_daemon : 0 < size) (bounded : size < 4294967296) : Group where
  dmns := (List.range size).map (BitVec.ofNat 32)
  sz := size
  num_procs := size
  distinct := by
    refine List.Nodup.map_on (fun first member second member' same => ?_) List.nodup_range
    have values := congrArg BitVec.toNat same
    rw [List.mem_range] at member member'
    rw [BitVec.toNat_ofNat, BitVec.toNat_ofNat] at values
    omega
  some_daemon := by simpa [List.map_eq_nil_iff] using Nat.pos_iff_ne_zero.mp some_daemon
  bounded := by simpa using bounded

theorem firstDaemons_length (size : Nat) (some_daemon : 0 < size) (bounded : size < 4294967296) :
    (firstDaemons size some_daemon bounded).dmns.length = size := by
  simp [firstDaemons]

theorem recursive_doubling_completes_four :
    (firstDaemons 4 (by decide) (by decide)).dmns.length = 2 ^ 2 ∧
      Completes rcdComponent (firstDaemons 4 (by decide) (by decide)) := by
  have size := firstDaemons_length 4 (by decide) (by decide)
  refine ⟨size, (recursive_doubling_completes _ 2 size).mpr ?_⟩
  decide

theorem recursive_doubling_mask_short :
    ¬ Completes rcdComponent (firstDaemons 1024 (by decide) (by decide)) := by
  rw [rcd_completes_iff _ 10 (firstDaemons_length 1024 (by decide) (by decide))]
  decide

section Bruck

variable (size : Nat) (some_rank : 0 < size)

def bruckSource (level : Nat) (rank : Fin size) : Fin size :=
  ⟨(rank.val + 2 ^ level) % size, Nat.mod_lt _ rank.pos⟩

def bruckTarget (level : Nat) (rank : Fin size) : Fin size :=
  ⟨(size + rank.val - 2 ^ level) % size, Nat.mod_lt _ rank.pos⟩

theorem bruckSource_target (level : Nat) (bound : level < Nat.clog 2 size) (rank : Fin size) :
    bruckSource size level (bruckTarget size level rank) = rank := by
  have below := (Nat.lt_clog_iff_pow_lt (by omega)).mp bound
  apply Fin.ext
  change ((size + rank.val - 2 ^ level) % size + 2 ^ level) % size = rank.val
  rw [Nat.mod_add_mod, Nat.sub_add_cancel (by omega), Nat.add_mod_left, Nat.mod_eq_of_lt rank.isLt]

theorem bruckTarget_source (level : Nat) (bound : level < Nat.clog 2 size) (rank : Fin size) :
    bruckTarget size level (bruckSource size level rank) = rank := by
  have below := (Nat.lt_clog_iff_pow_lt (by omega)).mp bound
  have inside := rank.isLt
  apply Fin.ext
  change (size + (rank.val + 2 ^ level) % size - 2 ^ level) % size = rank.val
  by_cases wraps : rank.val + 2 ^ level < size
  · rw [Nat.mod_eq_of_lt wraps, ← Nat.add_assoc, Nat.add_sub_cancel, Nat.add_mod_left,
      Nat.mod_eq_of_lt inside]
  · have wrapped : (rank.val + 2 ^ level) % size = rank.val + 2 ^ level - size := by
      rw [Nat.mod_eq_sub_mod (by omega), Nat.mod_eq_of_lt (by omega)]
    rw [wrapped, show size + (rank.val + 2 ^ level - size) - 2 ^ level = rank.val by omega,
      Nat.mod_eq_of_lt inside]

def bruck : Pattern (Fin size) where
  levels := Nat.clog 2 size
  source := bruckSource size
  target := bruckTarget size
  source_target := bruckSource_target size
  target_source := bruckTarget_source size

/-- Before a level, the next ranks around the group have been collected. -/
theorem bruck_content :
    ((bruck size).content level rank).map Fin.val = (List.range (2 ^ level)).map fun offset =>
      (rank.val + offset) % size := by
  induction level generalizing rank with
  | zero => simp [Pattern.content, Nat.mod_eq_of_lt rank.isLt]
  | succ level ih =>
    rw [Pattern.content, map_append, ih, ih, Nat.pow_succ, Nat.mul_two, range_add,
      map_append, map_map]
    congr 1
    apply map_congr_left
    intro offset _
    change ((rank.val + 2 ^ level) % size + offset) % size =
      (rank.val + (2 ^ level + offset)) % size
    rw [Nat.mod_add_mod, Nat.add_assoc]

theorem bruck_all_iff (some_rank : 0 < size) :
    (∀ rank, ((bruck size).content (bruck size).levels rank).Perm (List.finRange size)) ↔
      ∃ exponent, size = 2 ^ exponent := by
  constructor
  · intro all
    have length := (all ⟨0, some_rank⟩).length_eq
    rw [content_length, length_finRange] at length
    exact ⟨_, length.symm⟩
  · rintro ⟨exponent, power⟩ rank
    have levels : 2 ^ (bruck size).levels = size := by
      change 2 ^ Nat.clog 2 size = size
      rw [power, Nat.clog_pow 2 exponent (by omega)]
    apply perm_finRange _ (content_length.trans levels)
    apply List.Nodup.of_map Fin.val
    rw [bruck_content, levels]
    apply List.Nodup.map_on _ nodup_range
    intro first member second member' same
    rw [mem_range] at member member'
    have cancelled : first % size = second % size := Nat.ModEq.add_left_cancel' rank.val same
    rwa [Nat.mod_eq_of_lt member, Nat.mod_eq_of_lt member'] at cancelled

end Bruck

theorem brks_slot (bound : 2 ^ level < 4294967296) :
    brks.slot (2 ^ level) = some (2 ^ level - 1) := by
  have positive := Nat.two_pow_pos level
  exact congrArg some (show (2 ^ level + 4294967295) % 4294967296 = 2 ^ level - 1 by omega)

theorem brks_suits : Suits brks group (bruck group.dmns.length) where
  levels level := Nat.lt_clog_iff_pow_lt (by omega)
  peer _ _ _ := rfl
  slot level bound := by
    have below : 2 ^ level < group.dmns.length := (Nat.lt_clog_iff_pow_lt (by omega)).mp bound
    have positive := Nat.two_pow_pos level
    refine ⟨2 ^ level - 1, ?_, brks_slot (below.trans group.bounded)⟩
    change 2 ^ level - 1 < group.dmns.length - 1
    omega
  slot_injective level bound other otherBound same := by
    have below : 2 ^ level < group.dmns.length := (Nat.lt_clog_iff_pow_lt (by omega)).mp bound
    have otherBelow : 2 ^ other < group.dmns.length :=
      (Nat.lt_clog_iff_pow_lt (by omega)).mp otherBound
    rw [brks_slot (below.trans group.bounded), brks_slot (otherBelow.trans group.bounded)] at same
    have indices := Option.some.inj same
    have positive := Nat.two_pow_pos level
    have otherPositive := Nat.two_pow_pos other
    exact Nat.pow_right_injective (Nat.le_refl 2) (show 2 ^ level = 2 ^ other by omega)
  overflow index found := by
    have bounded := group.bounded
    cases found
    change group.dmns.length - 1 ≤ 4294967295
    omega
  mask _ := rfl

theorem brks_fits : Fits brks group (bruck group.dmns.length) := by
  intro level bound
  have below : 2 ^ level < group.dmns.length := (Nat.lt_clog_iff_pow_lt (by omega)).mp bound
  change 2 ^ level / 32 < group.dmns.length - 1
  have positive := Nat.two_pow_pos level
  omega

theorem brks_completes_iff :
    Completes brksComponent group ↔ ∀ rank, ((bruck group.dmns.length).content
      (bruck group.dmns.length).levels rank).Perm (List.finRange group.dmns.length) := by
  rw [completes_iff ⟨fun _ _ => rfl, fun _ _ _ _ => rfl⟩ (brks_suits group),
    and_iff_right (brks_fits group)]

/-- The algorithm of Bruck completes in groups whose size is a power of two. In others,
contributions are repeated. -/
theorem bruck_completes (group : Group) :
    Completes brksComponent group ↔ ∃ exponent, group.dmns.length = 2 ^ exponent := by
  rw [brks_completes_iff, bruck_all_iff _ (List.length_pos_iff.mpr group.some_daemon)]

theorem bruck_repeats : ¬ Completes brksComponent (firstDaemons 3 (by decide) (by decide)) := by
  rw [brks_completes_iff, bruck_all_iff _ (by decide), firstDaemons_length]
  rintro ⟨exponent, power⟩
  rcases exponent with _ | _ | exponent
  · cases power
  · cases power
  · rw [Nat.pow_succ, Nat.pow_succ] at power
    omega

end Orcm.DoublingAlgorithms
