import Mathlib.Data.List.GetD
import Mathlib.Data.Nat.Find
import Mathlib.Order.Bounds.Basic

/-!
Sets of numbers in lists of machine words: a number is a member when its bit is set, bits being
counted from the lowest one of the first word on.
-/

namespace Orcm.WordSets

open List

variable {n : Nat}

def Member (words : List (BitVec n)) (bit : Nat) : Prop :=
  (words.getD (bit / n) 0).getLsbD (bit % n) = true

variable {words : List (BitVec n)} {word : BitVec n} {offset bit index : Nat}

theorem Member.lt (member : Member words bit) : bit < words.length * n := by
  have inside : bit / n < words.length := by
    by_contra outside
    rw [Member, getD_eq_default _ _ (Nat.le_of_not_lt outside)] at member
    simp at member
  have some_bit : 0 < n := by
    rcases Nat.eq_zero_or_pos n with rfl | some_bit
    · simp [Member] at member
    · exact some_bit
  exact (Nat.div_lt_iff_lt_mul some_bit).mp inside

theorem member_append_zeros (words : List (BitVec n)) (more bit : Nat) :
    Member (words ++ List.replicate more 0) bit ↔ Member words bit := by
  have same : (words ++ List.replicate more 0).getD (bit / n) 0 = words.getD (bit / n) 0 := by
    by_cases inside : bit / n < words.length
    · exact getD_append _ _ _ _ inside
    · rw [getD_append_right _ _ _ _ (Nat.le_of_not_lt inside),
        getD_eq_default _ _ (Nat.le_of_not_lt inside), getD_eq_getElem?_getD, getElem?_replicate]
      split <;> rfl
  rw [Member, same, Member]

theorem member_set (inside : index < words.length) (word : BitVec n) (bit : Nat) :
    Member (words.set index word) bit ↔
      if bit / n = index then word.getLsbD (bit % n) = true else Member words bit := by
  split
  · rename_i here
    rw [Member, here, getD_eq_getElem _ _ (by rwa [length_set]), getElem_set_self]
  · rename_i elsewhere
    rw [Member, Member, getD_eq_getElem?_getD,
      getElem?_set_ne (Ne.symm elsewhere), ← getD_eq_getElem?_getD]

theorem member_zeros {count : Nat} (bit : Nat) :
    ¬ Member (List.replicate count (0 : BitVec n)) bit := by
  have none_there := (member_append_zeros ([] : List (BitVec n)) count bit).mp
  intro member
  have empty := (none_there member).lt
  simp at empty

theorem member_ones (some_bit : 0 < n) {count : Nat} :
    Member (List.replicate count (BitVec.allOnes n)) bit ↔ bit < count * n := by
  constructor
  · intro member
    simpa using member.lt
  · intro inside
    have index : bit / n < (List.replicate count (BitVec.allOnes n)).length := by
      rw [length_replicate]
      exact (Nat.div_lt_iff_lt_mul some_bit).mpr inside
    rw [Member, getD_eq_getElem _ _ index, getElem_replicate, BitVec.getLsbD_allOnes]
    exact decide_eq_true (Nat.mod_lt _ some_bit)

theorem member_zipWith {combine : BitVec n → BitVec n → BitVec n} {holds : Prop → Prop → Prop}
    (bits : ∀ left right bit, (combine left right).getLsbD bit = true ↔
      holds (left.getLsbD bit = true) (right.getLsbD bit = true))
    (nothing : ¬ holds False False) (same : left.length = right.length) :
    Member (List.zipWith combine left right) bit ↔ holds (Member left bit) (Member right bit) := by
  by_cases inside : bit / n < left.length
  · have second : bit / n < right.length := same ▸ inside
    have both : bit / n < (List.zipWith combine left right).length := by
      rw [length_zipWith]
      omega
    rw [Member, Member, Member, getD_eq_getElem _ _ both, getElem_zipWith,
      getD_eq_getElem _ _ inside, getD_eq_getElem _ _ second, bits]
  · have second : right.length ≤ bit / n := by omega
    have both : (List.zipWith combine left right).length ≤ bit / n := by
      rw [length_zipWith]
      omega
    -- Behind the end of both lists the words read as zero.
    rw [Member, Member, Member, getD_eq_default _ _ both, getD_eq_default _ _ (by omega),
      getD_eq_default _ _ second]
    simpa using nothing

structure LowestUnset (word : BitVec n) (offset : Nat) : Prop where
  inside : offset < n
  unset : word.getLsbD offset = false
  below : ∀ lower < offset, word.getLsbD lower = true

theorem exists_lowestUnset (some_unset : word ≠ BitVec.allOnes n) :
    ∃ offset, LowestUnset word offset := by
  have exists_unset : ∃ offset, offset < n ∧ word.getLsbD offset = false := by
    by_contra all_set
    apply some_unset
    apply BitVec.eq_of_getLsbD_eq
    intro offset inside
    rw [BitVec.getLsbD_allOnes, decide_eq_true inside]
    by_contra unset
    exact all_set ⟨offset, inside, Bool.not_eq_true _ ▸ unset⟩
  have found := Nat.find_spec exists_unset
  refine ⟨Nat.find exists_unset, found.1, found.2, ?_⟩
  intro lower less
  have set := Nat.find_min exists_unset less
  rw [not_and, Bool.not_eq_false] at set
  exact set (less.trans found.1)

theorem getLsbD_add_one (lowest : LowestUnset word offset) (inside : bit < n) :
    (word ||| (word + 1#n)).getLsbD bit = (word ||| BitVec.twoPow n offset).getLsbD bit := by
  have some_bit : 0 < n := Nat.zero_lt_of_lt inside
  rw [BitVec.getLsbD_or, BitVec.getLsbD_or, BitVec.getLsbD_twoPow, decide_eq_true lowest.inside,
    Bool.true_and]
  rcases Nat.lt_trichotomy bit offset with below | rfl | above
  · rw [lowest.below bit below, Bool.true_or, Bool.true_or]
  · rw [lowest.unset, decide_eq_true rfl, BitVec.getLsbD_add inside, lowest.unset]
    cases bit with
    | zero => simp [some_bit]
    | succ =>
      rw [BitVec.carry_succ_one _ _ some_bit, decide_eq_true fun lower less =>
        lowest.below lower (by omega)]
      simp
  · rw [decide_eq_false (by omega), Bool.or_false, BitVec.getLsbD_add inside]
    cases bit with
    | zero => omega
    | succ bit =>
      have stopped : ¬ ∀ lower ≤ bit, word.getLsbD lower = true := by
        intro all_set
        have set := all_set offset (by omega)
        rw [lowest.unset] at set
        exact Bool.noConfusion set
      rw [BitVec.carry_succ_one _ _ some_bit, decide_eq_false stopped]
      simp

theorem or_add_one (lowest : LowestUnset word offset) :
    word ||| (word + 1#n) = word ||| BitVec.twoPow n offset := by
  apply BitVec.eq_of_getLsbD_eq
  intro bit inside
  exact getLsbD_add_one lowest inside

theorem xor_or_twoPow (unset : word.getLsbD offset = false) :
    word ^^^ (word ||| BitVec.twoPow n offset) = BitVec.twoPow n offset := by
  apply BitVec.eq_of_getLsbD_eq
  intro bit inside
  rw [BitVec.getLsbD_xor, BitVec.getLsbD_or]
  by_cases here : offset = bit
  · rw [← here, unset]
    simp
  · simp [here]

theorem lowestUnset_zero (some_bit : 0 < n) : LowestUnset (0 : BitVec n) 0 :=
  ⟨some_bit, by simp, fun lower less => absurd less (Nat.not_lt_zero lower)⟩

theorem isLeast_absent
    (full : ∀ earlier < index, words.getD earlier 0 = BitVec.allOnes n)
    (lowest : LowestUnset (words.getD index 0) offset) :
    IsLeast {bit | ¬ Member words bit} (index * n + offset) := by
  have some_bit : 0 < n := Nat.zero_lt_of_lt lowest.inside
  have place : (index * n + offset) / n = index := by
    rw [Nat.mul_comm, Nat.mul_add_div some_bit, Nat.div_eq_of_lt lowest.inside, Nat.add_zero]
  have rest : (index * n + offset) % n = offset := by
    rw [Nat.mul_comm, Nat.mul_add_mod, Nat.mod_eq_of_lt lowest.inside]
  constructor
  · change ¬ Member words _
    rw [Member, place, rest, lowest.unset]
    exact Bool.noConfusion
  · intro bit absent
    by_contra less
    apply absent
    rw [Member]
    have split := Nat.div_add_mod bit n
    rw [Nat.mul_comm] at split
    rcases Nat.lt_or_ge (bit / n) index with earlier | later
    · rw [full _ earlier, BitVec.getLsbD_allOnes]
      exact decide_eq_true (Nat.mod_lt _ some_bit)
    · have same : bit / n = index := by
        apply Nat.le_antisymm _ later
        rw [← place]
        exact Nat.div_le_div_right (by omega)
      rw [same] at split ⊢
      exact lowest.below _ (by omega)

end Orcm.WordSets
