import Mathlib.Data.Nat.Count
import Orcm.BitmapOperations

/-!
`opal_bitmap_num_set_bits` and `opal_bitmap_num_unset_bits`. The length is meant in bits, and the
loop goes over as many words. The test of the length in a debug build is left out.
-/

namespace Orcm.BitmapCounts

open CLibrary OpalBitmap WordSets

theorem clear_lt {val : BitVec 64} (nonzero : val ≠ 0) : (val &&& (val - 1)).toNat < val.toNat := by
  rw [BitVec.toNat_and]
  exact Nat.lt_of_le_of_lt Nat.and_le_right (by bv_omega)

/-- Each turn clears the least significant bit that is set. -/
def countBits (val : BitVec 64) (cnt : Int) : Result Int :=
  if val = 0 then .ok cnt
  else intAdd cnt 1 >>= countBits (val &&& (val - 1))
termination_by val.toNat
decreasing_by exact clear_lt (by assumption)

/-- The words from `i` on, as many as there are turns left. -/
def countWords (words : List (BitVec 64)) : Nat → Nat → Int → Result Int
  | 0, _, cnt => .ok cnt
  | turns + 1, i, cnt =>
    match words[i]? with
    | none => .error .undefined
    | some val => countBits val cnt >>= countWords words turns (i + 1)

def opalBitmapNumSetBits (bm : Bitmap) (len : Int) : Result Int := countWords bm.words len.toNat 0 0

def opalBitmapNumUnsetBits (bm : Bitmap) (len : Int) : Result Int :=
  (len - ·) <$> opalBitmapNumSetBits bm len

theorem clear_lowest {val : BitVec 64} (nonzero : val ≠ 0) :
    ∃ low < 64, val.getLsbD low = true ∧
      ∀ bit, (val &&& (val - 1)).getLsbD bit = (val.getLsbD bit && bit ≠ low) := by
  have unset : ~~~val ≠ BitVec.allOnes 64 := by
    intro full
    exact nonzero (by rw [← BitVec.not_not (b := val), full]; rfl)
  obtain ⟨low, lowest⟩ := exists_lowestUnset unset
  have less : val - 1 = ~~~(~~~val + 1#64) := by bv_omega
  have cleared : val &&& (val - 1) = ~~~(~~~val ||| BitVec.twoPow 64 low) := by
    rw [← or_add_one lowest, less, BitVec.not_or, BitVec.not_not]
  refine ⟨low, lowest.inside, ?_, fun bit => ?_⟩
  · simpa [lowest.inside] using lowest.unset
  · rw [cleared]
    by_cases inside : bit < 64
    · simp [inside, eq_comm]
    · simp [BitVec.getLsbD_of_ge _ _ (Nat.le_of_not_lt inside)]

/-- The number of bits of a word. -/
def ones (val : BitVec 64) : Nat := Nat.count (fun bit => val.getLsbD bit = true) 64

theorem ones_clear {val : BitVec 64} (nonzero : val ≠ 0) :
    ones (val &&& (val - 1)) + 1 = ones val := by
  obtain ⟨low, inside, isSet, cleared⟩ := clear_lowest nonzero
  have others : (Finset.range 64).filter (fun bit => (val &&& (val - 1)).getLsbD bit = true) =
      ((Finset.range 64).filter fun bit => val.getLsbD bit = true).erase low := by
    ext bit
    simp only [Finset.mem_filter, Finset.mem_erase, cleared, Bool.and_eq_true, decide_eq_true_eq]
    tauto
  rw [ones, ones, Nat.count_eq_card_filter_range, Nat.count_eq_card_filter_range, others]
  exact Finset.card_erase_add_one (by simp [inside, isSet])

theorem countBits_eq (val : BitVec 64) {cnt : Nat} (small : cnt ≤ 2147483647) :
    countBits val cnt = if cnt + ones val ≤ 2147483647 then .ok (cnt + ones val : Nat)
      else .error .undefined := by
  induction size : val.toNat using Nat.strongRecOn generalizing val cnt with
  | ind _ ih =>
    rw [countBits]
    split
    · rename_i zero
      simp [zero, ones, small]
    · rename_i nonzero
      have fewer := ones_clear nonzero
      by_cases fits : cnt + 1 ≤ 2147483647
      · rw [intAdd_ok _ _ (by simp [intMin]; omega) (by simp [intMax]; omega)]
        have rest := ih _ (size ▸ clear_lt nonzero) (val &&& (val - 1)) fits rfl
        rw [show cnt + 1 + ones (val &&& (val - 1)) = cnt + ones val by omega] at rest
        exact rest
      · rw [intAdd, if_neg (by simp [intMax]; omega), if_neg (by omega)]
        rfl

instance (bm : Bitmap) : DecidablePred bm.Holds := fun _ => inferInstanceAs (Decidable (_ = true))

variable {i turns : Nat}

theorem count_word {bm : Bitmap} (found : bm.words[i]? = some val) :
    Nat.count bm.Holds (64 * (i + 1)) = Nat.count bm.Holds (64 * i) + ones val := by
  rw [Nat.mul_succ, Nat.count_add, ones, Nat.count_eq_card_filter_range
    (fun k => bm.Holds (64 * i + k)),
    Nat.count_eq_card_filter_range fun bit => val.getLsbD bit = true]
  congr 2
  refine Finset.filter_congr fun bit inside => ?_
  rw [Finset.mem_range] at inside
  rw [Bitmap.Holds, Nat.mul_add_div (by decide), Nat.div_eq_of_lt inside, Nat.mul_add_mod,
    Nat.mod_eq_of_lt inside, Nat.add_zero, List.getD_eq_getElem?_getD, found, Option.getD_some]

theorem countWords_eq (bm : Bitmap) (inside : i + turns ≤ bm.words.length)
    (small : Nat.count bm.Holds (64 * i) ≤ 2147483647) :
    countWords bm.words turns i (Nat.count bm.Holds (64 * i) : Nat) =
      if Nat.count bm.Holds (64 * (i + turns)) ≤ 2147483647 then
        .ok (Nat.count bm.Holds (64 * (i + turns)) : Nat)
      else .error .undefined := by
  induction turns generalizing i with
  | zero => simp [countWords, small]
  | succ turns ih =>
    have found : bm.words[i]? = some bm.words[i] := List.getElem?_eq_getElem (by omega)
    have word := count_word found
    have later : Nat.count bm.Holds (64 * (i + 1)) ≤ Nat.count bm.Holds (64 * (i + (turns + 1))) :=
      Nat.count_monotone _ (by omega)
    rw [countWords, found]
    dsimp only
    rw [countBits_eq _ small, ← word]
    split
    · rename_i fits
      rw [Result.ok_bind, ih (by omega) fits, show i + 1 + turns = i + (turns + 1) by omega]
    · rw [if_neg (by omega)]
      rfl

theorem countWords_outside (from_inside : i ≤ words.length) (outside : words.length < i + turns) :
    countWords words turns i cnt ≠ .ok total := by
  induction turns generalizing i cnt with
  | zero => omega
  | succ turns ih =>
    rw [countWords]
    cases found : words[i]? with
    | none => simp
    | some =>
      have := (List.getElem?_eq_some_iff.mp found).1
      intro done
      obtain ⟨next, -, done⟩ := (Result.bind_eq_ok ..).mp done
      exact ih (by omega) (by omega) done

/-- Both counts of the first `n` bits are right; where they are returned no word behind the last one
was read. -/
def Counts (bm : Bitmap) (n : Nat) : Prop :=
  opalBitmapNumSetBits bm n = .ok (Nat.count bm.Holds n : Nat) ∧
    opalBitmapNumUnsetBits bm n = .ok ((n : Int) - (Nat.count bm.Holds n : Nat))

/-- The first `n` words are counted where the first `n` bits are meant. -/
theorem counts_iff (bm : Bitmap) (n : Nat) (small : n ≤ 2147483647) :
    Counts bm n ↔ n ≤ bm.words.length ∧ ∀ bit < 64 * n, n ≤ bit → ¬ bm.Holds bit := by
  have split : Nat.count bm.Holds (64 * n) = Nat.count bm.Holds n + Nat.count
      (fun k => bm.Holds (n + k)) (63 * n) := by
    rw [← Nat.count_add, show 64 * n = n + 63 * n by omega]
  have below : Nat.count bm.Holds n ≤ n := Nat.count_le _
  rw [Counts, opalBitmapNumUnsetBits, opalBitmapNumSetBits, Int.toNat_natCast]
  constructor
  · rintro ⟨counted, -⟩
    have inside : n ≤ bm.words.length := by
      by_contra outside
      exact countWords_outside (Nat.zero_le _) (by omega) counted
    refine ⟨inside, fun bit high low held => ?_⟩
    have total := @countWords_eq 0 n bm (by omega) (by simp)
    rw [Nat.mul_zero, Nat.count_zero, Nat.zero_add, Nat.cast_zero, counted] at total
    split_ifs at total with fits
    have same : Nat.count bm.Holds n = Nat.count bm.Holds (64 * n) := by simpa using total
    have none_behind : Nat.count (fun k => bm.Holds (n + k)) (63 * n) = 0 := by omega
    rw [Nat.count_iff_forall_not] at none_behind
    exact none_behind (bit - n) (by omega) (by rwa [Nat.add_sub_cancel' low])
  · rintro ⟨inside, absent⟩
    have none_behind : Nat.count (fun k => bm.Holds (n + k)) (63 * n) = 0 :=
      Nat.count_iff_forall_not.mpr fun k less => absent (n + k) (by omega) (by omega)
    have total := @countWords_eq 0 n bm (by omega) (by simp)
    rw [Nat.mul_zero, Nat.count_zero, Nat.zero_add, Nat.cast_zero, split, none_behind, Nat.add_zero,
      if_pos (by omega)] at total
    exact ⟨total, by rw [total]; rfl⟩

/-- Both bits of the first two are set, in a bitmap of two words. -/
theorem counts_two : Counts ⟨[3, 0], 128⟩ 2 :=
  (counts_iff ⟨[3, 0], 128⟩ 2 (by decide)).mpr (by decide +kernel)

/-- Two bits of a bitmap of one word: a second word is read. -/
theorem counts_behind_last_word : ¬ Counts ⟨[1], 64⟩ 2 := fun counts =>
  countWords_outside (Nat.zero_le _) (by decide) counts.1

end Orcm.BitmapCounts
