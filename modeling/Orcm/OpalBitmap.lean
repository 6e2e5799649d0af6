import Mathlib.Data.List.GetD
import Orcm.CInteger
import Orcm.ErrorCode

/-!
`opal_bitmap_t` of `opal/class/opal_bitmap.c`: bits in words of 64, and a largest size that the
functions compare with numbers of bits and of words alike. Memory is granted to every request.
-/

namespace Orcm.OpalBitmap

open CLibrary List

/-- `array_size` is the number of words; an empty list stands for a bitmap that is `NULL`. -/
structure Bitmap where
  words : List (BitVec 64)
  max_size : Int
  deriving DecidableEq

def opalBitmapConstruct : Bitmap := ⟨[], intMax⟩

def opalBitmapInit (bm : Bitmap) (size : Int) : Result Bitmap :=
  if size ≤ 0 ∨ bm.max_size < size then .error (.error .badParam)
  else
    let array_size := (size.toNat + 63) / 64
    let max_size :=
      if bm.words ≠ [] ∧ bm.max_size < array_size then (array_size : Int) else bm.max_size
    .ok ⟨List.replicate array_size 0, max_size⟩

/-- The words after the bitmap has been extended for the index: a multiple of the present size. -/
def extended (bm : Bitmap) (index : Nat) : Result (List (BitVec 64)) :=
  if index < bm.words.length then .ok bm.words
  else if bm.words.length = 0 then .error .undefined
  else
    let new_size := min (toInt ((index / bm.words.length + 1) * bm.words.length : Nat)) bm.max_size
    if new_size < bm.words.length then .error .undefined
    else .ok (bm.words ++ List.replicate (new_size.toNat - bm.words.length) 0)

def opalBitmapSetBit (bm : Bitmap) (bit : Int) : Result Bitmap :=
  if bit < 0 ∨ bm.max_size < bit then .error (.error .badParam)
  else do
    let index := bit.toNat / 64
    let offset := bit.toNat % 64
    let words ← extended bm index
    match words[index]? with
    | some word => .ok { bm with words := words.set index (word ||| (1#64 <<< offset)) }
    | none => .error .undefined

/-- The query returns no error code. -/
def opalBitmapIsSetBit {Code : Type} (bm : Bitmap) (bit : Int) :
    Except (CLibrary.Fault Code) Bool :=
  if bit < 0 then .ok false
  else if intMax < (bm.words.length : Int) * 64 then .error .undefined
  else if (bm.words.length : Int) * 64 ≤ bit then .ok false
  else .ok ((bm.words.getD (bit.toNat / 64) 0) &&& (1#64 <<< (bit.toNat % 64)) != 0)

def Bitmap.Holds (bm : Bitmap) (bit : Nat) : Prop :=
  (bm.words.getD (bit / 64) 0).getLsbD (bit % 64) = true

structure Bitmap.Room (bm : Bitmap) (bits : Nat) : Prop where
  words : bm.words.length = (bits + 63) / 64
  max_size : bm.max_size = intMax

theorem opalBitmapInit_construct (bits : Nat) (positive : 0 < bits) (small : bits ≤ 2147483647) :
    ∃ bm, opalBitmapInit opalBitmapConstruct bits = .ok bm ∧ bm.Room bits ∧
      ∀ bit, ¬ bm.Holds bit := by
  refine ⟨⟨List.replicate ((bits + 63) / 64) 0, intMax⟩, ?_, ⟨length_replicate, rfl⟩,
    fun bit held => ?_⟩
  · rw [opalBitmapInit, if_neg (by simp only [opalBitmapConstruct, intMax]; omega)]
    rfl
  · have word : (List.replicate ((bits + 63) / 64) (0 : BitVec 64)).getD (bit / 64) 0 = 0 := by
      rw [getD_eq_getElem?_getD, getElem?_replicate]
      split <;> rfl
    rw [Bitmap.Holds] at held
    exact absurd held (by simp)

theorem getLsbD_set_bit (small : other < 64) :
    (word ||| (1#64 <<< offset)).getLsbD other = true ↔ other = offset ∨
      word.getLsbD other = true := by
  change (word ||| BitVec.twoPow 64 offset).getLsbD other = true ↔ _
  rw [BitVec.getLsbD_or, Bool.or_eq_true, or_comm, BitVec.getLsbD_twoPow, Bool.and_eq_true,
    decide_eq_true_eq, decide_eq_true_eq]
  refine or_congr ?_ Iff.rfl
  omega

theorem opalBitmapSetBit_room {bit : Nat} (room : bm.Room bits) (inside : bit < bits)
    (small : bits ≤ 2147483647) :
    ∃ after, opalBitmapSetBit bm bit = .ok after ∧ after.Room bits ∧
      ∀ other, after.Holds other ↔ other = bit ∨ bm.Holds other := by
  have index : bit / 64 < bm.words.length := by
    rw [room.words]
    omega
  refine ⟨{ bm with
    words := bm.words.set (bit / 64) (bm.words[bit / 64] ||| (1#64 <<< (bit % 64))) }, ?_, ?_, ?_⟩
  · rw [opalBitmapSetBit, if_neg (by rw [room.max_size, intMax]; omega)]
    simp [extended, Int.toNat_natCast, if_pos index, Result.ok_bind, getElem?_eq_getElem index]
  · exact ⟨by rw [length_set, room.words], room.max_size⟩
  · intro other
    by_cases same : other / 64 = bit / 64
    · rw [Bitmap.Holds, Bitmap.Holds, same, getD_eq_getElem _ _ (by rwa [length_set]),
        getElem_set_self, getD_eq_getElem _ _ index, getLsbD_set_bit (Nat.mod_lt _ (by decide))]
      refine or_congr ⟨fun equal => ?_, fun equal => by rw [equal]⟩ Iff.rfl
      omega
    · have apart : other ≠ bit := fun equal => same (by rw [equal])
      rw [Bitmap.Holds, Bitmap.Holds, getD_eq_getElem?_getD, getElem?_set_ne (Ne.symm same),
        ← getD_eq_getElem?_getD]
      simp [apart, false_or]

theorem and_bit_ne_zero (word : BitVec 64) (offset : Nat) (small : offset < 64) :
    (word &&& (1#64 <<< offset) != 0) = word.getLsbD offset := by
  change (word &&& BitVec.twoPow 64 offset != 0) = _
  have power : BitVec.twoPow 64 offset ≠ 0 := fun zero => by
    have bit := congrArg (fun value => value.getLsbD offset) zero
    simp [small] at bit
  rw [BitVec.and_twoPow]
  split
  · rename_i set
    rw [set, bne_iff_ne]
    exact power
  · rename_i clear
    rw [Bool.not_eq_true] at clear
    rw [clear]
    rfl

theorem opalBitmapIsSetBit_room {Code : Type} (bm : Bitmap) (bits bit : Nat) (room : bm.Room bits)
    (small : bits ≤ 2147483584) :
    ∃ answer, opalBitmapIsSetBit bm bit = (.ok answer : Except (CLibrary.Fault Code) Bool) ∧
      (answer = true ↔ bm.Holds bit) := by
  rw [opalBitmapIsSetBit, if_neg (by omega), if_neg (by rw [room.words, intMax]; omega)]
  split
  · have outside : bm.words.length ≤ bit / 64 := by omega
    refine ⟨false, rfl, ?_⟩
    rw [Bitmap.Holds, getD_eq_default _ _ outside, BitVec.ofNat_eq_ofNat, BitVec.getLsbD_zero]
  · refine ⟨_, rfl, ?_⟩
    rw [Int.toNat_natCast, and_bit_ne_zero _ _ (Nat.mod_lt _ (by decide)), Bitmap.Holds]

theorem opalBitmapIsSetBit_overflow {bit : Nat} (room : bm.Room bits) (large : 2147483584 < bits) :
    opalBitmapIsSetBit bm bit = (.error .undefined : Except (CLibrary.Fault Code) Bool) := by
  rw [opalBitmapIsSetBit, if_neg (by omega), if_pos (by rw [room.words, intMax]; omega)]

end Orcm.OpalBitmap
