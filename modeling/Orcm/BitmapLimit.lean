import Orcm.BitmapOperations

/-!
Bitmaps whose caller has set a limit. `opal_bitmap_set_max_size` stores the number of words that the
bits take, and the functions compare it with numbers of bits.
-/

namespace Orcm.BitmapLimit

open CLibrary OpalBitmap

inductive Call where
  | init (size : Int)
  | setBit (bit : Int)
  | clearBit (bit : Int)
  | isSetBit (bit : Int)
  | clearAllBits
  | setAllBits
  | findAndSetFirstUnsetBit
  | bitwiseAndInplace (right : Bitmap)
  | bitwiseOrInplace (right : Bitmap)
  | bitwiseXorInplace (right : Bitmap)

def perform (bm : Bitmap) : Call → Result (Option Int × Bitmap)
  | .init size => (none, ·) <$> opalBitmapInit bm size
  | .setBit bit => (some bit, ·) <$> opalBitmapSetBit bm bit
  | .clearBit bit => (some bit, ·) <$> opalBitmapClearBit bm bit
  | .isSetBit bit => (fun _ => (none, bm)) <$> (opalBitmapIsSetBit bm bit : Result Bool)
  | .clearAllBits => .ok (none, opalBitmapClearAllBits bm)
  | .setAllBits => .ok (none, opalBitmapSetAllBits bm)
  | .findAndSetFirstUnsetBit =>
    (fun found => (some found.1, found.2)) <$> opalBitmapFindAndSetFirstUnsetBit bm
  | .bitwiseAndInplace right => (none, ·) <$> opalBitmapBitwiseAndInplace bm right
  | .bitwiseOrInplace right => (none, ·) <$> opalBitmapBitwiseOrInplace bm right
  | .bitwiseXorInplace right => (none, ·) <$> opalBitmapBitwiseXorInplace bm right

def next (bm : Bitmap) (call : Call) : Bitmap :=
  match perform bm call with
  | .ok done => done.2
  | .error _ => bm

def wordsOf (m : Nat) : Nat := (m + 63) / 64

/-- What has to succeed and what has to fail when the limit is `m` bits. -/
def Call.Limited (m : Nat) (result : Result (Option Int × Bitmap)) : Call → Prop
  | .init size => 1 ≤ size → size ≤ m → ∃ done, result = .ok done
  | .setBit bit =>
    (0 ≤ bit → bit < m → ∃ done, result = .ok done) ∧
    ((wordsOf m * 64 : Nat) ≤ bit → ∃ code, result = .error (.error code))
  | _ => True

/-- The call has a defined result that keeps to the limit, and a bit that it has accepted is inside
the words. -/
structure Kept (m : Nat) (bm : Bitmap) (call : Call) : Prop where
  defined : perform bm call ≠ .error .undefined
  limited : call.Limited m (perform bm call)
  inside : ∀ bit after, perform bm call = .ok (some bit, after) → 0 ≤ bit ∧
    bit.toNat / 64 < after.words.length

def AllKept (m : Nat) (bm : Bitmap) : List Call → Prop
  | [] => True
  | call :: calls => Kept m bm call ∧ AllKept m (next bm call) calls

def LimitKept (m : Nat) (size : Int) (calls : List Call) : Prop :=
  let limited := opalBitmapSetMaxSize opalBitmapConstruct m
  (1 ≤ size → size ≤ m → ∃ bm, opalBitmapInit limited size = .ok bm) ∧
    ∀ bm, opalBitmapInit limited size = .ok bm → AllKept m bm calls

/-- Numbers of bits that the limit allows must not exceed the number of words that has been stored
for it. -/
def Call.Meets (m : Nat) : Call → Prop
  | .init size => 1 ≤ size → size ≤ m → size ≤ wordsOf m
  | .setBit bit => 0 ≤ bit → bit < m → bit ≤ wordsOf m
  | _ => True

/-- A number of words that an `int` can count the bits of. -/
def mostWords : Nat := 1048576

structure Sound (limit : Nat) (result : Result (Option Int × Bitmap)) : Prop where
  defined : result ≠ .error .undefined
  kept : ∀ done, result = .ok done → done.2.Ready limit mostWords
  inside : ∀ bit after, result = .ok (some bit, after) → 0 ≤ bit ∧
    bit.toNat / 64 < after.words.length

variable {limit : Nat}

theorem sound_ok (ready : done.2.Ready limit mostWords)
    (inside : ∀ bit, done.1 = some bit → 0 ≤ bit ∧ bit.toNat / 64 < done.2.words.length) :
    Sound limit (.ok done) where
  defined := by
    intro same
    cases same
  kept := by
    intro other same
    cases same
    exact ready
  inside := by
    intro bit after same
    cases same
    exact inside bit rfl

theorem sound_error : Sound limit (.error (.error code)) where
  defined := by
    intro same
    cases same
  kept := by
    intro done same
    cases same
  inside := by
    intro bit after same
    cases same

theorem init_limited {bm : Bitmap} (max_size : bm.max_size = limit) (large : limit ≤ 33554432)
    {size : Int} (positive : 1 ≤ size) (accepted : size ≤ limit) :
    ∃ after, opalBitmapInit bm size = .ok after ∧ after.Ready limit mostWords := by
  have length :
      (List.replicate ((size.toNat + 63) / 64) (0 : BitVec 64)).length = (size.toNat + 63) / 64 :=
    List.length_replicate ..
  refine ⟨⟨List.replicate ((size.toNat + 63) / 64) 0, bm.max_size⟩, ?_, ?_⟩
  · rw [opalBitmapInit, if_neg (by omega)]
    -- The number of words is no larger than that of the bits, so the limit is never raised.
    dsimp only
    rw [if_neg fun raised => absurd raised.2 (by omega)]
  · constructor
    · exact max_size
    all_goals simp only [length, mostWords]; omega

theorem init_refused {bm : Bitmap} (max_size : bm.max_size = limit) {size : Int}
    (refused : size < 1 ∨ limit < size) : opalBitmapInit bm size = .error (.error .badParam) := by
  rw [opalBitmapInit, if_pos (by omega)]

section Calls

variable {bm : Bitmap} {limit : Nat} (ready : bm.Ready limit mostWords) (large : limit ≤ 33554432)

include ready large

theorem sound_init {size : Int} : Sound limit ((none, ·) <$> opalBitmapInit bm size) := by
  by_cases accepted : 1 ≤ size ∧ size ≤ limit
  · obtain ⟨after, done, kept⟩ := init_limited ready.max_size large accepted.1 accepted.2
    rw [done]
    apply sound_ok kept
    intro bit same
    cases same
  · rw [init_refused ready.max_size (by omega)]
    exact sound_error

theorem setBit_accepted {bit : Int} (positive : 0 ≤ bit) (accepted : bit ≤ limit) :
    ∃ after, opalBitmapSetBit bm bit = .ok after ∧ after.Ready limit mostWords ∧
      bit.toNat / 64 < after.words.length := by
  obtain ⟨number, rfl⟩ := Int.eq_ofNat_of_zero_le positive
  have some_word := ready.some_word
  have within := ready.within
  obtain ⟨after, done, kept, inside, -⟩ := opalBitmapSetBit_ready ready
    (by omega : number / 64 < limit) (by omega) (by omega) (by rw [mostWords]; omega)
  exact ⟨after, done, kept, inside⟩

theorem sound_setBit (bit : Int) : Sound limit ((some bit, ·) <$> opalBitmapSetBit bm bit) := by
  by_cases accepted : 0 ≤ bit ∧ bit ≤ limit
  · obtain ⟨after, done, kept, inside⟩ := setBit_accepted ready large accepted.1 accepted.2
    rw [done]
    apply sound_ok kept
    intro other same
    cases same
    exact ⟨accepted.1, inside⟩
  · rw [opalBitmapSetBit_refused ready (by omega)]
    exact sound_error

omit large in
theorem bits_ready : bm.words.length * 64 ≤ 2147483647 := by
  have few := ready.few
  rw [mostWords] at few
  omega

omit large in
theorem sound_clearBit : Sound limit ((some bit, ·) <$> opalBitmapClearBit bm bit) := by
  have small := bits_ready ready
  by_cases inside : 0 ≤ bit ∧ bit < (bm.words.length * 64 : Nat)
  · obtain ⟨number, rfl⟩ := Int.eq_ofNat_of_zero_le inside.1
    obtain ⟨after, done, kept, length, -⟩ :=
      opalBitmapClearBit_inside ready small (Int.ofNat_lt.mp inside.2)
    rw [done]
    apply sound_ok kept
    intro bit same
    cases same
    dsimp only
    omega
  · rw [opalBitmapClearBit_outside small (by omega)]
    exact sound_error

theorem sound_findAndSetFirstUnsetBit :
    Sound limit
      ((fun found => (some found.1, found.2)) <$> opalBitmapFindAndSetFirstUnsetBit bm) := by
  have small := bits_ready ready
  rcases Nat.lt_or_ge (bm.words.findIdx (· != BitVec.allOnes 64))
    bm.words.length with inside | outside
  · obtain ⟨offset, lowest, found⟩ := opalBitmapFindAndSetFirstUnsetBit_inside rfl inside
    have bound := lowest.inside
    rw [found, if_neg (by rw [intMax]; omega)]
    apply sound_ok (ready.resized (List.length_set ..))
    intro bit same
    cases same
    rw [List.length_set]
    omega
  · rw [opalBitmapFindAndSetFirstUnsetBit_full (Nat.le_antisymm List.findIdx_le_length outside),
      bits_eq_ok small, Result.ok_bind]
    have sound := sound_setBit ready large (bm.words.length * 64)
    cases result : opalBitmapSetBit bm (bm.words.length * 64) with
    | ok =>
      rw [result] at sound
      exact sound
    | error =>
      rw [result] at sound
      exact sound

omit large in
theorem sound_bitwise :
    Sound limit ((none, ·) <$> bitwiseInplace combine bm right) := by
  rw [bitwiseInplace]
  split
  · exact sound_error
  · rename_i same
    apply sound_ok
    · apply ready.resized
      rw [List.length_zipWith]
      omega
    · intro bit none
      cases none

omit large in
theorem isSetBit_defined : ∃ set, opalBitmapIsSetBit bm bit = (.ok set : Result Bool) := by
  have small := bits_ready ready
  rw [opalBitmapIsSetBit]
  split
  · exact ⟨false, rfl⟩
  · rw [if_neg (by rw [intMax]; omega)]
    split
    · exact ⟨false, rfl⟩
    · exact ⟨_, rfl⟩

theorem sound_perform (call : Call) : Sound limit (perform bm call) := by
  cases call with
  | init size => exact sound_init ready large
  | setBit bit => exact sound_setBit ready large bit
  | clearBit bit => exact sound_clearBit ready
  | isSetBit bit =>
    obtain ⟨set, done⟩ := isSetBit_defined ready
    rw [perform, done]
    apply sound_ok ready
    intro bit none
    cases none
  | clearAllBits =>
    apply sound_ok (ready.resized (List.length_replicate ..))
    intro bit none
    cases none
  | setAllBits =>
    apply sound_ok (ready.resized (List.length_replicate ..))
    intro bit none
    cases none
  | findAndSetFirstUnsetBit => exact sound_findAndSetFirstUnsetBit ready large
  | bitwiseAndInplace right => exact sound_bitwise ready
  | bitwiseOrInplace right => exact sound_bitwise ready
  | bitwiseXorInplace right => exact sound_bitwise ready

theorem next_ready (call : Call) : (next bm call).Ready limit mostWords := by
  have sound := sound_perform ready large call
  rw [next]
  split
  · rename_i done performed
    exact sound.kept done performed
  · exact ready

theorem perform_init_ok_iff (size : Int) :
    (∃ done, perform bm (.init size) = .ok done) ↔ 1 ≤ size ∧ size ≤ limit := by
  by_cases accepted : 1 ≤ size ∧ size ≤ limit
  · obtain ⟨after, done, -⟩ := init_limited ready.max_size large accepted.1 accepted.2
    refine iff_of_true ⟨(none, after), ?_⟩ accepted
    rw [perform, done]
    rfl
  · apply iff_of_false _ accepted
    rw [perform, init_refused ready.max_size (by omega)]
    rintro ⟨done, same⟩
    cases same

theorem perform_setBit_ok_iff (bit : Int) :
    (∃ done, perform bm (.setBit bit) = .ok done) ↔ 0 ≤ bit ∧ bit ≤ limit := by
  by_cases accepted : 0 ≤ bit ∧ bit ≤ limit
  · obtain ⟨after, done, -, -⟩ := setBit_accepted ready large accepted.1 accepted.2
    refine iff_of_true ⟨(some bit, after), ?_⟩ accepted
    rw [perform, done]
    rfl
  · apply iff_of_false _ accepted
    rw [perform, opalBitmapSetBit_refused ready (by omega)]
    rintro ⟨done, same⟩
    cases same

end Calls

section Limit

variable {bm : Bitmap} {m : Nat}

theorem wordsOf_le (small : m ≤ 2147483647) : wordsOf m ≤ 33554432 := by
  rw [wordsOf]
  omega

section

variable (ready : bm.Ready (wordsOf m) mostWords) (small : m ≤ 2147483647)
include ready small

theorem limited_iff {call : Call} :
    call.Limited m (perform bm call) ↔ call.Meets m := by
  have large := wordsOf_le small
  have some_word := ready.some_word
  have within := ready.within
  cases call with
  | init =>
    rw [Call.Limited, Call.Meets, perform_init_ok_iff ready large]
    omega
  | setBit bit =>
    have behind :
        (wordsOf m * 64 : Nat) ≤ bit → ∃ code, perform bm (.setBit bit) = .error (.error code) := by
      intro far
      refine ⟨.badParam, ?_⟩
      rw [perform, opalBitmapSetBit_refused ready (by omega)]
      rfl
    rw [Call.Limited, perform_setBit_ok_iff ready large]
    constructor
    · exact fun limited positive below => (limited.1 positive below).2
    · exact fun meets => ⟨fun positive below => ⟨positive, meets positive below⟩, behind⟩
  | _ => exact Iff.rfl

theorem kept_iff (call : Call) :
    Kept m bm call ↔ call.Meets m := by
  have sound := sound_perform ready (wordsOf_le small) call
  constructor
  · exact fun kept => (limited_iff ready small).mp kept.limited
  · exact fun meets => ⟨sound.defined, (limited_iff ready small).mpr meets, sound.inside⟩

theorem allKept_iff :
    AllKept m bm calls ↔ ∀ call ∈ calls, call.Meets m := by
  induction calls generalizing bm with
  | nil => exact iff_of_true trivial (by simp)
  | cons call calls ih =>
    rw [AllKept, kept_iff ready small, ih (next_ready ready (wordsOf_le small) call),
      List.forall_mem_cons]

end

theorem max_size_limited (small : m ≤ 2147483647) :
    (opalBitmapSetMaxSize opalBitmapConstruct m).max_size = wordsOf m := by
  have stored :
      (((m : Int) % 18446744073709551616 + 63) % 18446744073709551616) / 64 = wordsOf m := by
    rw [wordsOf]
    omega
  have fits : toInt (wordsOf m) = wordsOf m := by
    rw [toInt, Int.bmod_eq_of_le (by omega) (by omega)]
  simp only [opalBitmapSetMaxSize, stored, fits]

end Limit

theorem limit_kept_iff (m : Nat) (small : m ≤ 2147483647) (size : Int) (calls : List Call) :
    LimitKept m size calls ↔
      (Call.init size).Meets m ∧ (1 ≤ size → size ≤ wordsOf m → ∀ call ∈ calls, call.Meets m) := by
  have max_size := max_size_limited small
  have large := wordsOf_le small
  rw [LimitKept]
  by_cases accepted : 1 ≤ size ∧ size ≤ wordsOf m
  · obtain ⟨bm, started, ready⟩ := init_limited max_size large accepted.1 accepted.2
    rw [started]
    apply and_congr
    · exact iff_of_true (fun _ _ => ⟨bm, rfl⟩) fun _ _ => accepted.2
    · constructor
      · exact fun kept _ _ => (allKept_iff ready small).mp (kept bm rfl)
      · rintro meets other same
        cases same
        exact (allKept_iff ready small).mpr (meets accepted.1 accepted.2)
  · rw [init_refused max_size (by omega)]
    apply and_congr
    · constructor
      · intro succeeds positive within
        obtain ⟨bm, same⟩ := succeeds positive within
        cases same
      · exact fun meets positive within => absurd ⟨positive, meets positive within⟩ accepted
    · apply iff_of_true
      · intro bm same
        cases same
      · exact fun positive within => absurd ⟨positive, within⟩ accepted

/-- With room for one bit the two numbers agree. -/
theorem limit_of_one_bit : LimitKept 1 1 [.setBit 0, .setBit 64, .findAndSetFirstUnsetBit] ↔
    (Call.init 1).Meets 1 ∧ (1 ≤ (1 : Int) → (1 : Int) ≤ wordsOf 1 →
      ∀ call ∈ [Call.setBit 0, .setBit 64, .findAndSetFirstUnsetBit], call.Meets 1) :=
  limit_kept_iff 1 (by decide) 1 _

/-- A bitmap that may have 128 bits cannot be initialised with 64. -/
theorem limit_refuses_allowed : ¬ LimitKept 128 64 [] := by
  rintro ⟨succeeds, -⟩
  obtain ⟨bm, same⟩ := succeeds (by decide) (by decide)
  cases same

end Orcm.BitmapLimit
