import Orcm.OpalBitmap
import Orcm.WordSets

/-!
The operations of `opal/class/opal_bitmap.c` on whole bitmaps, the removal of a bit and the search
for a free one.
-/

namespace Orcm.OpalBitmap

open CLibrary WordSets List Result

/-- The number of words that a number of bits takes; the functions compare it with numbers of
bits. -/
def opalBitmapSetMaxSize (bm : Bitmap) (max_size : Int) : Bitmap :=
  { bm with
    max_size := toInt ((((max_size % 18446744073709551616) + 63) % 18446744073709551616) / 64) }

/-- `array_size * SIZE_OF_BASE_TYPE`, an `int`. -/
def Bitmap.bits (bm : Bitmap) : Result Int :=
  if intMax < (bm.words.length : Int) * 64 then .error .undefined
    else .ok ((bm.words.length : Int) * 64)

def opalBitmapClearBit (bm : Bitmap) (bit : Int) : Result Bitmap :=
  if bit < 0 then .error (.error .badParam)
  else do
    let bits ← bm.bits
    if bits ≤ bit then .error (.error .badParam)
    else
      let index := bit.toNat / 64
      let offset := bit.toNat % 64
      .ok { bm with words := bm.words.set index (bm.words.getD index 0 &&& ~~~(1#64 <<< offset)) }

def opalBitmapClearAllBits (bm : Bitmap) : Bitmap :=
  { bm with words := List.replicate bm.words.length 0 }

def opalBitmapSetAllBits (bm : Bitmap) : Bitmap :=
  { bm with words := List.replicate bm.words.length (BitVec.allOnes 64) }

/-- Counts up to the lowest bit that is set; the source's loop ends there, and it has at most as
many turns as a word has bits. -/
def lowestBit : Nat → Int → BitVec 64 → Result Int
  | 0, _, _ => .error .undefined
  | turns + 1, position, temp =>
    if temp &&& 1 = 0 then lowestBit turns (position + 1) (temp >>> 1) else .ok position

def opalBitmapFindAndSetFirstUnsetBit (bm : Bitmap) : Result (Int × Bitmap) :=
  let i := bm.words.findIdx (· != BitVec.allOnes 64)
  if i = bm.words.length then do
    let position ← bm.bits
    let bm ← opalBitmapSetBit bm position
    .ok (position, bm)
  else do
    let word := bm.words.getD i 0
    let position ← lowestBit 64 0 (word ^^^ (word ||| (word + 1#64)))
    if intMax < position + (i : Int) * 64 then .error .undefined
    else .ok (position + (i : Int) * 64,
      { bm with words := bm.words.set i (word ||| (word + 1#64)) })

/-- The three operations in place differ in what they do to a word. -/
def bitwiseInplace (combine : BitVec 64 → BitVec 64 → BitVec 64) (dest right : Bitmap) :
    Result Bitmap :=
  if dest.words.length ≠ right.words.length then .error (.error .badParam)
  else .ok { dest with words := List.zipWith combine dest.words right.words }

def opalBitmapBitwiseAndInplace (dest right : Bitmap) : Result Bitmap :=
  bitwiseInplace (· &&& ·) dest right

def opalBitmapBitwiseOrInplace (dest right : Bitmap) : Result Bitmap :=
  bitwiseInplace (· ||| ·) dest right

def opalBitmapBitwiseXorInplace (dest right : Bitmap) : Result Bitmap :=
  bitwiseInplace (· ^^^ ·) dest right

def Bitmap.members (bm : Bitmap) : Set Nat := {bit | Member bm.words bit}

/-- A bitmap that has been initialised; it has no more words than its limit says, and at most
`most`. -/
structure Bitmap.Ready (bm : Bitmap) (limit most : Nat) : Prop where
  max_size : bm.max_size = limit
  some_word : 0 < bm.words.length
  within : bm.words.length ≤ limit
  few : bm.words.length ≤ most

variable {bm : Bitmap} {index limit most offset : Nat} {bit : Int}

theorem extended_ready (ready : bm.Ready limit most) (small : index < 33554432)
    (below : index < limit) (room : 2 * index ≤ most) :
    ∃ more, extended bm index = .ok (bm.words ++ List.replicate more 0) ∧
      index < bm.words.length + more ∧
      bm.words.length + more ≤ limit ∧ bm.words.length + more ≤ most := by
  obtain ⟨max_size, some_word, within, few⟩ := ready
  rw [extended]
  split
  · exact ⟨0, by simp, by omega, by omega, by omega⟩
  · rename_i outside
    -- The new size is the smallest multiple of the old one that is larger than the index.
    have whole := Nat.div_add_mod index bm.words.length
    have rest := Nat.mod_lt index some_word
    have new_size : (index / bm.words.length + 1) * bm.words.length =
        index / bm.words.length * bm.words.length + bm.words.length := by
      rw [Nat.add_mul, Nat.one_mul]
    rw [Nat.mul_comm] at whole
    have exact_size : toInt ((index / bm.words.length + 1) * bm.words.length : Nat) =
        ((index / bm.words.length + 1) * bm.words.length : Nat) := by
      rw [toInt, Int.bmod_eq_of_le (by omega) (by omega)]
    rw [if_neg (by omega)]
    rw [if_neg (by omega)]
    exact ⟨_, rfl, by omega, by omega, by omega⟩

theorem opalBitmapSetBit_ready {bit : Nat} (ready : bm.Ready limit most)
    (inside : bit / 64 < limit) (accepted : bit ≤ limit) (small : bit ≤ 2147483647)
    (room : 2 * (bit / 64) ≤ most) :
    ∃ after, opalBitmapSetBit bm bit = .ok after ∧ after.Ready limit most ∧
      bit / 64 < after.words.length ∧
      after.members = insert bit bm.members := by
  obtain ⟨more, grown, index, within, few⟩ :=
    extended_ready ready (by omega : bit / 64 < 33554432) inside room
  have index_inside : bit / 64 < (bm.words ++ List.replicate more 0).length := by
    rw [length_append, length_replicate]
    exact index
  refine ⟨⟨(bm.words ++ List.replicate more 0).set (bit / 64)
    ((bm.words ++ List.replicate more 0)[bit / 64] ||| (1#64 <<< (bit % 64))), bm.max_size⟩,
      ?_, ?_, ?_, ?_⟩
  · rw [opalBitmapSetBit, if_neg (by rw [ready.max_size]; omega)]
    simp only [Int.toNat_natCast, grown, ok_bind, getElem?_eq_getElem index_inside]
  · have length : (bm.words ++ List.replicate more 0).length = bm.words.length + more := by simp
    constructor
    · exact ready.max_size
    all_goals simp only [length_set, length]; omega
  · rw [length_set]
    exact index_inside
  · ext other
    change Member _ other ↔ other = bit ∨ Member bm.words other
    rw [member_set index_inside, ← member_append_zeros bm.words more]
    split
    · rename_i here
      rw [getLsbD_set_bit (Nat.mod_lt _ (by decide)), Member, here,
        getD_eq_getElem _ _ index_inside]
      apply or_congr _ Iff.rfl
      omega
    · rename_i elsewhere
      have apart : other ≠ bit := fun same => elsewhere (by rw [same])
      simp only [apart, false_or]

theorem opalBitmapSetBit_refused (ready : bm.Ready limit most)
    (refused : bit < 0 ∨ limit < bit) : opalBitmapSetBit bm bit = .error (.error .badParam) := by
  rw [opalBitmapSetBit, if_pos (by rwa [ready.max_size])]

theorem bits_eq_ok (small : bm.words.length * 64 ≤ 2147483647) :
    bm.bits = .ok ((bm.words.length : Int) * 64) := by
  rw [Bitmap.bits, if_neg (by rw [intMax]; omega)]

theorem bits_overflow (large : 2147483647 < bm.words.length * 64) :
    bm.bits = .error .undefined := by
  rw [Bitmap.bits, if_pos (by rw [intMax]; omega)]

theorem getLsbD_clear_bit (small : other < 64) :
    (word &&& ~~~(1#64 <<< offset)).getLsbD other = true ↔ other ≠ offset ∧
      word.getLsbD other = true := by
  change (word &&& ~~~BitVec.twoPow 64 offset).getLsbD other = true ↔ _
  rw [BitVec.getLsbD_and, Bool.and_eq_true, and_comm, BitVec.getLsbD_not, BitVec.getLsbD_twoPow,
    decide_eq_true small, Bool.true_and, Bool.not_eq_true', Bool.and_eq_false_iff,
    decide_eq_false_iff_not, decide_eq_false_iff_not]
  apply and_congr _ Iff.rfl
  omega

theorem Bitmap.Ready.resized (ready : bm.Ready limit most) {words : List (BitVec 64)}
    (same : words.length = bm.words.length) : Bitmap.Ready { bm with words := words } limit most :=
  ⟨ready.max_size, same ▸ ready.some_word, same ▸ ready.within, same ▸ ready.few⟩

theorem opalBitmapClearBit_inside {bit : Nat} (ready : bm.Ready limit most)
    (small : bm.words.length * 64 ≤ 2147483647) (inside : bit < bm.words.length * 64) :
    ∃ after, opalBitmapClearBit bm bit = .ok after ∧ after.Ready limit most ∧
      after.words.length = bm.words.length ∧
      after.members = bm.members \ {bit} := by
  have index : bit / 64 < bm.words.length := by omega
  refine ⟨{ bm with
    words := bm.words.set (bit / 64) (bm.words.getD (bit / 64) 0 &&& ~~~(1#64 <<< (bit % 64))) },
    ?_, ready.resized (length_set ..), length_set .., ?_⟩
  · rw [opalBitmapClearBit, if_neg (by omega), bits_eq_ok small, ok_bind, if_neg (by omega),
      Int.toNat_natCast]
  · ext other
    change Member _ other ↔ Member bm.words other ∧ other ≠ bit
    rw [member_set index]
    split
    · rename_i here
      rw [getLsbD_clear_bit (Nat.mod_lt _ (by decide)), Member, here, and_comm]
      apply and_congr Iff.rfl
      omega
    · rename_i elsewhere
      have apart : other ≠ bit := fun same => elsewhere (by rw [same])
      exact (and_iff_left apart).symm

theorem opalBitmapClearBit_outside (small : bm.words.length * 64 ≤ 2147483647)
    (outside : bit < 0 ∨ (bm.words.length * 64 : Nat) ≤ bit) :
    opalBitmapClearBit bm bit = .error (.error .badParam) := by
  rw [opalBitmapClearBit]
  split
  · rfl
  · rw [bits_eq_ok small, ok_bind, if_pos (by omega)]

theorem opalBitmapClearBit_negative (negative : bit < 0) :
    opalBitmapClearBit bm bit = .error (.error .badParam) := by
  rw [opalBitmapClearBit, if_pos negative]

theorem opalBitmapClearBit_overflow (some_bit : 0 ≤ bit)
    (large : 2147483647 < bm.words.length * 64) :
    opalBitmapClearBit bm bit = .error .undefined := by
  rw [opalBitmapClearBit, if_neg (by omega), bits_overflow large, error_bind]

theorem twoPow_ushiftRight_one (small : offset + 1 < 64) :
    BitVec.twoPow 64 (offset + 1) >>> 1 = BitVec.twoPow 64 offset := by
  apply BitVec.eq_of_getLsbD_eq
  intro bit inside
  rw [BitVec.getLsbD_ushiftRight, BitVec.getLsbD_twoPow, BitVec.getLsbD_twoPow,
    decide_eq_true small, decide_eq_true (Nat.lt_of_succ_lt small), Nat.add_comm 1 bit]
  simp

theorem twoPow_and_one (small : offset < 64) : BitVec.twoPow 64 offset &&& 1 = 0 ↔ offset ≠ 0 := by
  have low := and_bit_ne_zero (BitVec.twoPow 64 offset) 0 (by decide)
  rw [BitVec.getLsbD_twoPow, decide_eq_true small, Bool.true_and] at low
  change _ &&& (1#64 <<< 0) = 0 ↔ _
  rw [← not_iff_not, not_not, ← ne_eq, ← bne_iff_ne, low, decide_eq_true_eq]

theorem lowestBit_twoPow (enough : offset < turns) (small : offset < 64) :
    lowestBit turns position (BitVec.twoPow 64 offset) = .ok (position + offset) := by
  induction offset generalizing turns position with
  | zero =>
    cases turns with
    | zero => omega
    | succ =>
      rw [lowestBit, if_neg (by rw [twoPow_and_one small]; simp)]
      simp
  | succ offset ih =>
    cases turns with
    | zero => omega
    | succ =>
      rw [lowestBit, if_pos ((twoPow_and_one small).mpr (Nat.succ_ne_zero _)),
        twoPow_ushiftRight_one small, ih (by omega) (by omega)]
      congr 1
      omega

theorem full_before_findIdx {words : List (BitVec 64)}
    (before : earlier < words.findIdx (· != BitVec.allOnes 64)) :
    words.getD earlier 0 = BitVec.allOnes 64 := by
  have inside : earlier < words.length := Nat.lt_of_lt_of_le before findIdx_le_length
  have full := not_of_lt_findIdx before
  rw [getD_eq_getElem _ _ inside]
  simpa using full

theorem opalBitmapFindAndSetFirstUnsetBit_full
    (full : bm.words.findIdx (· != BitVec.allOnes 64) = bm.words.length) :
    opalBitmapFindAndSetFirstUnsetBit bm =
      bm.bits >>= fun position => opalBitmapSetBit bm position >>= fun after =>
        .ok (position, after) := by
  exact if_pos full

theorem opalBitmapFindAndSetFirstUnsetBit_inside
    (found : bm.words.findIdx (· != BitVec.allOnes 64) = index) (inside : index < bm.words.length) :
    ∃ offset, LowestUnset (bm.words.getD index 0) offset ∧ opalBitmapFindAndSetFirstUnsetBit bm =
      if intMax < (index * 64 + offset : Nat) then .error .undefined
      else .ok (((index * 64 + offset : Nat) : Int),
        { bm with
          words := bm.words.set index (bm.words.getD index 0 ||| BitVec.twoPow 64 offset) }) := by
  have not_full : bm.words.getD index 0 ≠ BitVec.allOnes 64 := by
    have stopped := findIdx_getElem (p := (· != BitVec.allOnes 64)) (w := found ▸ inside)
    subst found
    rw [getD_eq_getElem _ _ inside]
    simpa using stopped
  obtain ⟨offset, lowest⟩ := exists_lowestUnset not_full
  refine ⟨offset, lowest, ?_⟩
  rw [opalBitmapFindAndSetFirstUnsetBit]
  simp only [found]
  have position : (0 : Int) + offset + (index : Int) * 64 = (index * 64 + offset : Nat) := by omega
  rw [if_neg (by omega), or_add_one lowest, xor_or_twoPow lowest.unset,
    lowestBit_twoPow lowest.inside lowest.inside, ok_bind, position]

theorem members_set_twoPow (inside : index < bm.words.length) (small : offset < 64) :
    Bitmap.members
      { bm with words := bm.words.set index (bm.words.getD index 0 ||| BitVec.twoPow 64 offset) } =
      insert (index * 64 + offset) bm.members := by
  ext other
  change Member _ other ↔ other = index * 64 + offset ∨ Member bm.words other
  rw [member_set inside]
  split
  · rename_i here
    change (_ ||| (1#64 <<< offset)).getLsbD _ = true ↔ _
    rw [getLsbD_set_bit (Nat.mod_lt _ (by decide)), Member, here]
    apply or_congr _ Iff.rfl
    omega
  · rename_i elsewhere
    have apart : other ≠ index * 64 + offset := fun same => elsewhere (by omega)
    simp [apart]

/-- The search answers the smallest bit that is not set, and sets it, if an `int` can hold its
number. -/
theorem opalBitmapFindAndSetFirstUnsetBit_least (ready : bm.Ready 2147483647 67108864)
    {absent : Nat} (least : IsLeast bm.membersᶜ absent) :
    if absent ≤ 2147483647 then
      ∃ after, opalBitmapFindAndSetFirstUnsetBit bm = .ok ((absent : Int), after) ∧
        after.Ready 2147483647 67108864 ∧
        after.members = insert absent bm.members
    else opalBitmapFindAndSetFirstUnsetBit bm = .error .undefined := by
  rcases Nat.lt_or_ge (bm.words.findIdx (· != BitVec.allOnes 64))
    bm.words.length with inside | outside
  · obtain ⟨offset, lowest, found⟩ := opalBitmapFindAndSetFirstUnsetBit_inside rfl inside
    have place := least.unique (isLeast_absent (fun _ before => full_before_findIdx before) lowest)
    rw [← place] at found
    split
    · rename_i small
      rw [if_neg (by rw [intMax]; omega)] at found
      refine ⟨_, found, ready.resized (length_set ..), ?_⟩
      rw [members_set_twoPow inside lowest.inside, place]
    · rename_i large
      rw [found, if_pos (by rw [intMax]; omega)]
  · have full := Nat.le_antisymm findIdx_le_length outside
    have behind : LowestUnset (bm.words.getD bm.words.length 0) 0 := by
      rw [getD_eq_default _ _ (Nat.le_refl _)]
      exact lowestUnset_zero (by decide)
    have place := least.unique (isLeast_absent
      (fun _ before => full_before_findIdx (full ▸ before)) behind)
    rw [Nat.add_zero] at place
    rw [opalBitmapFindAndSetFirstUnsetBit_full full, place]
    split
    · rename_i small
      obtain ⟨after, done, kept, -, members⟩ := opalBitmapSetBit_ready ready
        (by omega : bm.words.length * 64 / 64 < 2147483647) (by omega) small (by omega)
      refine ⟨after, ?_, kept, members⟩
      rw [bits_eq_ok small]
      change opalBitmapSetBit bm ((bm.words.length * 64 : Nat) : Int) >>= _ = _
      rw [done]
      rfl
    · rename_i large
      rw [bits_overflow (by omega), error_bind]

theorem members_clear_all : (opalBitmapClearAllBits bm).members = ∅ := by
  ext bit
  exact iff_of_false (member_zeros bit) (Set.notMem_empty bit)

theorem members_set_all :
    (opalBitmapSetAllBits bm).members = {bit | bit < bm.words.length * 64} := by
  ext bit
  exact member_ones (by decide)

/-- The word operation acts on the bits as the connective does. -/
def Bitwise (combine : BitVec 64 → BitVec 64 → BitVec 64) (holds : Prop → Prop → Prop) : Prop :=
  ¬ holds False False ∧ ∀ left right bit,
    (combine left right).getLsbD bit = true ↔
      holds (left.getLsbD bit = true) (right.getLsbD bit = true)

theorem bitwise_and : Bitwise (· &&& ·) And := by
  constructor
  · exact fun both => both.1
  · intro left right bit
    rw [BitVec.getLsbD_and, Bool.and_eq_true]

theorem bitwise_or : Bitwise (· ||| ·) Or := by
  constructor
  · exact fun either => either.elim id id
  · intro left right bit
    rw [BitVec.getLsbD_or, Bool.or_eq_true]

theorem bitwise_xor : Bitwise (· ^^^ ·) fun left right => ¬ (left ↔ right) := by
  constructor
  · exact not_not.mpr Iff.rfl
  · intro left right bit
    rw [BitVec.getLsbD_xor]
    cases left.getLsbD bit <;> cases right.getLsbD bit <;> simp

theorem bitwiseInplace_same (bits : Bitwise combine holds) (ready : dest.Ready limit most)
    (same : dest.words.length = right.words.length) :
    ∃ after, bitwiseInplace combine dest right = .ok after ∧ after.Ready limit most ∧
      after.members = {bit | holds (bit ∈ dest.members) (bit ∈ right.members)} := by
  have length : (List.zipWith combine dest.words right.words).length = dest.words.length := by
    rw [length_zipWith]
    omega
  refine ⟨_, if_neg (not_not.mpr same), ready.resized length, ?_⟩
  ext bit
  exact member_zipWith bits.2 bits.1 same

end Orcm.OpalBitmap
