import Orcm.BitmapOperations

/-!
Bitmaps without a limit of the caller, as sets of numbers. A run is over a family of bitmaps, which
can be operands of each other. Numbers of bits are handed out as `int`.
-/

namespace Orcm.BitmapSets

open CLibrary OpalBitmap WordSets

variable {Name : Type} [DecidableEq Name]

inductive Call (Name : Type) where
  | setBit (name : Name) (bit : Int)
  | clearBit (name : Name) (bit : Int)
  | isSetBit (name : Name) (bit : Int)
  | clearAllBits (name : Name)
  | setAllBits (name : Name)
  | findAndSetFirstUnsetBit (name : Name)
  | bitwiseAndInplace (dest right : Name)
  | bitwiseOrInplace (dest right : Name)
  | bitwiseXorInplace (dest right : Name)

inductive Answer where
  | success
  | failure (code : ErrorCode)
  | isSet (answer : Bool)
  | position (position : Int)
  deriving DecidableEq

def update (bitmaps : Name → Bitmap) (name : Name) :
    Result Bitmap → Option (Answer × (Name → Bitmap))
  | .ok bm => some (.success, Function.update bitmaps name bm)
  | .error (.error code) => some (.failure code, bitmaps)
  | .error .undefined => none

def search (bitmaps : Name → Bitmap) (name : Name) :
    Result (Int × Bitmap) → Option (Answer × (Name → Bitmap))
  | .ok (position, bm) => some (.position position, Function.update bitmaps name bm)
  | .error (.error code) => some (.failure code, bitmaps)
  | .error .undefined => none

def query (bitmaps : Name → Bitmap) : Result Bool → Option (Answer × (Name → Bitmap))
  | .ok answer => some (.isSet answer, bitmaps)
  | .error (.error code) => some (.failure code, bitmaps)
  | .error .undefined => none

def perform (bitmaps : Name → Bitmap) : Call Name → Option (Answer × (Name → Bitmap))
  | .setBit name bit => update bitmaps name (opalBitmapSetBit (bitmaps name) bit)
  | .clearBit name bit => update bitmaps name (opalBitmapClearBit (bitmaps name) bit)
  | .isSetBit name bit => query bitmaps (opalBitmapIsSetBit (bitmaps name) bit)
  | .clearAllBits name => update bitmaps name (.ok (opalBitmapClearAllBits (bitmaps name)))
  | .setAllBits name => update bitmaps name (.ok (opalBitmapSetAllBits (bitmaps name)))
  | .findAndSetFirstUnsetBit name =>
    search bitmaps name (opalBitmapFindAndSetFirstUnsetBit (bitmaps name))
  | .bitwiseAndInplace dest right =>
    update bitmaps dest (opalBitmapBitwiseAndInplace (bitmaps dest) (bitmaps right))
  | .bitwiseOrInplace dest right =>
    update bitmaps dest (opalBitmapBitwiseOrInplace (bitmaps dest) (bitmaps right))
  | .bitwiseXorInplace dest right =>
    update bitmaps dest (opalBitmapBitwiseXorInplace (bitmaps dest) (bitmaps right))

def room (bm : Bitmap) : Nat := bm.words.length * 64

def Call.name : Call Name → Name
  | .setBit name _ | .clearBit name _ | .isSetBit name _ | .clearAllBits name | .setAllBits name
  | .findAndSetFirstUnsetBit name | .bitwiseAndInplace name _ | .bitwiseOrInplace
    name _ | .bitwiseXorInplace name _ => name

/-- Bitmaps of different sizes are not combined, as their documentation has it. -/
def Combines (dest right : Bitmap) (combined : Set Nat) (answer : Answer) (after : Set Nat) :
    Prop :=
  if room dest = room right then answer = .success ∧ after = combined
  else answer = .failure .badParam ∧ after = dest.members

/-- What a call is to answer and to make of the members of the bitmap it is given. -/
def Call.Acts (bitmaps : Name → Bitmap) (answer : Answer) (after : Set Nat) : Call Name → Prop
  | .setBit name bit =>
    if 0 ≤ bit ∧ bit ≤ intMax then
      answer = .success ∧ after = insert bit.toNat (bitmaps name).members
    else answer = .failure .badParam ∧ after = (bitmaps name).members
  | .clearBit name bit =>
    answer = (if 0 ≤ bit ∧ bit < room (bitmaps name) then .success else .failure .badParam) ∧
      after = {other ∈ (bitmaps name).members | (other : Int) ≠ bit}
  | .isSetBit name bit =>
    ∃ set, answer = .isSet set ∧ (set = true ↔ 0 ≤ bit ∧ bit.toNat ∈ (bitmaps name).members) ∧
      after = (bitmaps name).members
  | .clearAllBits _ => answer = .success ∧ after = ∅
  | .setAllBits name => answer = .success ∧ after = {bit | bit < room (bitmaps name)}
  | .findAndSetFirstUnsetBit name =>
    ∃ absent : Nat, IsLeast (bitmaps name).membersᶜ absent ∧ answer = .position absent ∧
      after = insert absent (bitmaps name).members
  | .bitwiseAndInplace dest right =>
    Combines (bitmaps dest) (bitmaps right) ((bitmaps dest).members ∩ (bitmaps right).members)
      answer after
  | .bitwiseOrInplace dest right =>
    Combines (bitmaps dest) (bitmaps right) ((bitmaps dest).members ∪ (bitmaps right).members)
      answer after
  | .bitwiseXorInplace dest right =>
    Combines (bitmaps dest) (bitmaps right)
      (symmDiff (bitmaps dest).members (bitmaps right).members) answer after

/-- The call has a result, it acts on its own bitmap as it should, and the other bitmaps keep their
members. -/
def Agrees (bitmaps : Name → Bitmap) (call : Call Name) : Prop :=
  ∃ answer after, perform bitmaps call = some (answer, after) ∧
    call.Acts bitmaps answer (after call.name).members ∧
    ∀ other ≠ call.name, (after other).members = (bitmaps other).members

def AllAgree (bitmaps : Name → Bitmap) : List (Call Name) → Prop
  | [] => True
  | call :: calls =>
    Agrees bitmaps call ∧ ∀ done, perform bitmaps call = some done → AllAgree done.2 calls

/-- The numbers that the call computes fit in an `int`. -/
def Meets (bitmaps : Name → Bitmap) : Call Name → Prop
  | .clearBit name bit | .isSetBit name bit => 0 ≤ bit → room (bitmaps name) ≤ 2147483647
  | .findAndSetFirstUnsetBit name => ∃ absent ≤ 2147483647, absent ∉ (bitmaps name).members
  | _ => True

def AllMeet (bitmaps : Name → Bitmap) : List (Call Name) → Prop
  | [] => True
  | call :: calls =>
    Meets bitmaps call ∧ ∀ done, perform bitmaps call = some done → AllMeet done.2 calls

def AllReady (bitmaps : Name → Bitmap) : Prop := ∀ name, (bitmaps name).Ready 2147483647 67108864

theorem room_of_ready {bm : Bitmap} (ready : bm.Ready 2147483647 67108864) : bm.Room (room bm) := by
  constructor
  · rw [room]
    omega
  · exact ready.max_size

theorem exists_isLeast_absent {bm : Bitmap} : ∃ absent, IsLeast bm.membersᶜ absent := by
  classical
  have behind : room bm ∈ bm.membersᶜ := fun member => Nat.lt_irrefl _ (Member.lt member)
  exact ⟨_, Nat.isLeast_find ⟨_, behind⟩⟩

theorem init_ready (initialised : opalBitmapInit opalBitmapConstruct size = .ok bm) :
    bm.Ready 2147483647 67108864 ∧ bm.members = ∅ := by
  rw [opalBitmapInit] at initialised
  split at initialised
  · exact absurd initialised (by simp)
  · rename_i accepted
    simp only [opalBitmapConstruct, intMax] at accepted
    cases initialised
    have length :
        (List.replicate ((size.toNat + 63) / 64) (0 : BitVec 64)).length = (size.toNat + 63) / 64 :=
      List.length_replicate ..
    constructor
    · constructor
      · rfl
      all_goals simp only [length]; omega
    · ext bit
      exact iff_of_false (member_zeros bit) (Set.notMem_empty bit)

section Steps

variable {bitmaps : Name → Bitmap} {call : Call Name} {answer : Answer}

theorem steps_update (ready : AllReady bitmaps)
    (performed : perform bitmaps call = some (answer, Function.update bitmaps call.name bm))
    (bm_ready : bm.Ready 2147483647 67108864) (acts : call.Acts bitmaps answer bm.members) :
    Agrees bitmaps call ∧ ∀ done, perform bitmaps call = some done → AllReady done.2 := by
  constructor
  · refine ⟨answer, _, performed, ?_, fun other different => ?_⟩
    · rwa [Function.update_self]
    · rw [Function.update_of_ne different]
  · intro done same name
    rw [performed, Option.some_inj] at same
    rw [← same]
    by_cases here : name = call.name
    · rw [here]
      dsimp only
      rwa [Function.update_self]
    · dsimp only
      rw [Function.update_of_ne here]
      exact ready name

theorem steps_unchanged (ready : AllReady bitmaps)
    (performed : perform bitmaps call = some (answer, bitmaps))
    (acts : call.Acts bitmaps answer (bitmaps call.name).members) :
    Agrees bitmaps call ∧ ∀ done, perform bitmaps call = some done → AllReady done.2 := by
  apply steps_update ready _ (ready call.name) acts
  rw [performed, Function.update_eq_self]

theorem steps_combine (bits : Bitwise combine holds) (ready : AllReady bitmaps)
    (performs : perform bitmaps call =
      update bitmaps call.name (bitwiseInplace combine (bitmaps call.name) (bitmaps right)))
    (acts : ∀ answer after, call.Acts bitmaps answer after ↔
      Combines (bitmaps call.name) (bitmaps right)
      {bit | holds (bit ∈ (bitmaps call.name).members) (bit ∈ (bitmaps right).members)}
        answer after) :
    Agrees bitmaps call ∧ ∀ done, perform bitmaps call = some done → AllReady done.2 := by
  by_cases same : room (bitmaps call.name) = room (bitmaps right)
  · have lengths : (bitmaps call.name).words.length = (bitmaps right).words.length := by
      rw [room, room] at same
      omega
    obtain ⟨after, done, kept, members⟩ := bitwiseInplace_same bits (ready call.name) lengths
    rw [done] at performs
    apply steps_update ready performs kept
    rw [acts, Combines, if_pos same]
    exact ⟨rfl, members⟩
  · have refused :
        bitwiseInplace combine (bitmaps call.name) (bitmaps right) = .error (.error .badParam) :=
      if_pos fun lengths => same (by rw [room, room, lengths])
    rw [refused] at performs
    apply steps_unchanged ready performs
    rw [acts, Combines, if_neg same]
    exact ⟨rfl, rfl⟩

theorem steps_setBit (ready : AllReady bitmaps) :
    Agrees bitmaps (.setBit name bit) ∧ ∀ done, perform bitmaps (.setBit name bit) = some done →
      AllReady done.2 := by
  by_cases fits : 0 ≤ bit ∧ bit ≤ intMax
  · obtain ⟨number, rfl⟩ := Int.eq_ofNat_of_zero_le fits.1
    have small : number ≤ 2147483647 := by
      have limit := fits.2
      rw [intMax] at limit
      omega
    obtain ⟨after, done, kept, -, members⟩ :=
      opalBitmapSetBit_ready (ready name) (by omega) small small
      (by omega)
    apply steps_update ready _ kept
    · rw [Call.Acts, if_pos fits]
      exact ⟨rfl, members⟩
    · rw [perform, done]
      rfl
  · have outside : bit < 0 ∨ (2147483647 : Nat) < bit := by
      rw [intMax] at fits
      omega
    have refused := opalBitmapSetBit_refused (ready name) outside
    apply steps_unchanged ready
    · rw [perform, refused]
      rfl
    · rw [Call.Acts, if_neg fits]
      exact ⟨rfl, rfl⟩

variable {name : Name} (ready : AllReady bitmaps)
include ready

theorem steps_clearBit (small : 0 ≤ bit → room (bitmaps name) ≤ 2147483647) :
    Agrees bitmaps (.clearBit name bit) ∧ ∀ done, perform bitmaps (.clearBit name bit) = some done →
      AllReady done.2 := by
  by_cases inside : 0 ≤ bit ∧ bit < room (bitmaps name)
  · have fits := small inside.1
    obtain ⟨number, rfl⟩ := Int.eq_ofNat_of_zero_le inside.1
    obtain ⟨after, done, kept, -, members⟩ :=
      opalBitmapClearBit_inside (ready name) fits (Int.ofNat_lt.mp inside.2)
    apply steps_update ready _ kept
    · refine ⟨(if_pos inside).symm, ?_⟩
      rw [members]
      ext other
      exact and_congr_right fun _ => not_congr Int.ofNat_inj.symm
    · rw [perform, done]
      rfl
  · have refused : opalBitmapClearBit (bitmaps name) bit = .error (.error .badParam) := by
      rcases Int.lt_or_le bit 0 with negative | positive
      · exact opalBitmapClearBit_negative negative
      · apply opalBitmapClearBit_outside (small positive)
        rw [room] at inside
        omega
    apply steps_unchanged ready
    · rw [perform, refused]
      rfl
    · refine ⟨(if_neg inside).symm, ?_⟩
      ext other
      -- A bit behind the words is no member, so there is nothing to remove.
      refine ⟨fun member => ⟨member, fun same => inside ?_⟩, fun kept => kept.1⟩
      have below : other < room (bitmaps name) := Member.lt member
      omega

theorem steps_isSetBit {bit : Int} (small : 0 ≤ bit → room (bitmaps name) ≤ 2147483647) :
    Agrees bitmaps (.isSetBit name bit) ∧ ∀ done, perform bitmaps (.isSetBit name bit) = some done →
      AllReady done.2 := by
  have answered : ∃ set, opalBitmapIsSetBit (bitmaps name) bit = (.ok set : Result Bool) ∧
      (set = true ↔ 0 ≤ bit ∧ bit.toNat ∈ (bitmaps name).members) := by
    rcases Int.lt_or_le bit 0 with negative | positive
    · refine ⟨false, if_pos negative, ?_⟩
      exact iff_of_false Bool.noConfusion fun held => absurd held.1 (by omega)
    · have fits := small positive
      obtain ⟨number, rfl⟩ := Int.eq_ofNat_of_zero_le positive
      obtain ⟨set, done, held⟩ :=
        opalBitmapIsSetBit_room (bitmaps name) _ number (room_of_ready (ready name))
        (by rw [room] at fits ⊢; omega)
      exact ⟨set, done, held.trans (and_iff_right positive).symm⟩
  obtain ⟨set, done, right⟩ := answered
  apply steps_unchanged ready
  · rw [perform, done]
    rfl
  · exact ⟨set, rfl, right, rfl⟩

theorem steps_findAndSetFirstUnsetBit
    (small : ∃ absent ≤ 2147483647, absent ∉ (bitmaps name).members) :
    Agrees bitmaps (.findAndSetFirstUnsetBit name) ∧
      ∀ done, perform bitmaps (.findAndSetFirstUnsetBit name) = some done → AllReady done.2 := by
  obtain ⟨absent, fits, missing⟩ := small
  obtain ⟨first, least⟩ := exists_isLeast_absent
  have found := opalBitmapFindAndSetFirstUnsetBit_least (ready name) least
  rw [if_pos (Nat.le_trans (least.2 missing) fits)] at found
  obtain ⟨after, done, kept, members⟩ := found
  apply steps_update ready _ kept
  · exact ⟨first, least, rfl, members⟩
  · rw [perform, done]
    rfl

theorem perform_agrees (meets : Meets bitmaps call) :
    Agrees bitmaps call ∧ ∀ done, perform bitmaps call = some done → AllReady done.2 := by
  cases call with
  | setBit name bit => exact steps_setBit ready
  | clearBit => exact steps_clearBit ready meets
  | isSetBit => exact steps_isSetBit ready meets
  | clearAllBits name =>
    apply steps_update ready rfl ((ready name).resized (List.length_replicate ..))
    exact ⟨rfl, members_clear_all⟩
  | setAllBits name =>
    apply steps_update ready rfl ((ready name).resized (List.length_replicate ..))
    exact ⟨rfl, members_set_all⟩
  | findAndSetFirstUnsetBit => exact steps_findAndSetFirstUnsetBit ready meets
  | bitwiseAndInplace => exact steps_combine bitwise_and ready rfl fun _ _ => Iff.rfl
  | bitwiseOrInplace => exact steps_combine bitwise_or ready rfl fun _ _ => Iff.rfl
  | bitwiseXorInplace dest right =>
    apply steps_combine bitwise_xor ready rfl
    intro answer after
    have difference : symmDiff (bitmaps dest).members (bitmaps right).members =
        {bit | ¬ (bit ∈ (bitmaps dest).members ↔ bit ∈ (bitmaps right).members)} := by
      ext bit
      exact xor_iff_not_iff _ _
    rw [Call.Acts, difference]
    rfl

theorem perform_undefined (fails : ¬ Meets bitmaps call) : perform bitmaps call = none := by
  cases call with
  | clearBit =>
    rw [Meets, Classical.not_imp] at fails
    rw [perform, opalBitmapClearBit_overflow fails.1 (Nat.lt_of_not_le fails.2)]
    rfl
  | isSetBit name =>
    rw [Meets, Classical.not_imp] at fails
    obtain ⟨number, rfl⟩ := Int.eq_ofNat_of_zero_le fails.1
    rw [perform, opalBitmapIsSetBit_overflow (room_of_ready (ready name)) (by omega)]
    rfl
  | findAndSetFirstUnsetBit name =>
    obtain ⟨first, least⟩ := exists_isLeast_absent
    have found := opalBitmapFindAndSetFirstUnsetBit_least (ready name) least
    rw [if_neg fun fits => fails ⟨first, fits, least.1⟩] at found
    rw [perform, found]
    rfl
  | _ => exact absurd trivial fails

theorem run_agrees_iff (calls : List (Call Name)) :
    AllAgree bitmaps calls ↔ AllMeet bitmaps calls := by
  induction calls generalizing bitmaps with
  | nil => exact Iff.rfl
  | cons call calls ih =>
    by_cases meets : Meets bitmaps call
    · obtain ⟨agrees, kept⟩ := perform_agrees ready meets
      apply and_congr (iff_of_true agrees meets)
      exact forall_congr' fun done => forall_congr' fun performed => ih (kept done performed)
    · apply iff_of_false
      · rintro ⟨⟨answer, after, performed, -⟩, -⟩
        rw [perform_undefined ready meets] at performed
        cases performed
      · exact fun all => meets all.1

end Steps

/-- Bitmaps that have been constructed and initialised, each with a number of bits of its own. -/
theorem bitmaps_are_sets (sizes : Name → Int) (bitmaps : Name → Bitmap)
    (initialised : ∀ name, opalBitmapInit opalBitmapConstruct (sizes name) = .ok (bitmaps name))
    (calls : List (Call Name)) :
    (∀ name, (bitmaps name).members = ∅) ∧ (AllAgree bitmaps calls ↔ AllMeet bitmaps calls) := by
  have started := fun name => init_ready (initialised name)
  exact ⟨fun name => (started name).2, run_agrees_iff (fun name => (started name).1) calls⟩

/-- A number is set and asked for, and the smallest free one is handed out. -/
theorem one_bitmap_is_set : (∀ _ : Unit, (⟨[0], intMax⟩ : Bitmap).members = ∅) ∧
    (AllAgree (fun _ : Unit => ⟨[0], intMax⟩) [.setBit () 70, .isSetBit () 70,
      .findAndSetFirstUnsetBit ()] ↔
      AllMeet (fun _ : Unit => ⟨[0], intMax⟩) [.setBit () 70, .isSetBit () 70,
        .findAndSetFirstUnsetBit ()]) :=
  bitmaps_are_sets (fun _ => 1) _ (fun _ => rfl) _

/-- A bitmap of 2147483647 bits has a word more than an `int` can count the bits of. -/
theorem bitmap_is_no_set :
    ∃ bm, opalBitmapInit opalBitmapConstruct 2147483647 = .ok bm ∧
      ¬ AllAgree (fun _ : Unit => bm) [.isSetBit () 0] := by
  obtain ⟨bm, started, sized, -⟩ := opalBitmapInit_construct 2147483647 (by decide) (by decide)
  refine ⟨bm, started, ?_⟩
  rw [run_agrees_iff fun _ => (init_ready started).1]
  rintro ⟨fits, -⟩
  have small := fits (Int.le_refl 0)
  rw [room, sized.words] at small
  omega

end Orcm.BitmapSets
