import Orcm.ArgumentVector

/-!
`opal_argv_delete`, `opal_argv_insert` and `opal_argv_insert_element` of `opal/util/argv.c`. No
pointer that is handed in is `NULL`, and the inserted vector is not the target. A call without a
result has undefined behaviour.
-/

namespace Orcm.ArgumentEditing

open CLibrary ArgumentVector Function
open DssTypes (CText)

/-- A vector whose strings, with the `NULL` behind them, can be counted in an `int`. -/
structure Argv where
  strings : List CText
  counted : (strings.length : Int) + 1 ≤ intMax

/-- An allocated block of pointers. -/
structure Block where
  size : Nat
  slot : Nat → Option CText

def block (strings : List CText) : Block := ⟨strings.length + 1, fun index => strings[index]?⟩

/-- The strings stand in the block, and a `NULL` behind them. -/
def Block.Holds (block : Block) (strings : List CText) : Prop :=
  strings.length < block.size ∧ ∀ index ≤ strings.length, block.slot index = strings[index]?

def store (block : Block) (index : Nat) (pointer : Option CText) : Option Block :=
  if index < block.size then some { block with slot := Function.update block.slot index pointer }
    else none

def move (block : Block) (index source : Nat) : Option Block :=
  if source < block.size then store block index (block.slot source) else none

/-- `for (i = start; i < start + suffix_count; ++i) (*argv)[i] = (*argv)[i + num_to_delete]` -/
def moveUp (num_to_delete : Nat) : (suffix_count i : Nat) → Block → Option Block
  | 0, _, block => some block
  | suffix_count + 1, i, block =>
    (move block i (i + num_to_delete)).bind (moveUp num_to_delete suffix_count (i + 1))

/-- `for (i = suffix_count - 1; i >= 0; --i) (*target)[start + source_count + i] = (*target)[start +
i]` -/
def moveDown (start source_count : Nat) : (suffix_count : Nat) → Block → Option Block
  | 0, block => some block
  | i + 1, block =>
    (move block (start + source_count + i) (start + i)).bind (moveDown start source_count i)

def copyIn : (source : List CText) → (i : Nat) → Block → Option Block
  | [], _, block => some block
  | arg :: source, i, block => (store block i (some arg)).bind (copyIn source (i + 1))

inductive Status where
  | success
  | badParam

def opalArgvDelete (argc : Int) (argv : Argv) (start num_to_delete : Int) :
    Option (Status × Int × Block) :=
  let count : Int := argv.strings.length
  if num_to_delete = 0 ∨ count < start then some (.success, argc, block argv.strings)
  else if start < 0 ∨ num_to_delete < 0 then some (.badParam, argc, block argv.strings)
  -- the end of the window is an `int`
  else if intMax < start + num_to_delete then none
  else
    let suffix_count := (count - (start + num_to_delete)).toNat
    let i := start.toNat + suffix_count
    (moveUp num_to_delete.toNat suffix_count start.toNat (block argv.strings)).bind fun block =>
      (store block i none).map fun block =>
        (.success, argc - num_to_delete, { block with size := i + 1 })

def opalArgvInsert (target : Argv) (start : Int) (source : Argv) : Option (Status × Block) :=
  let target_count := target.strings.length
  let source_count := source.strings.length
  if start < 0 then some (.badParam, block target.strings)
  else if target_count < start then
    (source.strings.foldlM opalArgvAppend target.strings).map fun strings =>
      (.success, block strings)
  else if intMax < target_count + source_count + 1 then none
  else
    let suffix_count := target_count - start.toNat
    (moveDown start.toNat source_count suffix_count
      { block target.strings with size := target_count + source_count + 1 }).bind fun block =>
        (store block (start.toNat + suffix_count + source_count) none).bind fun block =>
          (copyIn source.strings start.toNat block).map fun block => (.success, block)

def opalArgvInsertElement (target : Argv) (location : Int) (source : CText) :
    Option (Status × Block) :=
  let target_count := target.strings.length
  if location < 0 then some (.badParam, block target.strings)
  else if target_count < location then
    (opalArgvAppend target.strings source).map fun strings => (.success, block strings)
  else if intMax < target_count + 2 then none
  else
    let suffix_count := target_count - location.toNat
    (moveDown location.toNat 1 suffix_count { block target.strings with
      size := target_count + 2 }).bind fun block =>
      (store block (location.toNat + suffix_count + 1) none).bind fun block =>
        (store block location.toNat (some source)).map fun block => (.success, block)

theorem moveUp_eq {block : Block} (some_deleted : 0 < num_to_delete)
    (inside : 0 < suffix_count → i + suffix_count + num_to_delete ≤ block.size) :
    moveUp num_to_delete suffix_count i block = some { block with
      slot := fun index => block.slot (if i ≤ index ∧
        index < i + suffix_count then index + num_to_delete else index) } := by
  induction suffix_count generalizing i block with
  | zero => simp [moveUp, show ∀ index, ¬ (i ≤ index ∧ index < i) by omega]
  | succ suffix_count ih =>
    have := inside (Nat.succ_pos _)
    rw [moveUp, move, if_pos (by omega), store, if_pos (by omega), Option.bind_some,
      ih fun _ => by dsimp only; omega]
    congr 2
    funext index
    simp only [update_apply]
    grind

theorem moveDown_eq {start : Nat} {block : Block}
    (inside : start + source_count + suffix_count ≤ block.size) :
    moveDown start source_count suffix_count block = some { block with
      slot := fun index => block.slot
        (if start + source_count ≤ index ∧ index < start + source_count + suffix_count then
          index - source_count else index) } := by
  induction suffix_count generalizing block with
  | zero =>
    simp [moveDown, show ∀ index,
      ¬ (start + source_count ≤ index ∧ index < start + source_count) by omega]
  | succ suffix_count ih =>
    rw [moveDown, move, if_pos (by omega), store, if_pos (by omega), Option.bind_some,
      ih (by dsimp only; omega)]
    congr 2
    funext index
    simp only [update_apply]
    grind

theorem copyIn_eq {block : Block} (inside : i + source.length ≤ block.size) :
    copyIn source i block = some { block with
      slot := fun index => if i ≤ index ∧ index < i + source.length then source[index - i]?
        else block.slot index } := by
  induction source generalizing i block with
  | nil => simp [copyIn, show ∀ index, ¬ (i ≤ index ∧ index < i) by omega]
  | cons arg source ih =>
    rw [List.length_cons] at inside
    rw [copyIn, store, if_pos (by omega), Option.bind_some, ih (by dsimp only; omega)]
    congr 2
    funext index
    simp only [update_apply]
    grind

/-- With a right count, what is in the window goes and the count is right again; out of range
nothing changes. -/
def Deletes (argv : Argv) (start num_to_delete : Int) : Prop :=
  let left := if 0 ≤ start ∧ start ≤ argv.strings.length ∧ 0 < num_to_delete then
    argv.strings.take start.toNat ++ argv.strings.drop (start + num_to_delete).toNat
      else argv.strings
  ∃ status block, opalArgvDelete argv.strings.length argv start num_to_delete =
    some (status, (left.length : Int), block) ∧
    block.Holds left

/-- The source stands at the position, or at the end if the position is behind it; in front nothing
changes. -/
def Inserts (target : Argv) (start : Int) (source : Argv) : Prop :=
  let grown := if start < 0 then target.strings else
    target.strings.take start.toNat ++ source.strings ++ target.strings.drop start.toNat
  ∃ status block, opalArgvInsert target start source = some (status, block) ∧ block.Holds grown

theorem block_holds (strings : List CText) : (block strings).Holds strings :=
  ⟨Nat.lt_succ_self _, fun _ _ => rfl⟩

theorem delete_window (argv : Argv) (argc : Int) {num_to_delete : Nat}
    (inside : start ≤ argv.strings.length)
    (some_deleted : 0 < num_to_delete) (small : (start + num_to_delete : Int) ≤ intMax) :
    ∃ after, opalArgvDelete argc argv start num_to_delete = some (.success,
      argc - num_to_delete, after) ∧
      after.Holds (argv.strings.take start ++ argv.strings.drop (start + num_to_delete)) := by
  have suffix : ((argv.strings.length : Int) - (start + num_to_delete)).toNat =
      argv.strings.length - (start + num_to_delete) := by omega
  rw [opalArgvDelete, if_neg (by omega), if_neg (by omega), if_neg (by omega)]
  simp only [suffix, Int.toNat_natCast]
  rw [moveUp_eq some_deleted fun _ => by simp only [block]; omega, Option.bind_some, store,
    if_pos (by simp only [block]; omega), Option.map_some]
  refine ⟨_, rfl, by simp only [List.length_append, List.length_take, List.length_drop]; omega,
    fun index bound => ?_⟩
  simp only [block, update_apply]
  grind

theorem deletes_iff {argv : Argv} {start : Int} :
    Deletes argv start num_to_delete ↔
      ¬ (0 ≤ start ∧ start ≤ argv.strings.length ∧ 0 < num_to_delete ∧
      argv.strings.length < start + num_to_delete) := by
  have counted := argv.counted
  by_cases window : 0 ≤ start ∧ start ≤ argv.strings.length ∧ 0 < num_to_delete
  · obtain ⟨start, rfl⟩ := Int.eq_ofNat_of_zero_le window.1
    obtain ⟨num_to_delete, rfl⟩ := Int.eq_ofNat_of_zero_le window.2.2.le
    rw [Deletes, if_pos window, Int.toNat_natCast, show ((start : Int) + num_to_delete).toNat =
      start + num_to_delete by omega]
    by_cases small : (start + num_to_delete : Int) ≤ intMax
    · obtain ⟨after, deleted, holds⟩ :=
        delete_window argv argv.strings.length (show start ≤ argv.strings.length by omega)
        (show 0 < num_to_delete by omega) small
      simp only [deleted, List.length_append, List.length_take, List.length_drop, Option.some.injEq,
        Prod.mk.injEq]
      constructor
      · rintro ⟨-, -, ⟨-, count, -⟩, -⟩
        omega
      · intro whole
        exact ⟨.success, after, ⟨rfl, by omega, rfl⟩, holds⟩
    · refine iff_of_false ?_ (by omega)
      rintro ⟨_, _, deleted, -⟩
      rw [opalArgvDelete, if_neg (by omega), if_neg (by omega), if_pos (by omega)] at deleted
      cases deleted
  · refine iff_of_true ?_ (by omega)
    rw [Deletes, if_neg window, opalArgvDelete]
    split
    · exact ⟨_, _, rfl, block_holds _⟩
    · rw [if_pos (by omega)]
      exact ⟨_, _, rfl, block_holds _⟩

theorem foldlM_append {target : List CText} (target_counted : (target.length : Int) + 1 ≤ intMax) :
    source.foldlM opalArgvAppend target =
      if (target.length + source.length + 1 : Int) ≤ intMax then some (target ++ source)
        else none := by
  induction source generalizing target with
  | nil => simp [target_counted]
  | cons arg source ih =>
    rw [List.foldlM_cons, opalArgvAppend]
    split
    · rename_i fits
      change source.foldlM opalArgvAppend (target ++ [arg]) = _
      rw [ih (by simp; omega), List.append_assoc]
      refine if_congr ?_ rfl rfl
      simp
      omega
    · rw [if_neg (by simp; omega)]
      rfl

theorem inserts_iff {start : Int} {source : Argv} :
    Inserts target start source ↔
      start < 0 ∨ (target.strings.length + source.strings.length + 1 : Int) ≤ intMax := by
  by_cases negative : start < 0
  · simp only [Inserts, opalArgvInsert, negative, true_or, iff_true]
    exact ⟨_, _, rfl, block_holds _⟩
  obtain ⟨start, rfl⟩ := Int.eq_ofNat_of_zero_le (not_lt.mp negative)
  rw [or_iff_right negative, Inserts, if_neg negative, opalArgvInsert, if_neg negative]
  simp only [Int.toNat_natCast]
  by_cases behind : (target.strings.length : Int) < start
  · rw [if_pos behind, foldlM_append target.counted, List.take_of_length_le (by omega),
      List.drop_eq_nil_of_le (by omega), List.append_nil]
    split
    · exact iff_of_true ⟨_, _, rfl, block_holds _⟩ (by assumption)
    · simp_all
  · rw [if_neg behind]
    by_cases fits : (target.strings.length + source.strings.length + 1 : Int) ≤ intMax
    · refine iff_of_true ?_ fits
      rw [if_neg (by omega), moveDown_eq (by dsimp only; omega), Option.bind_some, store,
        if_pos (by dsimp only; omega),
        Option.bind_some, copyIn_eq (by dsimp only; omega), Option.map_some]
      refine ⟨_, _,
        rfl, by simp only [List.length_append, List.length_take, List.length_drop]; omega,
        fun index bound => ?_⟩
      simp only [block, update_apply]
      grind
    · rw [if_pos (by omega)]
      simp [fits]

theorem insertElement_eq :
    opalArgvInsertElement target location source = opalArgvInsert target location
      ⟨[source], by simp [intMax]⟩ := by
  have appended :
      [source].foldlM opalArgvAppend target.strings = opalArgvAppend target.strings source := by
    simp
  have copied :
      ∀ block, copyIn [source] location.toNat block = store block location.toNat (some source) := by
    intro block
    simp [copyIn]
  simp [opalArgvInsertElement, opalArgvInsert, appended, copied, Nat.cast_one, add_assoc,
    one_add_one_eq_two]

/-- Insertion is right as long as the strings can be counted. Deletion is not where its window goes
on behind the last string: as many as were asked for are taken from the count. -/
theorem argv_editing_iff (argv source : Argv) (arg : CText) (start num_to_delete : Int) :
    (Deletes argv start num_to_delete ↔
      ¬ (0 ≤ start ∧ start ≤ argv.strings.length ∧ 0 < num_to_delete ∧
        argv.strings.length < start + num_to_delete)) ∧
      (Inserts argv start source ↔
        start < 0 ∨ (argv.strings.length + source.strings.length + 1 : Int) ≤ intMax) ∧
      opalArgvInsertElement argv start arg = opalArgvInsert argv start ⟨[arg], by simp [intMax]⟩ :=
  ⟨deletes_iff, inserts_iff, insertElement_eq⟩

/-- Of one string two are deleted: none is left, and the count is -1. -/
theorem count_is_too_small :
    (opalArgvDelete 1 ⟨[CText.ofBlock [65]], by decide⟩ 0 2).map
      (fun done => (done.2.1, done.2.2.slot 0)) =
      some (-1, none) := by
  decide

end Orcm.ArgumentEditing
