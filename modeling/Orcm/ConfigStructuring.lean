import Orcm.ConfigNesting

/-!
Where `structure_lexed_items` stays inside its arrays, and the rows it makes there. The searches for
an open section count an unsigned index down to zero, and so never end with none found.
-/

namespace Orcm.ConfigStructuring

open Brackets ConfigItems ConfigSections ConfigNesting List Result
open DssTypes (CText)

/-- The tags for which an open section is looked for. -/
def needsOpen : Item → Bool
  | .data _ => false
  | .closing name => isaSectionalItem name
  | .opening _ => true

/-- A section is open whenever one is looked for; `depth` are open at first. -/
def alwaysOpen : Nat → List Item → Bool
  | _, [] => true
  | depth, item :: rest =>
    (!needsOpen item || 0 < depth) &&
      alwaysOpen (depth + (opensSection item).toNat - (closesSection item).toNat) rest

variable {entries final : List Entry} {items : List Item} {i : Nat}

theorem opens_eq_zero : opens entries = 0 ↔ lastOpen entries = none := by
  simp [lastOpen_eq_none, opens, countP_eq_zero]

theorem structureItem_length (step : structureItem i item entries = .ok final) :
    final.length = entries.length + (opensSection item).toNat := by
  unfold structureItem at step
  repeat' split at step
  all_goals cases step
  all_goals simp_all [opensSection]

theorem structureLoop_length (done : structureLoop i items entries = .ok final) :
    final.length = entries.length + items.countP opensSection := by
  induction items generalizing i entries with
  | nil =>
    cases done
    rfl
  | cons item rest ih =>
    obtain ⟨next, step, done⟩ := (bind_eq_ok ..).mp done
    rw [ih done, structureItem_length step, countP_cons]
    cases opensSection item
    · simp
    · simp
      omega

theorem structureItem_ends (item : Item) (some_section : entries ≠ []) :
    if needsOpen item ∧ opens entries = 0 then structureItem i item entries = undefined
    else ∃ next, structureItem i item entries = .ok next := by
  simp only [opens_eq_zero]
  cases found : lastOpen entries with
  | none =>
    cases item with
    | data => simp [needsOpen, structureItem]
    | closing name =>
      cases sectional : isaSectionalItem name <;> simp [needsOpen, structureItem, found, sectional]
    | opening => simp [needsOpen, structureItem, found, some_section]
  | some k => cases item <;> simp [structureItem, found, some_section] <;> split <;> simp

/-- The pass ends exactly if a section is open whenever it looks for one. -/
theorem structureLoop_ends (later : i ≠ 0) (some_section : entries ≠ []) :
    if alwaysOpen (opens entries) items then ∃ final, structureLoop i items entries = .ok final
    else structureLoop i items entries = undefined := by
  induction items generalizing i entries with
  | nil => exact ⟨entries, rfl⟩
  | cons item rest ih =>
    have ends := structureItem_ends (i := i) item some_section
    rw [structureLoop, alwaysOpen]
    by_cases lost : needsOpen item ∧ opens entries = 0
    · rw [if_pos lost] at ends
      simp [lost, ends, undefined]
    · rw [if_neg lost] at ends
      obtain ⟨next, step⟩ := ends
      obtain ⟨nonempty, effect⟩ := structureItem_effect later some_section step
      have kinds := counted item
      have depth :
          opens entries + (opensSection item).toNat - (closesSection item).toNat = opens next := by
        cases effect <;> simp_all [tally]
        omega
      have here : (!needsOpen item || decide (0 < opens entries)) = true := by
        simp only [not_and_or] at lost
        rcases lost with lost | lost <;> simp_all
        omega
      rw [here, Bool.true_and, depth, step, ok_bind]
      exact ih (by omega) nonempty

/-- The tests in front of the pass. -/
def Admitted (begin_offset end_offset : Nat) (items : List Item) : Prop :=
  begin_offset < end_offset ∧ end_offset ≤ items.length ∧
    (rangeOf begin_offset end_offset items).head?.any opensSection = true ∧
    (rangeOf begin_offset end_offset items).countP opensSection =
      (rangeOf begin_offset end_offset items).countP closesSection

section Pass

variable (begin_offset end_offset : Nat) (items : List Item)

theorem structureLexedItems_refuses (refused : ¬ Admitted begin_offset end_offset items) :
    structureLexedItems begin_offset end_offset items = fail .badParam := by
  rw [structureLexedItems]
  by_contra passes
  repeat' split at passes
  all_goals first | exact passes rfl | skip
  rename_i onSection counts
  rw [not_or, not_not] at counts
  exact refused ⟨by omega, by omega, by simpa using onSection, counts.1⟩

theorem structureLexedItems_admitted (admitted : Admitted begin_offset end_offset items) :
    structureLexedItems begin_offset end_offset items =
      structureLoop (begin_offset + 1) (rangeOf begin_offset end_offset items).tail
        [rootEntry begin_offset] >>=
        fun entries => .ok (hierarchy entries) := by
  obtain ⟨nonempty, inside, onSection, counts⟩ := admitted
  have some_item : items ≠ [] := ne_nil_of_length_pos (by omega)
  rw [structureLexedItems, if_neg some_item, if_neg (by omega), if_neg (by simp [onSection])]
  cases shape : rangeOf begin_offset end_offset items with
  | nil => simp [shape] at onSection
  | cons first rest =>
    obtain ⟨name, rfl, sectional⟩ :
        ∃ name, first = .opening name ∧ isaSectionalItem name = true := by
      cases first <;> simp_all [opensSection]
    have positive :
        (Item.opening name :: rest).countP opensSection = rest.countP opensSection + 1 :=
      countP_cons_of_pos sectional
    rw [shape, positive] at counts
    rw [positive, if_neg (by omega), structureLoop, structureItem, if_pos sectional, if_pos rfl,
      ok_bind, tail_cons]
    cases done : structureLoop (begin_offset + 1) rest [rootEntry begin_offset] with
    | error => rw [rootEntry] at done; rw [done]; rfl
    | ok entries =>
      have size := structureLoop_length done
      rw [rootEntry] at done
      rw [done, ok_bind, ok_bind, if_neg (by simp [size, Nat.add_comm])]

theorem structureLexedItems_ends (admitted : Admitted begin_offset end_offset items) :
    if alwaysOpen 1 (rangeOf begin_offset end_offset items).tail then
      ∃ rows, structureLexedItems begin_offset end_offset items = .ok rows
    else structureLexedItems begin_offset end_offset items = undefined := by
  have ends :=
    @structureLoop_ends [rootEntry begin_offset] (rangeOf begin_offset end_offset items).tail
    (begin_offset + 1) (by omega) (by simp)
  rw [structureLexedItems_admitted begin_offset end_offset items admitted]
  change if alwaysOpen 1 _ then _ else _ at ends
  split at ends
  · rw [if_pos (by assumption)]
    obtain ⟨entries, done⟩ := ends
    exact ⟨hierarchy entries, by rw [done, ok_bind]⟩
  · rw [if_neg (by assumption), ends]
    rfl

/-- The pass ends with a hierarchy or an error. The sections known at any time, and so the one that
is found open, have indices below the number of sections. -/
def StaysInside : Prop :=
  structureLexedItems begin_offset end_offset items ≠ Result.undefined ∧
  ∀ front back entries, rangeOf begin_offset end_offset items = front ++ back →
    structureLoop begin_offset front [] = .ok entries →
      entries.length ≤ (rangeOf begin_offset end_offset items).countP opensSection ∧
      ∀ k, lastOpen entries = some k →
        k < (rangeOf begin_offset end_offset items).countP opensSection

/-- Structuring runs off its arrays exactly if the tests let a range pass in which a tag that
belongs into a section comes when none is open. -/
theorem stays_inside_iff : StaysInside begin_offset end_offset items ↔
    (Admitted begin_offset end_offset items →
      alwaysOpen 1 (rangeOf begin_offset end_offset items).tail = true) := by
  constructor
  · rintro ⟨returns, -⟩ admitted
    by_contra lost
    have ends := structureLexedItems_ends begin_offset end_offset items admitted
    rw [if_neg lost] at ends
    exact returns ends
  · intro always
    refine ⟨?_, fun front back entries shape done => ?_⟩
    · by_cases admitted : Admitted begin_offset end_offset items
      · have ends := structureLexedItems_ends begin_offset end_offset items admitted
        rw [if_pos (always admitted)] at ends
        obtain ⟨rows, done⟩ := ends
        simp [done, undefined]
      · simp [structureLexedItems_refuses _ _ _ admitted, fail, undefined]
    · have size := structureLoop_length done
      have more : entries.length ≤ (rangeOf begin_offset end_offset items).countP opensSection := by
        rw [shape, countP_append, size, length_nil]
        omega
      exact ⟨more, fun k found => Nat.lt_of_lt_of_le (lastOpen_lt found) more⟩

end Pass

/-- A configuration that is closed by the tag of a junction and goes on. -/
def closedEarly : List Item :=
  [.opening (text "configuration"), .opening (text "role"), .data (text "RECORD"),
    .closing (text "role"),
    .closing (text "junction"), .opening (text "junction"), .opening (text "type"),
      .data (text "node"),
    .closing (text "type"), .closing (text "configuration")]

theorem closed_early_runs_off : checkValidityOfTheInputs closedEarly = .ok () ∧
    findBeginendConfiguration 0 closedEarly true = .ok (some (0, 10)) ∧
      ¬ StaysInside 0 10 closedEarly := by
  refine ⟨by decide +kernel, by decide +kernel, fun stays => stays.1 ?_⟩
  decide +kernel

def isField : Item → Bool
  | .opening name => !isaSectionalItem name
  | _ => false

/-- The offsets of the items that pass a test, where the first one has the offset `i`. -/
def offsets (test : Item → Bool) (i : Nat) (items : List Item) : List Nat :=
  ((items.zipIdx i).filter fun entry => test entry.1).map Prod.snd

theorem offsets_cons :
    offsets test i (item :: rest) = if test item then i :: offsets test (i + 1) rest
      else offsets test (i + 1) rest := by
  cases passes : test item <;> simp [offsets, zipIdx_cons, passes]

theorem offsets_append :
    offsets test i (front ++ back) = offsets test i front ++ offsets test
      (i + front.length) back := by
  simp [offsets, zipIdx_append]

/-- The sections stand in the order of their tags, and every field is in one of them. -/
theorem reads_offsets {sections : Forest (Nat × List Nat)} (reads : Reads i items leaves sections) :
    sections.nodes.map (fun tree => tree.1.1) = offsets opensSection i items ∧
      (leaves ++ sections.nodes.flatMap fun tree => tree.1.2).Perm (offsets isField i items) := by
  induction reads with
  | nil => exact ⟨rfl, .nil⟩
  | data => simpa [offsets_cons, opensSection, isField]
  | closing => simpa [offsets_cons, opensSection, isField]
  | leaf i name rest leaves sections plain tail ih =>
    simpa [offsets_cons, opensSection, isField, plain] using ih
  | inner i name other inner rest leaves own inside others opens closes within tail
    inner_ih tail_ih =>
    simp only [Forest.nodes, offsets_cons, offsets_append, opensSection, isField, opens,
      map_cons, map_append, flatMap_cons, flatMap_append, inner_ih.1, tail_ih.1]
    refine ⟨by simp, ?_⟩
    simp only [Bool.not_true, Bool.false_eq_true, ↓reduceIte]
    rw [← append_assoc own]
    exact (perm_append_comm_assoc ..).trans (inner_ih.2.append tail_ih.2)

theorem nested_counts (nested : ProperlyNested items) :
    items.countP opensSection = items.countP closesSection := by
  induction nested with
  | nil => rfl
  | skip item rest plain _ ih => cases item <;> simp_all [tagKind, opensSection, closesSection]
  | bracket first last name other inner rest opens closes paired _ _ inner_ih tail_ih =>
    cases first <;> cases last <;> simp only [tagKind, reduceCtorEq, Kind.opening.injEq,
      Kind.closing.injEq] at opens closes
    subst opens closes
    rename_i name other
    have same : opensSection (.opening name) = closesSection (.closing other) :=
      isaSectionalItem_congr name other paired
    have neither : opensSection (.closing other) = closesSection (.opening name) := rfl
    simp only [countP_cons, countP_append, inner_ih, tail_ih, same, neither]
    omega

/-- The rows are those of the sections of the range: the offset of its tag, those of its fields and
the negated numbers of the sections directly in it. -/
def Structured (begin_offset end_offset : Nat) (items : List Item) : Prop :=
  ∃ sections, structureLexedItems begin_offset end_offset items = .ok
    ((sections.table 0).map toRow) ∧
    Reads begin_offset (rangeOf begin_offset end_offset items) [] sections ∧
    sections.nodes.map (fun tree => tree.1.1) = offsets opensSection begin_offset
      (rangeOf begin_offset end_offset items) ∧
    (sections.nodes.flatMap fun tree => tree.1.2).Perm
      (offsets isField begin_offset (rangeOf begin_offset end_offset items))

/-- A nested range is structured exactly if it begins with a section and the sections and fields all
lie in this one. -/
theorem structured_iff (begin_offset end_offset : Nat) (items : List Item)
    (nested : ProperlyNested (rangeOf begin_offset end_offset items)) :
    Structured begin_offset end_offset items ↔ begin_offset < end_offset ∧
      end_offset ≤ items.length ∧
      (rangeOf begin_offset end_offset items).head?.any opensSection = true ∧
      alwaysOpen 1 (rangeOf begin_offset end_offset items).tail = true := by
  constructor
  · rintro ⟨sections, done, -⟩
    have admitted : Admitted begin_offset end_offset items := by
      by_contra refused
      rw [structureLexedItems_refuses _ _ _ refused] at done
      cases done
    have ends := structureLexedItems_ends _ _ _ admitted
    refine ⟨admitted.1, admitted.2.1, admitted.2.2.1, ?_⟩
    by_contra lost
    rw [if_neg lost, done] at ends
    cases ends
  · rintro ⟨nonempty, inside, onSection, always⟩
    have ends := structureLexedItems_ends _ _ _ ⟨nonempty, inside, onSection, nested_counts nested⟩
    rw [if_pos always] at ends
    obtain ⟨rows, done⟩ := ends
    obtain ⟨-, name, other, inner, tail, leaves, within, shape, opens, closes, reads, behind,
        rfl⟩ := structure_reads done
    have whole :=
      Reads.inner begin_offset name other inner tail [] leaves within .nil opens closes reads behind
    rw [← shape] at whole
    have found := reads_offsets whole
    exact ⟨_, done, whole, found⟩

theorem structured_junction : Structured 0 13 (oneJunction (text "name")) :=
  (structured_iff 0 13 _ (nested_of_run _ (by decide +kernel))).mpr (by decide +kernel)

/-- The search for the end of a configuration passes over a tag that begins with a capital letter,
and so finds two configurations. -/
def twoConfigurations : List Item :=
  [.opening (text "configuration"), .opening (text "role"), .data (text "RECORD"),
    .closing (text "role"),
    .opening (text "junction"), .opening (text "type"), .data (text "node"), .closing (text "type"),
    .closing (text "junction"), .closing (text "Configuration"),
    .opening (text "configuration"), .opening (text "role"), .data (text "MOD"),
      .closing (text "role"),
    .closing (text "configuration")]

theorem two_configurations_not_structured : checkValidityOfTheInputs twoConfigurations = .ok () ∧
    findBeginendConfiguration 0 twoConfigurations true = .ok (some (0, 15)) ∧
    ProperlyNested (rangeOf 0 15 twoConfigurations) ∧ ¬ Structured 0 15 twoConfigurations := by
  refine ⟨by decide +kernel, by decide +kernel, nested_of_run _ (by decide +kernel), ?_⟩
  rintro ⟨sections, done, -⟩
  have lost : structureLexedItems 0 15 twoConfigurations = undefined := by decide +kernel
  rw [lost] at done
  cases done

end Orcm.ConfigStructuring
