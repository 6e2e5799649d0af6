import Orcm.Brackets
import Orcm.ConfigItems
import Orcm.Forest

/-!
`find_beginend_configuration` and `structure_lexed_items` of `cfgi_file30.c`. The row of a section
holds the offset of its opening tag, the offsets of the opening tags of its fields and the negated
rows of the sections inside it. The source makes its pass twice, to count and to fill the rows; here
it is made once.
-/

namespace Orcm.ConfigSections

open Brackets (Kind)
open ConfigItems List Result
open DssTypes (CText)

/-- The search for the opening tag; `beg` is the tag whose role is not known yet. -/
def findBegin (record : Bool) : Nat → List Item → Option Nat → Result (Option Nat)
  | _, [], beg => .ok beg
  | i, .opening name :: rest, none =>
    findBegin record (i + 1) rest (if tag name = some .configuration then some i else none)
  | i, .opening name :: rest, some beg =>
    if tag name = some .role then
      match rest with
      | .data t :: _ =>
        if strcasecmp t (text "RECORD") then
          if record then .ok (some beg) else findBegin record (i + 1) rest none
        else if strcasecmp t (text "MOD") then
          if record then findBegin record (i + 1) rest none else .ok (some beg)
        else Result.fail .badParam
      | [] => Result.undefined
      | _ => Result.fail .badParam
    else if tag name = some .version ∨ tag name = some .creation then
      findBegin record (i + 1) rest (some beg)
    else Result.fail .badParam
  | i, _ :: rest, beg => findBegin record (i + 1) rest beg

/-- The closing tag must begin with a small letter. -/
def endsConfiguration : Item → Bool
  | .closing name => name.bytes.head? = some 99 && tag name = some .configuration
  | _ => false

/-- The offsets of the opening tag and of the item behind the closing tag; none if there is no such
configuration. -/
def findBeginendConfiguration (start_index : Nat) (items : List Item) (record : Bool) :
    Result (Option (Nat × Nat)) :=
  if items.length ≤ start_index then Result.fail .badParam
  else do
    match ← findBegin record start_index (items.drop start_index) none with
    | none => .ok none
    | some beg =>
      match (items.drop beg).findIdx? endsConfiguration with
      | none => Result.fail .badParam
      | some distance => .ok (some (beg, beg + distance + 1))

/-- The entries of the four arrays for one section; an end of zero means that the section is
open. -/
structure Entry where
  start : Nat
  stop : Nat
  parent : Option Nat
  leaves : List Nat
  deriving DecidableEq, Repr

/-- The search for the first empty ending, downwards. Where there is none the index wraps below
zero. -/
def lastOpen : List Entry → Option Nat
  | [] => none
  | entry :: rest =>
    match lastOpen rest with
    | some k => some (k + 1)
    | none => if entry.stop = 0 then some 0 else none

def Entry.close (i : Nat) (entry : Entry) : Entry := { entry with stop := i }

def Entry.addLeaves (leaves : List Nat) (entry : Entry) : Entry :=
  { entry with leaves := entry.leaves ++ leaves }

def structureItem (i : Nat) (item : Item) (entries : List Entry) : Result (List Entry) :=
  match item with
  | .data _ => .ok entries
  | .closing name =>
    if isaSectionalItem name then
      match lastOpen entries with
      | none => Result.undefined
      | some k => .ok (entries.modify k (Entry.close i))
    else .ok entries
  | .opening name =>
    if isaSectionalItem name then
      if entries = [] then .ok [⟨i, 0, none, []⟩]
      else match lastOpen entries with
        | none => Result.undefined
        | some k => .ok (entries ++ [⟨i, 0, some k, []⟩])
    else
      if entries = [] then Result.fail .badParam
      else match lastOpen entries with
        | none => Result.undefined
        | some k => .ok (entries.modify k (Entry.addLeaves [i]))

def structureLoop : Nat → List Item → List Entry → Result (List Entry)
  | _, [], entries => .ok entries
  | i, item :: rest, entries => structureItem i item entries >>= structureLoop (i + 1) rest

def opensSection : Item → Bool
  | .opening name => isaSectionalItem name
  | _ => false

def closesSection : Item → Bool
  | .closing name => isaSectionalItem name
  | _ => false

def toRow (row : (Nat × List Nat) × List Nat) : List Int :=
  row.1.1 :: (row.1.2.map Int.ofNat ++ row.2.map fun k : Nat => -(k : Int))

def Entry.label (entry : Entry) : Nat × List Nat := (entry.start, entry.leaves)

def hierarchy (entries : List Entry) : List (List Int) :=
  entries.zipIdx.map fun entry =>
    toRow (entry.1.label, Forest.childrenFrom 0 entry.2 (entries.map Entry.parent))

def rangeOf (begin_offset end_offset : Nat) (items : List Item) : List Item :=
  (items.drop begin_offset).take (end_offset - begin_offset)

def structureLexedItems (begin_offset end_offset : Nat) (items : List Item) :
    Result (List (List Int)) :=
  let range := rangeOf begin_offset end_offset items
  let length := range.countP opensSection
  if items = [] then Result.fail .badParam
  else if end_offset ≤ begin_offset ∨ items.length ≤ begin_offset ∨ items.length < end_offset then
    Result.fail .badParam
  else if !range.head?.any opensSection then Result.fail .badParam
  else if length ≠ range.countP closesSection ∨ length = 0 then Result.fail .badParam
  else do
    let entries ← structureLoop begin_offset range []
    if entries.length ≠ length then Result.fail .badParam else .ok (hierarchy entries)

variable {k : Nat}

theorem modify_append {back : List Entry} (inside : k < front.length) :
    (front ++ back).modify k change = front.modify k change ++ back := by
  induction front generalizing k with
  | nil => simp at inside
  | cons entry rest ih =>
    cases k with
    | zero => simp
    | succ => simp [ih (by simpa using inside)]

theorem modify_last :
    (front ++ entry :: back).modify front.length change = front ++ change entry :: back := by
  induction front with
  | nil => simp
  | cons first rest ih => simp [ih]

theorem lastOpen_lt (found : lastOpen entries = some k) : k < entries.length := by
  induction entries generalizing k with
  | nil => cases found
  | cons entry rest ih =>
    rw [lastOpen] at found
    cases later : lastOpen rest with
    | some =>
      rw [later] at found
      cases found
      simpa using ih later
    | none =>
      simp only [later] at found
      split at found
      · cases found
        simp
      · cases found

theorem lastOpen_eq_none : lastOpen entries = none ↔ ∀ entry ∈ entries, entry.stop ≠ 0 := by
  induction entries with
  | nil => simp [lastOpen]
  | cons entry rest ih =>
    rw [lastOpen]
    cases later : lastOpen rest with
    | some =>
      have : ¬ ∀ entry ∈ rest, entry.stop ≠ 0 :=
        fun closed => by rw [← ih, later] at closed; cases closed
      simp [this]
    | none =>
      have := ih.mp later
      by_cases zero : entry.stop = 0
      · simp [zero]
      · simpa [zero] using this

theorem lastOpen_append (closed : ∀ entry ∈ new, entry.stop ≠ 0) :
    lastOpen (entries ++ new) = lastOpen entries := by
  induction entries with
  | nil => exact lastOpen_eq_none.mpr closed
  | cons entry rest ih => rw [cons_append, lastOpen, ih, lastOpen]

theorem lastOpen_open (front back : List Entry) (entry : Entry) (isOpen : entry.stop = 0)
    (closed : ∀ entry ∈ back, entry.stop ≠ 0) :
    lastOpen (front ++ entry :: back) = some front.length := by
  induction front with
  | nil => rw [nil_append, lastOpen, lastOpen_eq_none.mpr closed, if_pos isOpen]; rfl
  | cons first rest ih => rw [cons_append, lastOpen, ih]; rfl

theorem lastOpen_addLeaves (k : Nat) (leaves : List Nat) (entries : List Entry) :
    lastOpen (entries.modify k (Entry.addLeaves leaves)) = lastOpen entries := by
  induction entries generalizing k with
  | nil => simp
  | cons entry rest ih =>
    cases k with
    | zero => simp [lastOpen, Entry.addLeaves]
    | succ => rw [modify_succ_cons, lastOpen, ih, lastOpen]

def opens (entries : List Entry) : Nat := entries.countP fun entry => entry.stop = 0

theorem opens_close (later : i ≠ 0) (found : lastOpen entries = some k) :
    opens (entries.modify k (Entry.close i)) + 1 = opens entries := by
  induction entries generalizing k with
  | nil => cases found
  | cons entry rest ih =>
    rw [lastOpen] at found
    cases deeper : lastOpen rest with
    | some =>
      rw [deeper] at found
      cases found
      have := ih deeper
      simp only [opens, modify_succ_cons, countP_cons] at this ⊢
      omega
    | none =>
      simp only [deeper] at found
      split at found
      · rename_i isOpen
        cases found
        simp [opens, Entry.close, later, isOpen]
      · cases found

theorem opens_addLeaves (k : Nat) (leaves : List Nat) (entries : List Entry) :
    opens (entries.modify k (Entry.addLeaves leaves)) = opens entries := by
  induction entries generalizing k with
  | nil => simp
  | cons entry rest ih =>
    cases k with
    | zero => simp [opens, Entry.addLeaves, countP_cons]
    | succ k =>
      have := ih k
      simp only [opens, modify_succ_cons, countP_cons] at this ⊢
      rw [this]

/-! The section tags of a range that can be structured are balanced. -/

def sectionKind : Item → Kind CText
  | .opening name => if isaSectionalItem name then .opening name else .other
  | .closing name => if isaSectionalItem name then .closing name else .other
  | .data _ => .other

variable (before after : List Item) (name : CText)

theorem sectionKind_opening (item : Item) :
    sectionKind item = .opening name ↔ item = .opening name ∧ isaSectionalItem name = true := by
  cases item with
  | data => simp [sectionKind]
  | closing found => cases sectional : isaSectionalItem found <;> simp [sectionKind, sectional]
  | opening found =>
    cases sectional : isaSectionalItem found <;> simp only [sectionKind, sectional]
    · simp
      rintro rfl
      exact sectional
    · simp
      rintro rfl
      exact sectional

theorem sectionKind_closing (item : Item) :
    sectionKind item = .closing name ↔ item = .closing name ∧ isaSectionalItem name = true := by
  cases item with
  | data => simp [sectionKind]
  | opening found => cases sectional : isaSectionalItem found <;> simp [sectionKind, sectional]
  | closing found =>
    cases sectional : isaSectionalItem found <;> simp only [sectionKind, sectional]
    · simp
      rintro rfl
      exact sectional
    · simp
      rintro rfl
      exact sectional

inductive Effect (item : Item) (entries next : List Entry) : Prop
  | keeps (plain : sectionKind item = .other) (kept : opens next = opens entries)
  | opens (name : CText) (reads : sectionKind item = .opening name)
      (more : opens next = opens entries + 1)
  | closes (name : CText) (reads : sectionKind item = .closing name)
      (fewer : opens next + 1 = opens entries)

variable {entries : List Entry} {items : List Item} {i : Nat}

theorem modify_ne_nil (some_section : entries ≠ []) :
    entries.modify k change ≠ [] := by
  rw [← length_pos_iff] at some_section ⊢
  rwa [length_modify]

theorem structureItem_effect {next : List Entry} (later : i ≠ 0) (some_section : entries ≠ [])
    (step : structureItem i item entries = .ok next) : next ≠ [] ∧ Effect item entries next := by
  cases item with
  | data =>
    cases step
    exact ⟨some_section, .keeps rfl rfl⟩
  | closing name =>
    rw [structureItem] at step
    by_cases sectional : isaSectionalItem name = true
    · rw [if_pos sectional] at step
      cases found : lastOpen entries with
      | none => rw [found] at step; cases step
      | some k =>
        rw [found] at step
        cases step
        exact ⟨modify_ne_nil some_section,
          .closes name (by simp [sectionKind, sectional]) (opens_close later found)⟩
    · rw [if_neg sectional] at step
      cases step
      exact ⟨some_section, .keeps (by simp [sectionKind, sectional]) rfl⟩
  | opening name =>
    rw [structureItem, if_neg some_section, if_neg some_section] at step
    cases found : lastOpen entries with
    | none =>
      rw [found] at step
      split at step <;> cases step
    | some k =>
      rw [found] at step
      by_cases sectional : isaSectionalItem name = true
      · rw [if_pos sectional] at step
        cases step
        refine ⟨by simp, .opens name (by simp [sectionKind, sectional]) ?_⟩
        simp [opens]
      · rw [if_neg sectional] at step
        cases step
        exact ⟨modify_ne_nil some_section,
          .keeps (by simp [sectionKind, sectional]) (opens_addLeaves k [i] entries)⟩

/-- How a bracket adds to the two counts of the source. -/
def tally : Kind CText → Bool × Bool
  | .opening _ => (true, false)
  | .closing _ => (false, true)
  | .other => (false, false)

theorem counted (item : Item) :
    (opensSection item, closesSection item) = tally (sectionKind item) := by
  cases item with
  | data => rfl
  | opening name =>
    cases sectional : isaSectionalItem name <;>
      simp [opensSection, closesSection, sectionKind, tally, sectional]
  | closing name =>
    cases sectional : isaSectionalItem name <;>
      simp [opensSection, closesSection, sectionKind, tally, sectional]

theorem structureLoop_run (later : i ≠ 0) (some_section : entries ≠ [])
    (done : structureLoop i items entries = .ok final) (stack : List CText)
    (same : stack.length = opens entries) :
    ∃ left, Brackets.run sectionKind (fun _ _ => true) stack items = some left ∧
      left.length = opens final ∧
      opens final + items.countP closesSection = opens entries + items.countP opensSection := by
  induction items generalizing i entries stack with
  | nil =>
    cases done
    exact ⟨stack, rfl, same, rfl⟩
  | cons item rest ih =>
    obtain ⟨next, step, done⟩ := (bind_eq_ok ..).mp done
    obtain ⟨nonempty, effect⟩ := structureItem_effect later some_section step
    have tail := ih (by omega) nonempty done
    have kinds := counted item
    cases effect with
    | keeps plain =>
      obtain ⟨left, ends, size, balance⟩ := tail stack (by omega)
      refine ⟨left, by rwa [Brackets.run_other _ _ _ _ _ plain], size, ?_⟩
      simp only [plain, tally, Prod.mk.injEq] at kinds
      simp only [countP_cons, kinds]
      omega
    | opens name reads =>
      obtain ⟨left, ends, size, balance⟩ := tail (name :: stack) (by rw [length_cons]; omega)
      refine ⟨left, by rwa [Brackets.run_opening _ _ _ _ _ name reads], size, ?_⟩
      simp only [reads, tally, Prod.mk.injEq] at kinds
      simp only [countP_cons, kinds, Bool.false_eq_true, ↓reduceIte]
      omega
    | closes name reads =>
      cases stack with
      | nil =>
        rw [length_nil] at same
        omega
      | cons top below =>
        obtain ⟨left, ends, size, balance⟩ := tail below (by rw [length_cons] at same; omega)
        refine ⟨left, by rwa [Brackets.run_closing _ _ _ _ _ _ name reads, if_pos rfl], size, ?_⟩
        simp only [reads, tally, Prod.mk.injEq] at kinds
        simp only [countP_cons, kinds, Bool.false_eq_true, ↓reduceIte]
        omega

/-! The entries of a range are those of a forest. -/

/-- A range as the fields and sections that the pass finds in it, by their offsets. -/
inductive Reads : Nat → List Item → List Nat → Forest (Nat × List Nat) → Prop
  | nil (i : Nat) : Reads i [] [] .nil
  | data (i : Nat) (text : CText) (rest : List Item) (leaves : List Nat)
      (sections : Forest (Nat × List Nat))
      (tail : Reads (i + 1) rest leaves sections) : Reads i (.data text :: rest) leaves sections
  | closing (i : Nat) (name : CText) (rest : List Item) (leaves : List Nat)
      (sections : Forest (Nat × List Nat))
      (plain : isaSectionalItem name = false) (tail : Reads (i + 1) rest leaves sections) :
      Reads i (.closing name :: rest) leaves sections
  | leaf (i : Nat) (name : CText) (rest : List Item) (leaves : List Nat)
      (sections : Forest (Nat × List Nat))
      (plain : isaSectionalItem name = false) (tail : Reads (i + 1) rest leaves sections) :
      Reads i (.opening name :: rest) (i :: leaves) sections
  | inner (i : Nat) (name other : CText) (inner rest : List Item) (leaves own : List Nat)
      (inside others : Forest (Nat × List Nat)) (opens : isaSectionalItem name = true)
      (closes : isaSectionalItem other = true) (within : Reads (i + 1) inner own inside)
      (tail : Reads (i + 1 + inner.length + 1) rest leaves others) :
      Reads i (.opening name :: (inner ++ .closing other :: rest)) leaves
        (.cons (i, own) inside others)

theorem reads_of_balanced (balanced : Brackets.Balanced sectionKind items) (i : Nat) :
    ∃ leaves sections, Reads i items leaves sections := by
  induction balanced generalizing i with
  | nil => exact ⟨[], .nil, .nil i⟩
  | skip item rest plain _ ih =>
    obtain ⟨leaves, sections, tail⟩ := ih (i + 1)
    cases item with
    | data text => exact ⟨leaves, sections, .data i text rest leaves sections tail⟩
    | closing name =>
      cases sectional : isaSectionalItem name with
      | true => simp [sectionKind, sectional] at plain
      | false => exact ⟨leaves, sections, .closing i name rest leaves sections sectional tail⟩
    | opening name =>
      cases sectional : isaSectionalItem name with
      | true => simp [sectionKind, sectional] at plain
      | false => exact ⟨i :: leaves, sections, .leaf i name rest leaves sections sectional tail⟩
  | bracket first last name other inner rest opens closes _ _ _ inner_ih tail_ih =>
    obtain ⟨own, inside, within⟩ := inner_ih (i + 1)
    obtain ⟨leaves, others, tail⟩ := tail_ih (i + 1 + inner.length + 1)
    obtain ⟨rfl, sectional⟩ := (sectionKind_opening name first).mp opens
    obtain ⟨rfl, sectional'⟩ := (sectionKind_closing other last).mp closes
    exact ⟨leaves, .cons (i, own) inside others,
      .inner i name other inner rest leaves own inside others sectional sectional' within tail⟩

theorem structureLoop_append (i : Nat) (front back : List Item) (entries : List Entry) :
    structureLoop i (front ++ back) entries =
      structureLoop i front entries >>= structureLoop (i + front.length) back := by
  induction front generalizing i entries with
  | nil => rfl
  | cons item rest ih =>
    rw [cons_append, structureLoop, structureLoop, length_cons]
    cases structureItem i item entries with
    | error => rfl
    | ok => rw [ok_bind, ok_bind, ih, show i + 1 + rest.length = i + (rest.length + 1) by omega]

theorem addLeaves_addLeaves (k : Nat) (front back : List Nat) (entries : List Entry) :
    (entries.modify k (Entry.addLeaves front)).modify k (Entry.addLeaves back) =
      entries.modify k (Entry.addLeaves (front ++ back)) := by
  rw [modify_modify_eq]
  congr 1
  funext entry
  simp [Entry.addLeaves]

theorem structureLoop_reads {sections : Forest (Nat × List Nat)}
    (reads : Reads i items leaves sections) (entries : List Entry) (k : Nat)
    (isOpen : lastOpen entries = some k) :
    ∃ new, structureLoop i items entries = .ok (entries.modify k (Entry.addLeaves leaves) ++ new) ∧
      (∀ entry ∈ new, entry.stop ≠ 0) ∧ new.map Entry.label = sections.nodes.map Prod.fst ∧
      new.map Entry.parent = sections.links k entries.length := by
  induction reads generalizing entries k with
  | nil =>
    have same : entries.modify k (Entry.addLeaves []) = entries := by
      have keeps : Entry.addLeaves [] = id := by
        funext entry
        simp [Entry.addLeaves]
      rw [keeps, modify_id]
    exact ⟨[], by rw [same, append_nil]; rfl, by simp, rfl, rfl⟩
  | data i text rest leaves sections _ ih => exact ih entries k isOpen
  | closing i name rest leaves sections plain _ ih =>
    have step : structureItem i (.closing name) entries = .ok entries := by
      simp [structureItem, plain]
    rw [structureLoop, step]
    exact ih entries k isOpen
  | leaf i name rest leaves sections plain _ ih =>
    have nonempty : entries ≠ [] := by
      rintro rfl
      cases isOpen
    have step :
        structureItem i (.opening name) entries = .ok (entries.modify k (Entry.addLeaves [i])) := by
      simp [structureItem, plain, nonempty, isOpen]
    rw [structureLoop, step]
    obtain ⟨new, done, closed, labels, parents⟩ := ih (entries.modify k (Entry.addLeaves [i])) k
      (by rw [lastOpen_addLeaves, isOpen])
    rw [addLeaves_addLeaves] at done
    rw [length_modify] at parents
    exact ⟨new, done, closed, labels, parents⟩
  | inner i name other inner rest leaves own inside others opens closes _ _ inner_ih tail_ih =>
    have nonempty : entries ≠ [] := by
      rintro rfl
      cases isOpen
    have inside_entries := lastOpen_lt isOpen
    have step :
        structureItem i (.opening name) entries = .ok (entries ++ [⟨i, 0, some k, []⟩]) := by
      simp [structureItem, opens, nonempty, isOpen]
    obtain ⟨new, done, closed, labels, parents⟩ :=
      inner_ih (entries ++ [⟨i, 0, some k, []⟩]) entries.length
      (lastOpen_open entries [] _ rfl (by simp))
    rw [modify_last, append_assoc, cons_append, nil_append] at done
    -- the closing tag ends the entry made for this section, since all later ones are closed
    have last : structureItem (i + 1 + inner.length) (.closing other)
        (entries ++ Entry.addLeaves own ⟨i, 0, some k, []⟩ :: new) =
        .ok (entries ++ (⟨i, i + 1 + inner.length, some k, own⟩ :: new)) := by
      rw [structureItem, if_pos closes, lastOpen_open entries new _ rfl closed]
      simp only [modify_last]
      simp [Entry.close, Entry.addLeaves]
    have all_closed : ∀ entry ∈ (⟨i, i + 1 + inner.length, some k, own⟩ : Entry) :: new,
        entry.stop ≠ 0 := by
      rw [forall_mem_cons]
      exact ⟨by simp, closed⟩
    obtain ⟨more, rest_done, more_closed, more_labels, more_parents⟩ :=
      tail_ih (entries ++ (⟨i, i + 1 + inner.length, some k, own⟩ :: new)) k
        (by rw [lastOpen_append all_closed, isOpen])
    rw [modify_append inside_entries] at rest_done
    refine ⟨⟨i, i + 1 + inner.length, some k, own⟩ :: (new ++ more), ?_, ?_, ?_, ?_⟩
    · rw [structureLoop, step, ok_bind, structureLoop_append, done, ok_bind, structureLoop, last,
        ok_bind, rest_done]
      simp
    · rw [forall_mem_cons, forall_mem_append]
      exact ⟨all_closed _ mem_cons_self, closed, more_closed⟩
    · simp [Forest.nodes, labels, more_labels, Entry.label]
    · have size : new.length = inside.size := by
        have := congrArg List.length labels
        rwa [length_map, length_map, Forest.nodes_length] at this
      simp only [map_cons, map_append, parents, more_parents, Forest.links, length_append,
        length_cons, length_nil, size]
      rw [show entries.length + (inside.size + 1) = entries.length + 1 + inside.size by omega]

theorem structureLoop_closed (nonempty : entries ≠ []) (closed : lastOpen entries = none)
    (done : structureLoop i items entries = .ok final) :
    final = entries ∧ Reads i items [] .nil := by
  induction items generalizing i with
  | nil =>
    cases done
    exact ⟨rfl, .nil i⟩
  | cons item rest ih =>
    obtain ⟨next, step, done⟩ := (bind_eq_ok ..).mp done
    cases item with
    | data text =>
      cases step
      have ⟨same, tail⟩ := ih done
      exact ⟨same, .data i text rest [] .nil tail⟩
    | closing name =>
      rw [structureItem, closed] at step
      split at step
      · cases step
      · rename_i plain
        cases step
        have ⟨same, tail⟩ := ih done
        exact ⟨same, .closing i name rest [] .nil (by simpa using plain) tail⟩
    | opening =>
      rw [structureItem, closed] at step
      split at step <;> cases step

theorem hierarchy_forest (root_label : root.label = label) (root_parent : root.parent = none)
    (labels : new.map Entry.label = inside.nodes.map Prod.fst)
    (parents : new.map Entry.parent = inside.links 0 1) :
    hierarchy (root :: new) = ((Forest.cons label inside .nil).table 0).map toRow := by
  have rows := Forest.table_of_links inside 0 1 [none] [] rfl Nat.zero_lt_one (by simp) (by simp)
  have own : Forest.childrenFrom 0 0 (none :: inside.links 0 1) = inside.numbers 1 := by
    rw [Forest.childrenFrom, if_neg (by simp), Forest.childrenFrom_links inside 0 1 Nat.zero_lt_one]
  rw [append_nil] at rows
  have tail :
      (new.zipIdx 1).map
        (fun entry =>
          toRow (entry.1.label, Forest.childrenFrom 0 entry.2 (none :: inside.links 0 1))) =
      (inside.table 1).map toRow := by
    rw [← rows, ← labels, zipIdx_map, map_map, map_map]
    rfl
  rw [hierarchy, map_cons, root_parent, parents, zipIdx_cons, map_cons, tail, root_label, own]
  simp [Forest.table]

def rootEntry (begin_offset : Nat) : Entry := ⟨begin_offset, 0, none, []⟩

variable {begin_offset end_offset : Nat}

theorem structureLexedItems_eq_ok
    (done : structureLexedItems begin_offset end_offset items = .ok rows) :
    ∃ name rest entries, rangeOf begin_offset end_offset items = .opening name :: rest ∧
      isaSectionalItem name = true ∧
      rest.countP opensSection + 1 = rest.countP closesSection ∧
      structureLoop (begin_offset + 1) rest [rootEntry begin_offset] = .ok entries ∧
        rows = hierarchy entries := by
  unfold structureLexedItems at done
  dsimp only at done
  generalize rangeOf begin_offset end_offset items = range at done
  repeat' split at done
  all_goals first | cases done | skip
  rename_i onSection counts
  obtain ⟨entries, passed, done⟩ := (bind_eq_ok ..).mp done
  split at done
  · cases done
  cases done
  cases range with
  | nil => simp at onSection
  | cons first rest =>
    cases first with
    | data => simp [opensSection] at onSection
    | closing => simp [opensSection] at onSection
    | opening name =>
      have sectional : isaSectionalItem name = true := by simpa [opensSection] using onSection
      refine ⟨name, rest, entries, rfl, sectional, ?_, ?_, rfl⟩
      · rw [not_or, not_not] at counts
        simpa [opensSection, closesSection, sectional] using counts.1
      · rwa [structureLoop, structureItem, if_pos sectional, if_pos rfl, ok_bind] at passed

theorem balanced_of_pass {name : CText} (sectional : isaSectionalItem name = true)
    (counts : rest.countP opensSection + 1 = rest.countP closesSection)
    (passed : structureLoop (i + 1) rest [rootEntry i] = .ok entries) :
    Brackets.Balanced sectionKind (.opening name :: rest) := by
  obtain ⟨left, ends, size, balance⟩ := structureLoop_run (by omega) (by simp) passed
    [name] rfl
  have single : opens [rootEntry i] = 1 := rfl
  have empty : left = [] := eq_nil_of_length_eq_zero (by omega)
  apply Brackets.nested_of_run
  rw [Brackets.run_opening _ _ _ _ _ name (by simp [sectionKind, sectional]), ends, empty]

theorem hierarchy_of_pass {inner tail : List Item} (closes : isaSectionalItem other = true)
    (reads : Reads (i + 1) inner leaves inside)
    (passed : structureLoop (i + 1) (inner ++ .closing other :: tail) [rootEntry i] = .ok entries) :
    hierarchy entries = ((Forest.cons (i, leaves) inside .nil).table 0).map toRow ∧
      Reads (i + 1 + inner.length + 1) tail [] .nil := by
  obtain ⟨new, done, closed, labels, parents⟩ := structureLoop_reads reads [rootEntry i] 0 rfl
  rw [structureLoop_append, done, ok_bind, structureLoop] at passed
  have last : structureItem (i + 1 + inner.length) (.closing other)
      ([rootEntry i].modify 0 (Entry.addLeaves leaves) ++ new) = .ok
        (⟨i, i + 1 + inner.length, none, leaves⟩ :: new) := by
    have found := lastOpen_open [] new (Entry.addLeaves leaves (rootEntry i)) rfl closed
    rw [nil_append] at found
    rw [modify_zero_cons, singleton_append, structureItem, if_pos closes, found]
    simp [Entry.close, Entry.addLeaves, rootEntry]
  rw [last] at passed
  have none_open : lastOpen ((⟨i, i + 1 + inner.length, none, leaves⟩ : Entry) :: new) = none := by
    rw [lastOpen_eq_none, forall_mem_cons]
    exact ⟨by simp, closed⟩
  have ⟨same, behind⟩ := structureLoop_closed (by simp) none_open passed
  rw [same]
  exact ⟨hierarchy_forest rfl rfl labels parents, behind⟩

theorem structure_reads (done : structureLexedItems begin_offset end_offset items = .ok rows) :
    Brackets.Balanced sectionKind (rangeOf begin_offset end_offset items) ∧
    ∃ name other inner tail leaves inside,
      rangeOf begin_offset end_offset items = .opening name :: (inner ++ .closing other :: tail) ∧
      isaSectionalItem name = true ∧ isaSectionalItem other = true ∧
        Reads (begin_offset + 1) inner leaves inside ∧
      Reads (begin_offset + 1 + inner.length + 1) tail [] .nil ∧
      rows = ((Forest.cons (begin_offset, leaves) inside .nil).table 0).map toRow := by
  obtain ⟨name, rest, entries, shape, sectional, counts, passed, rfl⟩ :=
    structureLexedItems_eq_ok done
  have balanced := balanced_of_pass sectional counts passed
  rw [shape]
  refine ⟨balanced, ?_⟩
  cases balanced with
  | skip item rest plain => simp [sectionKind, sectional] at plain
  | bracket first last found other inner tail opens closes _ inside_balanced _ =>
    obtain ⟨rfl, sectional'⟩ := (sectionKind_closing other last).mp closes
    obtain ⟨leaves, inside, reads⟩ := reads_of_balanced inside_balanced (begin_offset + 1)
    have ⟨same, behind⟩ := hierarchy_of_pass sectional' reads passed
    exact ⟨name, other, inner, tail, leaves, inside, rfl, sectional, sectional', reads,
      behind, same⟩

end Orcm.ConfigSections
