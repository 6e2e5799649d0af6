import Mathlib.Data.List.Chain

/-!
Sequences with brackets that carry names. A stack of the names still open decides whether a sequence
is nested. Which names make a pair is a parameter, so that a sequence can be read with and without
the names.
-/

namespace Orcm.Brackets

inductive Kind (Name : Type) where
  | opening (name : Name)
  | closing (name : Name)
  | other
  deriving DecidableEq, Repr

section

variable {Item Name : Type} (kind : Item → Kind Name) (pairs : Name → Name → Bool)

inductive Nested : List Item → Prop
  | nil : Nested []
  | skip (item : Item) (rest : List Item) (plain : kind item = .other) (tail : Nested rest) : Nested
      (item :: rest)
  | bracket (first last : Item) (name other : Name) (inner rest : List Item)
      (opens : kind first = .opening name)
      (closes : kind last = .closing other) (paired : pairs name other = true)
        (inside : Nested inner)
      (tail : Nested rest) : Nested (first :: (inner ++ last :: rest))

def run : List Name → List Item → Option (List Name)
  | stack, [] => some stack
  | stack, item :: rest =>
    match kind item with
    | .other => run stack rest
    | .opening name => run (name :: stack) rest
    | .closing name =>
      match stack with
      | [] => none
      | top :: below => if pairs top name then run below rest else none

variable (stack : List Name) (item : Item) (rest : List Item)

theorem run_other (plain : kind item = .other) :
    run kind pairs stack (item :: rest) = run kind pairs stack rest := by
  rw [run, plain]

theorem run_opening (name : Name) (opens : kind item = .opening name) :
    run kind pairs stack (item :: rest) = run kind pairs (name :: stack) rest := by
  rw [run, opens]

theorem run_closing (top name : Name) (closes : kind item = .closing name) :
    run kind pairs (top :: stack) (item :: rest) = if pairs top name then run kind pairs stack rest
      else none := by
  rw [run, closes]

theorem run_closing_nil (name : Name) (closes : kind item = .closing name) :
    run kind pairs [] (item :: rest) = none := by
  rw [run, closes]

variable {kind} {pairs}

theorem closed_behind (items : List Item) (name : Name) (stack final : List Name)
    (ends : run kind pairs (name :: stack) items = some final)
    (popped : final.length ≤ stack.length) :
    ∃ inner last other rest, items = inner ++ last :: rest ∧ Nested kind pairs inner ∧
      kind last = .closing other ∧ pairs name other = true ∧
        run kind pairs stack rest = some final := by
  induction size : items.length using Nat.strongRecOn generalizing items name stack with
  | ind length ih =>
    cases items with
    | nil =>
      cases ends
      simp only [List.length_cons] at popped
      omega
    | cons item rest =>
      have shorter : rest.length < length := by
        rw [← size, List.length_cons]
        omega
      cases reads : kind item with
      | other =>
        rw [run_other kind pairs _ _ _ reads] at ends
        obtain ⟨inner, last, other, after, rfl, nested, closes, paired, goes⟩ :=
          ih _ shorter rest name stack ends popped rfl
        exact ⟨item :: inner, last, other, after, rfl, .skip item inner reads nested, closes,
          paired, goes⟩
      | opening second =>
        rw [run_opening kind pairs _ _ _ second reads] at ends
        obtain ⟨inner, last, other, after, rfl, nested, closes, paired, goes⟩ :=
          ih _ shorter rest second (name :: stack) ends (by simp; omega) rfl
        have less : after.length < length := by
          simp only [List.length_append, List.length_cons] at shorter
          omega
        obtain ⟨inner', last', other', after', rfl, nested', closes', paired', goes'⟩ :=
          ih _ less after name stack goes popped rfl
        refine ⟨item :: (inner ++ last :: inner'), last', other', after', by simp, ?_, closes',
          paired', goes'⟩
        exact .bracket item last second other inner inner' reads closes paired nested nested'
      | closing other =>
        rw [run_closing kind pairs _ _ _ _ other reads] at ends
        split at ends
        · rename_i paired
          exact ⟨[], item, other, rest, rfl, .nil, reads, paired, ends⟩
        · cases ends

theorem nested_of_run (items : List Item) (ends : run kind pairs [] items = some []) :
    Nested kind pairs items := by
  induction size : items.length using Nat.strongRecOn generalizing items with
  | ind length ih =>
    cases items with
    | nil => exact .nil
    | cons item rest =>
      have shorter : rest.length < length := by
        rw [← size, List.length_cons]
        omega
      cases reads : kind item with
      | other =>
        rw [run_other kind pairs _ _ _ reads] at ends
        exact .skip item rest reads (ih _ shorter rest ends rfl)
      | opening name =>
        rw [run_opening kind pairs _ _ _ name reads] at ends
        obtain ⟨inner, last, other, after, rfl, nested, closes, paired, goes⟩ :=
          closed_behind rest name [] [] ends (Nat.le_refl _)
        have less : after.length < length := by
          simp only [List.length_append, List.length_cons] at shorter
          omega
        exact .bracket item last name other inner after reads closes paired nested
          (ih _ less after goes rfl)
      | closing name =>
        rw [run_closing_nil kind pairs _ _ name reads] at ends
        cases ends

end

section Names

variable {Item Name : Type} (kind : Item → Kind Name) (pairs : Name → Name → Bool)

abbrev Balanced : List Item → Prop := Nested kind fun _ _ => true

variable {items : List Item}

variable (leaf : Name → Bool)

/-- What may stand behind a bracket: a leaf is closed by the very next bracket, which makes a pair
with it. -/
def follows (first second : Item) : Bool :=
  match kind first, kind second with
  | .opening name, .closing other => ! (leaf name || leaf other) || pairs name other
  | .opening name, .opening _ => ! leaf name
  | .closing _, .closing other => ! leaf other
  | _, _ => true

end Names

end Orcm.Brackets
