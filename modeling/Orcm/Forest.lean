import Mathlib.Data.List.Forall2

/-!
Ordered forests and their tables. The trees are numbered in preorder; a table has one row for every
tree, with the numbers of the trees directly inside it.
-/

namespace Orcm

open List

/-- Trees in a row; each has a label and the trees inside it. -/
inductive Forest (Label : Type) where
  | nil
  | cons (label : Label) (inside others : Forest Label)
  deriving DecidableEq, Repr

namespace Forest

variable {Label Other : Type}

def size : Forest Label → Nat
  | nil => 0
  | cons _ inside others => inside.size + 1 + others.size

def append : Forest Label → Forest Label → Forest Label
  | nil, back => back
  | cons label inside others, back => cons label inside (others.append back)

def nodes : Forest Label → List (Label × Forest Label)
  | nil => []
  | cons label inside others => (label, inside) :: (inside.nodes ++ others.nodes)

def numbers (first : Nat) : Forest Label → List Nat
  | nil => []
  | cons _ inside others => first :: numbers (first + 1 + inside.size) others

def table (first : Nat) : Forest Label → List (Label × List Nat)
  | nil => []
  | cons label inside others =>
    (label, numbers (first + 1) inside) ::
      (table (first + 1) inside ++ table (first + 1 + inside.size) others)

def links (parent first : Nat) : Forest Label → List (Option Nat)
  | nil => []
  | cons _ inside others =>
    some parent :: (links first (first + 1) inside ++ links parent (first + 1 + inside.size) others)

def childrenFrom (first : Nat) (parent : Nat) : List (Option Nat) → List Nat
  | [] => []
  | link :: rest =>
    if link = some parent then first :: childrenFrom (first + 1) parent rest
      else childrenFrom (first + 1) parent rest

variable (forest : Forest Label) (parent first : Nat)

theorem append_nil : forest.append nil = forest := by
  induction forest with
  | nil => rfl
  | cons label inside others _ ih => rw [append, ih]

theorem append_assoc {front : Forest Label} :
    (front.append middle).append back = front.append (middle.append back) := by
  induction front with
  | nil => rfl
  | cons label inside others _ ih => rw [append, append, ih, append]

theorem append_left_cancel {front : Forest Label} (same : front.append left = front.append right) :
    left = right := by
  induction front with
  | nil => exact same
  | cons label inside others _ ih => exact ih (cons.inj same).2.2

theorem nodes_append {front : Forest Label} :
    (front.append back).nodes = front.nodes ++ back.nodes := by
  induction front with
  | nil => rfl
  | cons label inside others _ ih =>
    rw [append, nodes, ih, nodes, List.cons_append, List.append_assoc]

/-! The table of a forest, from the links to the parents. -/

theorem links_length : (links parent first forest).length = forest.size := by
  induction forest generalizing parent first with
  | nil => rfl
  | cons label inside others inside_ih ih =>
    simp only [links, length_cons, length_append, inside_ih, ih, size]
    omega

theorem nodes_length : forest.nodes.length = forest.size := by
  induction forest with
  | nil => rfl
  | cons =>
    simp only [nodes, length_cons, length_append, size]
    omega

theorem links_bound :
    ∀ link ∈ links parent first forest,
      ∃ number, link = some number ∧
        (number = parent ∨ first ≤ number ∧ number < first + forest.size) := by
  induction forest generalizing parent first with
  | nil => simp [links]
  | cons label inside others inside_ih ih =>
    intro link member
    rw [links, mem_cons, mem_append] at member
    rw [size]
    rcases member with rfl | deeper | later
    · exact ⟨parent, rfl, .inl rfl⟩
    · obtain ⟨number, rfl, same | ⟨low, high⟩⟩ := inside_ih first (first + 1) link deeper
      · exact ⟨number, rfl, .inr (by omega)⟩
      · exact ⟨number, rfl, .inr (by omega)⟩
    · obtain ⟨number, rfl, same | ⟨low, high⟩⟩ := ih parent (first + 1 + inside.size) link later
      · exact ⟨number, rfl, .inl same⟩
      · exact ⟨number, rfl, .inr (by omega)⟩

theorem childrenFrom_append (front back : List (Option Nat)) :
    childrenFrom first parent (front ++ back) =
      childrenFrom first parent front ++ childrenFrom (first + front.length) parent back := by
  induction front generalizing first with
  | nil => rfl
  | cons link rest ih =>
    rw [List.cons_append, childrenFrom, childrenFrom, ih, show first + 1 + rest.length = first +
      (rest.length + 1) by omega]
    split <;> rfl

theorem childrenFrom_eq_nil (absent : some parent ∉ parents) :
    childrenFrom first parent parents = [] := by
  induction parents generalizing first with
  | nil => rfl
  | cons link rest ih =>
    rw [mem_cons, not_or] at absent
    rw [childrenFrom, if_neg (Ne.symm absent.1), ih _ absent.2]

theorem not_mem_links (number : Nat) (other : number ≠ parent)
    (outside : number < first ∨ first + forest.size ≤ number) :
    some number ∉ links parent first forest := by
  intro member
  obtain ⟨found, same, place⟩ := links_bound forest parent first _ member
  cases same
  omega

theorem childrenFrom_links (earlier : parent < first) :
    childrenFrom first parent (links parent first forest) = numbers first forest := by
  induction forest generalizing first with
  | nil => rfl
  | cons label inside others _ ih =>
    have deeper : some parent ∉ links first (first + 1) inside :=
      not_mem_links inside first (first + 1) parent (by omega) (.inl (by omega))
    rw [links, childrenFrom, if_pos rfl, childrenFrom_append, childrenFrom_eq_nil _ _ deeper,
      nil_append, links_length, ih _ (by omega), numbers]

theorem table_of_links (before after : List (Option Nat)) (place : before.length = first)
    (earlier : parent < first) (front : ∀ number, first ≤ number → some number ∉ before)
    (back : ∀ number, first ≤ number → number < first + forest.size → some number ∉ after) :
    ((forest.nodes.map Prod.fst).zipIdx first).map
        (fun row => (row.1, childrenFrom 0 row.2 (before ++ links parent first forest ++ after))) =
      table first forest := by
  induction forest generalizing parent first before after with
  | nil => rfl
  | cons label inside others inside_ih ih =>
    simp only [size] at back
    have own :
        childrenFrom 0 first (before ++ links parent first (cons label inside others) ++ after) =
        numbers (first + 1) inside := by
      have later : some first ∉ links parent (first + 1 + inside.size) others :=
        not_mem_links others _ _ _ (by omega) (.inl (by omega))
      have offset : 0 + before.length + 1 = first + 1 := by omega
      rw [List.append_assoc, childrenFrom_append,
        childrenFrom_eq_nil _ _ (front first (Nat.le_refl _)),
        nil_append, links, List.cons_append, childrenFrom, if_neg (by simp; omega), offset,
        List.append_assoc,
        childrenFrom_append, childrenFrom_append, childrenFrom_links _ _ _ (Nat.lt_succ_self first),
        childrenFrom_eq_nil _ _ later,
          childrenFrom_eq_nil _ _ (back first (Nat.le_refl _) (by omega)),
        List.append_nil, List.append_nil]
    have deeper := inside_ih first (first + 1) (before ++ [some parent])
      (links parent (first + 1 + inside.size) others ++ after) (by simp [place])
        (Nat.lt_succ_self first)
      (by
        intro number low member
        rw [mem_append, mem_singleton, Option.some.injEq] at member
        rcases member with old | rfl
        · exact front number (by omega) old
        · omega)
      (by
        intro number low high member
        rw [mem_append] at member
        rcases member with sibling | behind
        · exact not_mem_links others parent (first + 1 + inside.size) number (by omega)
            (.inl (by omega)) sibling
        · exact back number (by omega) (by omega) behind)
    have later :=
      ih parent (first + 1 + inside.size)
        (before ++ some parent :: links first (first + 1) inside) after
      (by simp [place, links_length]; omega) (by omega)
      (by
        intro number low member
        rw [mem_append, mem_cons, Option.some.injEq] at member
        rcases member with old | rfl | inner
        · exact front number (by omega) old
        · omega
        · exact not_mem_links inside first (first + 1) number (by omega) (.inr (by omega)) inner)
      (by
        intro number low high
        exact back number (by omega) (by omega))
    have shape : before ++ links parent first (cons label inside others) ++ after =
        before ++ [some parent] ++ links first (first + 1) inside ++
          (links parent (first + 1 + inside.size) others ++ after) := by
      simp [links]
    have shape' : before ++ links parent first (cons label inside others) ++ after =
        before ++ some parent :: links first (first + 1) inside ++
          links parent (first + 1 + inside.size) others ++ after := by
      simp [links]
    rw [nodes, map_cons, map_append, zipIdx_cons, map_cons, own, zipIdx_append, map_append,
      length_map, nodes_length, table]
    rw [← shape] at deeper
    rw [← shape'] at later
    rw [deeper, later]

end Forest

end Orcm
