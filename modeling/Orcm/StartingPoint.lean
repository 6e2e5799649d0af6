import Mathlib.Data.List.Rotate

/-! `orte_rmaps_base_get_starting_point` of `rmaps_base_support_fns.c`: the node where the next
mapping begins. -/

namespace Orcm.StartingPoint

open List

/-- More slots may have been given back than were taken. That the difference fits into an `int` is
assumed. -/
structure Node where
  index : Int
  slots : Nat
  slots_inuse : Int

def Node.free (node : Node) : Bool := node.slots_inuse < node.slots

def Node.overload (node : Node) : Int := node.slots_inuse - node.slots

/-- The list from the node with the bookmark's index on, or from its first node. -/
def fromBookmark (nodes : List Node) (bookmark : Option Int) : List Node :=
  nodes.rotate (((bookmark.map fun index => nodes.findIdx? (·.index == index)).getD none).getD 0)

/-- The loop over the other nodes: the first free one with its distance from the bookmark, or
`ndmin` with its distance and the node looked at last. -/
def search (distance : Nat) (ndmin : Nat × Node) (nd1 : Option Node) :
    List Node → (Nat × Node) ⊕ ((Nat × Node) × Option Node)
  | [] => .inr (ndmin, nd1)
  | node :: rest =>
    if node.free then .inl (distance, node)
    else search (distance + 1) (if ndmin.2.overload ≥ node.overload then (distance, node)
      else ndmin) (some node) rest

def chosen (node : Node) (others : List Node) : Nat × Node :=
  if node.free then (0, node)
  else match search 1 (0, node) none others with
    | .inl found => found
    -- the node looked at last is compared, not `ndmin`
    | .inr (ndmin, some nd1) => if nd1.overload < node.overload then ndmin else (0, node)
    | .inr (_, none) => (0, node)

/-- The node and the list afterwards, whose first items are moved to the end until the node is its
first. -/
def getStartingPoint (nodes : List Node) (bookmark : Option Int) : Option (Node × List Node) :=
  match fromBookmark nodes bookmark with
  | [] => none
  | node :: others => some ((chosen node others).2, (node :: others).rotate (chosen node others).1)

/-- The node heads the list, which was only rotated, and is the first free one from the bookmark on,
or one of minimal overload if all are full. -/
def Correct (nodes : List Node) (bookmark : Option Int) : Prop :=
  ∃ start list, getStartingPoint nodes bookmark = some (start, list) ∧ list.head? = some start ∧
    list ~r nodes ∧
    if nodes.any Node.free then
      list = (fromBookmark nodes bookmark).rotate ((fromBookmark nodes bookmark).findIdx Node.free)
    else ∀ other ∈ nodes, start.overload ≤ other.overload

/-- A node of minimal overload, with its place. -/
def Least (seen : List Node) (ndmin : Nat × Node) : Prop :=
  seen[ndmin.1]? = some ndmin.2 ∧ ∀ other ∈ seen, ndmin.2.overload ≤ other.overload

theorem Least.next (least : Least seen ndmin) :
    Least (seen ++ [node]) (if ndmin.2.overload ≥ node.overload then (seen.length, node)
      else ndmin) := by
  obtain ⟨found, below⟩ := least
  split
  next less =>
    exact ⟨by simp,
      forall_mem_append.mpr ⟨fun other old => Int.le_trans less (below other old), by simp⟩⟩
  next more =>
    refine ⟨by rw [getElem?_append_left (List.getElem?_eq_some_iff.mp found).1, found], ?_⟩
    exact forall_mem_append.mpr ⟨below, by simpa using Int.le_of_not_le more⟩

theorem search_free (found : rest.find? Node.free = some node) :
    search distance ndmin nd1 rest = .inl (distance + rest.findIdx Node.free, node) := by
  induction rest generalizing distance ndmin nd1 with
  | nil => cases found
  | cons first rest ih =>
    rw [find?_cons] at found
    rw [search, findIdx_cons]
    cases free : first.free with
    | true => simpa [free] using found
    | false => simp [ih (by simpa [free] using found), Nat.add_comm, Nat.add_left_comm]

theorem search_full (nd1 : Option Node) (full : rest.any Node.free = false)
    (least : Least seen ndmin) :
    ∃ least, search seen.length ndmin nd1 rest = .inr (least, rest.getLast?.or nd1) ∧
      Least (seen ++ rest) least := by
  induction rest generalizing seen ndmin nd1 with
  | nil => exact ⟨ndmin, by simp [search], by simpa using least⟩
  | cons node rest ih =>
    simp only [any_cons, Bool.or_eq_false_iff] at full
    obtain ⟨final, found, below⟩ := ih (some node) full.2 least.next
    refine ⟨final, ?_, by simpa using below⟩
    rw [length_append, length_singleton] at found
    rw [search, full.1, getLast?_cons, if_neg Bool.false_ne_true, found]
    cases rest.getLast? <;> rfl

/-- If all are full, the minimal node is taken only if the last one has less overload than the
first. -/
theorem chosen_spec (node : Node) (others : List Node) :
    (node :: others)[(chosen node others).1]? = some (chosen node others).2 ∧
      if (node :: others).any Node.free then
        (chosen node others).1 = (node :: others).findIdx Node.free
      else if ((node :: others).getLast (by simp)).overload < node.overload then
        ∀ other ∈ node :: others, (chosen node others).2.overload ≤ other.overload
      else (chosen node others).2 = node := by
  rw [chosen, findIdx_cons, any_cons]
  cases first : node.free with
  | true => simp
  | false =>
    cases free : others.find? Node.free with
    | some start =>
      have any_free : others.any Node.free :=
        any_eq_true.mpr ⟨start, mem_of_find?_eq_some free, find?_some free⟩
      simp [search_free free, any_free, ← find?_eq_getElem?_findIdx, free, Nat.add_comm 1]
    | none =>
      have full : others.any Node.free = false := by simpa using free
      have least : Least [node] (0, node) := ⟨rfl, by simp⟩
      obtain ⟨least, same, found, below⟩ := search_full none full least
      rw [length_singleton] at same
      rw [same, full]
      cases others using reverseRecOn with
      | nil => simp
      | append_singleton front last =>
        by_cases less : last.overload < node.overload
        · simp only [singleton_append] at found below
          simpa [less, found] using below
        · simp [less]

/-- The start is right exactly if a node is free, or the last node from the bookmark on has less
overload than the first, or the first has minimal overload itself. -/
theorem starting_point_iff (first : Node) (rest : List Node) (bookmark : Option Int) :
    Correct (first :: rest) bookmark ↔ (first :: rest).any Node.free ∨
      ∃ node ∈ (fromBookmark (first :: rest) bookmark).head?,
        (∃ last ∈ (fromBookmark (first :: rest) bookmark).getLast?, last.overload < node.overload) ∨
          ∀ other ∈ first :: rest, node.overload ≤ other.overload := by
  have rotated : fromBookmark (first :: rest) bookmark ~r first :: rest := IsRotated.forall _ _
  cases from_bookmark : fromBookmark (first :: rest) bookmark with
  | nil => simp [from_bookmark] at rotated
  | cons node others =>
    rw [from_bookmark] at rotated
    obtain ⟨found, spec⟩ := chosen_spec node others
    have inside := (List.getElem?_eq_some_iff.mp found).1
    have again := (IsRotated.forall (node :: others) (chosen node others).1).trans rotated
    have same : Correct (first :: rest) bookmark ↔ if (first :: rest).any Node.free then
          (node :: others).rotate (chosen node others).1 = (node :: others).rotate
            ((node :: others).findIdx Node.free)
        else ∀ other ∈ first :: rest, (chosen node others).2.overload ≤ other.overload := by
      simp [Correct, getStartingPoint, from_bookmark, head?_rotate inside, found, again]
    rw [rotated.perm.any_eq] at spec
    rw [same]
    split at spec
    next free => simp [free, spec]
    next full =>
      rw [if_neg full, or_iff_right full, getLast?_eq_some_getLast (cons_ne_nil node others)]
      split at spec
      next less =>
        have least : ∀ other ∈ first :: rest, (chosen node others).2.overload ≤ other.overload :=
          fun other member => spec other (rotated.mem_iff.mpr member)
        simpa [less] using least
      next more => simp [more, spec]

end Orcm.StartingPoint
