import Mathlib.Data.List.Infix
import Mathlib.Data.List.Nodup
import Orcm.Delivery

/-!
Trees that are given by the path from the root to every member. A member that knows what lies below
it sends a message to the next member on the path to the target, or to its parent; other members
always send to their parent. Messages arrive exactly if every member with another one below it knows
what lies below.
-/

namespace Orcm.RootPaths

open Delivery List Option

variable {Node : Type}

/-- One path to every member, and with it the paths to all members that it passes. -/
structure Tree (root : Node) (paths : List (List Node)) : Prop where
  rooted : [root] ∈ paths
  starts : ∀ path ∈ paths, path.head? = some root
  simple : ∀ path ∈ paths, path.Nodup
  closed : ∀ path ∈ paths, path.dropLast ≠ [] → path.dropLast ∈ paths
  single : ∀ path ∈ paths, ∀ other ∈ paths, path.getLast? = other.getLast? → path = other

def Member (paths : List (List Node)) (node : Node) : Prop :=
  ∃ path ∈ paths, path.getLast? = some node

section Paths

variable {root : Node} {paths : List (List Node)} (tree : Tree root paths)
include tree

theorem path_ne_nil (path : List Node) (member : path ∈ paths) : path ≠ [] := by
  rintro rfl
  cases tree.starts [] member

theorem root_of_dropLast (path : List Node) (member : path ∈ paths) (node : Node)
    (ends : path.getLast? = some node) (nothing : path.dropLast = []) : node = root := by
  have starts := tree.starts path member
  have whole := dropLast_append_getLast? node ends
  rw [nothing] at whole
  rw [← whole] at starts
  simpa using starts

theorem root_mem (member : path ∈ paths) : root ∈ path :=
  mem_of_mem_head? (tree.starts path member)

theorem ends_not_passed (path : List Node) (member : path ∈ paths) (node : Node)
    (ends : path.getLast? = some node) :
    node ∉ path.dropLast := by
  have whole := dropLast_append_getLast? node ends
  have simple := tree.simple path member
  rw [← whole] at simple
  intro passed
  exact disjoint_of_nodup_append simple passed mem_cons_self

omit tree in
theorem passed_of_mem {path : List Node} (ends : path.getLast? = some target)
    (inside : node ∈ path) (away : node ≠ target) : node ∈ path.dropLast := by
  rw [← dropLast_append_getLast? target ends] at inside
  rcases List.mem_append.mp inside with early | last_one
  · exact early
  · exact absurd (List.mem_singleton.mp last_one) away

end Paths

variable [DecidableEq Node]

def after (node : Node) : List Node → Option Node
  | first :: second :: rest => if first = node then some second else after node (second :: rest)
  | [_] | [] => none

theorem after_append {node : Node} (simple : (front ++ [last]).Nodup) :
    after node (front ++ [last]) = if front.getLast? = some node then some last
      else after node front := by
  induction front with
  | nil => rfl
  | cons first rest ih =>
    have later := ih (List.nodup_cons.mp simple).2
    cases rest with
    | nil =>
      by_cases here : first = node <;> simp [after, here]
    | cons second rest =>
      rw [getLast?_cons_cons]
      simp only [cons_append, after] at later ⊢
      by_cases here : first = node
      · subst node
        have differs : (second :: rest).getLast? ≠ some first := fun same =>
          (List.nodup_cons.mp simple).1 (mem_append_left _ (mem_of_getLast? same))
        rw [if_pos rfl, if_neg differs, if_pos rfl]
      · rw [if_neg here, if_neg here, later]

theorem after_mem {next : Node} (found : after node path = some next) :
    node ∈ path.dropLast ∧ next ∈ path := by
  induction path with
  | nil => cases found
  | cons first rest ih =>
    cases rest with
    | nil => cases found
    | cons second rest =>
      rw [after] at found
      split at found
      · rename_i here
        cases found
        exact ⟨by rw [here]; exact mem_cons_self, mem_cons_of_mem _ mem_cons_self⟩
      · obtain ⟨inside, member⟩ := ih found
        exact ⟨mem_cons_of_mem _ inside, mem_cons_of_mem _ member⟩

theorem after_of_passed {path : List Node} (passed : node ∈ path.dropLast) :
    ∃ next, after node path = some next := by
  induction path with
  | nil => cases passed
  | cons first rest ih =>
    cases rest with
    | nil => cases passed
    | cons second rest =>
      rw [after]
      split
      · exact ⟨second, rfl⟩
      · rename_i differs
        rcases List.mem_cons.mp passed with rfl | later
        · exact absurd rfl differs
        · exact ih later

theorem pass (root : Node) (paths : List (List Node)) (tree : Tree root paths) (path : List Node)
    (member : path ∈ paths) (node : Node) (passed : node ∈ path.dropLast) :
    ∃ front next, after node path = some next ∧ front ∈ paths ∧ front.getLast? = some node ∧
      front ++ [next] ∈ paths ∧ front ++ [next] <+: path := by
  induction path using List.reverseRecOn with
  | nil => cases passed
  | append_singleton front last ih =>
    rw [dropLast_concat] at passed
    have some_before : front ≠ [] := ne_nil_of_mem passed
    have before : front ∈ paths := by
      have shorter := tree.closed _ member
      rw [dropLast_concat] at shorter
      exact shorter some_before
    rw [after_append (tree.simple _ member)]
    by_cases ends : front.getLast? = some node
    · rw [if_pos ends]
      exact ⟨front, last, rfl, before, ends, member, prefix_rfl⟩
    · rw [if_neg ends]
      have inside : node ∈ front.dropLast := by
        have whole := dropLast_append_getLast some_before
        rw [← whole] at passed
        rcases List.mem_append.mp passed with early | last_one
        · exact early
        · rw [mem_singleton] at last_one
          rw [getLast?_eq_some_getLast some_before, last_one] at ends
          exact absurd rfl ends
      obtain ⟨shorter, next, found, shorterMember, shorterEnds, nextMember, isPrefix⟩ :=
        ih before inside
      exact ⟨shorter, next, found, shorterMember, shorterEnds, nextMember,
        isPrefix.trans (prefix_append _ _)⟩

def above (outside : Node) (path : List Node) : Node := path.dropLast.getLast?.getD outside

/-- Where each member sends a message: `next target node via`. -/
structure Sends (outside : Node) (paths : List (List Node)) (forwards : Node → Prop)
    (next : Node → Node → Node → Prop) :
    Prop where
  down : ∀ path ∈ paths, ∀ goal ∈ paths, ∀ node target, path.getLast? = some node →
    goal.getLast? = some target →
    node ≠ target → forwards node → ∀ via, next target node via ↔
      via = (after node goal).getD (above outside path)
  up : ∀ path ∈ paths, ∀ goal ∈ paths, ∀ node target, path.getLast? = some node →
    goal.getLast? = some target →
    node ≠ target → ¬ forwards node → ∀ via, next target node via ↔ via = above outside path

section Members

variable {root : Node} {paths : List (List Node)} (tree : Tree root paths)
include tree

def pathTo (paths : List (List Node)) (node : Node) : List Node :=
  (paths.find? fun path => path.getLast? = some node).getD []

theorem pathTo_eq (member : path ∈ paths) (ends : path.getLast? = some node) :
    pathTo paths node = path := by
  cases found : paths.find? fun path => path.getLast? = some node with
  | none => simpa [ends] using List.find?_eq_none.mp found path member
  | some other =>
    have same : other.getLast? = some node := by simpa using find?_some found
    rw [pathTo, found]
    exact tree.single other (mem_of_find?_eq_some found) path member (same.trans ends.symm)

end Members

section Messages

variable {root outside : Node} {paths : List (List Node)} (tree : Tree root paths)
    {forwards : Node → Prop}
  {next : Node → Node → Node → Prop} (sends : Sends outside paths forwards next)
include tree sends

/-- How far a node is from a target: down the path from a node on it, up and down again from
others. -/
def distance (paths : List (List Node)) (target node : Node) : Nat :=
  if node ∈ pathTo paths target then (pathTo paths target).length - (pathTo paths node).length
  else (pathTo paths node).length + (pathTo paths target).length

theorem sends_closer (knows : ∀ goal ∈ paths, ∀ node ∈ goal.dropLast, forwards node)
    {goal : List Node}
    (goalMember : goal ∈ paths) (goalEnds : goal.getLast? = some target) (node : Node)
    (member : Member paths node) (away : node ≠ target) :
    ∃ via, next target node via ∧ Member paths via ∧
      distance paths target via < distance paths target node := by
  obtain ⟨path, pathMember, ends⟩ := member
  have goalPath := pathTo_eq tree goalMember goalEnds
  have nodePath := pathTo_eq tree pathMember ends
  by_cases onPath : node ∈ goal
  · have passed := passed_of_mem goalEnds onPath away
    obtain ⟨front, via, found, frontMember, frontEnds, viaMember, isPrefix⟩ :=
      pass root paths tree goal goalMember node passed
    obtain rfl := tree.single front frontMember path pathMember (frontEnds.trans ends.symm)
    have viaEnds : (front ++ [via]).getLast? = some via := getLast?_concat
    have viaPath := pathTo_eq tree viaMember viaEnds
    have viaOn : via ∈ goal := (after_mem found).2
    have shorter := isPrefix.length_le
    refine ⟨via, ?_, ⟨_, viaMember, viaEnds⟩, ?_⟩
    · rw [sends.down front frontMember goal goalMember node target ends goalEnds away
        (knows goal goalMember node passed), found, getD_some]
    · rw [distance, distance, goalPath, nodePath, viaPath, if_pos viaOn, if_pos onPath]
      rw [length_append, length_singleton] at shorter ⊢
      omega
  · have nothing : after node goal = none := by
      cases found : after node goal with
      | none => rfl
      | some => exact absurd (dropLast_subset goal (after_mem found).1) onPath
    have more : path.dropLast ≠ [] := fun nothing_before =>
      onPath (root_of_dropLast tree path pathMember node ends nothing_before ▸ root_mem
        tree goalMember)
    have shorterMember := tree.closed path pathMember more
    have upEnds : path.dropLast.getLast? = some (above outside path) := by
      rw [above, getLast?_eq_some_getLast more, getD_some]
    have upPath := pathTo_eq tree shorterMember upEnds
    have step : next target node (above outside path) := by
      by_cases known : forwards node
      · rw [sends.down path pathMember goal goalMember node target ends goalEnds away known,
          nothing, getD_none]
      · rw [sends.up path pathMember goal goalMember node target ends goalEnds away known]
    have positive := List.length_pos_iff.mpr (path_ne_nil tree path pathMember)
    refine ⟨_, step, ⟨_, shorterMember, upEnds⟩, ?_⟩
    rw [distance, distance, goalPath, nodePath, upPath, length_dropLast]
    split <;> omega

theorem not_delivered (rootForwards : forwards root)
    (delivered : ∀ source target, Member paths source → Member paths target →
      ∃ path, Route (next target) target source path)
    (goal : List Node) (goalMember : goal ∈ paths) (node : Node) (passed : node ∈ goal.dropLast) :
    forwards node := by
  obtain ⟨front, via, -, frontMember, frontEnds, viaMember, isPrefix⟩ :=
    pass root paths tree goal goalMember node passed
  -- the members above the node know what lies below them
  induction size : front.length using Nat.strongRecOn generalizing node front via with
  | _ bound ih =>
    by_contra ignorant
    have more : front.dropLast ≠ [] := fun nothing =>
      ignorant (root_of_dropLast tree front frontMember node frontEnds nothing ▸ rootForwards)
    have upMember := tree.closed front frontMember more
    have upEnds : front.dropLast.getLast? = some (above outside front) := by
      rw [above, getLast?_eq_some_getLast more, getD_some]
    have whole : front.dropLast ++ [node] = front := dropLast_append_getLast? node frontEnds
    have shorter := List.length_pos_iff.mpr (path_ne_nil tree front frontMember)
    have frontPrefix : front <+: goal := (prefix_append front [via]).trans isPrefix
    have upPassed : above outside front ∈ goal.dropLast := by
      have passedFront := mem_of_getLast? upEnds
      obtain ⟨rest, rfl⟩ := isPrefix
      rw [append_assoc, dropLast_append_of_ne_nil (by simp)]
      exact mem_append_left _ (dropLast_subset front passedFront)
    have upForwards : forwards (above outside front) :=
      ih front.dropLast.length (by rw [length_dropLast]; omega) (above outside front) upPassed
        front.dropLast node
        upMember upEnds (by rwa [whole]) (by rwa [whole]) rfl
    have back : after (above outside front) goal = some node := by
      obtain ⟨other, next, found, otherMember, otherEnds, -, otherPrefix⟩ :=
        pass root paths tree goal goalMember _ upPassed
      obtain rfl := tree.single other otherMember _ upMember (otherEnds.trans upEnds.symm)
      have same := prefix_of_prefix_length_le otherPrefix frontPrefix (by
        rw [length_append, length_singleton, length_dropLast]
        omega)
      have last :=
        same.eq_of_length (by rw [length_append, length_singleton, length_dropLast]; omega)
      have ends := congrArg List.getLast? last
      rw [getLast?_concat, frontEnds] at ends
      rw [found, ends]
    obtain ⟨target, goalEnds⟩ : ∃ target, goal.getLast? = some target :=
      ⟨_, getLast?_eq_some_getLast (path_ne_nil tree goal goalMember)⟩
    have notLast := ends_not_passed tree goal goalMember target goalEnds
    obtain ⟨path, route⟩ :=
      delivered node target ⟨front, frontMember, frontEnds⟩ ⟨goal, goalMember, goalEnds⟩
    apply not_route_of_closed (fun other => other = node ∨ other = above outside front) _ _ node
      (.inl rfl) path route
    · rintro other sent (rfl | rfl) step
      · right
        rwa [sends.up front frontMember goal goalMember other target frontEnds goalEnds
          (fun same => notLast (same ▸ passed)) ignorant] at step
      · left
        rwa [sends.down _ upMember goal goalMember _ target upEnds goalEnds
          (fun same => notLast (same ▸ upPassed)) upForwards, back, getD_some] at step
    · rintro (rfl | rfl)
      · exact notLast passed
      · exact notLast upPassed

/-- Messages between all members arrive, and without passing a member twice, exactly if every member
that others lie below knows what lies below it. -/
theorem delivered_iff (rootForwards : forwards root) :
    (∀ source target, Member paths source → Member paths target →
      ∃ path, Route (next target) target source path ∧ path.Nodup) ↔
      ∀ goal ∈ paths, ∀ node ∈ goal.dropLast, forwards node := by
  constructor
  · intro delivered goal goalMember node passed
    apply not_delivered tree sends rootForwards _ goal goalMember node passed
    intro source target sourceMember targetMember
    obtain ⟨path, route, -⟩ := delivered source target sourceMember targetMember
    exact ⟨path, route⟩
  · rintro knows source target sourceMember ⟨goal, goalMember, goalEnds⟩
    obtain ⟨path, route, distinct, -⟩ := route_of_distance (Member paths) (distance paths target)
      (sends_closer tree sends knows goalMember goalEnds) source sourceMember
    exact ⟨path, route, distinct⟩

end Messages

end Orcm.RootPaths
