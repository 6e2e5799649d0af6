import Mathlib.Data.List.Count
import Mathlib.Logic.Relation
import Orcm.Delivery

/-!
Trees that are given by the parent of every node. Messages are routed down to a child with the
target below it, up when the target is not below the node, or directly to the target.
-/

namespace Orcm.ParentTree

open Relation Delivery

variable {Node : Type}

section Edges

variable (members : Node → Prop) (root : Node) (parent : Node → Node)

def Edge (node child : Node) : Prop := members child ∧ child ≠ root ∧ parent child = node

def Below : Node → Node → Prop := TransGen (Edge members root parent)

/-- One tree that spans the members: the parent of every node but the root lists it once, a node
lists only its children, and every node is reached from the root. -/
structure SpanningTree [DecidableEq Node] (children : Node → List Node) : Prop where
  root_member : members root
  parent_member : ∀ node, members node → node ≠ root → members (parent node)
  listed : ∀ node, members node → node ≠ root → (children (parent node)).count node = 1
  child : ∀ node, members node → ∀ child ∈ children node, Edge members root parent node child
  reached : ∀ node, members node → ReflTransGen (Edge members root parent) root node

end Edges

variable {members : Node → Prop} {root : Node} {parent : Node → Node}

theorem edge_congr (same : ∀ node, members node → node ≠ root → parent node = other node) :
    Edge members root parent = Edge members root other := by
  funext node child
  refine propext (and_congr_right fun member => and_congr_right fun proper => ?_)
  rw [same child member proper]

theorem below_iff :
    Below members root parent node descendant ↔
      ∃ child, Edge members root parent node child ∧
        (descendant = child ∨ Below members root parent child descendant) := by
  rw [Below, TransGen.head'_iff]
  simp [reflTransGen_iff_eq_or_transGen]

theorem below_of_edge (edge : Edge members root parent node child)
    (below : Below members root parent child descendant) :
    Below members root parent node descendant :=
  TransGen.head edge below

theorem below_member (node descendant : Node) (below : Below members root parent node descendant) :
    members descendant ∧ descendant ≠ root := by
  obtain ⟨_, -, last⟩ := TransGen.tail'_iff.mp below
  exact ⟨last.1, last.2.1⟩

theorem below_parent (node descendant : Node) (below : Below members root parent node descendant) :
    node = parent descendant ∨ Below members root parent node (parent descendant) := by
  obtain ⟨last, above, edge⟩ := TransGen.tail'_iff.mp below
  rw [edge.2.2]
  exact (reflTransGen_iff_eq_or_transGen.mp above).imp_left Eq.symm

section Heights

variable (height : Node → Nat)
    (rises : ∀ node, members node → node ≠ root → height (parent node) < height node)
include rises

theorem height_lt_of_below (node descendant : Node)
    (below : Below members root parent node descendant) :
    height node < height descendant := by
  have edge : ∀ one other, Edge members root parent one other → height one < height other := by
    rintro one other ⟨member, proper, rfl⟩
    exact rises other member proper
  induction below with
  | single last => exact edge _ _ last
  | tail _ last ih => exact Nat.lt_trans ih (edge _ _ last)

theorem reached_of_height (inside : ∀ node, members node → node ≠ root → members (parent node))
    (node : Node) (member : members node) : ReflTransGen (Edge members root parent) root node := by
  induction bound : height node using Nat.strongRecOn generalizing node with
  | _ bound ih =>
    subst bound
    by_cases top : node = root
    · rw [top]
    · exact .tail (ih _ (rises node member top) (parent node) (inside node member top) rfl)
        ⟨member, top, rfl⟩

theorem child_unique (node one other descendant : Node) (edge : Edge members root parent node one)
    (otherEdge : Edge members root parent node other)
    (above : descendant = one ∨ Below members root parent one descendant)
    (otherAbove : descendant = other ∨ Below members root parent other descendant) :
    one = other := by
  have lower :
      ∀ left right, Edge members root parent node left → Edge members root parent node right →
      ¬ Below members root parent left right := by
    intro left right leftEdge rightEdge below
    have rise := height_lt_of_below height rises node left (.single leftEdge)
    rcases below_parent left right below with same | above <;> rw [rightEdge.2.2] at *
    · rw [same] at rise
      exact Nat.lt_irrefl _ rise
    · exact Nat.lt_asymm rise (height_lt_of_below height rises left node above)
  -- climb from the descendant until one of the two children is met
  induction bound : height descendant using Nat.strongRecOn generalizing descendant with
  | _ bound ih =>
    subst bound
    rcases above with rfl | above
    · rcases otherAbove with same | otherAbove
      · exact same
      · exact absurd otherAbove (lower other descendant otherEdge edge)
    · rcases otherAbove with rfl | otherAbove
      · exact absurd above (lower one descendant edge otherEdge)
      · obtain ⟨member, proper⟩ := below_member one descendant above
        exact ih _ (rises descendant member proper) (parent descendant)
          ((below_parent one descendant above).imp_left Eq.symm)
          ((below_parent other descendant otherAbove).imp_left Eq.symm) rfl

/-- A hop that a tree allows for a message to the target. -/
inductive Hop (members : Node → Prop) (root : Node) (parent : Node → Node) (target node : Node) :
    Node → Prop
  | direct : Hop members root parent target node target
  | down (child : Node) (edge : Edge members root parent node child)
      (above : Below members root parent child target) :
      Hop members root parent target node child
  | up (notBelow : ¬ Below members root parent node target) : Hop members root parent target node
      (parent node)

open Classical in
/-- Nodes above the target are nearer to it the lower they are, other nodes the higher they are. -/
noncomputable def distance (members : Node → Prop) (root : Node) (parent : Node → Node)
    (height : Node → Nat) (target node : Node) : Nat :=
  if node = target then 0
  else if Below members root parent node target then height target - height node
  else height node + height target + 1

theorem hop_closer (inside : ∀ node, members node → node ≠ root → members (parent node))
    (member : members node) (targetMember : members target) (away : node ≠ target)
    (hop : Hop members root parent target node via) :
    members via ∧ distance members root parent height target via < distance members root parent
      height target node := by
  have lower := height_lt_of_below height rises
  have positive : 0 < distance members root parent height target node := by
    rw [distance, if_neg away]
    split
    · exact Nat.sub_pos_of_lt (lower node target ‹_›)
    · exact Nat.succ_pos _
  cases hop with
  | direct => exact ⟨targetMember, by rwa [distance, if_pos rfl]⟩
  | down _ edge above =>
    refine ⟨edge.1, ?_⟩
    have below := below_of_edge edge above
    have apart : via ≠ target := fun same => Nat.lt_irrefl _ (same ▸ lower via target above)
    have step := lower node via (.single edge)
    have rest := lower via target above
    rw [distance, distance, if_neg apart, if_pos above, if_neg away, if_pos below]
    omega
  | up notBelow =>
    have proper : node ≠ root := by
      rintro rfl
      have reached := reached_of_height height rises inside target targetMember
      rcases reflTransGen_iff_eq_or_transGen.mp reached with same | below
      · exact away same.symm
      · exact notBelow below
    refine ⟨inside node member proper, ?_⟩
    have step := rises node member proper
    rw [distance, distance]
    split
    · exact Nat.succ_pos _
    · split <;> omega

theorem tree_route (inside : ∀ node, members node → node ≠ root → members (parent node))
    (targetMember : members target)
    (hops : ∀ node, members node → node ≠ target → ∃ via, next node via ∧
      Hop members root parent target node via)
    (member : members source) :
    ∃ path, Route next target source path ∧ path.Nodup ∧ ∀ node ∈ path, members node := by
  obtain ⟨path, route, distinct, -, visited⟩ := route_of_distance members
    (distance members root parent height target) (fun node nodeMember away => by
      obtain ⟨via, step, hop⟩ := hops node nodeMember away
      exact ⟨via, step, hop_closer height rises inside nodeMember targetMember away hop⟩)
        source member
  exact ⟨path, route, distinct, fun node present => (visited node present).1⟩

end Heights

end Orcm.ParentTree
