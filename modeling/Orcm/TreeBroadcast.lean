import Orcm.ParentTree

/-!
Messages that are passed down a tree over first-in first-out channels. Between a parent and its
child nothing is lost, repeated or overtaken, so what any node has received is a first part of what
the root has sent.
-/

namespace Orcm.TreeBroadcast

open ParentTree Relation Function

variable {Node Message : Type} [DecidableEq Node]

/-- What every node has received, and what is on its way to it from its parent. -/
structure State (Node Message : Type) where
  log : Node → List Message
  queue : Node → List Message

def State.relay (state : State Node Message) (children : List Node) (node : Node)
    (message : Message) :
    State Node Message where
  log := Function.update state.log node (state.log node ++ [message])
  queue other := if other ∈ children then state.queue other ++ [message] else state.queue other

def State.take (state : State Node Message) (node : Node) (rest : List Message) :
    State Node Message :=
  { state with queue := Function.update state.queue node rest }

/-- What a parent has received is what its child has received and what is on its way there. -/
def Ordered (members : Node → Prop) (root : Node) (parent : Node → Node)
    (state : State Node Message) : Prop :=
  ∀ node, members node → node ≠ root → state.log (parent node) = state.log node ++ state.queue node

section Tree

variable {members : Node → Prop} {root : Node} {parent : Node → Node} {children : Node → List Node}
  (tree : SpanningTree members root parent children)
include tree

variable {node : Node}

theorem mem_children_iff (member : members node) (otherMember : members other)
    (proper : other ≠ root) :
    other ∈ children node ↔ parent other = node := by
  constructor
  · exact fun listed => (tree.child node member other listed).2.2
  · rintro rfl
    exact List.count_pos_iff.mp (by rw [tree.listed other otherMember proper]; exact Nat.one_pos)

theorem parent_ne (member : members node) (proper : node ≠ root) : parent node ≠ node := by
  intro own
  have away : ∀ other, ReflTransGen (Edge members root parent) root other → other ≠ node := by
    intro other reached
    induction reached with
    | refl => exact Ne.symm proper
    | tail _ edge ih =>
      rintro rfl
      exact ih (edge.2.2.symm.trans own)
  exact away node (tree.reached node member) rfl

theorem send_ordered (ordered : Ordered members root parent state) :
    Ordered members root parent (state.relay (children root) root message) := by
  intro node member proper
  have listed := mem_children_iff tree tree.root_member member proper
  have before := ordered node member proper
  simp only [State.relay, update_of_ne proper]
  by_cases above : parent node = root
  · rw [if_pos (listed.mpr above), above, update_self, ← List.append_assoc, ← before, above]
  · rw [if_neg fun child => above (listed.mp child), update_of_ne above, before]

theorem receive_ordered (ordered : Ordered members root parent state) (member : members node)
    (proper : node ≠ root) (next : state.queue node = message :: rest) :
    Ordered members root parent ((state.take node rest).relay (children node) node message) := by
  intro other otherMember otherProper
  have listed := mem_children_iff tree member otherMember otherProper
  have before := ordered other otherMember otherProper
  simp only [State.relay, State.take]
  by_cases same : other = node
  · subst other
    have away := parent_ne tree member proper
    rw [if_neg fun child => away (listed.mp child), update_of_ne away, update_self, update_self,
      before, next, List.append_assoc, List.singleton_append]
  · rw [update_of_ne same, update_of_ne same]
    by_cases above : parent other = node
    · rw [if_pos (listed.mpr above), above, update_self, ← List.append_assoc, ← before, above]
    · rw [if_neg fun child => above (listed.mp child), update_of_ne above, before]

variable {state : State Node Message} (ordered : Ordered members root parent state)
include ordered

theorem log_prefix_root (member : members node) : state.log node <+: state.log root := by
  induction tree.reached node member with
  | refl => exact List.prefix_rfl
  | tail reached edge ih =>
    apply List.IsPrefix.trans _ (ih (edge.2.2 ▸ tree.parent_member _ edge.1 edge.2.1))
    rw [← edge.2.2, ordered _ edge.1 edge.2.1]
    exact List.prefix_append _ _

theorem logs_comparable (member : members node) (otherMember : members other) :
    state.log node <+: state.log other ∨ state.log other <+: state.log node :=
  List.prefix_or_prefix_of_prefix (log_prefix_root tree ordered member)
    (log_prefix_root tree ordered otherMember)

theorem log_eq_root (quiet : ∀ node, members node → node ≠ root → state.queue node = [])
    (member : members node) :
    state.log node = state.log root := by
  induction tree.reached node member with
  | refl => rfl
  | tail reached edge ih =>
    have before := ordered _ edge.1 edge.2.1
    rw [quiet _ edge.1 edge.2.1, List.append_nil, edge.2.2] at before
    rw [← before]
    exact ih (edge.2.2 ▸ tree.parent_member _ edge.1 edge.2.1)

end Tree

end Orcm.TreeBroadcast
