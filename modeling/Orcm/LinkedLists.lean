import Mathlib.Data.List.Chain
import Mathlib.Data.List.Nodup
import Mathlib.Data.Sum.Basic

/-!
Circular doubly linked lists. The nodes are items and one head for each list, before its first and
behind its last item. Surgery comes down to connecting one node to another.
-/

namespace Orcm.LinkedLists

open List

structure Links (Node : Type) where
  next : Node → Node
  prev : Node → Node

variable {Node Name Item : Type}

def Links.Joined (links : Links Node) (left right : Node) : Prop :=
  links.next left = right ∧ links.prev right = left

/-- Each node is joined to the one behind it. -/
def Links.Path (links : Links Node) (nodes : List Node) : Prop := nodes.IsChain links.Joined

theorem notMem_dropLast {nodes : List Node} (nodup : nodes.Nodup)
    (final : nodes.getLast? = some last) :
    last ∉ nodes.dropLast := by
  rw [← dropLast_append_getLast? last final, nodup_append] at nodup
  intro member
  exact nodup.2.2 last member last (mem_singleton_self last) rfl

theorem notMem_tail {nodes : List Node} (nodup : nodes.Nodup) (initial : nodes.head? = some first) :
    first ∉ nodes.tail := by
  cases nodes with
  | nil => exact not_mem_nil
  | cons =>
    cases initial
    exact (List.nodup_cons.mp nodup).1

def Links.connect [DecidableEq Node] (links : Links Node) (left right : Node) : Links Node where
  next := Function.update links.next left right
  prev := Function.update links.prev right left

/-- Nodes from `first` to `last` are put between two others. -/
def Links.graft [DecidableEq Node] (links : Links Node) (left first last right : Node) :
    Links Node :=
  (links.connect left first).connect last right

section Connect

variable [DecidableEq Node] {links : Links Node}

theorem connect_joined (left right : Node) : (links.connect left right).Joined left right :=
  ⟨Function.update_self .., Function.update_self ..⟩

theorem Links.Joined.connect (joined : links.Joined first second)
    (next_kept : first ≠ left) (prev_kept : second ≠ right) :
    (links.connect left right).Joined first second := by
  constructor
  · exact (Function.update_of_ne next_kept ..).trans joined.1
  · exact (Function.update_of_ne prev_kept ..).trans joined.2

theorem Links.Path.connect (path : links.Path nodes)
    (next_kept : left ∉ nodes.dropLast) (prev_kept : right ∉ nodes.tail) :
    (links.connect left right).Path nodes := by
  induction nodes with
  | nil => exact isChain_nil
  | cons first rest ih =>
    cases rest with
    | nil => exact isChain_singleton first
    | cons =>
      obtain ⟨joined, path⟩ := List.isChain_cons_cons.mp path
      rw [dropLast_cons_cons, mem_cons, not_or] at next_kept
      rw [tail_cons, mem_cons, not_or] at prev_kept
      apply List.isChain_cons_cons.mpr
      constructor
      · exact joined.connect (Ne.symm next_kept.1) (Ne.symm prev_kept.1)
      · exact ih path next_kept.2 prev_kept.2

end Connect

def lastNode (name : Name) (items : List Item) : Name ⊕ Item :=
  (items.getLast?.map .inr).getD (.inl name)

def firstNode (name : Name) (items : List Item) : Name ⊕ Item :=
  (items.head?.map .inr).getD (.inl name)

def front (name : Name) (items : List Item) : List (Name ⊕ Item) := .inl name :: items.map .inr

def back (name : Name) (items : List Item) : List (Name ⊕ Item) := items.map .inr ++ [.inl name]

section

variable (name : Name) (items : List Item)
include name items

theorem getLast?_front : (front name items).getLast? = some (lastNode name items) := by
  rw [front, getLast?_cons, getLast?_map, lastNode]

theorem head?_back : (back name items).head? = some (firstNode name items) := by
  cases items with
  | nil => rfl
  | cons => rfl

theorem lastNode_mem : lastNode name items ∈ front name items :=
  mem_of_getLast? (getLast?_front name items)

theorem firstNode_mem : firstNode name items ∈ back name items :=
  mem_of_head? (head?_back name items)

end

variable {items : List Item} {name : Name}

theorem mem_back :
    node ∈ back name items ↔ node ∈ front name items := by
  rw [back, front, mem_append, mem_singleton, mem_cons, or_comm]

theorem inr_mem_front :
    (.inr item : Name ⊕ Item) ∈ front name items ↔ item ∈ items := by
  simp [front]

theorem inl_mem_front :
    (.inl other : Name ⊕ Item) ∈ front name items ↔ other = name := by
  simp [front]

theorem nodup_front (nodup : items.Nodup) : (front name items).Nodup := by
  rw [front, nodup_cons]
  exact ⟨by simp, nodup.map Sum.inr_injective⟩

theorem nodup_back (nodup : items.Nodup) : (back name items).Nodup := by
  rw [back, nodup_append]
  refine ⟨nodup.map Sum.inr_injective, nodup_singleton _, ?_⟩
  simp

/-- No item is on two lists or twice on one. -/
structure Separate (lists : Name → List Item) : Prop where
  nodup : ∀ name, (lists name).Nodup
  apart : ∀ {first second item}, item ∈ lists first → item ∈ lists second → first = second

/-- The links lead around every list, in both directions. -/
structure Represents (links : Links (Name ⊕ Item)) (lists : Name → List Item) : Prop where
  ring : ∀ name, links.Path (front name (lists name) ++ [.inl name])
  separate : Separate lists

theorem path_split (links : Links (Name ⊕ Item)) (name : Name) (before after : List Item) :
    links.Path (front name (before ++ after) ++ [.inl name]) ↔
      links.Path (front name before) ∧ links.Path (back name after) ∧
        links.Joined (lastNode name before) (firstNode name after) := by
  have nodes :
      front name (before ++ after) ++ [.inl name] = front name before ++ back name after := by
    simp [front, back]
  rw [nodes, Links.Path, isChain_append, getLast?_front, head?_back]
  simp [Links.Path]

variable {before moved : List Item}

theorem Represents.joined (rep : Represents links lists) {after : List Item}
    (split : lists name = before ++ after) :
    links.Joined (lastNode name before) (firstNode name after) := by
  have ring := rep.ring name
  rw [split, path_split] at ring
  exact ring.2.2

theorem inr_mem_back :
    (.inr item : Name ⊕ Item) ∈ back name items ↔ item ∈ items := by
  rw [mem_back, inr_mem_front]

theorem notMem_items {others : List Item} (member : node ∈ front name here)
    (apart : ∀ item ∈ here, item ∉ others) : node ∉ others.map .inr := by
  cases node with
  | inl => simp
  | inr item =>
    rw [inr_mem_front] at member
    simpa using apart item member

theorem firstNode_mem_front (name : Name) (items : List Item) :
    firstNode name items ∈ front name items :=
  mem_back.mp (firstNode_mem name items)

theorem Separate.notMem_other (separate : Separate lists) (different : other ≠ name)
    (member : node ∈ front name (lists name)) :
    node ∉ front other (lists other) := by
  cases node with
  | inl =>
    rw [inl_mem_front] at member ⊢
    exact fun same => different (same.symm.trans member)
  | inr =>
    rw [inr_mem_front] at member ⊢
    exact fun elsewhere => different (separate.apart elsewhere member)

theorem front_append (name : Name) (before after : List Item) :
    front name (before ++ after) = front name before ++ after.map .inr := by
  rw [front, front, map_append, cons_append]

theorem front_subset (subset : some_items ⊆ items) :
    front name some_items ⊆ front name items :=
  cons_subset_cons _ (map_subset _ subset)

section Surgery

variable [DecidableEq Name] {name : Name} {after : List Item}

theorem Separate.update (separate : Separate lists) (nodup : items.Nodup)
    (fresh : ∀ item ∈ items, item ∉ lists name → ∀ other, item ∉ lists other) :
    Separate (Function.update lists name items) where
  nodup := by
    intro other
    by_cases here : other = name
    · rwa [here, Function.update_self]
    · rw [Function.update_of_ne here]
      exact separate.nodup other
  apart := by
    -- An item that is now on the list was on it before or on none.
    have alone : ∀ {other item}, other ≠ name → item ∈ items → item ∉ lists other := by
      intro other item different member elsewhere
      by_cases old : item ∈ lists name
      · exact different (separate.apart elsewhere old)
      · exact fresh item member old other elsewhere
    intro first second item in_first in_second
    by_cases first_here : first = name
    · by_cases second_here : second = name
      · rw [first_here, second_here]
      · rw [first_here, Function.update_self] at in_first
        rw [Function.update_of_ne second_here] at in_second
        exact absurd in_second (alone second_here in_first)
    · rw [Function.update_of_ne first_here] at in_first
      by_cases second_here : second = name
      · rw [second_here, Function.update_self] at in_second
        exact absurd in_first (alone first_here in_second)
      · rw [Function.update_of_ne second_here] at in_second
        exact separate.apart in_first in_second

theorem Separate.remove (separate : Separate lists)
    (split : lists name = before ++ (moved ++ after)) :
    Separate (Function.update lists name (before ++ after)) := by
  have nodup := separate.nodup name
  rw [split] at nodup
  apply separate.update
  · exact nodup.sublist ((List.Sublist.refl _).append (sublist_append_right ..))
  · intro item member old
    rw [split] at old
    rw [mem_append] at member
    simp only [mem_append, not_or] at old
    exact absurd member (by tauto)

theorem Separate.insert {lists : Name → List Item} (separate : Separate lists)
    (split : lists name = before ++ after) (moved_nodup : moved.Nodup)
    (fresh : ∀ item ∈ moved, ∀ other, item ∉ lists other) :
    Separate (Function.update lists name (before ++ (moved ++ after))) := by
  have nodup := separate.nodup name
  have absent : ∀ item ∈ moved, item ∉ before ++ after :=
    fun item member => split ▸ fresh item member name
  rw [split] at nodup
  apply separate.update
  · rw [(perm_append_comm_assoc before moved after).nodup_iff, nodup_append]
    refine ⟨moved_nodup, nodup, ?_⟩
    rintro item member other elsewhere rfl
    exact absent item member elsewhere
  · intro item member old
    rw [split] at old
    simp only [mem_append, not_or] at member old
    exact fresh item (by tauto)

variable [DecidableEq Item] {links : Links (Name ⊕ Item)} {lists : Name → List Item}

omit [DecidableEq Item] [DecidableEq Name] in
theorem path_ring_connect [DecidableEq (Name ⊕ Item)]
    (ring : links.Path (front name items ++ [.inl name])) (left_outside : left ∉ front name items)
    (right_outside : right ∉ front name items) :
    (links.connect left right).Path (front name items ++ [.inl name]) := by
  apply ring.connect
  · rwa [dropLast_concat]
  · change right ∉ back name items
    rwa [mem_back]

theorem Represents.unlink (rep : Represents links lists)
    (split : lists name = before ++ (moved ++ after)) :
    Represents (links.connect (lastNode name before) (firstNode name after))
        (Function.update lists name (before ++ after)) ∧
      (links.connect (lastNode name before) (firstNode name after)).Path (moved.map .inr) := by
  have nodup := rep.separate.nodup name
  have ring := rep.ring name
  rw [split] at nodup ring
  obtain ⟨before_nodup, rest_nodup, apart⟩ := List.nodup_append.mp nodup
  obtain ⟨-, after_nodup, rest_apart⟩ := List.nodup_append.mp rest_nodup
  have last_here := lastNode_mem name before
  have first_here := firstNode_mem_front name after
  obtain ⟨front_path, -, -⟩ := (path_split ..).mp ring
  rw [← append_assoc] at ring
  obtain ⟨moved_path, back_path, -⟩ := (path_split ..).mp ring
  rw [front_append] at moved_path
  -- The three blocks keep their inner links: only the last node of the first and the first of the
  -- third change.
  have front_kept :
      (links.connect (lastNode name before) (firstNode name after)).Path (front name before) := by
    apply front_path.connect
    · exact notMem_dropLast (nodup_front before_nodup) (getLast?_front ..)
    · exact notMem_items first_here fun item second first => apart item first item
        (by simp [second]) rfl
  have back_kept :
      (links.connect (lastNode name before) (firstNode name after)).Path (back name after) := by
    apply back_path.connect
    · rw [back, dropLast_concat]
      exact notMem_items last_here fun item first second => apart item first item
        (by simp [second]) rfl
    · exact notMem_tail (nodup_back after_nodup) (head?_back ..)
  have moved_kept :
      (links.connect (lastNode name before) (firstNode name after)).Path (moved.map .inr) := by
    apply Links.Path.connect moved_path.right_of_append
    · intro member
      exact notMem_items last_here (fun item first second => apart item first item
        (by simp [second]) rfl)
        (dropLast_subset _ member)
    · intro member
      exact notMem_items first_here (fun item second first => rest_apart item first item second rfl)
        (mem_of_mem_tail member)
  refine ⟨⟨?_, rep.separate.remove split⟩, moved_kept⟩
  intro other
  by_cases here : other = name
  · rw [here, Function.update_self, path_split]
    exact ⟨front_kept, back_kept, connect_joined ..⟩
  · rw [Function.update_of_ne here]
    apply path_ring_connect (rep.ring other)
    · apply rep.separate.notMem_other here
      rw [split]
      exact front_subset (subset_append_left ..) last_here
    · apply rep.separate.notMem_other here
      rw [split]
      exact front_subset (List.Subset.trans (subset_append_right ..) (subset_append_right ..))
        first_here

theorem Represents.insert (rep : Represents links lists)
    (split : lists name = before ++ after) (moved_nodup : moved.Nodup)
    (fresh : ∀ item ∈ moved, ∀ other, item ∉ lists other)
    (moved_path : links.Path (moved.map .inr)) (initial : moved.head? = some first)
    (final : moved.getLast? = some last) :
    Represents (links.graft (lastNode name before) (.inr first) (.inr last) (firstNode name after))
      (Function.update lists name (before ++ (moved ++ after))) := by
  have nodup := rep.separate.nodup name
  have ring := rep.ring name
  rw [split] at nodup ring
  obtain ⟨before_nodup, after_nodup, apart⟩ := List.nodup_append.mp nodup
  obtain ⟨front_path, back_path, -⟩ := (path_split ..).mp ring
  have last_here := lastNode_mem name before
  have first_here := firstNode_mem_front name after
  have absent : ∀ item ∈ moved, item ∉ before ∧ item ∉ after := by
    intro item member
    have new := fresh item member name
    rwa [split, mem_append, not_or] at new
  have first_new := absent first (mem_of_head? initial)
  have last_new := absent last (mem_of_getLast? final)
  have front_kept :
      (links.graft (lastNode name before) (.inr first) (.inr last) (firstNode name after)).Path
      (front name before) := by
    apply Links.Path.connect
    · apply front_path.connect
      · exact notMem_dropLast (nodup_front before_nodup) (getLast?_front ..)
      · exact fun member => first_new.1 (inr_mem_front.mp (mem_of_mem_tail member))
    · exact fun member => last_new.1 (inr_mem_front.mp (dropLast_subset _ member))
    · exact notMem_items first_here fun item second first => apart item first item second rfl
  have back_kept :
      (links.graft (lastNode name before) (.inr first) (.inr last) (firstNode name after)).Path
      (back name after) := by
    apply Links.Path.connect
    · apply back_path.connect
      · rw [back, dropLast_concat]
        exact notMem_items last_here fun item first second => apart item first item second rfl
      · exact fun member => first_new.2 (inr_mem_back.mp (mem_of_mem_tail member))
    · exact fun member => last_new.2 (inr_mem_back.mp (dropLast_subset _ member))
    · exact notMem_tail (nodup_back after_nodup) (head?_back ..)
  have moved_kept :
      (links.graft (lastNode name before) (.inr first) (.inr last) (firstNode name after)).Path
      (moved.map .inr) := by
    apply Links.Path.connect
    · apply moved_path.connect
      · intro member
        exact notMem_items last_here (fun item first second => (absent item second).1 first)
          (dropLast_subset _ member)
      · exact notMem_tail (moved_nodup.map Sum.inr_injective) (by rw [head?_map, initial]; rfl)
    · exact notMem_dropLast (moved_nodup.map Sum.inr_injective) (by rw [getLast?_map, final]; rfl)
    · intro member
      exact notMem_items first_here (fun item second first => (absent item first).2 second)
        (mem_of_mem_tail member)
  have entered :
      (links.graft (lastNode name before) (.inr first) (.inr last) (firstNode name after)).Joined
      (lastNode name before) (.inr first) := by
    apply (connect_joined ..).connect
    · intro same
      rw [same] at last_here
      exact last_new.1 (inr_mem_front.mp last_here)
    · intro same
      rw [← same] at first_here
      exact first_new.2 (inr_mem_front.mp first_here)
  refine ⟨?_, rep.separate.insert split moved_nodup fresh⟩
  intro other
  by_cases here : other = name
  · rw [here, Function.update_self]
    have nodes : front name (before ++ (moved ++ after)) ++ [.inl name] =
        front name before ++ (moved.map .inr ++ back name after) := by
      simp [front, back]
    rw [nodes, Links.Path, isChain_append, isChain_append]
    refine ⟨front_kept, ⟨moved_kept, back_kept, ?_⟩, ?_⟩
    · rw [getLast?_map, final, head?_back]
      intro left last_left right first_right
      cases last_left
      cases first_right
      exact connect_joined ..
    · rw [getLast?_front, head?_append, head?_map, initial]
      intro left last_left right first_right
      cases last_left
      cases first_right
      exact entered
  · rw [Function.update_of_ne here]
    apply path_ring_connect
    · apply path_ring_connect (rep.ring other)
      · apply rep.separate.notMem_other here
        rw [split]
        exact front_subset (subset_append_left ..) last_here
      · exact fun member => fresh first (mem_of_head? initial) other (inr_mem_front.mp member)
    · exact fun member => fresh last (mem_of_getLast? final) other (inr_mem_front.mp member)
    · apply rep.separate.notMem_other here
      rw [split]
      exact front_subset (subset_append_right ..) first_here

end Surgery

end Orcm.LinkedLists
