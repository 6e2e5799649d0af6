import Mathlib.Data.List.Induction
import Mathlib.Data.List.TakeWhile
import Orcm.OpalList

/-!
The links and lengths of `opal_list_t` after any sequence of calls.
-/

namespace Orcm.OpalList

open CLibrary LinkedLists List Function

variable {Name Item : Type} {memory : Memory Name Item} {lists : Name → List Item}

structure Kept (memory : Memory Name Item) (lists : Name → List Item) : Prop where
  rep : Represents memory.links lists
  length : ∀ list, memory.length list = (lists list).length

theorem Kept.describes (kept : Kept memory lists) : Describes memory lists :=
  ⟨kept.rep.ring, kept.length⟩

variable {items after : List Item} {list : Name} {item : Item}
    {left right : Name ⊕ Item} {xlist thislist other : Name}

theorem Kept.update_length [DecidableEq Name] (kept : Kept memory lists) :
    update memory.length list items.length other = (update lists list items other).length := by
  by_cases here : other = list
  · rw [here, update_self, update_self]
  · rw [update_of_ne here, update_of_ne here, kept.length other]

theorem inr_ne_of_mem (member : node ∈ front list items) (absent : item ∉ items) :
    node ≠ .inr item := by
  rintro rfl
  exact absent (inr_mem_front.mp member)

theorem Kept.walk (kept : Kept memory lists) (split : lists list = before ++ after) :
    memory.links.next^[before.length] (.inl list) = lastNode list before := by
  induction before using List.reverseRecOn generalizing after with
  | nil => rfl
  | append_singleton before item ih =>
    have split_here : lists list = before ++ (item :: after) := by
      rw [split, append_assoc, singleton_append]
    have joined := (kept.rep.joined split_here).1
    rw [length_append, length_singleton, iterate_succ_apply', ih split_here, joined]
    simp [firstNode, lastNode]

variable [DecidableEq Name] [DecidableEq Item]

theorem ahead_append_behind (pos : Name ⊕ Item) (items : List Item) :
    ahead pos items ++ behind pos items = items :=
  takeWhile_append_dropWhile

variable {pos last : Name ⊕ Item}

theorem firstNode_behind (member : pos ∈ front list items) :
    firstNode list (behind pos items) = pos := by
  cases pos with
  | inl head =>
    rw [inl_mem_front] at member
    have none_left : behind (.inl head : Name ⊕ Item) items = [] := by
      rw [behind, dropWhile_eq_nil_iff]
      simp
    rw [none_left, member]
    rfl
  | inr item =>
    rw [inr_mem_front] at member
    induction items with
    | nil => exact absurd member not_mem_nil
    | cons first rest ih =>
      by_cases here : first = item
      · simp [behind, here, firstNode]
      · have further : behind (.inr item : Name ⊕ Item) (first :: rest) = behind
            (.inr item : Name ⊕ Item) rest := by
          simp [behind, here]
        rw [further]
        exact ih (mem_of_ne_of_mem (Ne.symm here) member)

theorem Kept.add (kept : Kept memory lists) (split : lists list = before ++ after)
    (fresh : ∀ other, item ∉ lists other)
    (links : added.links = memory.links.graft (lastNode list before) (.inr item) (.inr item)
      (firstNode list after))
    (length : added.length = update memory.length list (memory.length list + 1)) :
    Kept added (update lists list (before ++ ([item] ++ after))) where
  rep := by
    rw [links]
    apply kept.rep.insert split (nodup_singleton item)
    · intro other member
      rw [mem_singleton] at member
      rwa [member]
    · exact isChain_singleton _
    · rfl
    · rfl
  length := by
    intro other
    have longer : memory.length list + 1 = (before ++ ([item] ++ after)).length := by
      rw [kept.length, split]
      simp only [length_append, length_singleton]
      omega
    rw [length, longer]
    exact kept.update_length

theorem links_append :
    (opalListAppend memory list (.inr item)).links =
      memory.links.graft (memory.links.prev (.inl list)) (.inr item) (.inr item) (.inl list) := by
  simp [opalListAppend, Memory.setNext, Memory.setPrev, Memory.setLength, Links.graft,
    Links.connect]

theorem append_kept (kept : Kept memory lists) (fresh : ∀ other, item ∉ lists other) :
    Kept (opalListAppend memory list (.inr item)) (update lists list (lists list ++ [item])) := by
  have split : lists list = lists list ++ [] := (append_nil _).symm
  have final : memory.links.prev (.inl list) = lastNode list (lists list) :=
    (kept.rep.joined split).2
  apply kept.add split fresh
  · rw [links_append, final]
    rfl
  · rfl

theorem graft_single {links : Links (Name ⊕ Item)} {item : Name ⊕ Item} (apart : left ≠ item) :
    links.graft left item item right =
      ⟨update (update links.next item right) left item,
        update (update links.prev item left) right item⟩ := by
  rw [Links.graft, Links.connect, Links.connect, update_comm apart]

theorem links_prepend {list : Name} {item : Item} :
    (opalListPrepend memory list (.inr item)).links =
      memory.links.graft (.inl list) (.inr item) (.inr item) (memory.links.next (.inl list)) := by
  rw [graft_single Sum.inl_ne_inr]
  simp [opalListPrepend, Memory.setNext, Memory.setPrev, Memory.setLength]

theorem prepend_kept (kept : Kept memory lists) (fresh : ∀ other, item ∉ lists other) :
    Kept (opalListPrepend memory list (.inr item)) (update lists list (item :: lists list)) := by
  have split : lists list = [] ++ lists list := rfl
  have initial : memory.links.next (.inl list) = firstNode list (lists list) :=
    (kept.rep.joined split).1
  apply kept.add split fresh
  · rw [links_prepend, initial]
    rfl
  · rfl

theorem links_insertPos {list : Name} {item : Name ⊕ Item} (pos_apart : pos ≠ item)
    (prev_apart : memory.links.prev pos ≠ item) :
    (opalListInsertPos memory list pos item).links = memory.links.graft (memory.links.prev pos) item
      item pos := by
  rw [graft_single prev_apart]
  simp [opalListInsertPos, Memory.setNext, Memory.setPrev, Memory.setLength, pos_apart]

theorem insertPos_kept (kept : Kept memory lists) (fresh : ∀ other, item ∉ lists other)
    (member : pos ∈ front list (lists list)) :
    Kept (opalListInsertPos memory list pos (.inr item)) (placed lists list pos [item]) := by
  have split := (ahead_append_behind pos (lists list)).symm
  have joined := kept.rep.joined split
  have last_here : lastNode list (ahead pos (lists list)) ∈ front list (lists list) :=
    front_subset (takeWhile_subset _) (lastNode_mem ..)
  rw [firstNode_behind member] at joined
  apply kept.add split fresh
  · rw [links_insertPos (inr_ne_of_mem member (fresh list)), joined.2, firstNode_behind member]
    rw [joined.2]
    exact inr_ne_of_mem last_here (fresh list)
  · rfl

theorem insert_kept (kept : Kept memory lists) (fresh : ∀ other, item ∉ lists other)
    {idx : Int} (inside : idx < (lists list).length) (positive : 0 < idx)
    (small : idx ≤ 2147483648) :
    ∃ after, opalListInsert memory list (.inr item) idx = some (true, after) ∧
      Kept after
        (update lists list
          ((lists list).take idx.toNat ++ (item :: (lists list).drop idx.toNat))) := by
  obtain ⟨index, rfl⟩ := Int.eq_ofNat_of_zero_le (Int.le_of_lt positive)
  have split := (take_append_drop index (lists list)).symm
  have walked := kept.walk split
  have last_here : lastNode list ((lists list).take index) ∈ front list (lists list) :=
    front_subset (take_subset ..) (lastNode_mem ..)
  have turns : ((index : Int) - 1).toNat + 1 = index := by omega
  have reached : memory.links.next^[((index : Int) - 1).toNat] (memory.links.next (.inl list)) =
      lastNode list ((lists list).take index) := by
    rw [← iterate_succ_apply, Nat.succ_eq_add_one, turns, ← walked, length_take_of_le (by omega)]
  rw [opalListInsert, if_neg (by rw [kept.length]; omega), if_neg (by omega),
    if_neg (by rw [intMax]; omega), reached]
  refine ⟨_, rfl, ?_⟩
  apply kept.add split fresh
  · rw [← (kept.rep.joined split).1, graft_single (inr_ne_of_mem last_here (fresh list))]
    rfl
  · rfl

theorem Kept.take_out (kept : Kept memory lists) (split : lists list = before ++ (moved ++ after))
    (links : removed.links = memory.links.connect (lastNode list before) (firstNode list after))
    (length : removed.length = update memory.length list (memory.length list - moved.length)) :
    Kept removed (update lists list (before ++ after)) where
  rep := by
    rw [links]
    exact (kept.rep.unlink split).1
  length := by
    intro other
    have shorter : memory.length list - moved.length = (before ++ after).length := by
      rw [kept.length, split]
      simp only [length_append]
      omega
    rw [length, shorter]
    exact kept.update_length

structure Neighbours (memory : Memory Name Item) (item left right : Name ⊕ Item) : Prop where
  prev : memory.links.prev item = left
  next : memory.links.next item = right
  left_apart : left ≠ item
  right_apart : right ≠ item

omit [DecidableEq Name] [DecidableEq Item] in
theorem Kept.neighbours (kept : Kept memory lists)
    (split : lists list = before ++ ([item] ++ after)) :
    Neighbours memory (.inr item) (lastNode list before) (firstNode list after) := by
  have nodup := kept.rep.separate.nodup list
  have joined_left := kept.rep.joined split
  rw [split] at nodup
  obtain ⟨-, rest_nodup, apart⟩ := List.nodup_append.mp nodup
  rw [← append_assoc] at split
  have joined_right := kept.rep.joined split
  have last_item : lastNode list (before ++ [item]) = .inr item := by simp [lastNode]
  rw [last_item] at joined_right
  refine ⟨joined_left.2, joined_right.1, ?_, ?_⟩
  · apply inr_ne_of_mem (lastNode_mem list before)
    exact fun member => apart item member item (by simp) rfl
  · apply inr_ne_of_mem (firstNode_mem_front list after)
    exact (List.nodup_cons.mp rest_nodup).1

theorem removeItem_eq {item : Name ⊕ Item} (around : Neighbours memory item left right) :
    opalListRemoveItem memory list item =
      (left, ⟨memory.links.connect left right, update memory.length list
        (memory.length list - 1)⟩) := by
  obtain ⟨prev, next, left_apart, right_apart⟩ := around
  simp [opalListRemoveItem, Memory.setNext, Memory.setPrev, Memory.setLength, Links.connect,
    prev, next, update_of_ne (Ne.symm left_apart), update_of_ne (Ne.symm right_apart)]

theorem behind_eq_cons (list : Name) (member : item ∈ items) :
    ∃ after, behind (.inr item : Name ⊕ Item) items = item :: after := by
  have first :=
    firstNode_behind (inr_mem_front.mpr member : (.inr item : Name ⊕ Item) ∈ front list items)
  cases found : behind (.inr item : Name ⊕ Item) items with
  | nil =>
    rw [found] at first
    cases first
  | cons other after =>
    rw [found] at first
    cases first
    exact ⟨after, rfl⟩

theorem notMem_ahead : item ∉ ahead (.inr item : Name ⊕ Item) items := by
  intro member
  have different := mem_takeWhile_imp member
  simp at different

theorem removeItem_kept (kept : Kept memory lists) (member : item ∈ lists list) :
    (opalListRemoveItem memory list (.inr item)).1 = lastNode list
      (ahead (.inr item : Name ⊕ Item) (lists list)) ∧
      Kept (opalListRemoveItem memory list (.inr item)).2
        (update lists list ((lists list).erase item)) := by
  obtain ⟨after, from_item⟩ := behind_eq_cons list member
  have split : lists list = ahead (.inr item : Name ⊕ Item) (lists list) ++ ([item] ++ after) := by
    rw [singleton_append, ← from_item, ahead_append_behind]
  have erased :
      (lists list).erase item = ahead (.inr item : Name ⊕ Item) (lists list) ++ after := by
    conv_lhs => rw [split]
    rw [erase_append_right _ notMem_ahead, singleton_append, erase_cons_head]
  rw [removeItem_eq (kept.neighbours split), erased]
  exact ⟨rfl, kept.take_out split rfl rfl⟩

theorem removeFirst_eq (some_item : memory.length list ≠ 0) {item : Name ⊕ Item}
    (first : memory.links.next (.inl list) = item)
    (around : Neighbours memory item (.inl list) right) :
    opalListRemoveFirst memory list =
      (some item, ⟨memory.links.connect (.inl list) right,
        update memory.length list (memory.length list - 1)⟩) := by
  obtain ⟨prev, next, -, -⟩ := around
  simp [opalListRemoveFirst, some_item, Memory.setNext, Memory.setPrev, Memory.setLength,
    Links.connect, first, prev, next]

theorem removeLast_eq (some_item : memory.length list ≠ 0) {item : Name ⊕ Item}
    (last : memory.links.prev (.inl list) = item)
    (around : Neighbours memory item left (.inl list)) :
    opalListRemoveLast memory list =
      (some item, ⟨memory.links.connect left (.inl list),
        update memory.length list (memory.length list - 1)⟩) := by
  obtain ⟨prev, next, -, -⟩ := around
  simp [opalListRemoveLast, some_item, Memory.setNext, Memory.setPrev, Memory.setLength,
    Links.connect, last, prev, next]

omit [DecidableEq Item] in
theorem Kept.unchanged (kept : Kept memory lists) (empty : lists list = []) :
    memory.length list = 0 ∧ Kept memory (update lists list []) := by
  constructor
  · rw [kept.length, empty]
    rfl
  · rwa [← empty, update_eq_self]

theorem removeFirst_kept (kept : Kept memory lists) :
    (opalListRemoveFirst memory list).1 = (lists list).head?.map .inr ∧
      Kept (opalListRemoveFirst memory list).2 (update lists list (lists list).tail) := by
  cases items : lists list with
  | nil =>
    rw [opalListRemoveFirst, if_pos (kept.unchanged items).1]
    exact ⟨rfl, (kept.unchanged items).2⟩
  | cons item rest =>
    have some_item : memory.length list ≠ 0 := by
      rw [kept.length, items]
      exact Nat.succ_ne_zero _
    have split : lists list = [] ++ ([item] ++ rest) := items
    have first : memory.links.next (.inl list) = .inr item := (kept.rep.joined split).1
    rw [removeFirst_eq some_item first (kept.neighbours split)]
    exact ⟨rfl, kept.take_out split rfl rfl⟩

theorem removeLast_kept (kept : Kept memory lists) :
    (opalListRemoveLast memory list).1 = (lists list).getLast?.map .inr ∧
      Kept (opalListRemoveLast memory list).2 (update lists list (lists list).dropLast) := by
  rcases eq_nil_or_concat' (lists list) with items | ⟨rest, item, items⟩
  · rw [opalListRemoveLast, if_pos (kept.unchanged items).1, items]
    exact ⟨rfl, (kept.unchanged items).2⟩
  · have some_item : memory.length list ≠ 0 := by
      rw [kept.length, items]
      simp
    have last : memory.links.prev (.inl list) = .inr item := by
      have joined := (kept.rep.joined (append_nil (lists list)).symm).2
      rw [items] at joined
      simpa [lastNode, firstNode] using joined
    have split : lists list = rest ++ ([item] ++ []) := by rw [items, append_nil]
    rw [removeLast_eq some_item last (kept.neighbours split), items, dropLast_concat,
      getLast?_concat]
    have shorter : rest ++ [] = rest := append_nil rest
    refine ⟨rfl, ?_⟩
    rw [← shorter]
    exact kept.take_out split (by rw [shorter]; rfl) rfl

theorem links_transfer (moves : pos ≠ last) (pos_apart : pos ≠ first)
    (final_apart : final ≠ left ∧ final ≠ before) (prev_last : memory.links.prev last = final)
    (prev_first : memory.links.prev first = left) (prev_pos : memory.links.prev pos = before) :
    (opalListTransfer memory pos first last).links = (memory.links.connect left last).graft before
      first final pos := by
  have next : update (update (update memory.links.next final pos) left last) before first =
      update (update (update memory.links.next left last) before first) final pos := by
    rw [update_comm final_apart.1, update_comm final_apart.2]
  have prev : update (update (update memory.links.prev pos final) last left) first before =
      update (update (update memory.links.prev last left) first before) pos final := by
    rw [update_comm moves, update_comm pos_apart]
  simp [opalListTransfer, if_pos moves, Memory.setNext, Memory.setPrev, prev_last, prev_first,
    prev_pos, update_of_ne (Ne.symm pos_apart), next, prev, Links.graft, Links.connect]

theorem ahead_firstNode (nodup : (before ++ after).Nodup) :
    ahead (firstNode list after) (before ++ after) = before ∧
      behind (firstNode list after) (before ++ after) = after := by
  obtain ⟨-, -, apart⟩ := List.nodup_append.mp nodup
  have passed :
      ∀ item ∈ before, (decide ((.inr item : Name ⊕ Item) ≠ firstNode list after)) = true := by
    intro item member
    apply decide_eq_true
    apply Ne.symm
    apply inr_ne_of_mem (firstNode_mem_front list after)
    exact fun elsewhere => apart item member item elsewhere rfl
  rw [ahead, behind, takeWhile_append_of_pos passed, dropWhile_append_of_pos passed]
  cases after with
  | nil => simp
  | cons => simp [firstNode]

/-- The part from the first item of `moved` up to the node behind it is moved before a position
outside of it. -/
theorem transfer_kept (rep : Represents memory.links lists)
    (split : lists xlist = before ++ (moved ++ after))
    (initial : moved.head? = some first) (pos_here : pos ∈ front thislist (lists thislist))
    (pos_outside : pos ∉ moved.map .inr) :
    Represents (opalListTransfer memory pos (.inr first) (firstNode xlist after)).links
      (placed (update lists xlist (before ++ after)) thislist pos moved) := by
  have nodup := rep.separate.nodup xlist
  rw [split] at nodup
  obtain ⟨-, rest_nodup, apart⟩ := List.nodup_append.mp nodup
  obtain ⟨moved_nodup, -, rest_apart⟩ := List.nodup_append.mp rest_nodup
  by_cases stays : pos = firstNode xlist after
  · -- The part is in front of the position already; nothing is done, and nothing has to be.
    have same : thislist = xlist := by
      by_contra different
      apply rep.separate.notMem_other different _ pos_here
      rw [stays, split]
      exact front_subset (List.Subset.trans (subset_append_right ..) (subset_append_right ..))
        (firstNode_mem_front ..)
    have kept_nodup : (before ++ after).Nodup :=
      nodup.sublist ((List.Sublist.refl _).append (sublist_append_right ..))
    rw [opalListTransfer, if_neg (not_not.mpr stays), same, placed, update_self, stays,
      (ahead_firstNode kept_nodup).1, (ahead_firstNode kept_nodup).2, update_idem, ← split,
      update_eq_self]
    exact rep
  · obtain ⟨unlinked, path⟩ := rep.unlink split
    obtain ⟨last, final⟩ : ∃ last, moved.getLast? = some last := by
      cases moved with
      | nil => cases initial
      | cons => exact ⟨_, getLast?_cons⟩
    have absent : ∀ item ∈ moved, item ∉ before ++ after := by
      intro item member elsewhere
      rcases List.mem_append.mp elsewhere with in_before | in_after
      · exact apart item in_before item (mem_append_left _ member) rfl
      · exact rest_apart item member item in_after rfl
    have fresh : ∀ item ∈ moved, ∀ other, item ∉ update lists xlist (before ++ after) other := by
      intro item member other
      by_cases here : other = xlist
      · rw [here, update_self]
        exact absent item member
      · rw [update_of_ne here]
        intro elsewhere
        apply here
        apply rep.separate.apart elsewhere
        rw [split]
        simp [member]
    have pos_there : pos ∈ front thislist (update lists xlist (before ++ after) thislist) := by
      by_cases here : thislist = xlist
      · rw [here, split, front_append, map_append, mem_append, mem_append] at pos_here
        rw [here, update_self, front_append, mem_append]
        exact pos_here.imp_right fun member => member.resolve_left pos_outside
      · rwa [update_of_ne here]
    have located := (ahead_append_behind pos (update lists xlist (before ++ after) thislist)).symm
    have inserted := unlinked.insert located moved_nodup fresh path initial final
    have joined := unlinked.joined located
    rw [firstNode_behind pos_there] at inserted joined
    rw [links_transfer stays]
    · exact inserted
    · rintro rfl
      exact pos_outside (mem_map_of_mem (mem_of_head? initial))
    · constructor
      · exact (inr_ne_of_mem (lastNode_mem xlist before) fun member =>
          absent last (mem_of_getLast? final) (mem_append_left _ member)).symm
      · exact (inr_ne_of_mem (front_subset (takeWhile_subset _) (lastNode_mem ..))
          (fresh last (mem_of_getLast? final) thislist)).symm
    · have behind_moved : lists xlist = (before ++ moved) ++ after := by rw [split, append_assoc]
      rw [(rep.joined behind_moved).2, lastNode, getLast?_append, final]
      rfl
    · have first_moved : firstNode xlist (moved ++ after) = .inr first := by
        rw [firstNode, head?_append, initial]
        rfl
      rw [← first_moved, (rep.joined split).2]
    · rw [← joined.2]
      exact (update_of_ne stays ..).symm

theorem length_transfer {last : Name ⊕ Item} :
    (opalListTransfer memory pos first last).length = memory.length := by
  rw [opalListTransfer]
  split <;> rfl

theorem placed_nil : placed lists list pos [] = lists := by
  rw [placed, nil_append, ahead_append_behind, update_eq_self]

theorem length_placed :
    (placed lists list pos items other).length = (lists other).length + if other = list then
      items.length else 0 := by
  rw [placed]
  by_cases here : other = list
  · have whole := congrArg List.length (ahead_append_behind pos (lists list))
    rw [length_append] at whole
    rw [here, update_self, if_pos rfl, length_append, length_append]
    omega
  · rw [update_of_ne here, if_neg here, Nat.add_zero]

theorem join_kept (kept : Kept memory lists)
    (pos_here : pos ∈ front thislist (lists thislist)) (pos_outside : pos ∉ (lists xlist).map .inr)
    (different : thislist = xlist → lists xlist = []) :
    Kept (opalListJoin memory thislist pos xlist)
      (placed (update lists xlist []) thislist pos (lists xlist)) := by
  cases items : lists xlist with
  | nil =>
    rw [opalListJoin, if_neg (not_not.mpr (kept.unchanged items).1), placed_nil]
    exact (kept.unchanged items).2
  | cons first rest =>
    have split : lists xlist = [] ++ (lists xlist ++ []) := by rw [nil_append, append_nil]
    have from_first : lists xlist = [] ++ (first :: rest) := items
    have initial : memory.links.next (.inl xlist) = .inr first := (kept.rep.joined from_first).1
    have some_item : memory.length xlist ≠ 0 := by
      rw [kept.length, items]
      exact Nat.succ_ne_zero _
    have apart : thislist ≠ xlist := by
      intro same
      rw [different same] at items
      cases items
    have moved := transfer_kept kept.rep split (by rw [items]; rfl) pos_here pos_outside
    rw [← items]
    constructor
    · rw [opalListJoin, if_pos some_item, initial]
      exact moved
    · have counted : (opalListJoin memory thislist pos xlist).length = update
          (update memory.length thislist (memory.length thislist + memory.length xlist))
            xlist 0 := by
        rw [opalListJoin, if_pos some_item]
        simp [Memory.setLength, length_transfer]
      intro other
      rw [counted, length_placed]
      by_cases at_x : other = xlist
      · rw [at_x, update_self, update_self, if_neg (Ne.symm apart)]
        rfl
      · rw [update_of_ne at_x, update_of_ne at_x]
        by_cases at_this : other = thislist
        · rw [at_this, update_self, if_pos rfl, kept.length, kept.length]
        · rw [update_of_ne at_this, if_neg at_this, kept.length, Nat.add_zero]

omit [DecidableEq Name] [DecidableEq Item] in
theorem Kept.ne_firstNode (kept : Kept memory lists)
    (split : lists xlist = before ++ (item :: rest ++ after)) :
    (.inr item : Name ⊕ Item) ≠ firstNode xlist after := by
  have nodup := kept.rep.separate.nodup xlist
  rw [split] at nodup
  have absent := (List.nodup_cons.mp (List.nodup_append.mp nodup).2.1).1
  exact (inr_ne_of_mem (firstNode_mem_front xlist after) fun member =>
    absent (mem_append_right _ member)).symm

theorem countTo_range (kept : Kept memory lists)
    (split : lists xlist = before ++ (moved ++ after)) (enough : moved.length ≤ turns) :
    countTo memory (firstNode xlist after) turns (firstNode xlist (moved ++ after)) =
      some moved.length := by
  induction moved generalizing before turns with
  | nil => cases turns <;> simp [countTo]
  | cons item rest ih =>
    cases turns with
    | zero => exact absurd enough (Nat.not_succ_le_zero _)
    | succ =>
      have shifted : lists xlist = (before ++ [item]) ++ (rest ++ after) := by rw [split]; simp
      have around :
          Neighbours memory (.inr item) (lastNode xlist before) (firstNode xlist (rest ++ after)) :=
        kept.neighbours split
      have first : firstNode xlist (item :: rest ++ after) = .inr item := rfl
      rw [first, countTo, if_neg (kept.ne_firstNode split), around.next,
        ih shifted (Nat.le_of_succ_le_succ enough)]
      rfl

theorem splice_kept (kept : Kept memory lists) (pos_here : pos ∈ front thislist (lists thislist))
    (first_here : first ∈ front xlist (lists xlist))
    (last_here : last ∈ front xlist (behind first (lists xlist)))
    (pos_outside : pos ∉ (rangeOf first last (lists xlist)).map .inr) :
    ∃ after, opalListSplice memory thislist pos xlist first last = some after ∧
      Kept after
        (placed (update lists xlist
          (ahead first (lists xlist) ++ behind last (behind first (lists xlist))))
        thislist pos (rangeOf first last (lists xlist))) := by
  have split : lists xlist =
      ahead first (lists xlist) ++ (rangeOf first last (lists xlist) ++ behind last
        (behind first (lists xlist))) := by
    rw [rangeOf, ahead_append_behind, ahead_append_behind]
  have final := firstNode_behind last_here
  have start : firstNode xlist (rangeOf first last (lists xlist) ++ behind last
      (behind first (lists xlist))) = first := by
    rw [rangeOf, ahead_append_behind, firstNode_behind first_here]
  generalize behind last (behind first (lists xlist)) = after at *
  cases moved : rangeOf first last (lists xlist) with
  | nil =>
    rw [moved] at split start
    have same : first = last := start.symm.trans final
    refine ⟨memory, if_neg (not_not.mpr same), ?_⟩
    rw [placed_nil, ← nil_append after, ← split, update_eq_self]
    exact kept
  | cons item rest =>
    rw [moved] at split start pos_outside
    have count_fits : (item :: rest).length ≤ memory.length xlist := by
      rw [kept.length, split, length_append, length_append]
      omega
    have counted := countTo_range kept split count_fits
    have represents := transfer_kept kept.rep split rfl pos_here pos_outside
    subst final start
    have moves : firstNode xlist (item :: rest ++ after) ≠ firstNode xlist after :=
      kept.ne_firstNode split
    rw [opalListSplice, if_pos moves, counted]
    refine ⟨_, rfl, represents, ?_⟩
    intro other
    have shorter := congrArg List.length split
    have total := kept.length xlist
    rw [length_append, length_append] at shorter
    rw [length_placed]
    simp only [Memory.setLength, length_transfer]
    by_cases at_x : other = xlist
    · rw [at_x, update_self, update_self, length_append]
      by_cases same : xlist = thislist
      · rw [← same, update_self, if_pos rfl]
        omega
      · rw [update_of_ne same, if_neg same]
        omega
    · rw [update_of_ne at_x, update_of_ne at_x]
      by_cases at_this : other = thislist
      · rw [at_this, update_self, if_pos rfl, kept.length]
      · rw [update_of_ne at_this, if_neg at_this, kept.length, Nat.add_zero]

theorem removeAll_kept (kept : Kept memory lists) (enough : turns = (lists list).length) :
    (removeAll list turns memory).1 = (lists list).map .inr ∧
      Kept (removeAll list turns memory).2 (update lists list []) := by
  induction turns generalizing memory lists with
  | zero =>
    have empty := List.length_eq_zero_iff.mp enough.symm
    rw [removeAll, empty]
    exact ⟨rfl, (kept.unchanged empty).2⟩
  | succ turns ih =>
    obtain ⟨first, removed⟩ := removeFirst_kept kept
    cases items : lists list with
    | nil =>
      rw [items] at enough
      cases enough
    | cons =>
      rw [items] at enough first removed
      have further := ih removed (by rw [update_self]; exact Nat.succ.inj enough)
      rw [update_self, update_idem] at further
      cases done : opalListRemoveFirst memory list with
      | mk =>
        rw [done] at first further
        rw [removeAll, done]
        cases first
        exact ⟨congrArg (_ :: ·) further.1, further.2⟩

theorem appendAll_kept (kept : Kept memory lists) (list : Name) (nodup : items.Nodup)
    (fresh : ∀ item ∈ items, ∀ other, item ∉ lists other) :
    Kept ((items.map .inr).foldl (fun memory item => opalListAppend memory list item) memory)
      (update lists list (lists list ++ items)) := by
  induction items generalizing memory lists with
  | nil =>
    rw [append_nil, update_eq_self]
    exact kept
  | cons item rest ih =>
    have appended :
        Kept (opalListAppend memory list (.inr item)) (update lists list (lists list ++ [item])) :=
      append_kept kept (fresh item mem_cons_self)
    have rest_fresh :
        ∀ next ∈ rest, ∀ other, next ∉ update lists list (lists list ++ [item]) other := by
      intro next member other
      have new := fresh next (mem_cons_of_mem item member)
      by_cases here : other = list
      · rw [here, update_self, mem_append, mem_singleton, not_or]
        refine ⟨new list, ?_⟩
        rintro rfl
        exact (List.nodup_cons.mp nodup).1 member
      · rw [update_of_ne here]
        exact new other
    have further := ih appended (List.nodup_cons.mp nodup).2 rest_fresh
    rw [update_self, update_idem, append_assoc, singleton_append] at further
    exact further

omit [DecidableEq Name] [DecidableEq Item] in
theorem map_filterMap_getRight {nodes : List (Name ⊕ Item)}
    (items : ∀ node ∈ nodes, ∃ item, node = .inr item) :
    (nodes.filterMap Sum.getRight?).map .inr = nodes := by
  induction nodes with
  | nil => rfl
  | cons node rest ih =>
    obtain ⟨item, rfl⟩ := items node mem_cons_self
    have further := ih fun other member => items other (mem_cons_of_mem _ member)
    exact congrArg (_ :: ·) further

section Sorting

variable (sorter : Sorter Name Item) (compare : Name ⊕ Item → Name ⊕ Item → Int)

omit [DecidableEq Name] [DecidableEq Item] in
theorem sortItems_perm (items : List Item) : (sortItems sorter compare items).Perm items := by
  have permuted := (sorter.perm compare (items.map .inr)).filterMap Sum.getRight?
  rw [filterMap_map] at permuted
  have same : items.filterMap (Sum.getRight? ∘ (.inr : Item → Name ⊕ Item)) = items :=
    filterMap_some
  rwa [same] at permuted

omit [DecidableEq Name] [DecidableEq Item] in
theorem map_sortItems (items : List Item) :
    (sortItems sorter compare items).map .inr = sorter.sort compare (items.map .inr) := by
  apply map_filterMap_getRight
  intro node member
  obtain ⟨item, -, same⟩ :=
    List.mem_map.mp ((sorter.perm compare (items.map .inr)).mem_iff.mp member)
  exact ⟨item, same.symm⟩

theorem sort_kept (kept : Kept memory lists) (list : Name) :
    Kept (opalListSort sorter memory list compare)
      (update lists list (sortItems sorter compare (lists list))) := by
  have permuted := sortItems_perm sorter compare (lists list)
  rw [opalListSort]
  split
  · rename_i empty
    rw [kept.length, length_eq_zero_iff] at empty
    rw [empty] at permuted ⊢
    rw [permuted.eq_nil]
    exact (kept.unchanged empty).2
  · obtain ⟨items, removed⟩ := removeAll_kept kept (kept.length list)
    have fresh : ∀ item ∈ sortItems sorter compare (lists list), ∀ other,
        item ∉ update lists list [] other := by
      intro item member other
      by_cases here : other = list
      · rw [here, update_self]
        exact not_mem_nil
      · rw [update_of_ne here]
        exact fun elsewhere => here (kept.rep.separate.apart elsewhere (permuted.mem_iff.mp member))
    have appended :=
      appendAll_kept removed list (permuted.nodup_iff.mpr (kept.rep.separate.nodup list)) fresh
    rw [update_self, update_idem, nil_append, map_sortItems, ← items] at appended
    exact appended

end Sorting

section Runs

variable {sorter : Sorter Name Item}

theorem perform_kept (kept : Kept memory lists) {call : Call Name Item} (valid : Valid lists call)
    (meets : Meets lists call) :
    ∃ after, perform sorter memory call = some ((operate sorter lists call).1, after) ∧
      Kept after (operate sorter lists call).2 := by
  cases call with
  | append => exact ⟨_, rfl, append_kept kept valid⟩
  | prepend => exact ⟨_, rfl, prepend_kept kept valid⟩
  | insertPos => exact ⟨_, rfl, insertPos_kept kept valid.1 valid.2⟩
  | insert list item idx =>
    by_cases inside : idx < (lists list).length
    · obtain ⟨positive, small⟩ := meets inside
      obtain ⟨after, done, added⟩ := insert_kept kept valid inside positive small
      rw [perform, done, operate, if_pos ⟨Int.le_of_lt positive, inside⟩]
      exact ⟨after, rfl, added⟩
    · rw [perform, opalListInsert, if_pos (by rw [kept.length]; omega), operate, if_neg fun fits =>
        inside fits.2]
      exact ⟨memory, rfl, kept⟩
  | removeItem =>
    obtain ⟨answer, removed⟩ := removeItem_kept kept valid
    refine ⟨_, ?_, removed⟩
    rw [perform, operate, answer]
  | removeFirst list =>
    obtain ⟨answer, removed⟩ := removeFirst_kept kept
    refine ⟨_, ?_, removed⟩
    rw [perform, operate, answer]
  | removeLast list =>
    obtain ⟨answer, removed⟩ := removeLast_kept kept
    refine ⟨_, ?_, removed⟩
    rw [perform, operate, answer]
  | join => exact ⟨_, rfl, join_kept kept valid.1 valid.2 meets⟩
  | splice =>
    obtain ⟨pos_here, first_here, last_here, pos_outside⟩ := valid
    obtain ⟨after, done, moved⟩ := splice_kept kept pos_here first_here last_here pos_outside
    refine ⟨after, ?_, moved⟩
    rw [perform, done]
    rfl
  | sort list compare => exact ⟨_, rfl, sort_kept sorter compare kept list⟩

/-- An item that is inserted at the front by its index is counted twice, one inserted at a negative
index is accepted, and a list that is joined to itself is left with the length zero. -/
theorem perform_wrong (kept : Kept memory lists) (fails : ¬ Meets lists call)
    {after : Memory Name Item}
    (performed : perform sorter memory call = some ((operate sorter lists call).1, after)) :
    ¬ Describes after (operate sorter lists call).2 := by
  intro describes
  cases call with
  | insert list item idx =>
    rw [Meets, Classical.not_imp] at fails
    obtain ⟨inside, outside⟩ := fails
    have accepted : ¬ (memory.length list : Int) ≤ idx := by
      rw [kept.length]
      omega
    rw [perform, opalListInsert, if_neg accepted] at performed
    rcases Int.lt_trichotomy idx 0 with negative | zero | positive
    · rw [if_neg (by omega), if_neg (by rw [intMax]; omega), operate,
        if_neg (by omega)] at performed
      cases performed
    · rw [if_pos zero, Option.map_some, Option.some_inj] at performed
      cases congrArg Prod.snd performed
      have counted := describes.length list
      rw [operate, if_pos ⟨by omega, inside⟩] at counted
      simp [opalListPrepend, Memory.setLength, Memory.setNext, Memory.setPrev, kept.length,
        zero] at counted
    · rw [if_neg (by omega), if_pos (by rw [intMax]; omega)] at performed
      cases performed
  | join thislist pos xlist =>
    rw [Meets, Classical.not_imp] at fails
    obtain ⟨same, some_item⟩ := fails
    have nonempty : memory.length xlist ≠ 0 := by
      rw [kept.length]
      exact fun empty => some_item (List.length_eq_zero_iff.mp empty)
    have counted := describes.length xlist
    rw [perform] at performed
    cases performed
    rw [operate, length_placed, if_pos same.symm, update_self, ← kept.length, opalListJoin,
      if_pos nonempty] at counted
    simp only [Memory.setLength, update_self] at counted
    exact nonempty (by simpa using counted.symm)
  | _ => exact fails trivial

theorem run_iff (kept : Kept memory lists) (valid : AllValid sorter lists calls) :
    AllDescribed sorter memory lists calls ↔ AllMeet sorter lists calls := by
  induction calls generalizing memory lists with
  | nil => exact Iff.rfl
  | cons call calls ih =>
    rw [AllDescribed, AllMeet]
    by_cases meets : Meets lists call
    · obtain ⟨after, performed, still⟩ := perform_kept kept valid.1 meets
      rw [performed]
      constructor
      · rintro ⟨_, same, -, rest⟩
        cases same
        exact ⟨meets, (ih still valid.2).mp rest⟩
      · rintro ⟨-, rest⟩
        exact ⟨after, rfl, still.describes, (ih still valid.2).mpr rest⟩
    · apply iff_of_false
      · rintro ⟨after, performed, describes, -⟩
        exact perform_wrong kept meets performed describes
      · exact fun all => meets all.1

end Runs

/-- Lists that have just been constructed. The links of items that are on no list are not looked
at. -/
def Constructed (memory : Memory Name Item) : Prop :=
  ∀ list, memory.links.next (.inl list) = .inl list ∧ memory.links.prev (.inl list) = .inl list ∧
    memory.length list = 0

omit [DecidableEq Name] [DecidableEq Item] in
theorem constructed_kept (constructed : Constructed memory) : Kept memory fun _ => [] where
  rep := by
    refine ⟨fun list => ?_, fun _ => nodup_nil, fun member => absurd member not_mem_nil⟩
    exact List.isChain_cons_cons.mpr ⟨⟨(constructed list).1, (constructed list).2.1⟩,
      isChain_singleton _⟩
  length := fun list => (constructed list).2.2

theorem lists_described_iff (sorter : Sorter Name Item) (constructed : Constructed memory)
    (calls : List (Call Name Item)) (valid : AllValid sorter (fun _ => []) calls) :
    AllDescribed sorter memory (fun _ => []) calls ↔ AllMeet sorter (fun _ => []) calls :=
  run_iff (constructed_kept constructed) valid

def mergeSorter : Sorter Name Item where
  sort compare items := items.mergeSort fun first second => compare first second ≤ 0
  perm compare items := List.mergeSort_perm items _
  sorted compare total trans items := by
    have ordered :=
      @List.pairwise_mergeSort _ (fun first second => decide (compare first second ≤ 0))
      (fun first second third => by simpa using trans first second third)
      (fun first second => by simpa using total first second) items
    simpa using ordered

def oneList : Memory Unit Nat := ⟨⟨id, id⟩, fun _ => 0⟩

theorem one_list_described :
    AllDescribed mergeSorter oneList (fun _ => []) [.append () 7, .prepend () 8, .insert () 9 1,
      .removeFirst ()] := by
  apply (lists_described_iff mergeSorter (fun _ => ⟨rfl, rfl, rfl⟩) _ _).mpr
  · simp [AllMeet, Meets, operate]
  · simp [AllValid, Valid, operate]

/-- After an item has been appended, another one is inserted at index zero: the length is three. -/
theorem length_of_list_wrong :
    ¬ AllDescribed mergeSorter oneList (fun _ => []) [.append () 7, .insert () 8 0] := by
  rw [run_iff (constructed_kept fun _ => ⟨rfl, rfl, rfl⟩)]
  · simp [AllMeet, Meets, operate]
  · simp [AllValid, Valid, operate]

end Orcm.OpalList
