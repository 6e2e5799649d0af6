import Mathlib.Data.List.Basic
import Orcm.CLibrary
import Orcm.LinkedLists

/-!
`opal_list_t` of `opal/class/opal_list.c` and `opal/class/opal_list.h`. What a debugging build keeps
in the items is left out, and so is the failure of an allocation. A call without a result has
undefined behaviour or goes on for ever. The length counts objects in memory, so it does not
overflow.
-/

namespace Orcm.OpalList

open CLibrary LinkedLists

variable {Name Item : Type}

structure Memory (Name Item : Type) where
  links : Links (Name ⊕ Item)
  length : Name → Nat

section Operations

variable [DecidableEq Name] [DecidableEq Item] (memory : Memory Name Item)

def Memory.setNext (node next : Name ⊕ Item) : Memory Name Item :=
  { memory with links := { memory.links with next := Function.update memory.links.next node next } }

def Memory.setPrev (node prev : Name ⊕ Item) : Memory Name Item :=
  { memory with links := { memory.links with prev := Function.update memory.links.prev node prev } }

def Memory.setLength (list : Name) (length : Nat) : Memory Name Item :=
  { memory with length := Function.update memory.length list length }

def opalListAppend (list : Name) (item : Name ⊕ Item) : Memory Name Item :=
  let sentinel := .inl list
  let memory := memory.setPrev item (memory.links.prev sentinel)
  let memory := memory.setNext (memory.links.prev sentinel) item
  let memory := memory.setNext item sentinel
  let memory := memory.setPrev sentinel item
  memory.setLength list (memory.length list + 1)

def opalListPrepend (list : Name) (item : Name ⊕ Item) : Memory Name Item :=
  let sentinel := .inl list
  let memory := memory.setNext item (memory.links.next sentinel)
  let memory := memory.setPrev item sentinel
  let memory := memory.setPrev (memory.links.next sentinel) item
  let memory := memory.setNext sentinel item
  memory.setLength list (memory.length list + 1)

def opalListInsertPos (list : Name) (pos item : Name ⊕ Item) : Memory Name Item :=
  let memory := memory.setNext item pos
  let memory := memory.setPrev item (memory.links.prev pos)
  let memory := memory.setNext (memory.links.prev pos) item
  let memory := memory.setPrev pos item
  memory.setLength list (memory.length list + 1)

/-- At index zero the item is prepended, which counts it, and counted once more. -/
def opalListInsert (list : Name) (item : Name ⊕ Item) (idx : Int) :
    Option (Bool × Memory Name Item) :=
  if (memory.length list : Int) ≤ idx then some (false, memory)
  else if idx = 0 then
    let memory := opalListPrepend memory list item
    some (true, memory.setLength list (memory.length list + 1))
  -- The counter of the loop is an `int`.
  else if intMax < idx - 1 then none
  else
    let ptr := memory.links.next^[(idx - 1).toNat] (memory.links.next (.inl list))
    let next := memory.links.next ptr
    let memory := memory.setNext item next
    let memory := memory.setPrev item ptr
    let memory := memory.setPrev next item
    let memory := memory.setNext ptr item
    some (true, memory.setLength list (memory.length list + 1))

def opalListRemoveItem (list : Name) (item : Name ⊕ Item) : (Name ⊕ Item) × Memory Name Item :=
  let memory := memory.setNext (memory.links.prev item) (memory.links.next item)
  let memory := memory.setPrev (memory.links.next item) (memory.links.prev item)
  let memory := memory.setLength list (memory.length list - 1)
  (memory.links.prev item, memory)

def opalListRemoveFirst (list : Name) : Option (Name ⊕ Item) × Memory Name Item :=
  if memory.length list = 0 then (none, memory)
  else
    let memory := memory.setLength list (memory.length list - 1)
    let item := memory.links.next (.inl list)
    let memory := memory.setPrev (memory.links.next item) (memory.links.prev item)
    let memory := memory.setNext (.inl list) (memory.links.next item)
    (some item, memory)

def opalListRemoveLast (list : Name) : Option (Name ⊕ Item) × Memory Name Item :=
  if memory.length list = 0 then (none, memory)
  else
    let memory := memory.setLength list (memory.length list - 1)
    let item := memory.links.prev (.inl list)
    let memory := memory.setNext (memory.links.prev item) (memory.links.next item)
    let memory := memory.setPrev (.inl list) (memory.links.prev item)
    (some item, memory)

def opalListTransfer (pos first last : Name ⊕ Item) : Memory Name Item :=
  if pos ≠ last then
    let memory := memory.setNext (memory.links.prev last) pos
    let memory := memory.setNext (memory.links.prev first) last
    let memory := memory.setNext (memory.links.prev pos) first
    let tmp := memory.links.prev pos
    let memory := memory.setPrev pos (memory.links.prev last)
    let memory := memory.setPrev last (memory.links.prev first)
    memory.setPrev first tmp
  else memory

def opalListJoin (thislist : Name) (pos : Name ⊕ Item) (xlist : Name) : Memory Name Item :=
  if memory.length xlist ≠ 0 then
    let memory := opalListTransfer memory pos (memory.links.next (.inl xlist)) (.inl xlist)
    let memory := memory.setLength thislist (memory.length thislist + memory.length xlist)
    memory.setLength xlist 0
  else memory

/-- The turns of the loop from `tmp` to `last`. -/
def countTo (last : Name ⊕ Item) : Nat → Name ⊕ Item → Option Nat
  | 0, tmp => if tmp = last then some 0 else none
  | turns + 1, tmp =>
    if tmp = last then some 0 else (countTo last turns (memory.links.next tmp)).map (· + 1)

/-- The part of a list that is moved has no more items than the list. -/
def opalListSplice (thislist : Name) (pos : Name ⊕ Item) (xlist : Name) (first last : Name ⊕ Item) :
    Option (Memory Name Item) :=
  if first ≠ last then do
    let change ← countTo memory last (memory.length xlist) first
    let memory := opalListTransfer memory pos first last
    let memory := memory.setLength thislist (memory.length thislist + change)
    return memory.setLength xlist (memory.length xlist - change)
  else some memory

def removeAll (list : Name) : Nat → Memory Name Item → List (Name ⊕ Item) × Memory Name Item
  | 0, memory => ([], memory)
  | turns + 1, memory =>
    match opalListRemoveFirst memory list with
    | (none, memory) => ([], memory)
    | (some item, memory) =>
      (item :: (removeAll list turns memory).1, (removeAll list turns memory).2)

end Operations

/-- What `qsort` is relied on for: it permutes the array, and it sorts it if the comparison is a
total preorder. -/
structure Sorter (Name Item : Type) where
  sort : (Name ⊕ Item → Name ⊕ Item → Int) → List (Name ⊕ Item) → List (Name ⊕ Item)
  perm : ∀ compare items, (sort compare items).Perm items
  sorted : ∀ compare, (∀ first second, compare first second ≤ 0 ∨ compare second first ≤ 0) →
    (∀ first second third, compare first second ≤ 0 → compare second third ≤ 0 →
      compare first third ≤ 0) →
    ∀ items, (sort compare items).Pairwise fun first second => compare first second ≤ 0

section Calls

variable [DecidableEq Name] [DecidableEq Item]

def opalListSort (sorter : Sorter Name Item) (memory : Memory Name Item) (list : Name)
    (compare : Name ⊕ Item → Name ⊕ Item → Int) : Memory Name Item :=
  if memory.length list = 0 then memory
  else
    let removed := removeAll list (memory.length list) memory
    (sorter.sort compare removed.1).foldl (fun memory item => opalListAppend memory list item)
      removed.2

inductive Call (Name Item : Type) where
  | append (list : Name) (item : Item)
  | prepend (list : Name) (item : Item)
  | insertPos (list : Name) (pos : Name ⊕ Item) (item : Item)
  | insert (list : Name) (item : Item) (idx : Int)
  | removeItem (list : Name) (item : Item)
  | removeFirst (list : Name)
  | removeLast (list : Name)
  | join (thislist : Name) (pos : Name ⊕ Item) (xlist : Name)
  | splice (thislist : Name) (pos : Name ⊕ Item) (xlist : Name) (first last : Name ⊕ Item)
  | sort (list : Name) (compare : Name ⊕ Item → Name ⊕ Item → Int)

inductive Answer (Name Item : Type) where
  | nothing
  | node (node : Option (Name ⊕ Item))
  | inserted (inserted : Bool)
  deriving DecidableEq

def perform (sorter : Sorter Name Item) (memory : Memory Name Item) :
    Call Name Item → Option (Answer Name Item × Memory Name Item)
  | .append list item => some (.nothing, opalListAppend memory list (.inr item))
  | .prepend list item => some (.nothing, opalListPrepend memory list (.inr item))
  | .insertPos list pos item => some (.nothing, opalListInsertPos memory list pos (.inr item))
  | .insert list item idx =>
    (opalListInsert memory list (.inr item) idx).map fun done => (.inserted done.1, done.2)
  | .removeItem list item =>
    let done := opalListRemoveItem memory list (.inr item)
    some (.node (some done.1), done.2)
  | .removeFirst list =>
    some (.node (opalListRemoveFirst memory list).1, (opalListRemoveFirst memory list).2)
  | .removeLast list =>
    some (.node (opalListRemoveLast memory list).1, (opalListRemoveLast memory list).2)
  | .join thislist pos xlist => some (.nothing, opalListJoin memory thislist pos xlist)
  | .splice thislist pos xlist first last =>
    (opalListSplice memory thislist pos xlist first last).map fun memory => (.nothing, memory)
  | .sort list compare => some (.nothing, opalListSort sorter memory list compare)

def ahead (pos : Name ⊕ Item) (items : List Item) : List Item :=
  items.takeWhile fun item => .inr item ≠ pos

def behind (pos : Name ⊕ Item) (items : List Item) : List Item :=
  items.dropWhile fun item => .inr item ≠ pos

def placed (lists : Name → List Item) (list : Name) (pos : Name ⊕ Item) (items : List Item) :
    Name → List Item :=
  Function.update lists list (ahead pos (lists list) ++ (items ++ behind pos (lists list)))

def rangeOf (first last : Name ⊕ Item) (items : List Item) : List Item :=
  ahead last (behind first items)

def sortItems (sorter : Sorter Name Item) (compare : Name ⊕ Item → Name ⊕ Item → Int)
    (items : List Item) : List Item :=
  (sorter.sort compare (items.map .inr)).filterMap Sum.getRight?

/-- An index that is not in the list is refused. -/
def operate (sorter : Sorter Name Item) (lists : Name → List Item) :
    Call Name Item → Answer Name Item × (Name → List Item)
  | .append list item => (.nothing, Function.update lists list (lists list ++ [item]))
  | .prepend list item => (.nothing, Function.update lists list (item :: lists list))
  | .insertPos list pos item => (.nothing, placed lists list pos [item])
  | .insert list item idx =>
    if 0 ≤ idx ∧ idx < (lists list).length then
      (.inserted true, Function.update lists list
        ((lists list).take idx.toNat ++ (item :: (lists list).drop idx.toNat)))
    else (.inserted false, lists)
  | .removeItem list item =>
    (.node (some (lastNode list (ahead (.inr item : Name ⊕ Item) (lists list)))),
      Function.update lists list ((lists list).erase item))
  | .removeFirst list =>
    (.node ((lists list).head?.map .inr), Function.update lists list (lists list).tail)
  | .removeLast list =>
    (.node ((lists list).getLast?.map .inr), Function.update lists list (lists list).dropLast)
  | .join thislist pos xlist =>
    (.nothing, placed (Function.update lists xlist []) thislist pos (lists xlist))
  | .splice thislist pos xlist first last =>
    let rest := ahead first (lists xlist) ++ behind last (behind first (lists xlist))
    (.nothing, placed (Function.update lists xlist rest) thislist pos
      (rangeOf first last (lists xlist)))
  | .sort list compare =>
    (.nothing, Function.update lists list (sortItems sorter compare (lists list)))

/-- What the functions expect of their caller: an item that is added is on no list, an item that is
removed is on the list, positions are those of items or the ends of the lists, and items are not
moved into their own range. -/
def Valid (lists : Name → List Item) : Call Name Item → Prop
  | .append _ item | .prepend _ item | .insert _ item _ => ∀ other, item ∉ lists other
  | .insertPos list pos item => (∀ other, item ∉ lists other) ∧ pos ∈ front list (lists list)
  | .removeItem list item => item ∈ lists list
  | .removeFirst _ | .removeLast _ | .sort _ _ => True
  | .join thislist pos xlist => pos ∈ front thislist (lists thislist) ∧ pos ∉ (lists xlist).map .inr
  | .splice thislist pos xlist first last =>
    pos ∈ front thislist (lists thislist) ∧ first ∈ front xlist (lists xlist) ∧
      last ∈ front xlist (behind first (lists xlist)) ∧
        pos ∉ (rangeOf first last (lists xlist)).map .inr

def AllValid (sorter : Sorter Name Item) (lists : Name → List Item) : List (Call Name Item) → Prop
  | [] => True
  | call :: calls => Valid lists call ∧ AllValid sorter (operate sorter lists call).2 calls

/-- The links in both directions describe the sequences, and the lengths are theirs. -/
structure Describes (memory : Memory Name Item) (lists : Name → List Item) : Prop where
  ring : ∀ list, memory.links.Path (front list (lists list) ++ [.inl list])
  length : ∀ list, memory.length list = (lists list).length

/-- Every call answers as the operation on the sequences does and leaves lists that are described by
their links. -/
def AllDescribed (sorter : Sorter Name Item) (memory : Memory Name Item)
    (lists : Name → List Item) :
    List (Call Name Item) → Prop
  | [] => True
  | call :: calls =>
    ∃ after, perform sorter memory call = some ((operate sorter lists call).1, after) ∧
      Describes after (operate sorter lists call).2 ∧
        AllDescribed sorter after (operate sorter lists call).2 calls

/-- No item is inserted by index at the front or at a negative index, and no items of a list are
joined to it. -/
def Meets (lists : Name → List Item) : Call Name Item → Prop
  | .insert list _ idx => idx < (lists list).length → 0 < idx ∧ idx ≤ 2147483648
  | .join thislist _ xlist => thislist = xlist → lists xlist = []
  | _ => True

def AllMeet (sorter : Sorter Name Item) (lists : Name → List Item) : List (Call Name Item) → Prop
  | [] => True
  | call :: calls => Meets lists call ∧ AllMeet sorter (operate sorter lists call).2 calls

end Calls

end Orcm.OpalList
