import Mathlib.Data.List.Nodup
import Mathlib.Data.List.Perm.Basic
import Orcm.TransitionSystem

/-! `opal/class/opal_hotel.h` and `opal_hotel.c`: rooms that are left by check-out or when their
timer runs out. -/

namespace Orcm.OpalHotel

open TransitionSystem List

variable {Occupant : Type}

structure Room (Occupant : Type) where
  occupant : Option Occupant
  -- whether `eviction_timer_event` is pending
  timer : Bool

/-- `unoccupied_rooms` is the stack below `last_unoccupied_room`, its top first. -/
structure Hotel (Occupant : Type) where
  rooms : List (Room Occupant)
  unoccupied_rooms : List Nat

def opalHotelInit (num_rooms : Int) : Option (Hotel Occupant) :=
  if num_rooms ≤ 0 then none
  else some ⟨replicate num_rooms.toNat ⟨none, false⟩, (range num_rooms.toNat).reverse⟩

/-- It fails with `OPAL_ERR_TEMP_OUT_OF_RESOURCE`. -/
def opalHotelCheckin (occupant : Occupant) (hotel : Hotel Occupant) :
    Option (Nat × Hotel Occupant) :=
  match hotel.unoccupied_rooms with
  | [] => none
  | room_num :: rest => some (room_num, ⟨hotel.rooms.set room_num ⟨some occupant, true⟩, rest⟩)

def Hotel.occupant (hotel : Hotel Occupant) (room_num : Nat) : Option Occupant :=
  hotel.rooms[room_num]?.bind Room.occupant

def opalHotelCheckout (room_num : Nat) (hotel : Hotel Occupant) : Hotel Occupant :=
  if (hotel.occupant room_num).isSome then
    ⟨hotel.rooms.set room_num ⟨none, false⟩, room_num :: hotel.unoccupied_rooms⟩
  else hotel

/-- The occupants that got a room, and those checked out or given to the eviction callback. -/
structure State (Occupant : Type) where
  hotel : Hotel Occupant
  arrived : List Occupant
  left : List (Option Occupant)

inductive Event (Occupant : Type) where
  | checkin (occupant : Occupant)
  | checkout (room_num : Nat)
  | evict (room_num : Nat)

/-- The callback runs behind the check-out: what it calls is a later event. -/
def perform (state : State Occupant) : Event Occupant → Option (State Occupant)
  | .checkin occupant =>
    match opalHotelCheckin occupant state.hotel with
    | none => some state
    | some (_, hotel) => some ⟨hotel, occupant :: state.arrived, state.left⟩
  | .checkout room_num =>
    if room_num < state.hotel.rooms.length then
      some ⟨opalHotelCheckout room_num state.hotel, state.arrived,
        (state.hotel.occupant room_num).toList.map some ++ state.left⟩
    else none
  | .evict room_num =>
    if state.hotel.rooms[room_num]?.any Room.timer then
      some ⟨opalHotelCheckout room_num state.hotel, state.arrived,
        state.hotel.occupant room_num :: state.left⟩
    else none

def system (hotel : Hotel Occupant) : System (State Occupant) (Event Occupant) where
  initial state := state = ⟨hotel, [], []⟩
  step := perform

/-- A room is in the stack, once, if and only if it is unoccupied. Occupants have their timers, and
whoever arrived is there or has left, once. -/
structure Kept (num_rooms : Nat) (state : State Occupant) : Prop where
  size : state.hotel.rooms.length = num_rooms
  timers : ∀ room ∈ state.hotel.rooms, room.timer = room.occupant.isSome
  once : state.hotel.unoccupied_rooms.Nodup
  free : ∀ room_num, room_num ∈ state.hotel.unoccupied_rooms ↔
    room_num < num_rooms ∧ state.hotel.occupant room_num = none
  leaves : (state.arrived.map some).Perm
    ((state.hotel.rooms.filterMap Room.occupant).map some ++ state.left)

theorem init_kept (init : opalHotelInit num_rooms = some hotel) :
    Kept num_rooms.toNat (⟨hotel, [], []⟩ : State Occupant) := by
  obtain ⟨-, init⟩ := Option.ite_none_left_eq_some.mp init
  cases init
  refine ⟨length_replicate, fun room member => ?_, nodup_reverse.mpr nodup_range,
    fun room_num => ?_, ?_⟩
  · rw [eq_of_mem_replicate member]
    rfl
  · rw [mem_reverse, mem_range, Hotel.occupant, getElem?_replicate]
    split <;> simp [*]
  · simp

theorem set_occupants (rooms : List (Room Occupant)) (inside : room_num < rooms.length)
    (room : Room Occupant) :
    (room.occupant.toList ++ rooms.filterMap Room.occupant).Perm
      (rooms[room_num].occupant.toList ++ (rooms.set room_num room).filterMap Room.occupant) := by
  have before := (getElem_cons_eraseIdx_perm inside).symm.filterMap Room.occupant
  have after := (set_perm_cons_eraseIdx inside room).filterMap Room.occupant
  have split (first : Room Occupant) (rest : List (Room Occupant)) :
      (first :: rest).filterMap Room.occupant =
      first.occupant.toList ++ rest.filterMap Room.occupant := by
    rw [filterMap_cons]
    cases first.occupant <;> rfl
  rw [split] at before after
  exact (before.append_left _).trans ((perm_append_comm_assoc ..).trans (after.symm.append_left _))

theorem occupant_set {rooms : List (Room Occupant)} {room_num : Nat}
    (inside : room_num < rooms.length) (room : Room Occupant) (stack stack' : List Nat) :
    Hotel.occupant ⟨rooms.set room_num room, stack⟩ =
      Function.update (Hotel.occupant ⟨rooms, stack'⟩) room_num room.occupant := by
  funext other
  by_cases same : other = room_num
  · subst same
    simp [Hotel.occupant, getElem?_set_self inside]
  · simp [Hotel.occupant, getElem?_set_ne (Ne.symm same), Function.update_of_ne same]

section Steps

variable {num_rooms room_num : Nat} {state : State Occupant} (kept : Kept num_rooms state)
include kept

/-- One room changes: its new occupant arrives, and its old one leaves. -/
theorem set_kept (inside : room_num < num_rooms) (room : Room Occupant)
    (timed : room.timer = room.occupant.isSome)
    (once : stack.Nodup) (free : ∀ other, other ∈ stack ↔
      if room_num = other then room.occupant = none else other ∈ state.hotel.unoccupied_rooms) :
    Kept num_rooms ⟨⟨state.hotel.rooms.set room_num room, stack⟩,
      room.occupant.toList ++ state.arrived,
      (state.hotel.occupant room_num).toList.map some ++ state.left⟩ := by
  have here := kept.size ▸ inside
  refine ⟨(length_set ..).trans kept.size, fun other member => ?_, once, fun other => ?_, ?_⟩
  · rcases mem_or_eq_of_mem_set member with old | rfl
    · exact kept.timers other old
    · exact timed
  · change _ ↔ other < num_rooms ∧
      (state.hotel.rooms.set room_num room)[other]?.bind Room.occupant = none
    rw [free, kept.free, getElem?_set]
    split
    · rename_i same
      simp [← same, inside]
    · rfl
  · have moved := ((set_occupants _ here room).map some).append_right state.left
    rw [Hotel.occupant, getElem?_eq_getElem here, Option.bind_some]
    simp only [map_append, append_assoc] at moved ⊢
    exact (kept.leaves.append_left _).trans (moved.trans (perm_append_comm_assoc ..))

theorem checkout_kept (inside : room_num < num_rooms) :
    Kept num_rooms ⟨opalHotelCheckout room_num state.hotel, state.arrived,
      (state.hotel.occupant room_num).toList.map some ++ state.left⟩ := by
  rw [opalHotelCheckout]
  split
  · rename_i occupied
    have fresh : room_num ∉ state.hotel.unoccupied_rooms := by
      rw [kept.free]
      rintro ⟨-, empty⟩
      rw [empty] at occupied
      cases occupied
    refine set_kept kept inside ⟨none, false⟩ rfl (nodup_cons.mpr ⟨fresh, kept.once⟩)
      fun other => ?_
    rw [mem_cons]
    split
    · rename_i same
      simp [same]
    · rename_i differs
      exact or_iff_right (Ne.symm differs)
  · rename_i empty
    rw [Option.not_isSome_iff_eq_none.mp empty]
    exact kept

theorem checkin_kept (given : opalHotelCheckin occupant state.hotel = some (room_num, hotel)) :
    room_num < num_rooms ∧ state.hotel.occupant room_num = none ∧
      Kept num_rooms ⟨hotel, occupant :: state.arrived, state.left⟩ := by
  rw [opalHotelCheckin] at given
  split at given
  · cases given
  · rename_i rest stack
    cases given
    obtain ⟨inside, empty⟩ := (kept.free room_num).mp (stack ▸ mem_cons_self)
    have once := kept.once
    rw [stack, nodup_cons] at once
    refine ⟨inside, empty, ?_⟩
    have moved := set_kept kept inside ⟨some occupant, true⟩ rfl once.2 fun other => by
      rw [stack, mem_cons]
      split
      · rename_i same
        simp [← same, once.1]
      · rename_i differs
        exact (or_iff_right (Ne.symm differs)).symm
    rwa [empty] at moved

theorem perform_kept (steps : perform state event = some result) : Kept num_rooms result := by
  cases event with
  | checkin occupant =>
    rw [perform] at steps
    split at steps
    · cases steps
      exact kept
    · rename_i given
      cases steps
      exact (checkin_kept kept given).2.2
  | checkout room_num =>
    obtain ⟨inside, steps⟩ := Option.ite_none_right_eq_some.mp steps
    cases steps
    exact checkout_kept kept (kept.size ▸ inside)
  | evict room_num =>
    obtain ⟨pending, steps⟩ := Option.ite_none_right_eq_some.mp steps
    cases steps
    cases found : state.hotel.rooms[room_num]? with
    | none =>
      rw [found] at pending
      cases pending
    | some room =>
      rw [found, Option.any_some, kept.timers room (mem_of_getElem? found)] at pending
      obtain ⟨occupant, here⟩ := Option.isSome_iff_exists.mp pending
      have left := checkout_kept kept (kept.size ▸ (List.getElem?_eq_some_iff.mp found).1)
      have same : state.hotel.occupant room_num = some occupant := by
        rw [Hotel.occupant, found, Option.bind_some, here]
      rw [same] at left ⊢
      exact left

theorem perform_checkin (guest : Occupant) :
    (∃ room_num < num_rooms, state.hotel.occupant room_num = none ∧
      ∃ next, opalHotelCheckin guest state.hotel = some (room_num, next.hotel) ∧
        perform state (.checkin guest) = some next ∧
          next.hotel.occupant = Function.update state.hotel.occupant room_num (some guest) ∧
        next.arrived = guest :: state.arrived ∧ next.left = state.left) ∨
    (∀ room_num < num_rooms, state.hotel.occupant room_num ≠ none) ∧
      opalHotelCheckin guest state.hotel = none ∧ perform state (.checkin guest) = some state := by
  cases stack : state.hotel.unoccupied_rooms with
  | nil =>
    refine .inr ⟨fun room_num inside empty => ?_, by simp [opalHotelCheckin, stack], ?_⟩
    · have member := (kept.free room_num).mpr ⟨inside, empty⟩
      rw [stack] at member
      cases member
    · simp [perform, opalHotelCheckin, stack]
  | cons room_num rest =>
    obtain ⟨inside, empty⟩ := (kept.free room_num).mp (stack ▸ mem_cons_self)
    have given : opalHotelCheckin guest state.hotel =
        some (room_num, ⟨state.hotel.rooms.set room_num ⟨some guest, true⟩, rest⟩) := by
      rw [opalHotelCheckin, stack]
    let next : State Occupant :=
      ⟨⟨state.hotel.rooms.set room_num ⟨some guest, true⟩, rest⟩, guest :: state.arrived,
        state.left⟩
    refine .inl ⟨room_num, inside, empty, next, given, by simp [perform, given, next], ?_, rfl, rfl⟩
    exact occupant_set (kept.size ▸ inside) ⟨some guest, true⟩ _ _

/-- What a check-out or an eviction does: the occupant of the room leaves, and the other rooms stay
as they are. -/
theorem perform_leaves {guest : Occupant} (here : state.hotel.occupant room_num = some guest)
    (event : Event Occupant) (leaving : event = .checkout room_num ∨ event = .evict room_num) :
    ∃ next, perform state event = some next ∧
      next.hotel.occupant = Function.update state.hotel.occupant room_num none ∧
      next.arrived = state.arrived ∧ next.left = some guest :: state.left := by
  obtain ⟨room, found, occupied⟩ := Option.bind_eq_some_iff.mp here
  have inside := (List.getElem?_eq_some_iff.mp found).1
  have timed : room.timer = true := by
    rw [kept.timers room (mem_of_getElem? found), occupied, Option.isSome_some]
  refine ⟨⟨opalHotelCheckout room_num state.hotel, state.arrived, some guest :: state.left⟩,
    ?_, ?_, rfl, rfl⟩
  · rcases leaving with rfl | rfl
    · simp [perform, inside, here]
    · simp [perform, found, timed, here]
  · rw [opalHotelCheckout, if_pos (by simp [here])]
    exact occupant_set inside ⟨none, false⟩ _ _

theorem perform_empty (inside : room_num < num_rooms)
    (empty : state.hotel.occupant room_num = none) :
    perform state (.checkout room_num) = some state ∧ perform state (.evict room_num) = none := by
  have here := kept.size ▸ inside
  have untimed : state.hotel.rooms[room_num].timer = false := by
    rw [kept.timers _ (getElem_mem here)]
    simpa [Hotel.occupant, getElem?_eq_getElem here] using empty
  constructor
  · simp [perform, here, opalHotelCheckout, empty]
  · simp [perform, getElem?_eq_getElem here, untimed]

end Steps

/-- With every number of rooms and after every sequence of events the rooms are kept. A check-in
fails exactly if all rooms are occupied, and else fills one room that was empty. A check-out or an
eviction empties the room it is for. -/
theorem rooms_kept (num_rooms : Int) (hotel : Hotel Occupant)
    (init : opalHotelInit num_rooms = some hotel)
    (state : State Occupant) (reached : Reachable (system hotel) state) :
    Kept num_rooms.toNat state ∧
    (∀ guest, (∃ room_num < num_rooms.toNat, state.hotel.occupant room_num = none ∧
        ∃ next, opalHotelCheckin guest state.hotel = some (room_num, next.hotel) ∧
          perform state (.checkin guest) = some next ∧
            next.hotel.occupant = Function.update state.hotel.occupant room_num (some guest) ∧
          next.arrived = guest :: state.arrived ∧ next.left = state.left) ∨
      (∀ room_num < num_rooms.toNat, state.hotel.occupant room_num ≠ none) ∧
        opalHotelCheckin guest state.hotel = none ∧ perform state (.checkin guest) = some state) ∧
    (∀ room_num guest, state.hotel.occupant room_num = some guest →
      ∀ event, event = .checkout room_num ∨ event = .evict room_num →
        ∃ next, perform state event = some next ∧
        next.hotel.occupant = Function.update state.hotel.occupant room_num none ∧
        next.arrived = state.arrived ∧ next.left = some guest :: state.left) ∧
    ∀ room_num < num_rooms.toNat, state.hotel.occupant room_num = none →
      perform state (.checkout room_num) = some state ∧ perform state (.evict room_num) = none := by
  have kept : Kept num_rooms.toNat state := by
    refine Reached.invariant (Kept num_rooms.toNat) ?_ ?_ state reached
    · rintro _ rfl
      exact init_kept init
    · intro state event next kept _ steps
      exact perform_kept kept steps
  refine ⟨kept, perform_checkin kept, fun room_num guest => perform_leaves kept,
    fun room_num inside empty => ?_⟩
  exact perform_empty kept inside empty

/-- Two guests arrive; the first one checks out, and the second one is evicted. -/
theorem rooms_kept_two : ∃ hotel : Hotel Nat, opalHotelInit 2 = some hotel ∧
    ∃ state, Reachable (system hotel) state ∧ state.left = [some 8, some 7] ∧
      state.arrived = [8, 7] ∧
      Kept 2 state ∧ perform state (.checkout 1) = some state := by
  let hotel : Hotel Nat := ⟨[⟨none, false⟩, ⟨none, false⟩], [1, 0]⟩
  refine ⟨hotel, rfl, ?_⟩
  obtain ⟨state, reached, seen⟩ := reached_seen (system hotel) (fun _ _ => true) ⟨hotel, [], []⟩
    [.checkin 7, .checkin 8, .checkout 1, .evict 0]
      (fun state => (state.left, state.arrived, state.hotel.occupant 1))
    ([some 8, some 7], [8, 7], none) rfl rfl
  simp only [Prod.mk.injEq] at seen
  have reachable := reachable_of_reached reached
  obtain ⟨kept, -, -, empty⟩ := rooms_kept 2 hotel rfl state reachable
  exact ⟨state, reachable, seen.1, seen.2.1, kept, (empty 1 (by decide) seen.2.2).1⟩

end Orcm.OpalHotel
