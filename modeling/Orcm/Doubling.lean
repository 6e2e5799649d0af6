import Mathlib.Data.Finset.Prod
import Mathlib.Data.Fintype.Card
import Mathlib.Data.Fintype.Prod
import Mathlib.Logic.Function.Basic

/-!
Collectives by levels. At every level each rank sends all that it has collected to one rank and adds
what it receives from another one; what arrives for a later level waits. A message is at any time
unsent, on its way, waiting or used, and never two of these.
-/

namespace Orcm.Doubling

open Function

structure Pattern (Rank : Type) where
  levels : Nat
  source : Nat → Rank → Rank
  target : Nat → Rank → Rank
  source_target : ∀ level < levels, ∀ rank, source level (target level rank) = rank
  target_source : ∀ level < levels, ∀ rank, target level (source level rank) = rank

def Pattern.content {Rank : Type} (pattern : Pattern Rank) : Nat → Rank → List Rank
  | 0, rank => [rank]
  | level + 1, rank =>
    pattern.content level rank ++ pattern.content level (pattern.source level rank)

theorem content_length {pattern : Pattern Rank} :
    (pattern.content level rank).length = 2 ^ level := by
  induction level generalizing rank with
  | zero => rfl
  | succ level ih =>
    rw [Pattern.content, List.length_append, ih, ih]
    omega

/-- The level that each rank has come to, for how many levels it has sent, and the messages for a
level and a receiver that are on their way or waiting. -/
structure State (Rank : Type) where
  level : Rank → Option Nat
  sent : Rank → Nat
  flight : Nat → Rank → Prop
  early : Nat → Rank → Prop

def State.initial (Rank : Type) : State Rank :=
  ⟨fun _ => none, fun _ => 0, fun _ _ => False, fun _ _ => False⟩

def State.Passed {Rank : Type} (state : State Rank) (level : Nat) (rank : Rank) : Prop :=
  ∃ reached, state.level rank = some reached ∧ level < reached

def State.Received {Rank : Type} (state : State Rank) (level : Nat) (rank : Rank) : Prop :=
  state.early level rank ∨ state.Passed level rank

variable {Rank : Type} [DecidableEq Rank]

def State.join (state : State Rank) (rank : Rank) : State Rank :=
  { state with level := Function.update state.level rank (some 0) }

def State.arrive (state : State Rank) (level : Nat) (rank : Rank) : State Rank :=
  { state with
    flight := fun other receiver => state.flight other receiver ∧
      ¬ (other = level ∧ receiver = rank)
    early := fun other receiver => state.early other receiver ∨ other = level ∧ receiver = rank }

variable (pattern : Pattern Rank)

def State.send (state : State Rank) (level : Nat) (rank : Rank) : State Rank :=
  { state with
    sent := Function.update state.sent rank (level + 1)
    flight := fun other receiver =>
      state.flight other receiver ∨ other = level ∧ receiver = pattern.target level rank }

omit [DecidableEq Rank] in
theorem passed_iff {state : State Rank} (at_level : state.level rank = some reached) :
    state.Passed level rank ↔ level < reached := by
  constructor
  · rintro ⟨other, same, less⟩
    rw [at_level] at same
    cases same
    exact less
  · intro less
    exact ⟨reached, at_level, less⟩

def State.advance (state : State Rank) (level : Nat) (rank : Rank) : State Rank :=
  { state with
    level := Function.update state.level rank (some (level + 1))
    early := fun other receiver => state.early other receiver ∧
      ¬ (other = level ∧ receiver = rank) }

/-- Where the messages can be. -/
structure Valid (state : State Rank) : Prop where
  sent_le : ∀ rank, state.sent rank ≤ pattern.levels
  level_le : ∀ rank level, state.level rank = some level → level ≤ pattern.levels
  sent_iff : ∀ level < pattern.levels, ∀ rank, level < state.sent (pattern.source level rank) ↔
    state.flight level rank ∨ state.Received level rank
  flight_fresh : ∀ level rank, state.flight level rank → level < pattern.levels ∧
    ¬ state.Received level rank
  early_fresh : ∀ level rank, state.early level rank → level < pattern.levels ∧
    ¬ state.Passed level rank

omit [DecidableEq Rank] in
theorem initial_valid : Valid pattern (State.initial Rank) where
  sent_le _ := Nat.zero_le _
  level_le _ _ at_level := nomatch at_level
  sent_iff level _ rank := by
    constructor
    · exact fun less => absurd less (Nat.not_lt_zero _)
    · rintro (flight | early | ⟨reached, at_level, -⟩)
      · exact flight.elim
      · exact early.elim
      · cases at_level
  flight_fresh _ _ flight := flight.elim
  early_fresh _ _ early := early.elim

section Steps

variable {pattern} {state : State Rank} (valid : Valid pattern state) {level : Nat} {rank : Rank}
include valid

omit valid in
theorem passed_join (waiting : state.level rank = none) (other : Nat) (receiver : Rank) :
    (state.join rank).Passed other receiver ↔ state.Passed other receiver := by
  by_cases same : receiver = rank
  · subst receiver
    have now : (state.join rank).level rank = some 0 := update_self ..
    rw [passed_iff now]
    constructor
    · exact fun less => absurd less (Nat.not_lt_zero _)
    · rintro ⟨reached, at_level, -⟩
      rw [waiting] at at_level
      cases at_level
  · have unchanged : (state.join rank).level receiver = state.level receiver := update_of_ne same ..
    rw [State.Passed, State.Passed, unchanged]

theorem join_valid (waiting : state.level rank = none) : Valid pattern (state.join rank) where
  sent_le := valid.sent_le
  level_le other reached at_level := by
    by_cases same : other = rank
    · subst other
      have now : (state.join rank).level rank = some 0 := update_self ..
      rw [now] at at_level
      cases at_level
      exact Nat.zero_le _
    · have unchanged : (state.join rank).level other = state.level other := update_of_ne same ..
      exact valid.level_le other reached (unchanged ▸ at_level)
  sent_iff other bound receiver := by
    rw [State.Received, passed_join waiting]
    exact valid.sent_iff other bound receiver
  flight_fresh other receiver flight := by
    rw [State.Received, passed_join waiting]
    exact valid.flight_fresh other receiver flight
  early_fresh other receiver early := by
    rw [passed_join waiting]
    exact valid.early_fresh other receiver early

omit valid in
theorem received_arrive :
    (state.arrive level rank).Received other receiver ↔
      state.Received other receiver ∨ other = level ∧ receiver = rank := by
  change (state.early other receiver ∨ _) ∨ state.Passed other receiver ↔ _
  rw [State.Received]
  tauto

theorem arrive_valid (flight : state.flight level rank) :
    Valid pattern (state.arrive level rank) where
  sent_le := valid.sent_le
  level_le := valid.level_le
  sent_iff other bound receiver := by
    rw [received_arrive]
    change _ ↔ (state.flight other receiver ∧ _) ∨ _
    have before := valid.sent_iff other bound receiver
    by_cases here : other = level ∧ receiver = rank
    · obtain ⟨rfl, rfl⟩ := here
      simp [State.arrive, before, flight]
    · simp [State.arrive, before, here]
  flight_fresh other receiver := by
    rintro ⟨inFlight, elsewhere⟩
    obtain ⟨bound, fresh⟩ := valid.flight_fresh other receiver inFlight
    rw [received_arrive]
    exact ⟨bound, not_or.mpr ⟨fresh, elsewhere⟩⟩
  early_fresh other receiver := by
    rintro (early | ⟨rfl, rfl⟩)
    · exact valid.early_fresh other receiver early
    · obtain ⟨bound, fresh⟩ := valid.flight_fresh other receiver flight
      exact ⟨bound, fun passed => fresh (.inr passed)⟩

theorem send_valid (bound : level < pattern.levels) (next : state.sent rank = level) :
    Valid pattern (state.send pattern level rank) where
  sent_le other := by
    by_cases same : other = rank
    · subst other
      exact (update_self rank (level + 1) state.sent).trans_le bound
    · exact (update_of_ne same (level + 1) state.sent).trans_le (valid.sent_le other)
  level_le := valid.level_le
  sent_iff other otherBound receiver := by
    change update state.sent rank (level + 1) _ > other ↔ (state.flight other receiver ∨ _) ∨
      state.Received other receiver
    have before := valid.sent_iff other otherBound receiver
    by_cases same : pattern.source other receiver = rank
    · rw [same] at before ⊢
      rw [update_self]
      have receives : receiver = pattern.target other rank := by
        rw [← same, pattern.target_source other otherBound]
      by_cases here : other = level
      · subst other
        simp [receives]
      · simp only [here, false_and, or_false, ← before]
        omega
    · have elsewhere : ¬ (other = level ∧ receiver = pattern.target level rank) := by
        rintro ⟨rfl, rfl⟩
        exact same (pattern.source_target other otherBound rank)
      rw [update_of_ne same]
      simp [elsewhere, ← before]
  flight_fresh other receiver := by
    rintro (flight | ⟨rfl, rfl⟩)
    · exact valid.flight_fresh other receiver flight
    · refine ⟨bound, fun received => ?_⟩
      have earlier := (valid.sent_iff other bound _).mpr (.inr received)
      rw [pattern.source_target other bound, next] at earlier
      exact absurd earlier (Nat.lt_irrefl _)
  early_fresh := valid.early_fresh

omit valid in
theorem received_advance (at_level : state.level rank = some level) (early : state.early level rank)
    (other : Nat) (receiver : Rank) :
    (state.advance level rank).Received other receiver ↔ state.Received other receiver := by
  change (state.early other receiver ∧ _) ∨ (state.advance level rank).Passed other receiver ↔ _
  rw [State.Received]
  by_cases same : receiver = rank
  · subst receiver
    have now : (state.advance level rank).level rank = some (level + 1) := update_self ..
    rw [passed_iff now, passed_iff at_level]
    by_cases here : other = level
    · subst other
      simp [early]
    · simp only [here, not_false_eq_true, and_true]
      exact or_congr_right (by omega)
  · have unchanged : (state.advance level rank).level receiver = state.level receiver :=
      update_of_ne same ..
    rw [State.Passed, State.Passed, unchanged]
    simp [same]

theorem advance_valid (at_level : state.level rank = some level) (early : state.early level rank) :
    Valid pattern (state.advance level rank) where
  sent_le := valid.sent_le
  level_le other reached now := by
    by_cases same : other = rank
    · subst other
      have advanced : (state.advance level rank).level rank = some (level + 1) := update_self ..
      rw [advanced] at now
      cases now
      exact (valid.early_fresh level rank early).1
    · have unchanged : (state.advance level rank).level other = state.level other :=
        update_of_ne same ..
      exact valid.level_le other reached (unchanged ▸ now)
  sent_iff other bound receiver := by
    rw [received_advance at_level early]
    exact valid.sent_iff other bound receiver
  flight_fresh other receiver flight := by
    rw [received_advance at_level early]
    exact valid.flight_fresh other receiver flight
  early_fresh other receiver := by
    rintro ⟨stillEarly, elsewhere⟩
    obtain ⟨bound, fresh⟩ := valid.early_fresh other receiver stillEarly
    refine ⟨bound, ?_⟩
    by_cases same : receiver = rank
    · subst receiver
      have now : (state.advance level rank).level rank = some (level + 1) := update_self ..
      rw [passed_iff at_level] at fresh
      rw [passed_iff now]
      have differs : other ≠ level := fun same => elsewhere ⟨same, rfl⟩
      omega
    · have unchanged : (state.advance level rank).level receiver = state.level receiver :=
        update_of_ne same ..
      rwa [State.Passed, unchanged]

omit [DecidableEq Rank] in
theorem all_finished (quiet : ∀ level rank, ¬ state.flight level rank) {reached : Rank → Nat}
    (joined : ∀ rank, state.level rank = some (reached rank))
    (settled : ∀ rank, ¬ state.early (reached rank) rank)
    (has_sent : ∀ rank, state.sent rank = min (reached rank + 1) pattern.levels) (rank : Rank) :
    reached rank = pattern.levels := by
  have at_least : ∀ level ≤ pattern.levels, ∀ rank, level ≤ reached rank := by
    intro level
    induction level with
    | zero => exact fun _ rank => Nat.zero_le _
    | succ level ih =>
      intro bound rank
      have earlier := ih (by omega)
      have source := earlier (pattern.source level rank)
      by_contra stuck
      have here : reached rank = level := by
        have mine := earlier rank
        omega
      have was_sent : level < state.sent (pattern.source level rank) := by
        rw [has_sent]
        omega
      rcases (valid.sent_iff level (by omega) rank).mp was_sent with flight | early | passed
      · exact quiet level rank flight
      · exact settled rank (here ▸ early)
      · rw [passed_iff (joined rank), here] at passed
        exact absurd passed (Nat.lt_irrefl _)
  exact Nat.le_antisymm (valid.level_le rank _ (joined rank)) (at_least _ (Nat.le_refl _) rank)

end Steps

/-- A rank takes up all it can: it sends for the level it is at, and goes on if the message for that
level waits. -/
inductive Moves (rank : Rank) : State Rank → State Rank → Prop where
  | stay (state : State Rank) : Moves rank state state
  | send (state final : State Rank) (level : Nat) (bound : level < pattern.levels)
      (next : state.sent rank = level)
      (rest : Moves rank (state.send pattern level rank) final) : Moves rank state final
  | advance (state final : State Rank) (level : Nat) (at_level : state.level rank = some level)
      (early : state.early level rank) (rest : Moves rank (state.advance level rank) final) : Moves
        rank state final

section Moves

variable {pattern} {rank : Rank} {state final : State Rank} (moves : Moves pattern rank state final)
include moves

theorem moves_valid (valid : Valid pattern state) : Valid pattern final := by
  induction moves with
  | stay => exact valid
  | send state final level bound next _ ih => exact ih (send_valid valid bound next)
  | advance state final level at_level early _ ih => exact ih (advance_valid valid at_level early)

theorem moves_received (other : Nat) (receiver : Rank) :
    final.Received other receiver ↔ state.Received other receiver := by
  induction moves with
  | stay => rfl
  | send state final level bound next _ ih => exact ih
  | advance state final level at_level early _ ih =>
    exact ih.trans (received_advance at_level early other receiver)

theorem moves_others (differs : other ≠ rank) :
    final.level other = state.level other ∧ final.sent other = state.sent other ∧
      ∀ level, final.early level other ↔ state.early level other := by
  induction moves with
  | stay => exact ⟨rfl, rfl, fun _ => Iff.rfl⟩
  | send state final level bound next _ ih =>
    obtain ⟨sameLevel, sameSent, sameEarly⟩ := ih
    exact ⟨sameLevel, sameSent.trans (update_of_ne differs ..), sameEarly⟩
  | advance state final level at_level early _ ih =>
    obtain ⟨sameLevel, sameSent, sameEarly⟩ := ih
    refine ⟨sameLevel.trans (update_of_ne differs ..), sameSent, fun level =>
      (sameEarly level).trans ?_⟩
    exact and_iff_left fun same => differs same.2

theorem moves_absent (other : Rank) : final.level other = none ↔ state.level other = none := by
  induction moves with
  | stay => rfl
  | send state final level bound next _ ih => exact ih
  | advance state final level at_level early _ ih =>
    rw [ih]
    by_cases same : other = rank
    · subst other
      have now : (state.advance level rank).level rank = some (level + 1) := update_self ..
      rw [now, at_level]
      exact iff_of_false (Option.some_ne_none _) (Option.some_ne_none _)
    · rw [show (state.advance level rank).level other = state.level other from update_of_ne same ..]

theorem moves_flight (flight : state.flight level receiver) :
    final.flight level receiver := by
  induction moves with
  | stay => exact flight
  | send state final other bound next _ ih => exact ih (.inl flight)
  | advance state final other at_level early _ ih => exact ih flight

end Moves

section Measure

variable [Fintype Rank]

open Classical in
noncomputable def missing (state : State Rank) : Finset (Fin pattern.levels × Rank) :=
  Finset.univ.filter fun message => ¬ state.Received message.1 message.2

open Classical in
noncomputable def absent (state : State Rank) : Finset Rank :=
  Finset.univ.filter fun rank => state.level rank = none

noncomputable def awaited (state : State Rank) : Nat :=
  (missing pattern state).card + (absent state).card

variable {pattern} {rank : Rank} {state : State Rank}

omit [DecidableEq Rank] in
theorem mem_missing :
    message ∈ missing pattern state ↔ ¬ state.Received message.1 message.2 := by
  simp [missing]

omit [DecidableEq Rank] in
theorem mem_absent : rank ∈ absent state ↔ state.level rank = none := by
  simp [absent]

omit [DecidableEq Rank] in
theorem awaited_le :
    awaited pattern state ≤ pattern.levels * Fintype.card Rank + Fintype.card Rank := by
  have messages := Finset.card_le_univ (missing pattern state)
  have ranks := Finset.card_le_univ (absent state)
  rw [Fintype.card_prod, Fintype.card_fin] at messages
  exact Nat.add_le_add messages ranks

theorem awaited_moves (moves : Moves pattern rank state final) :
    awaited pattern final = awaited pattern state := by
  have sameMissing : missing pattern final = missing pattern state := by
    ext message
    rw [mem_missing, mem_missing, moves_received moves]
  have sameAbsent : absent final = absent state := by
    ext other
    rw [mem_absent, mem_absent, moves_absent moves]
  rw [awaited, awaited, sameMissing, sameAbsent]

theorem awaited_join (waiting : state.level rank = none) :
    awaited pattern (state.join rank) < awaited pattern state := by
  have sameMissing : missing pattern (state.join rank) = missing pattern state := by
    ext message
    rw [mem_missing, mem_missing, State.Received, passed_join waiting]
    rfl
  rw [awaited, sameMissing]
  apply Nat.add_lt_add_left
  apply Finset.card_lt_card
  rw [Finset.ssubset_iff_of_subset]
  · refine ⟨rank, mem_absent.mpr waiting, ?_⟩
    have now : (state.join rank).level rank = some 0 := update_self ..
    rw [mem_absent, now]
    exact Option.some_ne_none 0
  · intro other
    rw [mem_absent, mem_absent]
    intro still
    by_cases same : other = rank
    · rwa [same]
    · rwa [show (state.join rank).level other = state.level other from update_of_ne
        same ..] at still

theorem awaited_arrive (valid : Valid pattern state) (flight : state.flight level rank) :
    awaited pattern (state.arrive level rank) < awaited pattern state := by
  obtain ⟨bound, fresh⟩ := valid.flight_fresh level rank flight
  apply Nat.add_lt_add_right
  apply Finset.card_lt_card
  rw [Finset.ssubset_iff_of_subset]
  · refine ⟨(⟨level, bound⟩, rank), mem_missing.mpr fresh, ?_⟩
    rw [mem_missing, received_arrive, not_not]
    exact .inr ⟨rfl, rfl⟩
  · intro message
    rw [mem_missing, mem_missing, received_arrive]
    exact fun still received => still (.inl received)

end Measure

end Orcm.Doubling
