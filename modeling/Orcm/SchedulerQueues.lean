import Mathlib.Data.List.TakeWhile
import Orcm.DashHost

/-!
`orcm_scd_base_construct_queues` of `scd_base_fns.c`: three built-in queues, and those of the
configuration inserted in front of the first queue with a lower priority. The queues start without
sessions.
-/

namespace Orcm.SchedulerQueues

open CLibrary DashHost

/-- `orcm_queue_t` -/
structure Queue where
  name : CString
  priority : Int
  deriving DecidableEq, Repr

def defaultQueue : Queue := ⟨"default".toList, 0⟩

def builtIn : List Queue := [⟨"running".toList, 0⟩, ⟨"hold".toList, 0⟩, defaultQueue]

/-- A definition must have three entries; the third one is not looked at. -/
def parseQueue (definition : CString) : Option Queue :=
  match argvSplit definition ':' with
  | [name, priority, _] => some ⟨name, toInt (strtol priority).1⟩
  | _ => none

def wellFormed (definition : CString) : Bool := (parseQueue definition).isSome

/-- Without a queue of lower priority the new one is inserted nowhere. -/
def insertQueue (q : Queue) : List Queue → List Queue
  | [] => []
  | q2 :: rest => if q.priority > q2.priority then q :: q2 :: rest else q2 :: insertQueue q rest

/-- The first malformed definition ends the loop. -/
def insertDefined : List CString → List Queue → List Queue
  | [], queues => queues
  | definition :: rest, queues =>
    match parseQueue definition with
    | none => queues
    | some q => insertDefined rest (insertQueue q queues)

def constructQueues (definitions : List CString) : List Queue := insertDefined definitions builtIn

def Ordered (queues : List Queue) : Prop :=
  queues.Pairwise fun first second => second.priority ≤ first.priority

/-- One queue for each well-formed definition besides the built-in ones, by priority, the default
queue last. -/
def Constructed (definitions : List CString) : Prop :=
  (constructQueues definitions).Perm (definitions.filterMap parseQueue ++ builtIn) ∧
    Ordered (constructQueues definitions) ∧
      (constructQueues definitions).getLast? = some defaultQueue

variable {queues : List Queue} {q : Queue}

theorem mem_insertQueue (member : other ∈ insertQueue q queues) : other = q ∨ other ∈ queues := by
  induction queues with
  | nil => simp [insertQueue] at member
  | cons q2 rest ih =>
    rw [insertQueue] at member
    split at member
    · exact List.mem_cons.mp member
    · rcases List.mem_cons.mp member with rfl | later
      · simp
      · exact (ih later).imp id (List.mem_cons_of_mem q2)

theorem insertQueue_ordered (ordered : Ordered queues) : Ordered (insertQueue q queues) := by
  induction queues with
  | nil => exact ordered
  | cons q2 rest ih =>
    obtain ⟨first, later⟩ := List.pairwise_cons.mp ordered
    rw [insertQueue]
    split
    next higher =>
      refine List.pairwise_cons.mpr ⟨fun other member => ?_, ordered⟩
      rcases List.mem_cons.mp member with rfl | member
      · omega
      · have := first other member
        omega
    next lower =>
      refine List.pairwise_cons.mpr ⟨fun other member => ?_, ih later⟩
      rcases mem_insertQueue member with rfl | member
      · omega
      · exact first other member

theorem insertQueue_getLast? : (insertQueue q queues).getLast? = queues.getLast? := by
  induction queues with
  | nil => rfl
  | cons q2 rest ih =>
    rw [insertQueue]
    split
    · rw [List.getLast?_cons_cons]
    · rw [List.getLast?_cons, ih, List.getLast?_cons]

theorem insertQueue_perm (lower : ∃ q2 ∈ queues, q2.priority < q.priority) :
    (insertQueue q queues).Perm (q :: queues) := by
  induction queues with
  | nil => simp at lower
  | cons q2 rest ih =>
    rw [insertQueue]
    split
    · exact .refl _
    next higher =>
      have lower : ∃ q2 ∈ rest, q2.priority < q.priority := by simpa [higher] using lower
      exact ((ih lower).cons q2).trans (.swap q q2 rest)

theorem insertQueue_dropped (higher : ∀ q2 ∈ queues, q.priority ≤ q2.priority) :
    insertQueue q queues = queues := by
  induction queues with
  | nil => rfl
  | cons q2 rest ih =>
    rw [List.forall_mem_cons] at higher
    rw [insertQueue, if_neg (by omega), ih higher.2]

theorem nonnegative_of_ordered (ordered : Ordered queues)
    (last : queues.getLast? = some defaultQueue) :
    ∀ q ∈ queues, 0 ≤ q.priority := by
  obtain ⟨front, rfl⟩ := List.getLast?_eq_some_iff.mp last
  intro q member
  rcases List.mem_append.mp member with earlier | own
  · exact (List.pairwise_append.mp ordered).2.2 q earlier defaultQueue (by simp)
  · rw [List.mem_singleton.mp own]
    decide

/-- What a definition has to be for its queue to be inserted. -/
def inserted (definitions : List CString) : List Queue :=
  ((definitions.takeWhile wellFormed).filterMap parseQueue).filter (0 < ·.priority)

variable (definitions : List CString)

/-- The default queue stays last and is the lowest, so exactly the queues of positive priority find
a place. -/
theorem insertDefined_spec (ordered : Ordered queues) (last : queues.getLast? = some defaultQueue) :
    (insertDefined definitions queues).Perm (inserted definitions ++ queues) ∧
      Ordered (insertDefined definitions queues) ∧ (insertDefined definitions queues).getLast? =
        some defaultQueue := by
  induction definitions generalizing queues with
  | nil => exact ⟨.refl _, ordered, last⟩
  | cons definition rest ih =>
    cases parsed : parseQueue definition with
    | none =>
      have nothing : inserted (definition :: rest) = [] := by simp [inserted, wellFormed, parsed]
      rw [insertDefined, parsed, nothing]
      exact ⟨.refl _, ordered, last⟩
    | some q =>
      rw [insertDefined, parsed]
      obtain ⟨perm, spec⟩ := ih (insertQueue_ordered ordered) (insertQueue_getLast?.trans last)
      refine ⟨perm.trans ?_, spec⟩
      by_cases positive : 0 < q.priority
      · have one : inserted (definition :: rest) = q :: inserted rest := by
          simp [inserted, wellFormed, parsed, positive]
        have lower : ∃ q2 ∈ queues, q2.priority < q.priority :=
          ⟨defaultQueue, List.mem_of_getLast? last, positive⟩
        rw [one]
        exact ((insertQueue_perm lower).append_left _).trans List.perm_middle
      · have none : inserted (definition :: rest) = inserted rest := by
          simp [inserted, wellFormed, parsed, positive]
        have higher : ∀ q2 ∈ queues, q.priority ≤ q2.priority := by
          intro q2 member
          have := nonnegative_of_ordered ordered last q2 member
          omega
        rw [none, insertQueue_dropped higher]

theorem inserted_eq_iff :
    inserted definitions = definitions.filterMap parseQueue ↔
      (∀ q ∈ definitions.filterMap parseQueue, 0 < q.priority) ∧
      ∀ definition ∈ definitions.dropWhile wellFormed, parseQueue definition = none := by
  have parts : definitions.filterMap parseQueue =
      (definitions.takeWhile wellFormed).filterMap parseQueue ++
        (definitions.dropWhile wellFormed).filterMap parseQueue := by
    rw [← List.filterMap_append, List.takeWhile_append_dropWhile]
  constructor
  · intro same
    refine ⟨fun q member => ?_, List.filterMap_eq_nil_iff.mp (List.length_eq_zero_iff.mp ?_)⟩
    · rw [← same] at member
      exact of_decide_eq_true (List.mem_filter.mp member).2
    · have total := congrArg List.length (same.trans parts)
      have fewer :=
        List.length_filter_le (0 < ·.priority)
          ((definitions.takeWhile wellFormed).filterMap parseQueue)
      rw [List.length_append, inserted] at total
      omega
  · rintro ⟨positive, behind⟩
    rw [parts, List.filterMap_eq_nil_iff.mpr behind, List.append_nil] at positive ⊢
    exact List.filter_eq_self.mpr fun q member => decide_eq_true (positive q member)

/-- Queues are lost exactly where a priority is not positive or a malformed definition stands in
front. -/
theorem queues_constructed_iff :
    Constructed definitions ↔ (∀ q ∈ definitions.filterMap parseQueue, 0 < q.priority) ∧
      ∀ definition ∈ definitions.dropWhile wellFormed, parseQueue definition = none := by
  have start : Ordered builtIn := by
    unfold Ordered
    decide
  obtain ⟨perm, ordered, last⟩ := insertDefined_spec definitions start rfl
  rw [← inserted_eq_iff]
  constructor
  · rintro ⟨whole, -, -⟩
    have sublist : (inserted definitions).Sublist (definitions.filterMap parseQueue) :=
      List.filter_sublist.trans ((List.takeWhile_sublist _).filterMap _)
    exact sublist.eq_of_length
      ((List.perm_append_right_iff builtIn).mp (perm.symm.trans whole)).length_eq
  · intro same
    rw [same] at perm
    exact ⟨perm, ordered, last⟩

/-- A queue of priority 0 is lost, and so is one behind a definition with two entries. -/
theorem defined_queues_are_lost :
    constructQueues ["low:0:x".toList] = builtIn ∧
      constructQueues ["bad:1".toList, "high:9:x".toList] = builtIn ∧
      ¬ Constructed ["low:0:x".toList] := by
  have lost : constructQueues ["low:0:x".toList] = builtIn := by decide
  refine ⟨lost, by decide, ?_⟩
  rintro ⟨perm, -, -⟩
  exact absurd perm.length_eq (by decide)

end Orcm.SchedulerQueues
