import Orcm.TransitionSystem

/-! `orte_iof_base_write_output` and `orte_iof_base_write_handler` of `iof_base_output.c`: the
outputs of one sink. -/

namespace Orcm.OutputQueue

open TransitionSystem List

abbrev Bytes := List UInt8

/-- The write event of a sink with all that was queued and written so far. -/
structure Sink where
  outputs : List Bytes
  pending : Bool
  -- whether the event library has the event
  event : Bool
  queued : Bytes
  written : Bytes
  -- whether a call of the handler went to `ABORT` with output left, and whether one returned before
  -- that label
  aborted : Bool
  cut : Bool

def writeOutput (data : Bytes) (sink : Sink) : Sink :=
  { sink with
    outputs := sink.outputs ++ [data], queued := sink.queued ++ data, pending := true,
    event := sink.event || !sink.pending }

inductive Answer where
  | wrote (num_written : Nat)
  | again
  | failed

inductive Stop where
  | emptied
  | waits
  | aborted
deriving DecidableEq

def pushedBack (output_limit : Nat) (outputs : List Bytes) : Stop :=
  if output_limit < outputs.length then .aborted else .waits

/-- The loop of the handler: the bytes it writes, the outputs it leaves and how it stops. `answer k`
is what `write` returns with `k` outputs behind the one it is called for. An output without bytes
releases the sink. -/
def writeLoop (output_limit : Nat) (answer : Nat → Answer) :
    List Bytes → Option (Bytes × List Bytes × Stop)
  | [] => some ([], [], .emptied)
  | data :: rest =>
    if data = [] then none
    else match answer rest.length with
      | .failed => some ([], rest, .aborted)
      | .again => some ([], data :: rest, pushedBack output_limit (data :: rest))
      | .wrote num_written =>
        if num_written < data.length then
          some (data.take num_written, data.drop num_written :: rest,
            pushedBack output_limit (data :: rest))
        else (writeLoop output_limit answer rest).map fun (written, left, stop) =>
          (data ++ written, left, stop)

inductive Event where
  | output (data : Bytes)
  | handler (answer : Nat → Answer)

/-- The event is set without `OPAL_EV_PERSIST`, so the library no longer has it when the handler
runs. -/
def perform (output_limit : Nat) (sink : Sink) : Event → Option Sink
  | .output data => some (writeOutput data sink)
  | .handler answer =>
    if sink.event then (writeLoop output_limit answer sink.outputs).map fun (written, left, stop) =>
      { sink with
        outputs := left, written := sink.written ++ written, event := false,
        pending := sink.pending && stop = .waits,
        aborted := sink.aborted || stop = .aborted, cut := sink.cut || stop = .waits }
    else none

def system (output_limit : Nat) : System Sink Event where
  initial sink := sink = ⟨[], false, false, [], [], false, false⟩
  step := perform output_limit

structure Kept (sink : Sink) : Prop where
  bytes : sink.aborted = false → sink.written ++ sink.outputs.flatten = sink.queued ∧
    sink.pending = !sink.outputs.isEmpty
  event : sink.event → sink.pending
  cut : sink.cut = (sink.pending && !sink.event)

variable {output_limit : Nat} {sink result : Sink}

theorem writeLoop_left {answer : Nat → Answer} {outputs left : List Bytes} {written : Bytes}
    {stop : Stop} (writes : writeLoop output_limit answer outputs = some (written, left, stop)) :
    stop ≠ .aborted → written ++ left.flatten = outputs.flatten ∧ (stop = .waits ↔ left ≠ []) := by
  induction outputs generalizing written with
  | nil =>
    cases writes
    simp
  | cons data rest ih =>
    obtain ⟨-, writes⟩ := Option.ite_none_left_eq_some.mp writes
    split at writes
    · cases writes
      exact (absurd rfl ·)
    · cases writes
      simp +contextual [pushedBack]
    · split at writes
      · cases writes
        rw [flatten_cons, flatten_cons, ← append_assoc, take_append_drop]
        simp +contextual [pushedBack]
      · obtain ⟨⟨more, left, stop⟩, behind, same⟩ := Option.map_eq_some_iff.mp writes
        cases same
        rw [flatten_cons, append_assoc]
        exact fun goes => ⟨by rw [(ih behind goes).1], (ih behind goes).2⟩

theorem perform_kept {event : Event} (kept : Kept sink)
    (steps : perform output_limit sink event = some result) : Kept result := by
  obtain ⟨bytes, alive, cut⟩ := kept
  cases event with
  | output data =>
    cases steps
    refine ⟨fun goes => ⟨by simp [writeOutput, ← (bytes goes).1], by simp [writeOutput]⟩,
      fun _ => rfl, ?_⟩
    simp [writeOutput, cut, Bool.and_comm]
  | handler answer =>
    obtain ⟨there, steps⟩ := Option.ite_none_right_eq_some.mp steps
    obtain ⟨⟨written, left, stop⟩, writes, same⟩ := Option.map_eq_some_iff.mp steps
    cases same
    refine ⟨fun goes => ?_, by simp, by simp [cut, there, alive there]⟩
    obtain ⟨never, goes⟩ := Bool.or_eq_false_iff.mp goes
    obtain ⟨same, waits⟩ := writeLoop_left writes (of_decide_eq_false goes)
    refine ⟨by rw [append_assoc, same, (bytes never).1], ?_⟩
    cases left <;> simp_all

theorem kept_of_reachable : ∀ sink, Reachable (system output_limit) sink → Kept sink :=
  Reached.invariant Kept (by rintro sink rfl; exact ⟨fun _ => ⟨rfl, rfl⟩, id, rfl⟩)
    fun _ _ _ kept _ steps => perform_kept kept steps

-- the event is not there, and `pending` keeps every later output from adding it
theorem run_stalled {events : List Event} {final : Sink} (pending : sink.pending = true)
    (gone : sink.event = false)
    (runs : (system output_limit).run (fun _ _ => true) sink events = some final) :
    final.written = sink.written ∧ final.event = false := by
  induction events generalizing sink with
  | nil =>
    cases runs
    exact ⟨rfl, gone⟩
  | cons event rest ih =>
    obtain ⟨result, steps, runs⟩ := Option.bind_eq_some_iff.mp runs
    cases event with
    | output data =>
      cases steps
      have stalled : (writeOutput data sink).event = false := by simp [writeOutput, pending, gone]
      change final.written = (writeOutput data sink).written ∧ _
      exact ih rfl stalled runs
    | handler answer => simp [system, perform, gone] at steps

/-- Until a call is aborted, no byte is lost, doubled or moved, and output waits without the event
only behind a call that returned early. That call is the last one: the event never comes back, and
nothing is written after it. -/
theorem output_written_iff (output_limit : Nat) (sink : Sink)
    (reached : Reachable (system output_limit) sink) :
    (sink.aborted = false → sink.written ++ sink.outputs.flatten = sink.queued ∧
      (sink.outputs ≠ [] → (sink.event = true ↔ sink.cut = false))) ∧
    (sink.cut = true → ∀ events final,
      (system output_limit).run (fun _ _ => true) sink events = some final →
        final.written = sink.written ∧ final.event = false) := by
  obtain ⟨bytes, alive, cut⟩ := kept_of_reachable sink reached
  refine ⟨fun never => ⟨(bytes never).1, fun left => ?_⟩, fun early events final runs => ?_⟩
  · simp [cut, (bytes never).2, left]
  · obtain ⟨pending, gone⟩ := Bool.and_eq_true_iff.mp (cut.symm.trans early)
    exact run_stalled pending (by simpa using gone) runs

/-- The first of two outputs is written and the second is not: a third one stays behind it. -/
theorem output_written_blocked :
    ∃ sink final, Reachable (system 9) sink ∧ sink.cut = true ∧
      (system 9).run (fun _ _ => true) sink [.output [3]] = some final ∧ sink.written = [1] ∧
      sink.written ++ sink.outputs.flatten = sink.queued ∧
      final.written = sink.written ∧ final.event = false := by
  have reached : Reachable (system 9) ⟨[[2]], true, false, [1, 2], [1], false, true⟩ :=
    .step _ (.handler fun behind => if behind = 1 then .wrote 1 else .again) _
      (.step _ (.output [2]) _ (.step _ (.output [1]) _ (.initial _ rfl) trivial rfl) trivial rfl)
      trivial rfl
  have written := output_written_iff 9 _ reached
  exact ⟨_, _, reached, rfl, rfl, rfl, (written.1 rfl).1, written.2 rfl [.output [3]] _ rfl⟩

end Orcm.OutputQueue
