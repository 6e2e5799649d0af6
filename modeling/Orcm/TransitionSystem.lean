import Mathlib.Data.Option.Basic

/-!
Transition systems with labelled, partial, deterministic steps. A condition on state and label
restricts the runs that are considered. An observer keeps a history beside the state and never
influences a step.
-/

namespace Orcm.TransitionSystem

structure System (State Label : Type) where
  initial : State → Prop
  step : State → Label → Option State

variable {State Label History : Type}

/-- The states reached by runs whose steps all meet the condition. -/
inductive Reached (system : System State Label) (allowed : State → Label → Prop) :
    State → Prop where
  | initial (state : State) : system.initial state → Reached system allowed state
  | step (state : State) (label : Label) (next : State) : Reached system allowed state →
      allowed state label →
      system.step state label = some next → Reached system allowed next

theorem Reached.invariant {system : System State Label} (holds : State → Prop)
    (start : ∀ state, system.initial state → holds state)
    (keeps : ∀ state label next, holds state → allowed state label →
      system.step state label = some next → holds next)
    (state : State) (reached : Reached system allowed state) : holds state := by
  induction reached with
  | initial state initially => exact start state initially
  | step state label next _ permitted steps ih => exact keeps state label next ih permitted steps

def System.observe (system : System State Label) (empty : History)
    (record : History → State → Label → State → History) : System (State × History) Label where
  initial observed := system.initial observed.1 ∧ observed.2 = empty
  step observed label := (system.step observed.1 label).map fun next =>
    (next, record observed.2 observed.1 label next)

variable (system : System State Label)

theorem observe_step {next : State × History} :
    (system.observe empty record).step observed label = some next ↔
      system.step observed.1 label = some next.1 ∧
        next.2 = record observed.2 observed.1 label next.1 := by
  obtain ⟨after, history⟩ := next
  simp only [System.observe, Option.map_eq_some_iff, Prod.mk.injEq]
  constructor
  · rintro ⟨state, steps, rfl, rfl⟩
    exact ⟨steps, rfl⟩
  · rintro ⟨steps, same⟩
    exact ⟨after, steps, rfl, same.symm⟩

theorem reached_of_observed (allowed : State → Label → Prop)
    (reached : Reached (system.observe empty record) (fun observed => allowed observed.1)
      observed) :
    Reached system allowed observed.1 := by
  induction reached with
  | initial observed initially => exact .initial observed.1 initially.1
  | step observed label next _ permitted steps ih =>
    exact .step observed.1 label next.1 ih permitted ((observe_step ..).mp steps).1

/-- The state after a list of steps, if each of them meets the condition and can be taken. -/
def System.run (system : System State Label) (allowed : State → Label → Bool) :
    State → List Label → Option State
  | state, [] => some state
  | state, label :: rest =>
    if allowed state label then
      (system.step state label).bind fun next => system.run allowed next rest else none

theorem reached_of_run
    (reached : Reached system (fun state label => allowed state label = true) state)
    (runs : system.run allowed state labels = some final) :
    Reached system (fun state label => allowed state label = true) final := by
  induction labels generalizing state with
  | nil =>
    cases runs
    exact reached
  | cons label rest ih =>
    simp only [System.run, Option.ite_none_right_eq_some, Option.bind_eq_some_iff] at runs
    obtain ⟨permitted, next, steps, runs⟩ := runs
    exact ih (.step state label next reached permitted steps) runs

abbrev Reachable (system : System State Label) : State → Prop := Reached system fun _ _ => True

theorem reached_seen (allowed : State → Label → Bool) (state : State)
    (labels : List Label) (view : State → View) (seen : View) (initially : system.initial state)
    (runs : (system.run allowed state labels).map view = some seen) :
    ∃ final, Reached system (fun state label => allowed state label = true) final ∧
      view final = seen := by
  obtain ⟨final, runs, same⟩ := Option.map_eq_some_iff.mp runs
  exact ⟨final, reached_of_run system (.initial state initially) runs, same⟩

theorem reachable_of_reached {system : System State Label}
    (reached : Reached system allowed state) : Reachable system state := by
  induction reached with
  | initial state initially => exact .initial state initially
  | step state label next _ _ steps ih => exact .step state label next ih trivial steps

end Orcm.TransitionSystem
