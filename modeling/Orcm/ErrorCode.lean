import Mathlib.Data.List.Flatten
import Mathlib.Data.List.Forall2
import Orcm.CLibrary

/-!
Return codes of `opal/include/opal/constants.h`; the ORTE and ORCM codes of the same names have the
same values. `OPAL_SUCCESS` is the successful branch of `Result`.
-/

namespace Orcm

inductive ErrorCode where
  | error
  | outOfResource
  | badParam
  | notFound
  | packMismatch
  | packFailure
  | unpackFailure
  | unpackInadequateSpace
  | unpackReadPastEndOfBuffer
  | unknownDataType
  | buffer
  | typeMismatch
  | notSupported
  | takeNextOption
  | silent
  deriving DecidableEq, Repr

abbrev Fault := CLibrary.Fault ErrorCode

abbrev Result := Except Fault

def Result.fail {Value : Type} (code : ErrorCode) : Result Value := .error (.error code)

def Result.undefined {Value : Type} : Result Value := .error .undefined

variable {Value Next : Type}

theorem Result.bind_eq_ok {next : Value → Result Next} :
    action >>= next = .ok result ↔ ∃ value, action = .ok value ∧ next value = .ok result := by
  cases action with
  | error => simp [bind, Except.bind]
  | ok => simp [bind, Except.bind]

variable (convert : Value → Next)

theorem Result.map_eq_ok {action : Result Value} :
    convert <$> action = .ok result ↔ ∃ value, action = .ok value ∧ convert value = result := by
  cases action with
  | error => simp [Functor.map, Except.map]
  | ok => simp [Functor.map, Except.map]

@[simp] theorem Result.ok_bind (value : Value) (next : Value → Result Next) :
    (Except.ok value : Result Value) >>= next = next value := rfl

@[simp] theorem Result.error_bind {next : Value → Result Next} :
    (Except.error fault : Result Value) >>= next = .error fault := rfl

@[simp] theorem Result.map_ok (value : Value) :
    convert <$> (Except.ok value : Result Value) = .ok (convert value) := rfl

@[simp] theorem Result.map_error (fault : Fault) :
    convert <$> (Except.error fault : Result Value) = .error fault := rfl

@[simp] theorem Result.pure_eq_ok {value : Value} : (pure value : Result Value) = .ok value := rfl

variable (inputs : List Value) {call : Value → Result Next}

theorem Result.mapM_eq_ok :
    inputs.mapM call = .ok results ↔ List.Forall₂ (fun input result => call input = .ok result)
      inputs results := by
  induction inputs generalizing results with
  | nil => cases results <;> simp
  | cons input rest ih =>
    rw [List.mapM_cons, Result.bind_eq_ok]
    constructor
    · rintro ⟨result, first, tail⟩
      obtain ⟨others, later, rfl⟩ := (Result.bind_eq_ok ..).mp tail |>.imp fun others parts =>
        And.intro parts.1 (by simpa using parts.2.symm : results = result :: others)
      exact .cons first (ih.mp later)
    · rintro (_ | ⟨first, later⟩)
      refine ⟨_, first, ?_⟩
      rw [ih.mpr later]
      rfl

variable {inputs}

theorem Result.mapM_ok (convert : Value → Next)
    (returns : ∀ input ∈ inputs, call input = .ok (convert input)) :
    inputs.mapM call = .ok (inputs.map convert) := by
  rw [Result.mapM_eq_ok, List.forall₂_map_right_iff, List.forall₂_same]
  exact returns

theorem Result.mapM_congr (same : ∀ input ∈ inputs, call input = other input) :
    inputs.mapM call = inputs.mapM other := by
  induction inputs with
  | nil => rfl
  | cons input rest ih =>
    rw [List.forall_mem_cons] at same
    rw [List.mapM_cons, List.mapM_cons, same.1, ih same.2]

theorem Result.mapM_forall (property : Next → Prop) (returned : inputs.mapM call = .ok results)
    (each : ∀ input ∈ inputs, ∀ result, call input = .ok result → property result) :
    ∀ result ∈ results, property result := by
  have pointwise := (Result.mapM_eq_ok inputs).mp returned
  clear returned
  induction pointwise with
  | nil => simp
  | cons first _ ih =>
    rw [List.forall_mem_cons] at each ⊢
    exact ⟨each.1 _ first, ih each.2⟩

variable {convert}

theorem Result.mapM_guarded {guard : Value → Prop}
    (each : ∀ input ∈ inputs, ∀ result, call input = .ok result ↔ guard input ∧
      result = convert input) (results : List Next) :
    inputs.mapM call = .ok results ↔ (∀ input ∈ inputs, guard input) ∧
      results = inputs.map convert := by
  constructor
  · intro returned
    have pointwise := (Result.mapM_eq_ok inputs).mp returned
    clear returned
    induction pointwise with
    | nil => simp
    | cons first _ ih =>
      rw [List.forall_mem_cons] at each
      obtain ⟨guarded, rfl⟩ := (each.1 _).mp first
      obtain ⟨later, rfl⟩ := ih each.2
      exact ⟨List.forall_mem_cons.mpr ⟨guarded, later⟩, rfl⟩
  · rintro ⟨guards, rfl⟩
    exact Result.mapM_ok convert fun input member =>
      (each input member _).mpr ⟨guards input member, rfl⟩

theorem Result.flatten_mapM_eq_iff {call : Value → Result (List Next)}
    (sized : ∀ input result, call input = .ok result → result.length = (expected input).length) :
    List.flatten <$> inputs.mapM call = .ok (inputs.flatMap expected) ↔
      ∀ input ∈ inputs, call input = .ok (expected input) := by
  constructor
  · intro returned
    obtain ⟨results, calls, joined⟩ := (Result.map_eq_ok ..).mp returned
    have pointwise := (Result.mapM_eq_ok inputs).mp calls
    have lengths : results.map List.length = (inputs.map expected).map List.length := by
      clear calls joined returned
      induction pointwise with
      | nil => rfl
      | cons first _ ih => simp [sized _ _ first, ih]
    have same : results = inputs.map expected :=
      List.eq_iff_flatten_eq.mpr ⟨by rw [joined, List.flatMap_def], lengths⟩
    rw [same, List.forall₂_map_right_iff, List.forall₂_same] at pointwise
    exact pointwise
  · intro each
    rw [Result.mapM_ok expected each, Result.map_ok, List.flatMap_def]

end Orcm
