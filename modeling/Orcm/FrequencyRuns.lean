import Orcm.FrequencyControl

/-!
Runs of the frequency control. The record of a core stays in step with its files as long as no line
is lost and the numbers come back from their `float`.
-/

namespace Orcm.FrequencyControl

open CLibrary List

theorem after_eq_success {rc : Status} :
    rc.after err = .success ↔ rc = .success ∧ err = .success := by
  cases err <;> simp [Status.after]

def setFiles (access : File → Access) : List File → Status → Core → Option (Status × Core)
  | [], rc, core => some (rc, core)
  | file :: files, rc, core =>
    (setCore file (core.trk.system file) (access file) core).bind fun done =>
      setFiles access files (rc.after done.1) done.2

abbrev everyFile : List File := [.governor, .minFreq, .maxFreq]

def resetCores (access : File → ℕ → Access) : Status → List Core → Option (Status × List Core)
  | rc, [] => some (rc, [])
  | rc, core :: rest =>
    (setFiles (fun file => access file core.number) everyFile rc core).bind fun done =>
      (resetCores access done.1 rest).map fun tail => (tail.1, done.2 :: tail.2)

variable {core : Core} {file : File} {access : File → ℕ → Access} {tracking : List Core}
    {call : Call}
    {done : Status × List Core} {origin : Origin}

theorem setCore_elsewhere {access : Access} {done : Status × Core}
    (performed : setCore file value access core = some done) : core.Elsewhere file done.2 := by
  by_cases printable : core.Printable file value access
  · obtain ⟨_, again, elsewhere, -⟩ := setCore_printable printable
    cases performed.symm.trans again
    exact elsewhere
  · rw [setCore_undefined printable] at performed
    cases performed

/-- The loop over the trackers sets each core where it stands: the numbers are distinct, and a
tracker that is still to come has not changed. -/
theorem resetLoop_eq (access : File → ℕ → Access) (before rest : List Core) (rc : Status)
    (distinct : ((before ++ rest).map Core.number).Nodup) :
    resetLoop access (rest.map Core.trk) rc (before ++ rest) =
      (resetCores access rc rest).map fun done => (done.1, before ++ done.2) := by
  induction rest generalizing before rc with
  | nil => rfl
  | cons core rest ih =>
    have fresh : core.number ∉ before.map Core.number := by
      rw [map_append, map_cons, nodup_append] at distinct
      intro inside
      exact distinct.2.2 _ inside _ mem_cons_self rfl
    rw [map_cons, resetLoop, resetCores, setFiles]
    change ((setLoop .governor core.number _ _ _).bind _) = _
    rw [setLoop_at fresh]
    cases governor : setCore .governor (core.trk.system .governor)
      (access .governor core.number) core with
    | none => rfl
    | some first =>
      have firstSame := setCore_elsewhere governor
      rw [Option.map_some, Option.bind_some, Option.bind_some, setFiles]
      change ((setLoop .minFreq core.number _ _ _).bind _) = _
      rw [← firstSame.number] at fresh
      rw [← firstSame.number, setLoop_at fresh, firstSame.system]
      cases minFreq : setCore .minFreq (core.trk.system .minFreq) (access .minFreq first.2.number)
        first.2 with
      | none => rfl
      | some second =>
        have secondSame := setCore_elsewhere minFreq
        rw [Option.map_some, Option.bind_some, Option.bind_some, setFiles]
        change ((setLoop .maxFreq core.number _ _ _).bind _) = _
        rw [← secondSame.number] at fresh
        rw [← firstSame.number, ← secondSame.number, setLoop_at fresh, secondSame.system,
          firstSame.system]
        cases maxFreq : setCore .maxFreq (core.trk.system .maxFreq)
          (access .maxFreq second.2.number) second.2 with
        | none => rfl
        | some third =>
          have thirdSame := setCore_elsewhere maxFreq
          have number : third.2.number = core.number := by
            rw [thirdSame.number, secondSame.number, firstSame.number]
          have joined : before ++ third.2 :: rest = (before ++ [third.2]) ++ rest :=
            (append_cons ..)
          have apart : (((before ++ [third.2]) ++ rest).map Core.number).Nodup := by
            rw [← joined, map_append, map_cons, number]
            rwa [map_append, map_cons] at distinct
          rw [Option.map_some, Option.bind_some, Option.bind_some, setFiles, Option.bind_some]
          change resetLoop access (rest.map Core.trk) _ (before ++ third.2 :: rest) = _
          rw [joined, ih (before ++ [third.2]) _ apart, Option.map_map]
          congr 1
          funext done
          exact congrArg (Prod.mk done.1) (append_cons ..).symm

theorem Core.Elsewhere.untouched {before after : Core} (elsewhere : before.Elsewhere file after)
    (apart : other ≠ file) (value : Value other) (access : Access) (held : Held other) :
    (after.Present other value ↔ before.Present other value) ∧
      (after.Settable other value access ↔ before.Settable other value access) ∧
      (after.Printable other value access ↔ before.Printable other value access) ∧
      (after.Becomes other value access held ↔ before.Becomes other value access held) := by
  have present : after.Present other value ↔ before.Present other value := by
    rw [Core.Present, Core.Present, elsewhere.current other apart]
  have settable : after.Settable other value access ↔ before.Settable other value access := by
    rw [Core.Settable, Core.Settable, Core.isAllowed, Core.isAllowed, elsewhere.allowed]
  refine ⟨present, settable, ?_, ?_⟩
  · rw [Core.Printable, Core.Printable, present, settable]
  · constructor
    · rintro ⟨shown, absent⟩
      rw [present, elsewhere.held other apart] at shown absent
      exact ⟨shown, absent⟩
    · rintro ⟨shown, absent⟩
      constructor
      · rwa [present, elsewhere.held other apart]
      · rwa [present, elsewhere.held other apart]

section Reset
variable {access : File → Access}

def Core.Accepts (core : Core) (file : File) (access : Access) : Prop :=
  core.Present file (core.trk.system file) ∨ core.Settable file (core.trk.system file) access

theorem setFiles_undefined (distinct : files.Nodup) {rc : Status}
    (unprintable : ∃ file ∈ files, ¬ core.Printable file (core.trk.system file) (access file)) :
    setFiles access files rc core = none := by
  induction files generalizing rc core with
  | nil =>
    obtain ⟨_, inside, -⟩ := unprintable
    cases inside
  | cons first files ih =>
    rw [setFiles]
    cases performed : setCore first (core.trk.system first) (access first) core with
    | none => rfl
    | some =>
      have elsewhere := setCore_elsewhere performed
      apply ih (List.nodup_cons.mp distinct).2
      obtain ⟨file, inside, unprintable⟩ := unprintable
      rcases List.mem_cons.mp inside with rfl | later
      · rw [setCore_undefined unprintable] at performed
        cases performed
      · have apart : file ≠ first := by
          rintro rfl
          exact (List.nodup_cons.mp distinct).1 later
        refine ⟨file, later, ?_⟩
        rw [elsewhere.system, (elsewhere.untouched apart _ _ (core.held file)).2.2.1]
        exact unprintable

theorem setFiles_printable (origin : Origin) (files : List File) (distinct : files.Nodup)
    (rc : Status) (core : Core)
    (printable : ∀ file ∈ files, core.Printable file (core.trk.system file) (access file)) :
    ∃ done, setFiles access files rc core = some done ∧ done.2.number = core.number ∧
      (∀ file, file ∉ files → done.2.held file = core.held file) ∧
      (done.1 = .success ↔ rc = .success ∧ ∀ file ∈ files, core.Accepts file (access file)) ∧
      (done.1 = .success → ∀ file ∈ files,
        (done.2.held file = origin core.number file ↔
          core.Restores origin file (access file))) := by
  induction files generalizing rc core with
  | nil =>
    refine ⟨(rc, core), rfl, rfl, fun _ _ => rfl, ?_, ?_⟩
    · exact (and_iff_left fun _ inside => by cases inside).symm
    · intro _ _ inside
      cases inside
  | cons first files ih =>
    obtain ⟨fresh, distinct⟩ := List.nodup_cons.mp distinct
    obtain ⟨done, performed, elsewhere, succeeds, becomes⟩ :=
      setCore_printable (printable first mem_cons_self)
    have apart (file : File) (inside : file ∈ files) : file ≠ first := by
      rintro rfl
      exact fresh inside
    have same (file : File) (inside : file ∈ files) :=
      elsewhere.untouched (apart file inside) (core.trk.system file) (access file)
        (origin core.number file)
    obtain ⟨last, ran, number, others, lastSucceeds, restores⟩ :=
      ih distinct (rc.after done.1) done.2 (by
      intro file inside
      rw [elsewhere.system, (same file inside).2.2.1]
      exact printable file (mem_cons_of_mem _ inside))
    refine ⟨last, ?_, number.trans elsewhere.number, ?_, ?_, ?_⟩
    · rw [setFiles, performed]
      exact ran
    · intro file outside
      rw [mem_cons, not_or] at outside
      rw [others file outside.2, elsewhere.held file outside.1]
    · rw [lastSucceeds, after_eq_success, succeeds, forall_mem_cons, and_assoc]
      apply and_congr_right'
      apply and_congr_right'
      apply forall₂_congr
      intro file inside
      rw [Core.Accepts, Core.Accepts, elsewhere.system, (same file inside).1,
        (same file inside).2.1]
    · intro succeeded file inside
      have firstSucceeded := ((after_eq_success ..).mp (lastSucceeds.mp succeeded).1).2
      rcases List.mem_cons.mp inside with rfl | inside
      · rw [others file fresh]
        exact becomes firstSucceeded _
      · rw [← elsewhere.number, restores succeeded file inside, Core.Restores, Core.Restores,
          elsewhere.system, elsewhere.number]
        exact (same file inside).2.2.2

end Reset

theorem mem_everyFile : file ∈ everyFile := by
  cases file <;> decide

theorem resetCores_undefined
    (unprintable : ∃ core ∈ tracking, ∃ file, ¬ core.Printable file (core.trk.system file)
      (access file core.number)) :
    resetCores access rc tracking = none := by
  induction tracking generalizing rc with
  | nil =>
    obtain ⟨_, inside, -⟩ := unprintable
    cases inside
  | cons first rest ih =>
    obtain ⟨core, inside, file, unprintable⟩ := unprintable
    rw [resetCores]
    rcases List.mem_cons.mp inside with rfl | later
    · rw [setFiles_undefined (by decide) ⟨file, mem_everyFile, unprintable⟩]
      rfl
    · cases setFiles (fun file => access file first.number) everyFile rc first with
      | none => rfl
      | some done =>
        rw [Option.bind_some, ih ⟨core, later, file, unprintable⟩]
        rfl

theorem resetCores_printable (origin : Origin) (rc : Status)
    (printable : ∀ core ∈ tracking, ∀ file, core.Printable file (core.trk.system file)
      (access file core.number)) :
    ∃ done, resetCores access rc tracking = some done ∧
      done.2.map Core.number = tracking.map Core.number ∧
      (done.1 = .success ↔ rc = .success ∧ ∀ core ∈ tracking, ∀ file,
        core.Accepts file (access file core.number)) ∧
      (done.1 = .success → ((∀ core ∈ done.2, ∀ file, core.held file = origin core.number file) ↔
        ∀ core ∈ tracking, ∀ file, core.Restores origin file (access file core.number))) := by
  induction tracking generalizing rc with
  | nil =>
    refine ⟨(rc, []), rfl, rfl, ?_, fun _ => Iff.rfl.trans ?_⟩
    · exact (and_iff_left fun _ inside => by cases inside).symm
    · exact iff_of_true (fun _ inside => by cases inside) fun _ inside => by cases inside
  | cons core rest ih =>
    rw [forall_mem_cons] at printable
    obtain ⟨done, performed, number, -, succeeds, restores⟩ :=
      setFiles_printable origin everyFile (by decide) rc core fun file _ => printable.1 file
    obtain ⟨tail, ran, numbers, tailSucceeds, tailRestores⟩ := ih done.1 printable.2
    refine ⟨(tail.1, done.2 :: tail.2), ?_, ?_, ?_, ?_⟩
    · rw [resetCores, performed, Option.bind_some, ran]
      rfl
    · rw [map_cons, map_cons, number, numbers]
    · have accepts : (∀ file ∈ everyFile, core.Accepts file (access file core.number)) ↔
          ∀ file, core.Accepts file (access file core.number) :=
        forall_congr' fun file => forall_prop_of_true mem_everyFile
      rw [tailSucceeds, succeeds, accepts, forall_mem_cons, and_assoc]
    · intro succeeded
      have first := (tailSucceeds.mp succeeded).1
      rw [forall_mem_cons, forall_mem_cons, tailRestores succeeded, number]
      apply and_congr_left'
      exact forall_congr' fun file => restores first file mem_everyFile

theorem reset_eq (access : File → ℕ → Access) (distinct : (tracking.map Core.number).Nodup) :
    freqResetSystemSettings access tracking = resetCores access .success tracking := by
  exact (resetLoop_eq access [] tracking .success distinct).trans (congrFun Option.map_id _)

theorem reset_iff (distinct : (tracking.map Core.number).Nodup) :
    (∃ done, freqResetSystemSettings access tracking = some done ∧ Restored origin done) ↔
      ResetMeets origin access tracking := by
  rw [reset_eq access distinct]
  by_cases printable : ∀ core ∈ tracking, ∀ file, core.Printable file (core.trk.system file)
    (access file core.number)
  · obtain ⟨done, performed, -, succeeds, restores⟩ :=
      resetCores_printable origin .success printable
    rw [performed]
    constructor
    · rintro ⟨_, again, restored⟩
      cases again
      refine ⟨printable, fun accepts => ?_⟩
      have succeeded := succeeds.mpr ⟨rfl, accepts⟩
      exact (restores succeeded).mp (restored succeeded)
    · intro meets
      refine ⟨done, rfl, fun succeeded => ?_⟩
      exact (restores succeeded).mpr (meets.restores (succeeds.mp succeeded).2)
  · refine iff_of_false ?_ fun meets => printable meets.printable
    push Not at printable
    rw [resetCores_undefined printable]
    rintro ⟨_, undefined, -⟩
    cases undefined

theorem correct_iff (origin : Origin) (distinct : (tracking.map Core.number).Nodup) (call : Call) :
    Correct origin tracking call ↔ Meets origin tracking call := by
  cases call with
  | setGovernor cpu governor access => exact set_iff
  | setMinFreq cpu freq access => exact set_iff
  | setMaxFreq cpu freq access => exact set_iff
  | reset access => exact reset_iff distinct

theorem numbers_perform (origin : Origin) (distinct : (tracking.map Core.number).Nodup)
    (performed : perform tracking call = some done) :
    done.2.map Core.number = tracking.map Core.number := by
  cases call with
  | setGovernor => exact numbers_setLoop performed
  | setMinFreq => exact numbers_setLoop performed
  | setMaxFreq => exact numbers_setLoop performed
  | reset access =>
    rw [perform, reset_eq access distinct] at performed
    by_cases printable : ∀ core ∈ tracking, ∀ file, core.Printable file (core.trk.system file)
      (access file core.number)
    · obtain ⟨_, again, numbers, -⟩ := resetCores_printable origin .success printable
      cases performed.symm.trans again
      exact numbers
    · push Not at printable
      rw [resetCores_undefined printable] at performed
      cases performed

theorem run_iff (distinct : (tracking.map Core.number).Nodup) :
    AllCorrect origin tracking calls ↔ AllMeet origin tracking calls := by
  induction calls generalizing tracking with
  | nil => exact Iff.rfl
  | cons call calls ih =>
    rw [AllCorrect, correct_iff origin distinct]
    apply and_congr_right'
    apply forall₂_congr
    intro done performed
    apply ih
    rwa [numbers_perform origin distinct performed]

def performance : CString := "performance".toList

def powersave : CString := "powersave".toList

def offering (core : ℕ) (governor : CString) : Directory where
  core := core
  held
    | .governor => governor
    | .minFreq => 800000
    | .maxFreq => 1600000
  governors := [performance, powersave]
  frequencies := [800000, 1600000]

def pair : List Core := [track (offering 0 performance), track (offering 1 powersave)]

end Orcm.FrequencyControl
