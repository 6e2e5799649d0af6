import Mathlib.Data.Int.Log
import Mathlib.Data.Rat.Floor
import Orcm.CLibrary

/-!
Governors and frequencies of the cores, `orcm/mca/pwrmgmt/base/pwrmgmt_freq_utils.c`. The loop over
all cores ends at a core whose record shows the requested value, and success is reported. A setting
is what stands in the file: the result of a write is not looked at, and the numbers of a file are
kept as a `float`, from which some of them do not come back.
-/

namespace Orcm.FrequencyControl

open CLibrary List Function

/-! Numbers of kHz in the files, and of GHz in a `float`. -/

def roundHalfEven (value : ℚ) : ℤ :=
  let below := ⌊value⌋
  if value - below < 1 / 2 then below
  else if 1 / 2 < value - below then below + 1
  else if below % 2 = 0 then below else below + 1

def roundTo (digits : ℕ) (value : ℚ) : ℚ :=
  let unit : ℚ := 2 ^ (Int.log 2 |value| - (digits - 1 : ℤ))
  roundHalfEven (value / unit) * unit

/-- A `float`; the two zeros are equal. -/
inductive Single where
  | nan
  | infinity (negative : Bool)
  | finite (value : ℚ)
  deriving DecidableEq

def Single.equal (left right : Single) : Bool := left = right && left ≠ .nan

/-- `number / 1000000.0` is a `double`, and is assigned to a `float`. -/
def ghz (number : ℕ) : Single := .finite (roundTo 24 (roundTo 53 (roundTo 53 number / 1000000)))

/-- `(unsigned long)(freq * 1000000.0)`, printed as a `long`; `none` where one of the two is
undefined. -/
def khz : Single → Option ℕ
  | .finite value =>
    let product := roundTo 53 (value * 1000000)
    if -1 < product ∧ product < 9223372036854775808 then some ⌊product⌋.toNat else none
  | .nan | .infinity _ => none

inductive File where
  | governor
  | minFreq
  | maxFreq
  deriving DecidableEq

abbrev Value : File → Type
  | .governor => CString
  | .minFreq | .maxFreq => Single

abbrev Held : File → Type
  | .governor => CString
  | .minFreq | .maxFreq => ℕ

/-- `strcmp`, or `==` of two `float`s. -/
def same : (file : File) → Value file → Value file → Bool
  | .governor => fun left right => left = right
  | .minFreq | .maxFreq => Single.equal

def reading : (file : File) → Held file → Value file
  | .governor => fun name => name
  | .minFreq | .maxFreq => ghz

def line : (file : File) → Value file → Option (Held file)
  | .governor => some
  | .minFreq | .maxFreq => khz

/-- `system` and `current` hold the governor and the two frequencies. -/
structure Tracker where
  core : ℕ
  system : (file : File) → Value file
  current : (file : File) → Value file
  governors : List CString
  frequencies : List Single

def Tracker.allowed (trk : Tracker) : (file : File) → List (Value file)
  | .governor => trk.governors
  | .minFreq | .maxFreq => trk.frequencies

structure Core where
  trk : Tracker
  held : (file : File) → Held file

def Core.number (core : Core) : ℕ := core.trk.core

/-- What `orcm_pwrmgmt_freq_init` finds in the directory of a core. -/
structure Directory where
  core : ℕ
  held : (file : File) → Held file
  governors : List CString
  frequencies : List ℕ

def track (found : Directory) : Core :=
  { trk :=
      { core := found.core
        system := fun file => reading file (found.held file)
        current := fun file => reading file (found.held file)
        governors := found.governors
        frequencies := found.frequencies.map ghz }
    held := found.held }

inductive Status where
  | success
  | notSupported
  | fileWriteFailure
  deriving DecidableEq

/-- What becomes of a file that is to be written: it cannot be opened, or the line is not taken
over, which nobody notices, or it is. -/
inductive Access where
  | refused
  | lost
  | taken
  deriving DecidableEq

def Core.written (core : Core) (file : File) (value : Value file) (access : Access)
    (held : Held file) : Core :=
  { trk := { core.trk with current := Function.update core.trk.current file value }
    held := if access = .taken then Function.update core.held file held else core.held }

def Core.isAllowed (core : Core) (file : File) (value : Value file) : Bool :=
  (core.trk.allowed file).any fun allowed => same file allowed value

/-- The body of the loop for a core that does not have the value; `none` is undefined behaviour. -/
def change (file : File) (value : Value file) (access : Access) (core : Core) :
    Option (Status × Core) :=
  if core.isAllowed file value then
    if access = .refused then some (.fileWriteFailure, core)
    else (line file value).map fun held => (.success, core.written file value access held)
  else some (.notSupported, core)

/-- The loop over the cores, which is the same for the three files. -/
def setLoop (file : File) (cpu : Int) (value : Value file) (access : ℕ → Access) :
    List Core → Option (Status × List Core)
  | [] => some (.success, [])
  | core :: rest =>
    if cpu ≠ core.number ∧ cpu ≠ -1 then
      (setLoop file cpu value access rest).map fun done => (done.1, core :: done.2)
    else if same file (core.trk.current file) value then
      -- the loop ends here, also when all cores are to be set
      some (.success, core :: rest)
    else
      (change file value (access core.number) core).bind fun changed =>
        if changed.1 ≠ .success ∨ cpu ≠ -1 then some (changed.1, changed.2 :: rest)
        else (setLoop file cpu value access rest).map fun done => (done.1, changed.2 :: done.2)

def freqSetGovernor (cpu : Int) (governor : CString) (access : ℕ → Access) (tracking : List Core) :
    Option (Status × List Core) := setLoop .governor cpu governor access tracking

def freqSetMinFreq (cpu : Int) (freq : Single) (access : ℕ → Access) (tracking : List Core) :
    Option (Status × List Core) := setLoop .minFreq cpu freq access tracking

def freqSetMaxFreq (cpu : Int) (freq : Single) (access : ℕ → Access) (tracking : List Core) :
    Option (Status × List Core) := setLoop .maxFreq cpu freq access tracking

/-- `if (ORCM_SUCCESS != err) rc = err;` -/
def Status.after (rc err : Status) : Status := if err = .success then rc else err

/-- The loop over the trackers, each of which is set through a loop over all of them. -/
def resetLoop (access : File → ℕ → Access) :
    List Tracker → Status → List Core → Option (Status × List Core)
  | [], rc, tracking => some (rc, tracking)
  | trk :: rest, rc, tracking =>
    (freqSetGovernor trk.core (trk.system .governor) (access .governor) tracking).bind
      fun governor =>
      (freqSetMinFreq trk.core (trk.system .minFreq) (access .minFreq) governor.2).bind
        fun minFreq =>
        (freqSetMaxFreq trk.core (trk.system .maxFreq) (access .maxFreq) minFreq.2).bind
          fun maxFreq =>
          resetLoop access rest (((rc.after governor.1).after minFreq.1).after maxFreq.1) maxFreq.2

def freqResetSystemSettings (access : File → ℕ → Access) (tracking : List Core) :
    Option (Status × List Core) :=
  resetLoop access (tracking.map Core.trk) .success tracking

inductive Call where
  | setGovernor (cpu : Int) (governor : CString) (access : ℕ → Access)
  | setMinFreq (cpu : Int) (freq : Single) (access : ℕ → Access)
  | setMaxFreq (cpu : Int) (freq : Single) (access : ℕ → Access)
  | reset (access : File → ℕ → Access)

def perform (tracking : List Core) : Call → Option (Status × List Core)
  | .setGovernor cpu governor access => freqSetGovernor cpu governor access tracking
  | .setMinFreq cpu freq access => freqSetMinFreq cpu freq access tracking
  | .setMaxFreq cpu freq access => freqSetMaxFreq cpu freq access tracking
  | .reset access => freqResetSystemSettings access tracking

def Core.Has (core : Core) (file : File) (value : Value file) : Prop :=
  same file (reading file (core.held file)) value = true

instance (core : Core) (file : File) (value : Value file) : Decidable (core.Has file value) :=
  inferInstanceAs (Decidable (_ = true))

/-- All cores are set when success is reported; one core is set and the others stay as they are. -/
def SetRight (file : File) (cpu : Int) (value : Value file) (before : List Core)
    (done : Status × List Core) : Prop :=
  if cpu = -1 then done.1 = .success → ∀ core ∈ done.2, core.Has file value
  else List.Forall₂ (fun core after => (core.number : Int) ≠ cpu → after = core) before done.2

abbrev Origin := ℕ → (file : File) → Held file

def Restored (origin : Origin) (done : Status × List Core) : Prop :=
  done.1 = .success → ∀ core ∈ done.2, ∀ file, core.held file = origin core.number file

def Right (origin : Origin) (before : List Core) : Call → Status × List Core → Prop
  | .setGovernor cpu governor _ => SetRight .governor cpu governor before
  | .setMinFreq cpu freq _ => SetRight .minFreq cpu freq before
  | .setMaxFreq cpu freq _ => SetRight .maxFreq cpu freq before
  | .reset _ => Restored origin

def Correct (origin : Origin) (tracking : List Core) (call : Call) : Prop :=
  ∃ done, perform tracking call = some done ∧ Right origin tracking call done

def AllCorrect (origin : Origin) (tracking : List Core) : List Call → Prop
  | [] => True
  | call :: calls => Correct origin tracking call ∧
      ∀ done, perform tracking call = some done → AllCorrect origin done.2 calls

def Core.Present (core : Core) (file : File) (value : Value file) : Prop :=
  same file (core.trk.current file) value = true

instance (core : Core) (file : File) (value : Value file) : Decidable (core.Present file value) :=
  inferInstanceAs (Decidable (_ = true))

def Core.Settable (core : Core) (file : File) (value : Value file) (access : Access) : Prop :=
  core.isAllowed file value = true ∧ access ≠ .refused

/-- If the core is written to, the number to be written is defined. -/
def Core.Printable (core : Core) (file : File) (value : Value file) (access : Access) : Prop :=
  ¬ core.Present file value → core.Settable file value access → line file value ≠ none

def Survives (file : File) (value : Value file) : Prop :=
  ∃ held, line file value = some held ∧ same file (reading file held) value = true

/-- The line is taken over and reads as the value, or it is lost on a file that reads so already. -/
def Core.Effective (core : Core) (file : File) (value : Value file) (access : Access) : Prop :=
  access = .taken ∧ Survives file value ∨ access = .lost ∧ core.Has file value

def front (file : File) (value : Value file) (tracking : List Core) : List Core :=
  tracking.takeWhile fun core => ¬ core.Present file value

def back (file : File) (value : Value file) (tracking : List Core) : List Core :=
  tracking.dropWhile fun core => ¬ core.Present file value

/-- The call fails at a core in front, or each core in front is written to with effect and the
others have the value. -/
structure Covers (file : File) (value : Value file) (access : ℕ → Access) (tracking : List Core) :
    Prop where
  printable : ∀ core, tracking.head? = some core → core.Printable file value (access core.number)
  covered : (∀ core ∈ front file value tracking, core.Settable file value (access core.number)) →
    (∀ core ∈ front file value tracking, core.Effective file value (access core.number)) ∧
      ∀ core ∈ back file value tracking, core.Has file value

def SetMeets (file : File) (cpu : Int) (value : Value file) (access : ℕ → Access)
    (tracking : List Core) : Prop :=
  if cpu = -1 then Covers file value access tracking
  else ∀ core, tracking.find? (fun core => (core.number : Int) = cpu) = some core →
    core.Printable file value (access core.number)

/-- A file that is not written, or written in vain, has the contents already; otherwise they are
what is written. -/
structure Core.Becomes (core : Core) (file : File) (value : Value file) (access : Access)
    (held : Held file) : Prop where
  present : core.Present file value → core.held file = held
  absent : ¬ core.Present file value →
    access = .taken ∧ line file value = some held ∨ access = .lost ∧ core.held file = held

def Core.Restores (core : Core) (origin : Origin) (file : File) (access : Access) : Prop :=
  core.Becomes file (core.trk.system file) access (origin core.number file)

structure ResetMeets (origin : Origin) (access : File → ℕ → Access) (tracking : List Core) :
    Prop where
  printable : ∀ core ∈ tracking, ∀ file, core.Printable file (core.trk.system file)
    (access file core.number)
  restores : (∀ core ∈ tracking, ∀ file, core.Present file (core.trk.system file) ∨
      core.Settable file (core.trk.system file) (access file core.number)) →
    ∀ core ∈ tracking, ∀ file, core.Restores origin file (access file core.number)

def Meets (origin : Origin) (tracking : List Core) : Call → Prop
  | .setGovernor cpu governor access => SetMeets .governor cpu governor access tracking
  | .setMinFreq cpu freq access => SetMeets .minFreq cpu freq access tracking
  | .setMaxFreq cpu freq access => SetMeets .maxFreq cpu freq access tracking
  | .reset access => ResetMeets origin access tracking

def AllMeet (origin : Origin) (tracking : List Core) : List Call → Prop
  | [] => True
  | call :: calls => Meets origin tracking call ∧
      ∀ done, perform tracking call = some done → AllMeet origin done.2 calls

def setCore (file : File) (value : Value file) (access : Access) (core : Core) :
    Option (Status × Core) :=
  if core.Present file value then some (.success, core) else change file value access core

structure Core.Elsewhere (file : File) (before after : Core) : Prop where
  number : after.number = before.number
  system : after.trk.system = before.trk.system
  allowed : after.trk.allowed = before.trk.allowed
  current : ∀ other, other ≠ file → after.trk.current other = before.trk.current other
  held : ∀ other, other ≠ file → after.held other = before.held other

theorem Core.Elsewhere.refl (file : File) (core : Core) : core.Elsewhere file core :=
  ⟨rfl, rfl, rfl, fun _ _ => rfl, fun _ _ => rfl⟩

section Files
variable {file : File} {value : Value file} {access : Access} {core : Core}

theorem allowed_update {trk : Tracker} :
    Tracker.allowed { trk with current } = trk.allowed := by
  funext file
  cases file <;> rfl

theorem elsewhere_written : core.Elsewhere file (core.written file value access held) where
  number := rfl
  system := rfl
  allowed := allowed_update
  current := fun other apart => update_of_ne apart _ _
  held := by
    intro other apart
    rw [Core.written]
    split
    · exact update_of_ne apart _ _
    · rfl

theorem held_written :
    (core.written file value access held).held file = if access = .taken then held
      else core.held file := by
  rw [Core.written]
  split
  · exact update_self file held core.held
  · rfl

theorem change_settable (settable : core.Settable file value access) :
    change file value access core =
      (line file value).map fun held => (.success, core.written file value access held) := by
  rw [change, if_pos settable.1, if_neg settable.2]

theorem change_unsettable (unsettable : ¬ core.Settable file value access) :
    ∃ status, status ≠ .success ∧ change file value access core = some (status, core) := by
  rw [change]
  split
  · rename_i allowed
    have refused : access = .refused := by
      by_contra opened
      exact unsettable ⟨allowed, opened⟩
    exact ⟨.fileWriteFailure, by decide, if_pos refused⟩
  · exact ⟨.notSupported, by decide, rfl⟩

theorem setCore_undefined (unprintable : ¬ core.Printable file value access) :
    setCore file value access core = none := by
  simp only [Core.Printable, Classical.not_imp, not_not] at unprintable
  obtain ⟨absent, settable, undefined⟩ := unprintable
  rw [setCore, if_neg absent, change_settable settable, undefined]
  rfl

theorem setCore_printable (printable : core.Printable file value access) :
    ∃ done, setCore file value access core = some done ∧ core.Elsewhere file done.2 ∧
      (done.1 = .success ↔ core.Present file value ∨ core.Settable file value access) ∧
      (done.1 = .success → ∀ held, done.2.held file = held ↔
        core.Becomes file value access held) := by
  rw [setCore]
  by_cases present : core.Present file value
  · refine ⟨(.success, core), if_pos present, .refl file core, iff_of_true rfl (Or.inl present), ?_⟩
    intro _ held
    exact ⟨fun same => ⟨fun _ => same, fun absent => absurd present absent⟩, fun becomes =>
      becomes.present present⟩
  · rw [if_neg present]
    by_cases settable : core.Settable file value access
    · obtain ⟨printed, printedLine⟩ := Option.ne_none_iff_exists'.mp (printable present settable)
      refine ⟨(.success, core.written file value access printed), ?_, elsewhere_written,
        iff_of_true rfl (Or.inr settable), ?_⟩
      · rw [change_settable settable, printedLine]
        rfl
      · intro _ held
        rw [held_written]
        constructor
        · intro same
          refine ⟨fun shown => absurd shown present, fun _ => ?_⟩
          cases access with
          | refused => exact absurd rfl settable.2
          | lost => exact Or.inr ⟨rfl, same⟩
          | taken => exact Or.inl ⟨rfl, printedLine.trans (congrArg some same)⟩
        · intro becomes
          rcases becomes.absent present with ⟨taken, same⟩ | ⟨lost, same⟩
          · rw [if_pos taken]
            exact Option.some.inj (printedLine.symm.trans same)
          · rw [lost, if_neg (by decide)]
            exact same
    · obtain ⟨status, failed, changed⟩ := change_unsettable settable
      refine ⟨(status, core), changed, .refl file core, iff_of_false failed ?_, fun succeeded =>
        absurd succeeded failed⟩
      rintro (shown | able)
      · exact present shown
      · exact settable able

end Files

variable {cpu : ℤ} {tracking rest : List Core}

section One
variable {file : File} {value : Value file} {access : ℕ → Access}

theorem setLoop_here :
    setLoop file core.number value access (core :: rest) =
      (setCore file value (access core.number) core).map fun done => (done.1, done.2 :: rest) := by
  rw [setLoop, if_neg (fun apart => apart.1 rfl), setCore]
  by_cases present : core.Present file value
  · rw [if_pos present]
    exact if_pos present
  · rw [if_neg present]
    refine (if_neg present).trans ?_
    cases change file value (access core.number) core with
    | none => rfl
    | some changed =>
      have one : changed.1 ≠ .success ∨ (core.number : Int) ≠ -1 := Or.inr (by omega)
      rw [Option.bind_some, if_pos one]
      rfl

theorem setLoop_apart (single : cpu ≠ -1) (apart : (core.number : Int) ≠ cpu) (rest : List Core) :
    setLoop file cpu value access (core :: rest) =
      (setLoop file cpu value access rest).map fun done => (done.1, core :: done.2) := by
  rw [setLoop, if_pos ⟨apart.symm, single⟩]

theorem setLoop_at (fresh : core.number ∉ before.map Core.number) :
    setLoop file core.number value access (before ++ core :: rest) =
      (setCore file value (access core.number) core).map fun done =>
        (done.1, before ++ done.2 :: rest) := by
  induction before with
  | nil => exact setLoop_here
  | cons first before ih =>
    rw [map_cons, mem_cons, not_or] at fresh
    have apart : (first.number : Int) ≠ core.number := by
      intro same
      exact fresh.1 (Int.ofNat_inj.mp same).symm
    rw [cons_append, setLoop_apart (by omega) apart, ih fresh.2, Option.map_map]
    rfl

theorem set_one_iff (single : cpu ≠ -1) :
    (∃ done, setLoop file cpu value access tracking = some done ∧
      List.Forall₂ (fun core after => (core.number : Int) ≠ cpu → after = core) tracking done.2) ↔
      ∀ core, tracking.find? (fun core => (core.number : Int) = cpu) = some core →
        core.Printable file value (access core.number) := by
  induction tracking with
  | nil =>
    refine iff_of_true ⟨(.success, []), rfl, .nil⟩ ?_
    intro core found
    cases found
  | cons core rest ih =>
    by_cases here : (core.number : Int) = cpu
    · subst here
      rw [setLoop_here, find?_cons_of_pos (by simp)]
      constructor
      · rintro ⟨done, performed, -⟩ other found
        cases found
        by_contra unprintable
        rw [setCore_undefined unprintable] at performed
        cases performed
      · intro printable
        obtain ⟨done, performed, -⟩ := setCore_printable (printable core rfl)
        rw [performed]
        refine ⟨_, rfl, .cons (fun apart => absurd rfl apart) ?_⟩
        exact List.forall₂_same.mpr fun _ _ _ => rfl
    · rw [setLoop_apart single here, find?_cons_of_neg (by simpa using here), ← ih]
      constructor
      · rintro ⟨done, performed, unchanged⟩
        obtain ⟨tail, ran, rfl⟩ := Option.map_eq_some_iff.mp performed
        exact ⟨tail, ran, (List.forall₂_cons.mp unchanged).2⟩
      · rintro ⟨tail, performed, unchanged⟩
        rw [performed]
        exact ⟨_, rfl, .cons (fun _ => rfl) unchanged⟩

end One

section All
variable {file : File} {value : Value file} {access : ℕ → Access} {core : Core}

theorem front_present (present : core.Present file value) (rest : List Core) :
    front file value (core :: rest) = [] := takeWhile_cons_of_neg (by simpa using present)

theorem back_present (present : core.Present file value) (rest : List Core) :
    back file value (core :: rest) = core :: rest := dropWhile_cons_of_neg (by simpa using present)

theorem front_absent (absent : ¬ core.Present file value) (rest : List Core) :
    front file value (core :: rest) = core :: front file value rest :=
  takeWhile_cons_of_pos (by simpa using absent)

theorem back_absent (absent : ¬ core.Present file value) (rest : List Core) :
    back file value (core :: rest) = back file value rest :=
  dropWhile_cons_of_pos (by simpa using absent)

theorem setLoop_all_present (present : core.Present file value) (rest : List Core) :
    setLoop file (-1) value access (core :: rest) = some (.success, core :: rest) := by
  exact if_pos present

theorem setLoop_all_absent (absent : ¬ core.Present file value) (rest : List Core) :
    setLoop file (-1) value access (core :: rest) =
      (change file value (access core.number) core).bind fun changed =>
        if changed.1 ≠ .success then some (changed.1, changed.2 :: rest)
        else (setLoop file (-1) value access rest).map fun done =>
          (done.1, changed.2 :: done.2) := by
  refine (if_neg absent).trans ?_
  simp

theorem setLoop_all (printed : line file value = some held) :
    ∃ done, setLoop file (-1) value access tracking = some done ∧
      (done.1 = .success ↔ ∀ core ∈ front file value tracking,
        core.Settable file value (access core.number)) ∧
      (done.1 = .success → done.2 =
        (front file value tracking).map
          (fun core => core.written file value (access core.number) held) ++
          back file value tracking) := by
  induction tracking with
  | nil =>
    refine ⟨(.success, []), rfl, iff_of_true rfl ?_, fun _ => rfl⟩
    intro core inside
    cases inside
  | cons core rest ih =>
    by_cases present : core.Present file value
    · rw [setLoop_all_present present, front_present present, back_present present]
      refine ⟨_, rfl, iff_of_true rfl ?_, fun _ => rfl⟩
      intro other inside
      cases inside
    · rw [setLoop_all_absent present, front_absent present, back_absent present]
      by_cases settable : core.Settable file value (access core.number)
      · obtain ⟨tail, performed, succeeds, cores⟩ := ih
        rw [change_settable settable, printed, performed]
        refine ⟨(tail.1, core.written file value (access core.number) held :: tail.2), rfl, ?_, ?_⟩
        · rw [forall_mem_cons]
          exact succeeds.trans (and_iff_right settable).symm
        · intro succeeded
          rw [map_cons, cons_append, ← cores succeeded]
      · obtain ⟨status, failed, changed⟩ := change_unsettable settable
        rw [changed, Option.bind_some, if_pos failed]
        refine ⟨_, rfl, iff_of_false failed ?_, fun succeeded => absurd succeeded failed⟩
        intro all
        exact settable (all core mem_cons_self)

theorem has_written (printed : line file value = some held) {access : Access}
    (settable : core.Settable file value access) :
    (core.written file value access held).Has file value ↔ core.Effective file value access := by
  rw [Core.Has, held_written, Core.Effective, Survives, printed]
  cases access with
  | refused => exact absurd rfl settable.2
  | lost => simp [Core.Has]
  | taken => simp

theorem set_all_unprinted (unprinted : line file value = none) :
    (∃ done, setLoop file (-1) value access tracking = some done ∧
      (done.1 = .success → ∀ core ∈ done.2, core.Has file value)) ↔
        Covers file value access tracking := by
  cases tracking with
  | nil =>
    refine iff_of_true ⟨(.success, []), rfl, ?_⟩ ⟨?_, fun _ => ⟨?_, ?_⟩⟩
    · intro _ core inside
      cases inside
    · intro core first
      cases first
    · intro core inside
      cases inside
    · intro core inside
      cases inside
  | cons core =>
    by_cases present : core.Present file value
    · rw [setLoop_all_present present]
      constructor
      · rintro ⟨done, performed, all⟩
        cases performed
        refine ⟨?_, ?_⟩
        · intro other first absent
          cases first
          exact absurd present absent
        · rw [front_present present, back_present present]
          intro _
          refine ⟨?_, all rfl⟩
          intro other inside
          cases inside
      · intro covers
        refine ⟨_, rfl, fun _ => ?_⟩
        have covered := covers.covered
        rw [front_present present, back_present present] at covered
        apply (covered _).2
        intro other inside
        cases inside
    · rw [setLoop_all_absent present]
      by_cases settable : core.Settable file value (access core.number)
      · rw [change_settable settable, unprinted]
        refine iff_of_false ?_ fun covers => covers.printable core rfl present settable unprinted
        rintro ⟨done, performed, -⟩
        cases performed
      · obtain ⟨status, failed, changed⟩ := change_unsettable settable
        rw [changed, Option.bind_some, if_pos failed]
        refine iff_of_true ⟨_, rfl, fun succeeded => absurd succeeded failed⟩ ⟨?_, ?_⟩
        · intro other first _ able
          cases first
          exact absurd able settable
        · intro all
          rw [front_absent present] at all
          exact absurd (all core mem_cons_self) settable

theorem set_all_iff :
    (∃ done, setLoop file (-1) value access tracking = some done ∧
      (done.1 = .success → ∀ core ∈ done.2, core.Has file value)) ↔
        Covers file value access tracking := by
  cases printed : line file value with
  | none => exact set_all_unprinted printed
  | some =>
    obtain ⟨done, performed, succeeds, cores⟩ :=
      (setLoop_all printed : ∃ done, setLoop file (-1) value access tracking = some done ∧ _)
    have every (succeeded : done.1 = .success) : (∀ core ∈ done.2, core.Has file value) ↔
        (∀ core ∈ front file value tracking, core.Effective file value (access core.number)) ∧
          ∀ core ∈ back file value tracking, core.Has file value := by
      rw [cores succeeded, forall_mem_append, forall_mem_map]
      apply and_congr_left'
      exact forall₂_congr fun core inside => has_written printed (succeeds.mp succeeded core inside)
    constructor
    · rintro ⟨_, again, all⟩
      cases performed.symm.trans again
      refine ⟨fun _ _ _ _ => by simp [printed], fun settable => ?_⟩
      exact (every (succeeds.mpr settable)).mp (all (succeeds.mpr settable))
    · intro covers
      refine ⟨done, performed, fun succeeded => ?_⟩
      exact (every succeeded).mpr (covers.covered (succeeds.mp succeeded))

end All

theorem numbers_setLoop (performed : setLoop file cpu value access tracking = some done) :
    done.2.map Core.number = tracking.map Core.number := by
  induction tracking generalizing done with
  | nil =>
    cases performed
    rfl
  | cons core rest ih =>
    rw [setLoop] at performed
    split at performed
    · obtain ⟨tail, ran, rfl⟩ := Option.map_eq_some_iff.mp performed
      rw [map_cons, map_cons, ih ran]
    · split at performed
      · cases performed
        rfl
      · obtain ⟨changed, change, performed⟩ := Option.bind_eq_some_iff.mp performed
        have number : changed.2.number = core.number := by
          by_cases settable : core.Settable file value (access core.number)
          · rw [change_settable settable] at change
            obtain ⟨held, -, rfl⟩ := Option.map_eq_some_iff.mp change
            rfl
          · obtain ⟨status, -, unchanged⟩ := change_unsettable settable
            cases change.symm.trans unchanged
            rfl
        split at performed
        · cases performed
          rw [map_cons, map_cons, number]
        · obtain ⟨tail, ran, rfl⟩ := Option.map_eq_some_iff.mp performed
          rw [map_cons, map_cons, ih ran, number]

theorem set_iff {value : Value file} :
    (∃ done, setLoop file cpu value access tracking = some done ∧
      SetRight file cpu value tracking done) ↔
      SetMeets file cpu value access tracking := by
  simp only [SetRight, SetMeets]
  split
  · rename_i all
    subst all
    exact set_all_iff
  · rename_i single
    exact set_one_iff single

end Orcm.FrequencyControl
