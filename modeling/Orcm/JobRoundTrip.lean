import Orcm.JobRecord

/-!
When an array of jobs comes back. A map that is not announced by the flag is lost, because the
receiver then does not look for one.
-/

namespace Orcm.JobRoundTrip

open Cursor SymbolStream DssTypes DssBuffer DssUnpack DssWire DssTransfer Attributes
    AttributeCodec List
open PointerArray JobRecord

variable {machine : Machine} (floats : FloatText)

def AttributesPack (attributes : List (Attribute machine)) : Prop :=
  ∀ attr ∈ globals attributes, PackedFits machine attr.value

/-- Arguments are packed when their number is positive as an `int32_t`. -/
def ArgvPacks (argv : Argv) : Prop :=
  (argv.getD []).length < 2147483648 → ∀ text ∈ argv.getD [], TextFits text

structure ContextPacks (context : AppContext machine) : Prop where
  app : TextsFit context.app
  argv : ArgvPacks context.argv
  env : ArgvPacks context.env
  cwd : TextsFit context.cwd
  attributes : AttributesPack context.attributes

def ProcPacks (proc : Proc machine) : Prop := AttributesPack proc.attributes

def EntriesPack {Item : Type} (packs : Item → Prop) (count : Word .four) (slots : Slots Item) :
    Prop :=
  0 < count.toNat → ∀ item ∈ slots.reduceOption, packs item

structure JobPacks (job : Job machine) : Prop where
  personality : TextsFit job.personality
  apps : EntriesPack ContextPacks job.num_apps job.apps
  procs : EntriesPack ProcPacks job.num_procs job.procs
  map : ∀ present ∈ job.map, present.Fits
  attributes : AttributesPack job.attributes

def Flagged : Option (Word .four) → List (Job machine) → Prop
  | _, [] => True
  | j, job :: rest => (mapFlag j job).isSome ∧ Flagged (mapFlag j job) rest

variable (j : Option (Word .four)) (attributes : List (Attribute machine)) (job : Job machine)
    {floats}

theorem packAttributes_needs :
    Returns (fun _ => AttributesPack attributes) (packAttributes machine floats attributes) :=
  returns_next fun _ => counted_needs (globals attributes) _ (attribute_needs machine floats)

theorem packArgv_needs : Returns (fun _ => ArgvPacks argv) (packArgv machine argv) := by
  refine returns_next fun _ => returns_next fun _ => ?_
  intro state result after ran small text member
  have counted : (countWord (argv.getD []).length).toInt = (argv.getD []).length :=
    count_toInt small
  have positive := length_pos_of_mem member
  rw [if_pos (by omega)] at ran
  exact strings_need _ _ _ _ ran (some text) (mem_map_of_mem member) text rfl

theorem packAppContext_needs (context : AppContext machine) :
    Returns (fun _ => ContextPacks context) (packAppContext machine floats context) := by
  refine returns_next fun _ => ?_
  refine returns_bind (string_needs _) fun _ app => returns_next fun _ => returns_next fun _ => ?_
  refine returns_bind packArgv_needs fun _ argv => ?_
  refine returns_bind packArgv_needs fun _ env => ?_
  refine returns_bind (string_needs _) fun _ cwd => ?_
  exact fun state result after ran =>
    ⟨app, argv, env, cwd, packAttributes_needs _ state result after ran⟩

theorem packProc_needs (proc : Proc machine) :
    Returns (fun _ => ProcPacks proc) (packProc machine floats proc) := by
  iterate 6 refine returns_next fun _ => ?_
  exact packAttributes_needs proc.attributes

theorem packMap_needs {map : JobMap} : Returns (fun _ => map.Fits) (packMap machine map) := by
  refine returns_bind (string_needs _) fun _ req_mapper => ?_
  iterate 3 refine returns_next fun _ => ?_
  exact returns_bind (string_needs _) fun _ ppr _ _ _ _ => ⟨req_mapper, ppr⟩

variable {Item : Type} {count : Word .four}

theorem packEntries_needs (each : ∀ item, Returns (fun _ => packs item) (pack item)) :
    Returns (fun _ => EntriesPack packs count slots)
      (packEntries machine code pack count slots) := by
  intro state result after ran some
  rw [packEntries, if_pos some] at ran
  exact returns_forM packs _ slots.reduceOption (fun item => returns_next fun _ => each item) state
    result after ran

theorem packJob_needs :
    Returns (fun _ => JobPacks job ∧ (mapFlag j job).isSome) (packJob machine floats j job) := by
  have front :
      Returns (fun _ => TextsFit job.personality ∧ EntriesPack ContextPacks job.num_apps job.apps ∧
      EntriesPack ProcPacks job.num_procs job.procs) (packJobFront machine floats job) := by
    refine returns_next fun _ => returns_both (string_needs _) fun _ => returns_next fun _ => ?_
    refine returns_both (packEntries_needs packAppContext_needs) fun _ => ?_
    refine returns_next fun _ => returns_next fun _ => ?_
    exact returns_bind (packEntries_needs packProc_needs) fun _ procs _ _ _ _ => procs
  have flag : Returns (fun _ => (mapFlag j job).isSome) (packMapFlag machine (mapFlag j job)) := by
    cases mapFlag j job with
    | none => exact returns_throw
    | some => exact fun _ _ _ _ => rfl
  have map :
      Returns (fun _ => ∀ present ∈ job.map, present.Fits) (packOptionalMap machine job.map) := by
    cases job.map with
    | none => exact returns_pure (by simp)
    | some map =>
      refine returns_next fun _ => ?_
      intro state result after ran present member
      rw [← Option.mem_some_iff.mp member]
      exact packMap_needs state result after ran
  refine returns_bind front fun _ ⟨personality, apps, procs⟩ => ?_
  refine returns_bind flag fun _ flagged => ?_
  refine returns_bind map fun _ map => ?_
  refine returns_next fun _ => returns_next fun _ => ?_
  exact fun state result after ran =>
    ⟨⟨personality, apps, procs, map, packAttributes_needs _ state result after ran⟩, flagged⟩

variable (jobs : List (Job machine))

theorem packJobs_needs :
    Returns (fun _ => (∀ job ∈ jobs, JobPacks job) ∧ Flagged j jobs)
      (packJobs machine floats j jobs) := by
  induction jobs generalizing j with
  | nil => exact returns_pure ⟨by simp, trivial⟩
  | cons job rest ih =>
    refine returns_bind (packJob_needs j job) fun _ ⟨packs, flagged⟩ => ?_
    refine fun state result after ran => ?_
    obtain ⟨others, flags⟩ := ih (mapFlag j job) state result after ran
    exact ⟨List.forall_mem_cons.mpr ⟨packs, others⟩, flagged, flags⟩

/-! What unpacking returns. These conditions only look at what is sent. -/

structure AttributesReturned (attributes : List (Attribute machine)) : Prop where
  count : (globals attributes).length < 2147483648
  values : ∀ attr ∈ globals attributes, PackedFits machine attr.value → Sendable machine attr.value

structure ContextReturned (context : AppContext machine) : Prop where
  argv : (context.argv.getD []).length < 2147483648
  env : (context.env.getD []).length < 2147483648
  attributes : AttributesReturned context.attributes

def ProcReturned (proc : Proc machine) : Prop := AttributesReturned proc.attributes

structure JobReturned (job : Job machine) : Prop where
  apps : EntriesFit ContextReturned job.num_apps job.apps
  procs : EntriesFit ProcReturned job.num_procs job.procs
  attributes : AttributesReturned job.attributes

theorem unpackAttributes_returns :
    Returns AttributesReturned (unpackAttributes machine floats) := by
  have each : Returns (fun attr => PackedFits machine attr.value → Sendable machine attr.value)
      (unpackGlobal machine floats) :=
    returns_bind (attribute_returns machine floats) fun _ sendable => returns_pure sendable
  intro state attributes after ran
  obtain ⟨count, sendable⟩ := counted_returns each state attributes after ran
  exact ⟨lt_of_le_of_lt (length_filter_le _ _) count, fun attr member =>
    sendable attr (mem_of_mem_filter member)⟩

theorem arguments_length_le (strings : List (Option CText)) :
    (arguments strings).length ≤ strings.length := by
  induction strings with
  | nil => exact Nat.le_refl 0
  | cons string rest ih =>
    cases string with
    | none => exact Nat.zero_le _
    | some => exact Nat.succ_le_succ ih

theorem unpackArgv_returns :
    Returns (fun argv : Argv => (argv.getD []).length < 2147483648) (unpackArgv machine) := by
  refine returns_next fun count => ?_
  have small : count.toInt < 2147483648 := count.toInt_lt
  split
  · have strings :
        Returns (fun strings => strings.length = count.toInt.toNat ∧ ∀ string ∈ strings, True)
        (unpackScalarBuffer machine .string count.toInt) :=
      returns_next fun _ => returns_repeated fun _ _ _ _ => trivial
    refine returns_bind strings fun strings length => returns_pure ?_
    have := arguments_length_le strings
    change (arguments strings).length < 2147483648
    omega
  · exact returns_pure (by decide)

theorem unpackAppContext_returns : Returns ContextReturned (unpackAppContext machine floats) := by
  iterate 4 refine returns_next fun _ => ?_
  refine returns_bind unpackArgv_returns fun _ argv => ?_
  refine returns_bind unpackArgv_returns fun _ env => returns_next fun _ => ?_
  exact returns_bind unpackAttributes_returns fun _ attributes =>
    returns_pure ⟨argv, env, attributes⟩

theorem unpackProc_returns : Returns ProcReturned (unpackProc machine floats) := by
  iterate 6 refine returns_next fun _ => ?_
  exact returns_bind unpackAttributes_returns fun _ attributes => returns_pure attributes

theorem unpackEntries_returns {size : Nat} (divides : size ∣ 2 ^ 30)
    (each : Returns returned unpack) :
    Returns (EntriesFit returned count) (unpackEntries machine code unpack size count) := by
  refine returns_bind (returns_repeated (returns_next fun _ => each)) fun items ⟨length, all⟩ => ?_
  rcases added : items.foldlM opalPointerArrayAdd (opalPointerArrayInit size) with _ | slots
  · exact returns_throw
  · have small := addAll_small (init_holds divides) (Nat.zero_le _) added
    obtain ⟨same, again, holds⟩ := addAll_holds (init_holds divides) small
    obtain rfl : slots = same := Option.some.inj (added.symm.trans again)
    have entries : slots.reduceOption = items := holds_reduceOption holds
    rw [length_nil, Nat.zero_add, length] at small
    exact returns_pure ⟨by rw [entries, length], small, by rwa [entries]⟩

theorem unpackJob_returns : Returns JobReturned (unpackJob machine floats) := by
  have front : Returns (fun job => EntriesFit ContextReturned job.num_apps job.apps ∧
      EntriesFit ProcReturned job.num_procs job.procs) (unpackJobFront machine floats) := by
    iterate 3 refine returns_next fun _ => ?_
    refine returns_bind (unpackEntries_returns (by decide) unpackAppContext_returns)
      fun _ apps => ?_
    iterate 2 refine returns_next fun _ => ?_
    refine returns_bind (unpackEntries_returns (by decide) unpackProc_returns) fun _ procs => ?_
    exact returns_next fun _ => returns_next fun _ => returns_pure ⟨apps, procs⟩
  refine returns_bind front fun _ ⟨apps, procs⟩ => ?_
  iterate 4 refine returns_next fun _ => ?_
  exact returns_bind unpackAttributes_returns fun _ attributes =>
    returns_pure ⟨apps, procs, attributes⟩

/-! Two records with the same fields to send are returned alike. -/

theorem attributesReturned_of_globals (same : globals left = globals right)
    (returned : AttributesReturned left) : AttributesReturned right :=
  ⟨same ▸ returned.count, same ▸ returned.values⟩

theorem contextReturned_of_sent (left right : AppContext machine) (same : left.sent = right.sent)
    (returned : ContextReturned left) : ContextReturned right := by
  have argv := congrArg (fun context => context.argv.getD []) same
  have env := congrArg (fun context => context.env.getD []) same
  simp only [AppContext.sent, getD_argvOf] at argv env
  exact ⟨argv ▸ returned.argv, env ▸ returned.env,
    attributesReturned_of_globals (congrArg AppContext.attributes same) returned.attributes⟩

theorem entriesFit_of_map (same : left.reduceOption.map sent = right.reduceOption.map sent)
    (each : ∀ one other, sent one = sent other → fits one → fits other)
    (entries : EntriesFit fits count left) :
    EntriesFit fits count right where
  counted := by
    have length := congrArg List.length same
    rw [length_map, length_map] at length
    rw [entries.counted, length]
  small := entries.small
  each item member := by
    obtain ⟨other, present, equal⟩ := List.mem_map.mp (same ▸ mem_map_of_mem member)
    exact each other item equal (entries.each other present)

theorem jobReturned_of_sent (same : left.sent = right.sent) (returned : JobReturned left) :
    JobReturned right := by
  have entries : ∀ {Item : Type} (one other : List Item), one.map some = other.map some →
      one = other :=
    fun one other => (List.map_injective_iff.mpr (Option.some_injective _)).eq_iff.mp
  have apps := entries _ _ (congrArg Job.apps same)
  have procs := entries _ _ (congrArg Job.procs same)
  have num_apps : left.num_apps = right.num_apps := congrArg (fun job => job.num_apps) same
  have num_procs : left.num_procs = right.num_procs := congrArg (fun job => job.num_procs) same
  constructor
  · rw [← num_apps]
    exact entriesFit_of_map apps contextReturned_of_sent returned.apps
  · rw [← num_procs]
    exact entriesFit_of_map procs
      (fun _ _ equal => attributesReturned_of_globals (congrArg Proc.attributes equal))
        returned.procs
  · exact attributesReturned_of_globals (congrArg Job.attributes same) returned.attributes

theorem attributes_fit (packs : AttributesPack attributes)
    (returned : AttributesReturned attributes) : AttributesFit attributes :=
  ⟨returned.count, fun attr member => returned.values attr member (packs attr member)⟩

theorem context_fits (context : AppContext machine) (packs : ContextPacks context)
    (returned : ContextReturned context) :
    context.Fits :=
  ⟨packs.app, ⟨returned.argv, packs.argv returned.argv⟩, ⟨returned.env, packs.env returned.env⟩,
    packs.cwd, attributes_fit _ packs.attributes returned.attributes⟩

theorem entries_fit (fits : Item → Prop) (both : ∀ item, packs item → returned item → fits item)
    (packed : EntriesPack packs count slots) (entries : EntriesFit returned count slots) :
    EntriesFit fits count slots :=
  ⟨entries.counted, entries.small, fun item member => both item
    (packed (entries.counted ▸ length_pos_of_mem member) item member) (entries.each item member)⟩

theorem job_fits (packs : JobPacks job) (returned : JobReturned job) : job.Fits :=
  ⟨packs.personality, entries_fit _ context_fits packs.apps returned.apps,
    entries_fit Proc.Fits (fun proc => attributes_fit proc.attributes) packs.procs
      returned.procs, packs.map,
    attributes_fit _ packs.attributes returned.attributes⟩

variable (floats)

def ValuesSurvive (attributes : List (Attribute machine)) : Prop :=
  ∀ attr ∈ globals attributes, arrivedValue floats attr.value = attr.value

/-- A job that fits and whose floats are what their texts say. -/
structure Survives (job : Job machine) : Prop where
  fits : job.Fits
  apps : ∀ context ∈ job.apps.reduceOption, ValuesSurvive floats context.attributes
  procs : ∀ proc ∈ job.procs.reduceOption, ValuesSurvive floats proc.attributes
  attributes : ValuesSurvive floats job.attributes

theorem arrivedAttributes_eq_iff :
    arrivedAttributes floats attributes = globals attributes ↔ ValuesSurvive floats attributes := by
  have each : ∀ attr : Attribute machine,
      { attr with value := arrivedValue floats attr.value } = attr ↔
        arrivedValue floats attr.value = attr.value := by
    rintro ⟨key, is_local, value⟩
    simp only [Attribute.mk.injEq, true_and]
  rw [ValuesSurvive, arrivedAttributes]
  nth_rewrite 2 [← map_id (globals attributes)]
  simp only [map_inj_left, id_eq, each]

theorem arrived_eq_iff :
    job.arrived floats = job.sent ↔
      (∀ context ∈ job.apps.reduceOption, ValuesSurvive floats context.attributes) ∧
        (∀ proc ∈ job.procs.reduceOption, ValuesSurvive floats proc.attributes) ∧
          ValuesSurvive floats job.attributes := by
  have context : ∀ context : AppContext machine,
      context.arrived floats = context.sent ↔
        ValuesSurvive floats context.attributes := fun context => by
    simp [AppContext.arrived, AppContext.sent, arrivedAttributes_eq_iff]
  have proc : ∀ proc : Proc machine, proc.arrived floats = proc.sent ↔
      ValuesSurvive floats proc.attributes :=
    fun proc => by simp [Proc.arrived, Proc.sent, arrivedAttributes_eq_iff]
  simp [Job.arrived, Job.sent, context, proc, arrivedAttributes_eq_iff]

def Positive (j : Option (Word .four)) : Prop := ∃ flag, j = some flag ∧ 0 < flag.toNat

def FlagsAnnounce : Option (Word .four) → List (Job machine) → Prop
  | _, [] => True
  | j, job :: rest =>
    (job.map.isSome → Positive (mapFlag j job)) ∧ FlagsAnnounce (mapFlag j job) rest

theorem mapFlag_of_positive (positive : job.map.isSome → Positive (mapFlag j job)) :
    ∃ flag, mapFlag j job = some flag ∧ (0 < flag.toNat ↔ job.map.isSome) := by
  cases present : job.map with
  | none => exact ⟨0, by simp [mapFlag, present], by simp⟩
  | some =>
    obtain ⟨flag, same, positive⟩ := positive (by rw [present]; rfl)
    exact ⟨flag, same, by simpa using positive⟩

/-- The `size` of a pointer array is an `int`. -/
def Sized (job : Job machine) : Prop := job.apps.length < 2147483648 ∧ job.procs.length < 2147483648

/-- A job with a map has an application context or a process, or stands right behind a job with a
map; the first argument tells whether such a job is in front. -/
def Announced : Prop → List (Job machine) → Prop
  | _, [] => True
  | inFront, job :: rest =>
    (job.map.isSome → inFront ∨ 0 < job.num_apps.toNat ∨ 0 < job.num_procs.toNat) ∧
      Announced job.map.isSome rest

theorem size_positive (entries : EntriesFit fits count slots) (sized : slots.length < 2147483648)
    (some : 0 < count.toNat) :
    0 < (countWord slots.length).toNat := by
  have length : slots.reduceOption.length ≤ slots.length := reduceOption_length_le slots
  have counted := entries.counted
  have size : (countWord slots.length).toNat = slots.length % 2 ^ 32 :=
    BitVec.toNat_ofNat slots.length 32
  omega

theorem mapFlag_positive_iff {job : Job machine} (fits : job.Fits) (sized : Sized job)
    (present : job.map.isSome) :
    Positive (mapFlag j job) ↔ Positive j ∨ 0 < job.num_apps.toNat ∨ 0 < job.num_procs.toNat := by
  have isMap : job.map.isNone = false := by rw [← Option.not_isSome, present]; rfl
  have apps := size_positive fits.apps sized.1
  have procs := size_positive fits.procs sized.2
  simp only [mapFlag, isMap, Bool.false_eq_true, if_false]
  by_cases someProcs : 0 < job.num_procs.toNat
  · rw [if_pos someProcs]
    exact ⟨fun _ => .inr (.inr someProcs), fun _ => ⟨_, rfl, procs someProcs⟩⟩
  · rw [if_neg someProcs]
    by_cases someApps : 0 < job.num_apps.toNat
    · rw [if_pos someApps]
      exact ⟨fun _ => .inr (.inl someApps), fun _ => ⟨_, rfl, apps someApps⟩⟩
    · rw [if_neg someApps]
      exact ⟨.inl, fun either => either.elim id (by simp [someApps, someProcs])⟩

theorem mapFlag_not_positive {job : Job machine} (absent : ¬ job.map.isSome) :
    ¬ Positive (mapFlag j job) := by
  rintro ⟨flag, assigned, positive⟩
  rw [Option.not_isSome_iff_eq_none] at absent
  obtain rfl : (0 : Word .four) = flag := by simpa [mapFlag, absent] using assigned
  exact absurd positive (by decide)

theorem flagsAnnounce_iff (fits : ∀ job ∈ jobs, job.Fits) (sized : ∀ job ∈ jobs, Sized job) :
    FlagsAnnounce j jobs ↔ Announced (Positive j) jobs := by
  induction jobs generalizing j with
  | nil => rfl
  | cons job rest ih =>
    obtain ⟨fit, otherFits⟩ := List.forall_mem_cons.mp fits
    obtain ⟨size, otherSizes⟩ := List.forall_mem_cons.mp sized
    rw [FlagsAnnounce, Announced, ih (mapFlag j job) otherFits otherSizes]
    by_cases present : job.map.isSome
    · rw [mapFlag_positive_iff j fit size present]
      refine and_congr_right fun announced => ?_
      simp [announced present, present]
    · simp [present, mapFlag_not_positive j present]

theorem jobs_carries (fits : ∀ job ∈ jobs, job.Fits) (announced : FlagsAnnounce j jobs) :
    ∃ received, Carries (packJobs machine floats j jobs)
      (repeated (unpackJob machine floats) jobs.length) received ∧
      received.map Job.sent = jobs.map (Job.arrived floats) := by
  induction jobs generalizing j with
  | nil => exact ⟨[], carries_pure, rfl⟩
  | cons job rest ih =>
    obtain ⟨fit, others⟩ := List.forall_mem_cons.mp fits
    obtain ⟨flag, flagged, announces⟩ := mapFlag_of_positive j job announced.1
    obtain ⟨first, carried, same⟩ := job_carries machine floats fit flagged announces
    obtain ⟨received, carriedRest, sameRest⟩ := ih (mapFlag j job) others announced.2
    refine ⟨first :: received, ?_, by rw [map_cons, map_cons, same, sameRest]⟩
    exact carries_bind carried (carries_map (first :: ·) carriedRest)

/-- A map behind a flag that is zero is written, but the receiver does not look for it. -/
theorem unannounced_map_is_lost (fits : job.Fits) (flagged : mapFlag j job = some 0) :
    ∃ bytes, Writes appended (Ready type) (packJob machine floats j job) bytes ∧
      ∀ later following received after, Typed type later → unread later = bytes ++ following →
        exec (unpackJob machine floats) later = (.ok received, after) → received.map = none := by
  obtain ⟨apps, procs, -, -, front⟩ := jobFront_carries machine fits
  obtain ⟨frontBytes, writesFront, readsFront⟩ := front type
  obtain ⟨flagBytes, writesFlag, readsFlag⟩ := stdCntr_carries machine 0 type
  obtain ⟨backBytes, writesBack, -⟩ := jobBack_carries machine job fits type
  obtain ⟨mapBytes, writesMap⟩ :
      ∃ bytes, Writes appended (Ready type) (packOptionalMap machine job.map) bytes := by
    cases present : job.map with
    | none => exact ⟨[], writes_pure⟩
    | some map =>
      obtain ⟨bytes, writes, -⟩ :=
        typed_carries machine jobMapCode (map_carries machine (fits.map map present)) type
      exact ⟨bytes, writes⟩
  refine ⟨frontBytes ++ (flagBytes ++ (mapBytes ++ backBytes)), ?_, ?_⟩
  · refine writes_bind writesFront ?_
    rw [flagged]
    exact writes_bind writesFlag (writes_bind writesMap writesBack)
  · intro later following received after typed stream ran
    have skipped :
        Reads (Typed type) (do let _ ← unpackJobFront machine floats; unpackStdCntr machine)
        (frontBytes ++ flagBytes) 0 := reads_bind (typed_stable type) readsFront readsFlag
    obtain ⟨first, middle, ranFront, ranRest⟩ := (exec_bind_eq_ok ..).mp ran
    obtain ⟨flag, last, ranFlag, ranMap⟩ := (exec_bind_eq_ok ..).mp ranRest
    have reading :=
      skipped later ((mapBytes ++ backBytes) ++ following) typed (by rw [stream]; simp)
    rw [exec_bind_ok ranFront, ranFlag] at reading
    obtain rfl : flag = 0 := Except.ok.inj (congrArg Prod.fst reading)
    have nothing : Returns (fun map : Option JobMap => map = none) (unpackOptionalMap machine 0) :=
      returns_pure rfl
    have lost : Returns (fun received : Job machine => received.map = none)
        (do
          let map ← unpackOptionalMap machine 0
          unpackJobBack machine floats { first with map }) := by
      refine returns_bind nothing fun map none => ?_
      iterate 3 refine returns_next fun _ => ?_
      exact returns_pure none
    exact lost _ _ _ ranMap

theorem flagsAnnounce_of_maps (fits : ∀ job ∈ jobs, job.Fits) (flagged : Flagged j jobs) :
    ∃ bytes, Writes appended (Ready type) (packJobs machine floats j jobs) bytes ∧
      ∀ later following received after, Typed type later → unread later = bytes ++ following →
        exec (repeated (unpackJob machine floats) jobs.length) later = (.ok received, after) →
        received.map Job.map = jobs.map Job.map → FlagsAnnounce j jobs := by
  induction jobs generalizing j with
  | nil => exact ⟨[], writes_pure, fun _ _ _ _ _ _ _ _ => trivial⟩
  | cons job rest ih =>
    obtain ⟨fit, others⟩ := List.forall_mem_cons.mp fits
    obtain ⟨bytes, writes, announced⟩ := ih (mapFlag j job) others flagged.2
    obtain ⟨flag, assigned⟩ := Option.isSome_iff_exists.mp flagged.1
    by_cases announces : 0 < flag.toNat ↔ job.map.isSome
    · obtain ⟨first, carried, -⟩ := job_carries machine floats fit assigned announces
      obtain ⟨front, writesFront, readsFront⟩ := carried type
      refine ⟨front ++ bytes, writes_bind writesFront writes, ?_⟩
      intro later following received after typed stream ran same
      rw [append_assoc] at stream
      have remaining : unread (advance front.length later) = bytes ++ following := by
        rw [unread_advance, stream, drop_left]
      obtain ⟨value, middle, ranFirst, ranRest⟩ := (exec_bind_eq_ok ..).mp ran
      rw [readsFront later _ typed stream] at ranFirst
      cases ranFirst
      obtain ⟨values, last, ranRest, done⟩ := (exec_bind_eq_ok ..).mp ranRest
      cases done
      obtain ⟨-, same⟩ := List.cons_eq_cons.mp same
      exact ⟨fun present => ⟨flag, assigned, announces.mpr present⟩,
        announced _ _ _ _ (typed_stable type _ _ typed) remaining ranRest same⟩
    · -- a job without a map sets the flag to zero, so this one has a map and is not announced
      have present : job.map.isSome := by
        by_contra absent
        have none := Option.not_isSome_iff_eq_none.mp absent
        obtain rfl : (0 : Word .four) = flag := by simpa [mapFlag, none] using assigned
        exact announces (by simp [none])
      obtain rfl : flag = 0 := by
        simp only [present, iff_true] at announces
        exact BitVec.eq_of_toNat_eq (Nat.eq_zero_of_not_pos announces)
      obtain ⟨front, writesFront, lost⟩ := unannounced_map_is_lost floats j job fit assigned
      refine ⟨front ++ bytes, writes_bind writesFront writes, ?_⟩
      intro later following received after typed stream ran same
      obtain ⟨value, middle, ranFirst, ranRest⟩ := (exec_bind_eq_ok ..).mp ran
      obtain ⟨values, last, ranRest, done⟩ := (exec_bind_eq_ok ..).mp ranRest
      cases done
      have none :=
        lost later (bytes ++ following) value middle typed (by rw [stream, append_assoc]) ranFirst
      obtain ⟨head, -⟩ := List.cons_eq_cons.mp same
      rw [← head, none] at present
      cases present

/-- An array of jobs comes back with the fields that are sent, the map among them, and unpacking
stops where the packed bytes end, exactly when all jobs survive and every map is announced. -/
theorem job_round_trip_iff (jobs : List (Job machine)) (sized : ∀ job ∈ jobs, Sized job) :
    (∃ received, ComesBack (orteDtPackJob machine floats jobs)
      (orteDtUnpackJob machine floats jobs.length) received ∧
        received.map Job.sent = jobs.map Job.sent) ↔
      (∀ job ∈ jobs, Survives floats job) ∧ Announced False jobs := by
  have start : ¬ Positive none := fun ⟨_, assigned, _⟩ => nomatch assigned
  constructor
  · rintro ⟨received, comesBack, same⟩
    obtain ⟨packs, flagged⟩ := comesBack_needs comesBack (packJobs_needs none jobs)
    have returned := (comesBack_returns comesBack (returns_repeated unpackJob_returns)).2
    have fits : ∀ job ∈ jobs, job.Fits := by
      intro job member
      obtain ⟨other, present, equal⟩ := List.mem_map.mp (same ▸ List.mem_map_of_mem member)
      exact job_fits job (packs job member) (jobReturned_of_sent equal (returned other present))
    have maps : received.map Job.map = jobs.map Job.map := by
      have := congrArg (List.map Job.map) same
      rwa [List.map_map, List.map_map] at this
    have announced : FlagsAnnounce none jobs := by
      obtain ⟨bytes, writes, announced⟩ := flagsAnnounce_of_maps floats none jobs fits flagged
      obtain ⟨packed, ran, -, continued, reads⟩ := continued_stream empty_valid writes
      obtain ⟨following, typed, stream, -⟩ := reads _ continued
      obtain ⟨again, ranToo, -, unpacks⟩ := comesBack (Buffer.empty .nonDesc) empty_valid
      obtain rfl : packed = again := congrArg Prod.snd (ran.symm.trans ranToo)
      exact announced _ following received _ typed stream (unpacks _ continued) maps
    obtain ⟨arrived, carried, equal⟩ := jobs_carries floats none jobs fits announced
    obtain rfl : received = arrived := comesBack_unique comesBack carried
    rw [flagsAnnounce_iff none jobs fits sized, eq_false start] at announced
    refine ⟨fun job member => ?_, announced⟩
    obtain ⟨apps, procs, attributes⟩ :=
      (arrived_eq_iff floats job).mp (List.map_inj_left.mp (equal.symm.trans same) job member)
    exact ⟨fits job member, apps, procs, attributes⟩
  · rintro ⟨survive, announced⟩
    have fits : ∀ job ∈ jobs, job.Fits := fun job member => (survive job member).fits
    rw [← eq_false start, ← flagsAnnounce_iff none jobs fits sized] at announced
    obtain ⟨received, carried, same⟩ := jobs_carries floats none jobs fits announced
    refine ⟨received, comesBack_of_carries carried, same.trans ?_⟩
    refine List.map_inj_left.mpr fun job member => (arrived_eq_iff floats job).mpr ?_
    exact ⟨(survive job member).apps, (survive job member).procs, (survive job member).attributes⟩

def plainMap : JobMap := ⟨none, 0, 0, 0, none, false, 0⟩

def plainProc : Proc .lp64 := ⟨⟨1, 0⟩, 0, 0, 0, 0, 0, []⟩

def mappedJob : Job .lp64 :=
  { jobCon .lp64 with num_procs := 1, procs := [some plainProc], map := some plainMap }

theorem mappedJob_survives : Survives .zero mappedJob where
  fits := by
    refine ⟨by rintro _ ⟨⟩, ⟨by decide, by decide, nofun⟩, ⟨by decide, by decide, ?_⟩, ?_,
      ⟨by decide, nofun⟩⟩
    · intro proc member
      obtain rfl := List.mem_singleton.mp member
      exact ⟨by decide, nofun⟩
    · rintro _ ⟨⟩
      exact ⟨by rintro _ ⟨⟩, by rintro _ ⟨⟩⟩
  apps := nofun
  procs := by
    intro proc member
    obtain rfl := List.mem_singleton.mp member
    exact nofun
  attributes := nofun

theorem mapped_job_comes_back :
    (∀ job ∈ [mappedJob], Sized job) ∧
      ∃ received, ComesBack (orteDtPackJob .lp64 .zero [mappedJob])
        (orteDtUnpackJob .lp64 .zero 1) received ∧
        received.map Job.sent = [mappedJob].map Job.sent :=
  have sized : ∀ job ∈ [mappedJob], Sized job := by
    intro job member
    obtain rfl := List.mem_singleton.mp member
    exact ⟨by decide, by decide⟩
  ⟨sized, (job_round_trip_iff .zero [mappedJob] sized).mpr
    ⟨by simpa using mappedJob_survives, ⟨fun _ => .inr (.inr (by decide)), trivial⟩⟩⟩

/-- A job without a map sets the variable to zero; the map of the next job is then not announced,
and the array cannot be unpacked. -/
theorem map_is_not_announced :
    let packed :=
  exec (orteDtPackJob .lp64 .zero [jobCon .lp64, { jobCon .lp64 with map := some plainMap }])
      (Buffer.empty .fullyDesc)
    packed.1 = .ok () ∧ ((exec (orteDtUnpackJob .lp64 .zero 2) packed.2).1.map fun _ => ()) ≠
      .ok () := by
  decide +kernel

end Orcm.JobRoundTrip
