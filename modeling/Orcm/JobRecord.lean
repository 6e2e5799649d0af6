import Orcm.AttributeCodec
import Orcm.PointerArray

/-!
Jobs on the wire, `orte_dt_pack_job` and `orte_dt_unpack_job` of `orte/runtime/data_type_support`.
Only what describes how to spawn the job is sent; the other fields are left out here. The flag that
announces a map is a loop variable of the packing function, which keeps its value from one job to
the next.
-/

namespace Orcm.JobRecord

open Cursor DssTypes DssBuffer DssPack DssUnpack DssWire DssTransfer Attributes AttributeCodec
    PointerArray

/-- `orte_app_context_t` -/
structure AppContext (machine : Machine) where
  idx : Word .four
  app : Option CText
  num_procs : Word .four
  first_rank : Word .four
  argv : Argv
  env : Argv
  cwd : Option CText
  attributes : List (Attribute machine)

/-- `orte_proc_t` -/
structure Proc (machine : Machine) where
  name : ProcessName
  parent : Word .four
  local_rank : Word .two
  node_rank : Word .two
  state : Word .four
  app_idx : Word .four
  attributes : List (Attribute machine)

/-- `orte_job_map_t` -/
structure JobMap where
  req_mapper : Option CText
  mapping : Word .two
  ranking : Word .two
  binding : Word .two
  ppr : Option CText
  display_map : Bool
  num_nodes : Word .four

/-- `orte_job_t` -/
structure Job (machine : Machine) where
  jobid : Word .four
  personality : Option CText
  num_apps : Word .four
  apps : Slots (AppContext machine)
  num_procs : Word .four
  offset : Word .four
  procs : Slots (Proc machine)
  stdin_target : Word .four
  total_slots_alloc : Word .four
  map : Option JobMap
  state : Word .four
  flags : Word .two
  attributes : List (Attribute machine)

/-! The codes of `orte/include/orte/types.h`. -/

def stdCntrCode : Word .one := 101

def procStateCode : Word .one := 103

def jobStateCode : Word .one := 104

def appContextCode : Word .one := 107

def procCode : Word .one := 112

def jobMapCode : Word .one := 113

variable (machine : Machine) (floats : FloatText)

def packStdCntr (count : Word .four) : Dss Unit :=
  packTyped machine stdCntrCode (packScalarBuffer machine .int32 [count])

def packVpid (vpid : Word .four) : Dss Unit := opalDssPackBuffer machine (.object .vpid) [vpid]

def globals {machine : Machine} (attributes : List (Attribute machine)) :
    List (Attribute machine) :=
  attributes.filter fun attr => !attr.is_local

def packAttributes (attributes : List (Attribute machine)) : Dss Unit := do
  requireCountable (globals attributes)
  packCounted (packStdCntr machine)
    (fun attr => packTyped machine attributeCode (packAttr machine floats attr))
    (globals attributes)

def packArgv (argv : Argv) : Dss Unit := do
  requireCountable (argv.getD [])
  let count := countWord (argv.getD []).length
  packStdCntr machine count
  if 0 < count.toInt then packScalarBuffer machine .string ((argv.getD []).map some)

def packAppContext (context : AppContext machine) : Dss Unit := do
  packStdCntr machine context.idx
  packScalarBuffer machine .string [context.app]
  packStdCntr machine context.num_procs
  packVpid machine context.first_rank
  packArgv machine context.argv
  packArgv machine context.env
  packScalarBuffer machine .string [context.cwd]
  packAttributes machine floats context.attributes

def packProc (proc : Proc machine) : Dss Unit := do
  packScalarBuffer machine .name [proc.name]
  packVpid machine proc.parent
  packScalarBuffer machine .uint16 [proc.local_rank]
  packScalarBuffer machine .uint16 [proc.node_rank]
  packTyped machine procStateCode (packScalarBuffer machine .uint32 [proc.state])
  packStdCntr machine proc.app_idx
  packAttributes machine floats proc.attributes

def packMap (map : JobMap) : Dss Unit := do
  packScalarBuffer machine .string [map.req_mapper]
  packScalarBuffer machine .uint16 [map.mapping]
  packScalarBuffer machine .uint16 [map.ranking]
  packScalarBuffer machine .uint16 [map.binding]
  packScalarBuffer machine .string [map.ppr]
  packScalarBuffer machine .bool [map.display_map]
  packScalarBuffer machine .uint32 [map.num_nodes]

def packEntries {Item : Type} (code : Word .one) (pack : Item → Dss Unit) (count : Word .four)
    (slots : Slots Item) :
    Dss Unit :=
  if 0 < count.toNat then slots.reduceOption.forM fun item => packTyped machine code (pack item)
    else pure ()

/-- The variable `j` when the flag of a job is packed: the loops over the two arrays leave their
sizes in it, a job without a map sets it to zero, and a job with a map leaves it as it is. -/
def mapFlag {machine : Machine} (j : Option (Word .four)) (job : Job machine) :
    Option (Word .four) :=
  let afterApps := if 0 < job.num_apps.toNat then some (countWord job.apps.length) else j
  let afterProcs := if 0 < job.num_procs.toNat then some (countWord job.procs.length) else afterApps
  if job.map.isNone then some 0 else afterProcs

def packMapFlag : Option (Word .four) → Dss Unit
  | some j => packStdCntr machine j
  -- the variable has not been assigned yet
  | none => throw .undefined

def packOptionalMap : Option JobMap → Dss Unit
  | some map => packTyped machine jobMapCode (packMap machine map)
  | none => pure ()

def packJobFront (job : Job machine) : Dss Unit := do
  opalDssPackBuffer machine (.object .jobid) [job.jobid]
  packScalarBuffer machine .string [job.personality]
  packScalarBuffer machine .uint32 [job.num_apps]
  packEntries machine appContextCode (packAppContext machine floats) job.num_apps job.apps
  packVpid machine job.num_procs
  packVpid machine job.offset
  packEntries machine procCode (packProc machine floats) job.num_procs job.procs
  packVpid machine job.stdin_target
  packStdCntr machine job.total_slots_alloc

def packJobBack (job : Job machine) : Dss Unit := do
  packTyped machine jobStateCode (packScalarBuffer machine .int32 [job.state])
  packScalarBuffer machine .uint16 [job.flags]
  packAttributes machine floats job.attributes

def packJob (j : Option (Word .four)) (job : Job machine) : Dss Unit := do
  packJobFront machine floats job
  packMapFlag machine (mapFlag j job)
  packOptionalMap machine job.map
  packJobBack machine floats job

def packJobs : Option (Word .four) → List (Job machine) → Dss Unit
  | _, [] => pure ()
  | j, job :: rest => do
      packJob machine floats j job
      packJobs (mapFlag j job) rest

def orteDtPackJob (jobs : List (Job machine)) : Dss Unit := packJobs machine floats none jobs

def unpackStdCntr : Dss (Word .four) :=
  unpackTyped machine stdCntrCode (single (unpackScalarBuffer machine .int32))

def unpackVpid : Dss (Word .four) := single (opalDssUnpackBuffer machine (.object .vpid))

def unpackGlobal : Dss (Attribute machine) := do
  let attr ← unpackTyped machine attributeCode (unpackAttr machine floats)
  pure { attr with is_local := false }

def unpackAttributes : Dss (List (Attribute machine)) :=
  unpackCounted (unpackStdCntr machine) (unpackGlobal machine floats)

/-- A vector ends at the first `NULL`. -/
def arguments : List (Option CText) → List CText
  | some text :: rest => text :: arguments rest
  | _ => []

def unpackArgv : Dss Argv := do
  let count ← unpackStdCntr machine
  if 0 < count.toInt then
    let strings ← unpackScalarBuffer machine .string count.toInt
    pure (some (arguments strings))
  else pure none

def unpackAppContext : Dss (AppContext machine) := do
  let idx ← unpackStdCntr machine
  let app ← single (unpackScalarBuffer machine .string)
  let num_procs ← unpackStdCntr machine
  let first_rank ← unpackVpid machine
  let argv ← unpackArgv machine
  let env ← unpackArgv machine
  let cwd ← single (unpackScalarBuffer machine .string)
  let attributes ← unpackAttributes machine floats
  pure { idx, app, num_procs, first_rank, argv, env, cwd, attributes }

def unpackProc : Dss (Proc machine) := do
  let name ← single (unpackScalarBuffer machine .name)
  let parent ← unpackVpid machine
  let local_rank ← single (unpackScalarBuffer machine .uint16)
  let node_rank ← single (unpackScalarBuffer machine .uint16)
  let state ← unpackTyped machine procStateCode (single (unpackScalarBuffer machine .uint32))
  let app_idx ← unpackStdCntr machine
  let attributes ← unpackAttributes machine floats
  pure { name, parent, local_rank, node_rank, state, app_idx, attributes }

def unpackMap : Dss JobMap := do
  let req_mapper ← single (unpackScalarBuffer machine .string)
  let mapping ← single (unpackScalarBuffer machine .uint16)
  let ranking ← single (unpackScalarBuffer machine .uint16)
  let binding ← single (unpackScalarBuffer machine .uint16)
  let ppr ← single (unpackScalarBuffer machine .string)
  let display_map ← single (unpackScalarBuffer machine .bool)
  let num_nodes ← single (unpackScalarBuffer machine .uint32)
  pure { req_mapper, mapping, ranking, binding, ppr, display_map, num_nodes }

def unpackEntries {Item : Type} (code : Word .one) (unpack : Dss Item) (size : Nat)
    (count : Word .four) :
    Dss (Slots Item) := do
  let items ← repeated (unpackTyped machine code unpack) count.toNat
  match items.foldlM opalPointerArrayAdd (opalPointerArrayInit size) with
  | some slots => pure slots
  | none => throw .undefined

def unpackOptionalMap (j : Word .four) : Dss (Option JobMap) :=
  if 0 < j.toNat then do
    let map ← unpackTyped machine jobMapCode (unpackMap machine)
    pure (some map)
  else pure none

def jobCon : Job machine where
  jobid := 4294967295
  personality := none
  num_apps := 0
  apps := opalPointerArrayInit 1
  num_procs := 0
  offset := 0
  procs := opalPointerArrayInit 64
  stdin_target := 4294967295
  total_slots_alloc := 0
  map := none
  state := 0
  -- `ORTE_JOB_FLAG_GANG_LAUNCHED` and `ORTE_JOB_FLAG_FORWARD_OUTPUT`
  flags := 0x0022
  attributes := []

def unpackJobFront : Dss (Job machine) := do
  let jobid ← single (opalDssUnpackBuffer machine (.object .jobid))
  let personality ← single (unpackScalarBuffer machine .string)
  let num_apps ← single (unpackScalarBuffer machine .uint32)
  let apps ← unpackEntries machine appContextCode (unpackAppContext machine floats) 1 num_apps
  let num_procs ← unpackVpid machine
  let offset ← unpackVpid machine
  let procs ← unpackEntries machine procCode (unpackProc machine floats) 64 num_procs
  let stdin_target ← unpackVpid machine
  let total_slots_alloc ← unpackStdCntr machine
  pure { jobCon machine with
    jobid, personality, num_apps, apps, num_procs, offset, procs, stdin_target, total_slots_alloc }

def unpackJobBack (job : Job machine) : Dss (Job machine) := do
  let state ← unpackTyped machine jobStateCode (single (unpackScalarBuffer machine .int32))
  let flags ← single (unpackScalarBuffer machine .uint16)
  let attributes ← unpackAttributes machine floats
  pure { job with state, flags, attributes }

def unpackJob : Dss (Job machine) := do
  let job ← unpackJobFront machine floats
  let j ← unpackStdCntr machine
  let map ← unpackOptionalMap machine j
  unpackJobBack machine floats { job with map }

def orteDtUnpackJob (num_vals : Int) : Dss (List (Job machine)) :=
  repeated (unpackJob machine floats) num_vals.toNat

/-! The fields that are sent, and how they arrive: floats are printed and read again. -/

variable {machine}

def arrivedAttributes (attributes : List (Attribute machine)) : List (Attribute machine) :=
  (globals attributes).map fun attr => { attr with value := arrivedValue floats attr.value }

def AppContext.sent (context : AppContext machine) : AppContext machine :=
  { context with
    argv := argvOf (context.argv.getD []), env := argvOf (context.env.getD []),
    attributes := globals context.attributes }

def AppContext.arrived (context : AppContext machine) : AppContext machine :=
  { context.sent with attributes := arrivedAttributes floats context.attributes }

def Proc.sent (proc : Proc machine) : Proc machine :=
  { proc with attributes := globals proc.attributes }

def Proc.arrived (proc : Proc machine) : Proc machine :=
  { proc with attributes := arrivedAttributes floats proc.attributes }

def Job.sent (job : Job machine) : Job machine :=
  { job with
    apps := (job.apps.reduceOption.map AppContext.sent).map some
    procs := (job.procs.reduceOption.map Proc.sent).map some
    attributes := globals job.attributes }

def Job.arrived (job : Job machine) : Job machine :=
  { job with
    apps := (job.apps.reduceOption.map (AppContext.arrived floats)).map some
    procs := (job.procs.reduceOption.map (Proc.arrived floats)).map some
    attributes := arrivedAttributes floats job.attributes }

theorem globals_arrivedAttributes :
    globals (arrivedAttributes floats attributes) = arrivedAttributes floats attributes := by
  refine List.filter_eq_self.mpr fun attr member => ?_
  obtain ⟨sent, isGlobal, rfl⟩ := List.mem_map.mp member
  exact (List.mem_filter.mp isGlobal).2

theorem getD_argvOf : (argvOf texts).getD [] = texts := by
  cases texts <;> rfl

theorem AppContext.sent_comp_arrived :
    AppContext.sent ∘ AppContext.arrived floats = @AppContext.arrived machine floats := by
  funext context
  simp [AppContext.sent, AppContext.arrived, globals_arrivedAttributes, getD_argvOf]

theorem Proc.sent_comp_arrived :
    Proc.sent ∘ Proc.arrived floats = @Proc.arrived machine floats := by
  funext proc
  simp [Proc.sent, Proc.arrived, globals_arrivedAttributes]

variable {floats}

theorem Job.sent_of_entries (job : Job machine) {apps : Slots (AppContext machine)}
    {procs : Slots (Proc machine)}
    (sameApps : apps.reduceOption = job.apps.reduceOption.map (AppContext.arrived floats))
    (sameProcs : procs.reduceOption = job.procs.reduceOption.map (Proc.arrived floats)) :
    Job.sent { job with apps, procs, attributes := arrivedAttributes floats job.attributes } =
      job.arrived floats := by
  simp [Job.sent, Job.arrived, sameApps, sameProcs, globals_arrivedAttributes,
    AppContext.sent_comp_arrived, Proc.sent_comp_arrived]

/-! What can be sent: lengths that an `int32_t` can count, arrays that the receiver can allocate and
that hold as many entries as the job says, and values that both switches over their types have a
case for. -/

structure AttributesFit (attributes : List (Attribute machine)) : Prop where
  count : (globals attributes).length < 2147483648
  values : ∀ attr ∈ globals attributes, Sendable machine attr.value

structure AppContext.Fits (context : AppContext machine) : Prop where
  app : TextsFit context.app
  argv : ArgvFits context.argv
  env : ArgvFits context.env
  cwd : TextsFit context.cwd
  attributes : AttributesFit context.attributes

def Proc.Fits (proc : Proc machine) : Prop := AttributesFit proc.attributes

structure JobMap.Fits (map : JobMap) : Prop where
  req_mapper : TextsFit map.req_mapper
  ppr : TextsFit map.ppr

structure EntriesFit {Item : Type} (fits : Item → Prop) (count : Word .four) (slots : Slots Item) :
    Prop where
  counted : count.toNat = slots.reduceOption.length
  small : count.toNat ≤ 2 ^ 30
  each : ∀ item ∈ slots.reduceOption, fits item

structure Job.Fits (job : Job machine) : Prop where
  personality : TextsFit job.personality
  apps : EntriesFit AppContext.Fits job.num_apps job.apps
  procs : EntriesFit Proc.Fits job.num_procs job.procs
  map : ∀ present ∈ job.map, present.Fits
  attributes : AttributesFit job.attributes

variable (machine)

theorem stdCntr_carries (count : Word .four) :
    Carries (packStdCntr machine count) (unpackStdCntr machine) count :=
  typed_carries machine stdCntrCode (scalar_carries .int32 count (by decide) trivial)

theorem vpid_carries : Carries (packVpid machine vpid) (unpackVpid machine) vpid :=
  field_carries (.object .vpid) vpid trivial trivial

theorem attributes_carries (fit : AttributesFit attributes) :
    Carries (packAttributes machine floats attributes) (unpackAttributes machine floats)
      (arrivedAttributes floats attributes) := by
  refine countable_carries fit.count ?_
  refine counted_carries (globals attributes)
    (fun attr => { attr with value := arrivedValue floats attr.value })
    fit.count (stdCntr_carries machine) fun attr member => ?_
  have isGlobal : attr.is_local = false := by simpa using (List.mem_filter.mp member).2
  have carried := carries_map (fun attr => { attr with is_local := false })
    (attribute_carries machine floats (fit.values attr member))
  simp only [isGlobal]
  exact carried

theorem arguments_map_some : arguments (texts.map some) = texts := by
  induction texts with
  | nil => rfl
  | cons text rest ih => rw [List.map_cons, arguments, ih]

theorem argv_carries (fits : ArgvFits argv) :
    Carries (packArgv machine argv) (unpackArgv machine) (argvOf (argv.getD [])) := by
  have counted : (countWord (argv.getD []).length).toInt = (argv.getD []).length :=
    count_toInt fits.count
  refine countable_carries fits.count ?_
  refine carries_bind (stdCntr_carries machine _) ?_
  rw [counted]
  by_cases empty : argv.getD [] = []
  · rw [empty]
    exact carries_pure
  · have positive : (0 : Int) < (argv.getD []).length := by
      have := List.length_pos_iff.mpr empty
      omega
    have strings := group_carries machine (.scalar .string) ((argv.getD []).map some)
      (show RoundTripScalar .string by decide)
      (by rw [List.length_map]; exact ⟨by omega, by have := fits.count; omega⟩) (by
        intro string member
        obtain ⟨text, mem, rfl⟩ := List.mem_map.mp member
        rintro _ ⟨⟩
        exact fits.texts text mem)
    rw [List.length_map] at strings
    have carried := carries_map (fun strings => some (arguments strings)) strings
    rw [arguments_map_some] at carried
    rw [if_pos positive, if_pos positive, argvOf, if_neg empty]
    exact carried

theorem appContext_carries (context : AppContext machine) (fits : context.Fits) :
    Carries (packAppContext machine floats context) (unpackAppContext machine floats)
      (context.arrived floats) := by
  refine carries_bind (stdCntr_carries machine context.idx) ?_
  refine carries_bind (string_carries machine _ fits.app) ?_
  refine carries_bind (stdCntr_carries machine context.num_procs) ?_
  refine carries_bind (vpid_carries machine) ?_
  refine carries_bind (argv_carries machine fits.argv) ?_
  refine carries_bind (argv_carries machine fits.env) ?_
  refine carries_bind (string_carries machine _ fits.cwd) ?_
  exact carries_map (fun attributes => { context.sent with attributes })
    (attributes_carries machine fits.attributes)

theorem proc_carries (proc : Proc machine) (fits : proc.Fits) :
    Carries (packProc machine floats proc) (unpackProc machine floats) (proc.arrived floats) := by
  refine carries_bind (scalar_carries .name _ (by decide) trivial) ?_
  refine carries_bind (vpid_carries machine) ?_
  refine carries_bind (scalar_carries .uint16 _ (by decide) trivial) ?_
  refine carries_bind (scalar_carries .uint16 _ (by decide) trivial) ?_
  refine carries_bind
    (typed_carries machine procStateCode (scalar_carries .uint32 _ (by decide) trivial)) ?_
  refine carries_bind (stdCntr_carries machine proc.app_idx) ?_
  exact carries_map (fun attributes => { proc with attributes }) (attributes_carries machine fits)

theorem map_carries (fits : map.Fits) : Carries (packMap machine map) (unpackMap machine) map := by
  refine carries_bind (string_carries machine _ fits.req_mapper) ?_
  refine carries_bind (scalar_carries .uint16 _ (by decide) trivial) ?_
  refine carries_bind (scalar_carries .uint16 _ (by decide) trivial) ?_
  refine carries_bind (scalar_carries .uint16 _ (by decide) trivial) ?_
  refine carries_bind (string_carries machine _ fits.ppr) ?_
  refine carries_bind (scalar_carries .bool _ (by decide) trivial) ?_
  exact carries_map (fun num_nodes => { map with num_nodes })
    (scalar_carries .uint32 _ (by decide) trivial)

theorem entries_carries (code : Word .one) (pack : Item → Dss Unit) (unpack : Dss Item)
    (fits : Item → Prop) (convert : Item → Item) (size : Nat) (divides : size ∣ 2 ^ 30)
    (count : Word .four)
    (slots : Slots Item) (each : ∀ item, fits item → Carries (pack item) unpack (convert item))
    (entries : EntriesFit fits count slots) :
    ∃ received, Carries (packEntries machine code pack count slots)
      (unpackEntries machine code unpack size count) received ∧
      received.reduceOption = slots.reduceOption.map convert := by
  have length : (slots.reduceOption.map convert).length = count.toNat := by
    rw [List.length_map, entries.counted]
  obtain ⟨received, added, holds⟩ := addAll_holds
    (init_holds divides) (by have := entries.small; rw [length, List.length_nil]; omega)
  have packs : packEntries machine code pack count slots =
      slots.reduceOption.forM fun item => packTyped machine code (pack item) := by
    rw [packEntries]
    split
    · rfl
    · have empty : slots.reduceOption = [] :=
        List.eq_nil_of_length_eq_zero (by have := entries.counted; omega)
      rw [empty]
      rfl
  have items :=
    carries_forM (fun item => packTyped machine code (pack item)) (unpackTyped machine code unpack)
    convert fun item member => typed_carries machine code (each item (entries.each item member))
  rw [← entries.counted] at items
  refine ⟨received, ?_, holds_reduceOption holds⟩
  rw [packs]
  refine carries_finish items ?_
  simp [added]

theorem optionalMap_carries (fits : ∀ present ∈ map, present.Fits)
    (announces : 0 < flag.toNat ↔ map.isSome) :
    Carries (packOptionalMap machine map) (unpackOptionalMap machine flag) map := by
  cases map with
  | none =>
    rw [unpackOptionalMap, if_neg (by simp [announces])]
    exact carries_pure
  | some map =>
    rw [unpackOptionalMap, if_pos (by simp [announces])]
    exact carries_map some (typed_carries machine jobMapCode (map_carries machine (fits map rfl)))

def Job.front {machine : Machine} (job : Job machine) (apps : Slots (AppContext machine))
    (procs : Slots (Proc machine)) :
    Job machine :=
  { jobCon machine with
    jobid := job.jobid, personality := job.personality, num_apps := job.num_apps, apps,
    num_procs := job.num_procs
    offset := job.offset, procs, stdin_target := job.stdin_target,
    total_slots_alloc := job.total_slots_alloc }

theorem jobFront_carries (fits : job.Fits) :
    ∃ apps procs, apps.reduceOption = job.apps.reduceOption.map (AppContext.arrived floats) ∧
      procs.reduceOption = job.procs.reduceOption.map (Proc.arrived floats) ∧
      Carries (packJobFront machine floats job) (unpackJobFront machine floats)
        (job.front apps procs) := by
  obtain ⟨apps, appsCarried, sameApps⟩ :=
    entries_carries machine appContextCode _ _ _ (AppContext.arrived floats) 1
    (by decide) _ _ (appContext_carries machine) fits.apps
  obtain ⟨procs, procsCarried, sameProcs⟩ :=
    entries_carries machine procCode _ _ _ (Proc.arrived floats) 64 (by decide)
    _ _ (proc_carries machine) fits.procs
  refine ⟨apps, procs, sameApps, sameProcs, ?_⟩
  refine carries_bind (field_carries (.object .jobid) _ trivial trivial) ?_
  refine carries_bind (string_carries machine _ fits.personality) ?_
  refine carries_bind (scalar_carries .uint32 _ (by decide) trivial) ?_
  refine carries_bind appsCarried ?_
  refine carries_bind (vpid_carries machine) ?_
  refine carries_bind (vpid_carries machine) ?_
  refine carries_bind procsCarried ?_
  refine carries_bind (vpid_carries machine) ?_
  exact carries_map (fun total_slots_alloc => { job.front apps procs with total_slots_alloc })
    (stdCntr_carries machine job.total_slots_alloc)

theorem jobBack_carries (front : Job machine) (fits : job.Fits) :
    Carries (packJobBack machine floats job) (unpackJobBack machine floats front)
      { front with
        state := job.state, flags := job.flags,
        attributes := arrivedAttributes floats job.attributes } := by
  refine carries_bind
    (typed_carries machine jobStateCode (scalar_carries .int32 _ (by decide) trivial)) ?_
  refine carries_bind (scalar_carries .uint16 _ (by decide) trivial) ?_
  exact carries_map
    (fun attributes => { front with state := job.state, flags := job.flags, attributes })
    (attributes_carries machine fits.attributes)

variable (floats)

theorem job_carries (fits : job.Fits) (flagged : mapFlag j job = some flag)
    (announces : 0 < flag.toNat ↔ job.map.isSome) :
    ∃ received, Carries (packJob machine floats j job) (unpackJob machine floats) received ∧
      received.sent = job.arrived floats := by
  obtain ⟨apps, procs, sameApps, sameProcs, front⟩ := jobFront_carries machine fits
  refine ⟨{ job with apps, procs, attributes := arrivedAttributes floats job.attributes }, ?_,
    job.sent_of_entries sameApps sameProcs⟩
  refine carries_bind front ?_
  rw [flagged]
  refine carries_bind (stdCntr_carries machine flag) ?_
  refine carries_bind (optionalMap_carries machine fits.map announces) ?_
  exact jobBack_carries machine _ fits

end Orcm.JobRecord
