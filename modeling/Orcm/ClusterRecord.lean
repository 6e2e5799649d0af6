import Orcm.DssTransfer

/-!
Cluster definitions on the wire, `orcm/mca/cfgi/base/cfgi_dt_fns.c`. Pointers back to the parent,
the topology and the number of processing elements are not sent and left out here. A `NULL` argument
vector and one without arguments are kept apart.
-/

namespace Orcm.ClusterRecord

open Cursor DssTypes DssBuffer DssPack DssUnpack DssWire DssTransfer List

/-- `orcm_config_t` -/
structure Config where
  mca_params : Argv
  env : Argv
  port : Option CText
  aggregator : Bool
  deriving DecidableEq, Repr

/-- `orcm_node_t` -/
structure Node where
  name : Option CText
  daemon : ProcessName
  config : Config
  state : Word .one
  scd_state : Word .one
  deriving DecidableEq, Repr

structure Rack where
  name : Option CText
  controller : Node
  nodes : List Node
  deriving DecidableEq, Repr

structure Row where
  name : Option CText
  controller : Node
  racks : List Rack
  deriving DecidableEq, Repr

structure Cluster where
  name : Option CText
  controller : Node
  rows : List Row
  deriving DecidableEq, Repr

structure Scheduler where
  controller : Node
  queues : Argv
  deriving DecidableEq, Repr

/-! The codes of `orcm/include/orcm/types.h`. -/

def nodeCode : Word .one := 152

def rackCode : Word .one := 153

def rowCode : Word .one := 154

variable (machine : Machine)

def packCount (count : Word .four) : Dss Unit := packScalarBuffer machine .int32 [count]

/-- `opal_argv_count` counts in an `int`. -/
def packArgv (argv : Argv) : Dss Unit := do
  requireCountable (argv.getD [])
  packCounted (packCount machine) (fun text => packScalarBuffer machine .string [some text])
    (argv.getD [])

def packConfig (config : Config) : Dss Unit := do
  packArgv machine config.mca_params
  packArgv machine config.env
  packScalarBuffer machine .string [config.port]
  packScalarBuffer machine .bool [config.aggregator]

def packNode (node : Node) : Dss Unit := do
  packScalarBuffer machine .string [node.name]
  packScalarBuffer machine .name [node.daemon]
  packConfig machine node.config
  packScalarBuffer machine .int8 [node.state]
  packScalarBuffer machine .int8 [node.scd_state]

def orcmPackNode (nodes : List Node) : Dss Unit := nodes.forM (packNode machine)

/-- What racks, rows and clusters have in common: a name, a controller and the objects of the level
below. -/
def packLevel {Child : Type} (childCode : Word .one) (packChild : Child → Dss Unit)
    (name : Option CText) (controller : Node) (children : List Child) : Dss Unit := do
  packScalarBuffer machine .string [name]
  packTyped machine nodeCode (packNode machine controller)
  packCounted (packCount machine) (fun child => packTyped machine childCode (packChild child))
    children

def packRack (rack : Rack) : Dss Unit :=
  packLevel machine nodeCode (packNode machine) rack.name rack.controller rack.nodes

def orcmPackRack (racks : List Rack) : Dss Unit := racks.forM (packRack machine)

def packRow (row : Row) : Dss Unit :=
  packLevel machine rackCode (packRack machine) row.name row.controller row.racks

def orcmPackRow (rows : List Row) : Dss Unit := rows.forM (packRow machine)

def packCluster (cluster : Cluster) : Dss Unit :=
  packLevel machine rowCode (packRow machine) cluster.name cluster.controller cluster.rows

def orcmPackCluster (clusters : List Cluster) : Dss Unit := clusters.forM (packCluster machine)

def packScheduler (scheduler : Scheduler) : Dss Unit := do
  packTyped machine nodeCode (packNode machine scheduler.controller)
  packArgv machine scheduler.queues

def orcmPackScheduler (schedulers : List Scheduler) : Dss Unit :=
  schedulers.forM (packScheduler machine)

def unpackCount : Dss (Word .four) := single (unpackScalarBuffer machine .int32)

def unpackArgument : Dss CText := do
  match ← single (unpackScalarBuffer machine .string) with
  | some text => pure text
  -- `strdup` of a `NULL` pointer
  | none => throw .undefined

def unpackArgv : Dss Argv := do
  let texts ← unpackCounted (unpackCount machine) (unpackArgument machine)
  pure (argvOf texts)

def unpackConfig : Dss Config := do
  let mca_params ← unpackArgv machine
  let env ← unpackArgv machine
  let port ← single (unpackScalarBuffer machine .string)
  let aggregator ← single (unpackScalarBuffer machine .bool)
  pure { mca_params, env, port, aggregator }

def unpackNode : Dss Node := do
  let name ← single (unpackScalarBuffer machine .string)
  let daemon ← single (unpackScalarBuffer machine .name)
  let config ← unpackConfig machine
  let state ← single (unpackScalarBuffer machine .int8)
  let scd_state ← single (unpackScalarBuffer machine .int8)
  pure { name, daemon, config, state, scd_state }

def orcmUnpackNode (num_vals : Int) : Dss (List Node) :=
  repeated (unpackNode machine) num_vals.toNat

def unpackLevel {Child Level : Type} (childCode : Word .one) (unpackChild : Dss Child)
    (make : Option CText → Node → List Child → Level) : Dss Level := do
  let name ← single (unpackScalarBuffer machine .string)
  let controller ← unpackTyped machine nodeCode (unpackNode machine)
  let children ← unpackCounted (unpackCount machine) (unpackTyped machine childCode unpackChild)
  pure (make name controller children)

def unpackRack : Dss Rack := unpackLevel machine nodeCode (unpackNode machine) Rack.mk

def orcmUnpackRack (num_vals : Int) : Dss (List Rack) :=
  repeated (unpackRack machine) num_vals.toNat

def unpackRow : Dss Row := unpackLevel machine rackCode (unpackRack machine) Row.mk

def orcmUnpackRow (num_vals : Int) : Dss (List Row) := repeated (unpackRow machine) num_vals.toNat

def unpackCluster : Dss Cluster := unpackLevel machine rowCode (unpackRow machine) Cluster.mk

def orcmUnpackCluster (num_vals : Int) : Dss (List Cluster) :=
  repeated (unpackCluster machine) num_vals.toNat

def schedulerCon : Scheduler where
  controller := ⟨none, ⟨4294967295, 4294967295⟩, ⟨none, none, none, false⟩, 0, 0⟩
  queues := none

def unpackScheduler : Dss Scheduler := do
  let controller ← unpackTyped machine nodeCode (unpackNode machine)
  let queues ← unpackArgv machine
  pure { controller, queues }

/-- The loop only creates the objects; the data of one scheduler is then read into the last of
them. -/
def orcmUnpackScheduler (num_vals : Int) : Dss (List Scheduler) := do
  if 0 < num_vals then
    let scheduler ← unpackScheduler machine
    pure (List.replicate (num_vals.toNat - 1) schedulerCon ++ [scheduler])
  else throw (.error .outOfResource)

/-! What fits: strings and lists whose lengths an `int32_t` can count, and no argument vector that
is allocated but empty. -/

structure ArgvFilled (argv : Argv) : Prop where
  filled : argv ≠ some []
  fits : ArgvFits argv

structure Node.Fits (node : Node) : Prop where
  name : TextsFit node.name
  mca_params : ArgvFilled node.config.mca_params
  env : ArgvFilled node.config.env
  port : TextsFit node.config.port

structure LevelFits {Child : Type} (childFits : Child → Prop) (name : Option CText)
    (controller : Node) (children : List Child) : Prop where
  name : TextsFit name
  controller : controller.Fits
  count : children.length < 2147483648
  children : ∀ child ∈ children, childFits child

def Rack.Fits (rack : Rack) : Prop := LevelFits Node.Fits rack.name rack.controller rack.nodes

def Row.Fits (row : Row) : Prop := LevelFits Rack.Fits row.name row.controller row.racks

def Cluster.Fits (cluster : Cluster) : Prop :=
  LevelFits Row.Fits cluster.name cluster.controller cluster.rows

structure Scheduler.Fits (scheduler : Scheduler) : Prop where
  controller : scheduler.controller.Fits
  queues : ArgvFilled scheduler.queues

theorem packCount_carries (count : Word .four) :
    Carries (packCount machine count) (unpackCount machine) count :=
  scalar_carries .int32 count (by decide) trivial

theorem argument_carries (fits : TextFits text) :
    Carries (packScalarBuffer machine .string [some text]) (unpackArgument machine) text := by
  have string := string_carries machine (some text) (by rintro _ ⟨⟩; exact fits)
  exact carries_finish string rfl

theorem argv_carries (given : ArgvFilled argv) :
    Carries (packArgv machine argv) (unpackArgv machine) argv := by
  have texts := counted_carries (argv.getD []) id given.fits.count (packCount_carries machine)
    fun text member => argument_carries machine (given.fits.texts text member)
  have carried := carries_map argvOf texts
  rw [map_id, argvOf_getD given.filled] at carried
  exact countable_carries given.fits.count carried

variable {machine}

theorem node_carries (node : Node) (fits : node.Fits) :
    Carries (packNode machine node) (unpackNode machine) node := by
  have config : Carries (packConfig machine node.config) (unpackConfig machine) node.config := by
    refine carries_bind (argv_carries machine fits.mca_params) ?_
    refine carries_bind (argv_carries machine fits.env) ?_
    refine carries_bind (string_carries machine _ fits.port) ?_
    exact carries_map (fun aggregator => { node.config with aggregator })
      (scalar_carries .bool _ (by decide) trivial)
  refine carries_bind (string_carries machine _ fits.name) ?_
  refine carries_bind (scalar_carries .name _ (by decide) trivial) ?_
  refine carries_bind config ?_
  refine carries_bind (scalar_carries .int8 _ (by decide) trivial) ?_
  exact carries_map (fun scd_state => { node with scd_state })
    (scalar_carries .int8 _ (by decide) trivial)

variable (controller : Node)

theorem controller_carries (fits : controller.Fits) :
    Carries (packTyped machine nodeCode (packNode machine controller))
      (unpackTyped machine nodeCode (unpackNode machine))
      controller :=
  typed_carries machine nodeCode (node_carries controller fits)

variable {Child : Type}

theorem level_carries
    (below : ∀ child, childFits child → Carries (packChild child) unpackChild child)
    (fits : LevelFits childFits name controller children) :
    Carries (packLevel machine childCode packChild name controller children)
      (unpackLevel machine childCode unpackChild make) (make name controller children) := by
  refine carries_bind (string_carries machine _ fits.name) ?_
  refine carries_bind (controller_carries controller fits.controller) ?_
  have each :=
    counted_carries children id fits.count (packCount_carries machine) fun child member =>
    typed_carries machine childCode (below child (fits.children child member))
  rw [map_id] at each
  exact carries_map (make name controller) each

theorem rack_carries (rack : Rack) (fits : rack.Fits) :
    Carries (packRack machine rack) (unpackRack machine) rack :=
  level_carries _ node_carries fits

theorem row_carries (row : Row) (fits : row.Fits) :
    Carries (packRow machine row) (unpackRow machine) row :=
  level_carries _ rack_carries fits

theorem cluster_carries (cluster : Cluster) (fits : cluster.Fits) :
    Carries (packCluster machine cluster) (unpackCluster machine) cluster :=
  level_carries _ row_carries fits

theorem scheduler_carries (fits : scheduler.Fits) :
    Carries (packScheduler machine scheduler) (unpackScheduler machine) scheduler := by
  refine carries_bind (controller_carries _ fits.controller) ?_
  exact carries_map (fun queues => { scheduler with queues }) (argv_carries machine fits.queues)

/-! What packing needs and what unpacking returns, level by level. -/

def ArgvPacks (argv : Argv) : Prop := ∀ text ∈ argv.getD [], TextFits text

structure ArgvUnpacks (argv : Argv) : Prop where
  filled : argv ≠ some []
  count : (argv.getD []).length < 2147483648

structure Node.Packs (node : Node) : Prop where
  name : TextsFit node.name
  mca_params : ArgvPacks node.config.mca_params
  env : ArgvPacks node.config.env
  port : TextsFit node.config.port

structure Node.Unpacks (node : Node) : Prop where
  mca_params : ArgvUnpacks node.config.mca_params
  env : ArgvUnpacks node.config.env

structure LevelPacks {Child : Type} (childPacks : Child → Prop) (name : Option CText)
    (controller : Node) (children : List Child) : Prop where
  name : TextsFit name
  controller : controller.Packs
  children : ∀ child ∈ children, childPacks child

structure LevelUnpacks {Child : Type} (childUnpacks : Child → Prop) (controller : Node)
    (children : List Child) :
    Prop where
  controller : controller.Unpacks
  count : children.length < 2147483648
  children : ∀ child ∈ children, childUnpacks child

def Rack.Packs (rack : Rack) : Prop := LevelPacks Node.Packs rack.name rack.controller rack.nodes

def Rack.Unpacks (rack : Rack) : Prop := LevelUnpacks Node.Unpacks rack.controller rack.nodes

def Row.Packs (row : Row) : Prop := LevelPacks Rack.Packs row.name row.controller row.racks

def Row.Unpacks (row : Row) : Prop := LevelUnpacks Rack.Unpacks row.controller row.racks

def Cluster.Packs (cluster : Cluster) : Prop :=
  LevelPacks Row.Packs cluster.name cluster.controller cluster.rows

def Cluster.Unpacks (cluster : Cluster) : Prop :=
  LevelUnpacks Row.Unpacks cluster.controller cluster.rows

theorem argv_fits (packs : ArgvPacks argv) (unpacks : ArgvUnpacks argv) : ArgvFilled argv :=
  ⟨unpacks.filled, unpacks.count, packs⟩

theorem node_fits (node : Node) (packs : node.Packs) (unpacks : node.Unpacks) : node.Fits :=
  ⟨packs.name, argv_fits packs.mca_params unpacks.mca_params, argv_fits packs.env unpacks.env,
    packs.port⟩

theorem level_fits (below : ∀ child, childPacks child → childUnpacks child → childFits child)
    (name : Option CText)
    (children : List Child) (packs : LevelPacks childPacks name controller children)
    (unpacks : LevelUnpacks childUnpacks controller children) :
    LevelFits childFits name controller children :=
  ⟨packs.name, node_fits controller packs.controller unpacks.controller, unpacks.count,
    fun child member => below child (packs.children child member) (unpacks.children child member)⟩

theorem packArgv_needs : Returns (fun _ => ArgvPacks argv) (packArgv machine argv) := by
  refine returns_next fun _ => counted_needs (argv.getD []) _ fun text => ?_
  exact fun state result after ran => string_needs (some text) state result after ran text rfl

theorem unpackArgv_returns : Returns ArgvUnpacks (unpackArgv machine) := by
  have texts : Returns (fun texts => texts.length < 2147483648 ∧ ∀ text ∈ texts, True)
      (unpackCounted (unpackCount machine) (unpackArgument machine)) :=
    counted_returns fun _ _ _ _ => trivial
  refine returns_bind texts fun texts ⟨count, _⟩ => returns_pure ⟨?_, ?_⟩
  · cases texts <;> simp [argvOf]
  · cases texts with
    | nil => decide
    | cons => exact count

theorem packNode_needs (node : Node) : Returns (fun _ => node.Packs) (packNode machine node) := by
  refine returns_bind (string_needs _) fun _ name => returns_next fun _ => ?_
  refine returns_bind (?_ : Returns (fun _ => ArgvPacks node.config.mca_params ∧
    ArgvPacks node.config.env ∧
    TextsFit node.config.port) _) fun _ config => fun _ _ _ _ =>
      ⟨name, config.1, config.2.1, config.2.2⟩
  refine returns_both packArgv_needs fun _ => ?_
  refine returns_both packArgv_needs fun _ => ?_
  exact returns_bind (string_needs _) fun _ port => fun _ _ _ _ => port

theorem unpackNode_returns : Returns Node.Unpacks (unpackNode machine) := by
  have config : Returns (fun config => ArgvUnpacks config.mca_params ∧ ArgvUnpacks config.env)
      (unpackConfig machine) := by
    refine returns_bind unpackArgv_returns fun _ mca_params => ?_
    refine returns_bind unpackArgv_returns fun _ env => ?_
    exact returns_next fun _ => returns_next fun _ => returns_pure ⟨mca_params, env⟩
  refine returns_next fun _ => returns_next fun _ => ?_
  refine returns_bind config fun _ shaped => ?_
  exact returns_next fun _ => returns_next fun _ => returns_pure ⟨shaped.1, shaped.2⟩

theorem packLevel_needs (below : ∀ child, Returns (fun _ => childPacks child) (packChild child)) :
    Returns (fun _ => LevelPacks childPacks name controller children)
      (packLevel machine childCode packChild name controller children) := by
  refine returns_bind (string_needs _) fun _ name => ?_
  refine returns_bind (returns_next fun _ => packNode_needs controller) fun _ controller => ?_
  intro state result after ran
  exact ⟨name, controller, counted_needs children _ (fun child => returns_next fun _ => below child)
    state result
    after ran⟩

theorem unpackLevel_returns (below : Returns childUnpacks unpackChild)
    (made : ∀ name controller children, LevelUnpacks childUnpacks controller children →
      unpacks (make name controller children)) :
    Returns unpacks (unpackLevel machine childCode unpackChild make) := by
  refine returns_next fun name => ?_
  refine returns_bind (returns_next fun _ => unpackNode_returns) fun controller shaped => ?_
  refine returns_bind (counted_returns (returns_next fun _ => below)) fun children each => ?_
  exact returns_pure (made name controller children ⟨shaped, each.1, each.2⟩)

theorem packRack_needs (rack : Rack) : Returns (fun _ => rack.Packs) (packRack machine rack) :=
  packLevel_needs _ packNode_needs

theorem unpackRack_returns : Returns Rack.Unpacks (unpackRack machine) :=
  unpackLevel_returns unpackNode_returns fun _ _ _ shaped => shaped

theorem packRow_needs (row : Row) : Returns (fun _ => row.Packs) (packRow machine row) :=
  packLevel_needs _ packRack_needs

theorem unpackRow_returns : Returns Row.Unpacks (unpackRow machine) :=
  unpackLevel_returns unpackRack_returns fun _ _ _ shaped => shaped

theorem packCluster_needs (cluster : Cluster) :
    Returns (fun _ => cluster.Packs) (packCluster machine cluster) :=
  packLevel_needs _ packRow_needs

theorem unpackCluster_returns : Returns Cluster.Unpacks (unpackCluster machine) :=
  unpackLevel_returns unpackRow_returns fun _ _ _ shaped => shaped

theorem rack_fits (rack : Rack) : rack.Packs → rack.Unpacks → rack.Fits :=
  level_fits _ node_fits _ _

theorem row_fits (row : Row) : row.Packs → row.Unpacks → row.Fits :=
  level_fits _ rack_fits _ _

theorem cluster_fits (cluster : Cluster) : cluster.Packs → cluster.Unpacks → cluster.Fits :=
  level_fits _ row_fits _ _

theorem array_comesBack_iff (pack : Object → Dss Unit) (unpack : Dss Object)
    (packs unpacks fits : Object → Prop)
    (carried : ∀ object, fits object → Carries (pack object) unpack object)
    (needs : ∀ object, Returns (fun _ => packs object) (pack object))
    (returns : Returns unpacks unpack)
    (both : ∀ object, packs object → unpacks object → fits object) (objects : List Object) :
    ComesBack (objects.forM pack) (repeated unpack (objects.length : Int).toNat) objects ↔
      ∀ object ∈ objects, fits object := by
  constructor
  · intro comesBack object member
    have packed := comesBack_needs comesBack (returns_forM packs pack objects needs)
    have unpacked := (comesBack_returns comesBack (returns_repeated returns)).2
    exact both object (packed object member) (unpacked object member)
  · intro all
    have each := carries_forM pack unpack id fun object member => carried object (all object member)
    rw [map_id] at each
    exact comesBack_of_carries each

/-! Schedulers. However many are asked for, the data of the first is read, into the last object. -/

theorem unpackScheduler_many :
    orcmUnpackScheduler machine (others + 1 : Nat) =
      (do
        let last ← unpackScheduler machine
        pure (List.replicate others schedulerCon ++ [last])) := by
  rw [orcmUnpackScheduler, if_pos (by omega)]
  rfl

theorem packScheduler_needs (scheduler : Scheduler) :
    Returns (fun _ => scheduler.controller.Packs ∧ ArgvPacks scheduler.queues)
      (packScheduler machine scheduler) :=
  returns_both (returns_next fun _ => packNode_needs _) fun _ => packArgv_needs

theorem unpackScheduler_returns :
    Returns (fun scheduler => scheduler.controller.Unpacks ∧ ArgvUnpacks scheduler.queues)
      (unpackScheduler machine) := by
  refine returns_bind (returns_next fun _ => unpackNode_returns) fun _ controller => ?_
  exact returns_bind unpackArgv_returns fun _ queues => returns_pure ⟨controller, queues⟩

theorem unpackScheduler_empty :
    ¬ Reads (Typed type) (unpackScheduler machine) [] scheduler := by
  intro reads
  have ran := reads (Buffer.empty type) [] ⟨rfl, rfl⟩ rfl
  obtain ⟨_, size_t⟩ := machine
  cases size_t <;> cases type <;> cases ran

theorem schedulerCon_fits : schedulerCon.Fits := by
  refine ⟨⟨?_, ⟨by decide, by decide, ?_⟩, ⟨by decide, by decide, ?_⟩, ?_⟩,
    ⟨by decide, by decide, ?_⟩⟩
  all_goals simp [TextsFit, schedulerCon]

theorem schedulers_left :
    ¬ ComesBack (orcmPackScheduler machine (first :: second :: rest))
      (orcmUnpackScheduler machine (rest.length + 1 + 1 : Nat)) (first :: second :: rest) := by
  intro comesBack
  rw [unpackScheduler_many] at comesBack
  obtain ⟨packed, ran, read⟩ := comesBack_run comesBack
  obtain ⟨last, after, readLast, done⟩ := (exec_bind_eq_ok ..).mp read
  obtain ⟨made, cursor⟩ := Prod.mk.inj done
  -- what comes back are new objects and one that was read, so all of them fit
  have fits : ∀ scheduler ∈ first :: second :: rest, scheduler.Fits := by
    intro scheduler member
    obtain ⟨controller, queues⟩ :=
      returns_forM _ _ (first :: second :: rest) packScheduler_needs _ _ _ ran scheduler member
    rw [← Except.ok.inj made, mem_append, mem_singleton] at member
    obtain new | rfl := member
    · rw [eq_of_mem_replicate new]
      exact schedulerCon_fits
    · obtain ⟨controllerShaped, queuesShaped⟩ := unpackScheduler_returns _ _ _ readLast
      exact ⟨node_fits _ controller controllerShaped, argv_fits queues queuesShaped⟩
  rw [forall_mem_cons, forall_mem_cons] at fits
  obtain ⟨front, frontWrites, frontReads⟩ := scheduler_carries fits.1 .nonDesc
  obtain ⟨middle, middleWrites, middleReads⟩ := scheduler_carries fits.2.1 .nonDesc
  obtain ⟨back, backWrites, -⟩ := carries_forM _ _ id
    (fun scheduler member => scheduler_carries (fits.2.2 scheduler member)) .nonDesc
  obtain ⟨written, ranToo, -, now, stream⟩ := continued_stream empty_valid
    (writes_bind frontWrites (writes_bind middleWrites backWrites))
  obtain rfl : packed = written := congrArg Prod.snd (ran.symm.trans ranToo)
  obtain ⟨following, typed, unread, moved⟩ := stream _ now
  rw [append_assoc] at unread
  have stopped := congrArg Prod.snd (readLast.symm.trans (frontReads _ _ typed unread))
  -- reading has stopped behind the first, but should have reached the end
  have positions := congrArg Buffer.unpack_ptr (stopped.symm.trans (cursor.trans moved.symm))
  have lengths : 0 + front.length = 0 + (front ++ (middle ++ back)).length := positions
  rw [length_append, length_append] at lengths
  obtain rfl : middle = [] := eq_nil_of_length_eq_zero (by omega)
  exact unpackScheduler_empty middleReads

theorem schedulers_comesBack_iff (schedulers : List Scheduler) :
    ComesBack (orcmPackScheduler machine schedulers) (orcmUnpackScheduler machine schedulers.length)
      schedulers ↔
      ∃ scheduler, schedulers = [scheduler] ∧ scheduler.Fits := by
  rcases schedulers with _ | ⟨scheduler, _ | ⟨second, rest⟩⟩
  · refine iff_of_false (fun comesBack => ?_) (by simp)
    obtain ⟨packed, -, read⟩ := comesBack_run comesBack
    cases read
  · have packs : orcmPackScheduler machine [scheduler] = packScheduler machine scheduler :=
      bind_pure_unit
    rw [packs]
    constructor
    · intro comesBack
      obtain ⟨controllerPacks, queuesPack⟩ :=
        comesBack_needs comesBack (packScheduler_needs scheduler)
      have returned :
          Returns (fun list => ∀ last ∈ list, last.controller.Unpacks ∧ ArgvUnpacks last.queues)
          (do let last ← unpackScheduler machine; pure [last]) :=
        returns_bind unpackScheduler_returns fun last shaped =>
          returns_pure (List.forall_mem_singleton.mpr shaped)
      obtain ⟨controllerUnpacks, queuesUnpack⟩ :=
        comesBack_returns comesBack returned scheduler mem_cons_self
      exact ⟨scheduler, rfl, node_fits _ controllerPacks controllerUnpacks,
        argv_fits queuesPack queuesUnpack⟩
    · rintro ⟨_, ⟨⟩, fits⟩
      exact comesBack_of_carries (carries_map (fun last => [last]) (scheduler_carries fits))
  · exact iff_of_false schedulers_left (by simp)

variable (machine)

/-- Arrays of clusters, rows, racks and nodes come back, and unpacking stops where the packed bytes
end, exactly when their strings and lists can be counted and no argument vector is allocated but
empty; schedulers do only alone. -/
theorem cluster_definition_round_trip_iff :
    (∀ clusters : List Cluster,
      ComesBack (orcmPackCluster machine clusters) (orcmUnpackCluster machine clusters.length)
        clusters ↔
        ∀ cluster ∈ clusters, cluster.Fits) ∧
    (∀ rows : List Row,
      ComesBack (orcmPackRow machine rows) (orcmUnpackRow machine rows.length) rows ↔
        ∀ row ∈ rows, row.Fits) ∧
    (∀ racks : List Rack,
      ComesBack (orcmPackRack machine racks) (orcmUnpackRack machine racks.length) racks ↔
        ∀ rack ∈ racks, rack.Fits) ∧
    (∀ nodes : List Node,
      ComesBack (orcmPackNode machine nodes) (orcmUnpackNode machine nodes.length) nodes ↔
        ∀ node ∈ nodes, node.Fits) ∧
    ∀ schedulers : List Scheduler,
      ComesBack (orcmPackScheduler machine schedulers)
        (orcmUnpackScheduler machine schedulers.length) schedulers ↔
        ∃ scheduler, schedulers = [scheduler] ∧ scheduler.Fits :=
  ⟨array_comesBack_iff _ _ _ _ _ cluster_carries packCluster_needs unpackCluster_returns
      cluster_fits,
    array_comesBack_iff _ _ _ _ _ row_carries packRow_needs unpackRow_returns row_fits,
    array_comesBack_iff _ _ _ _ _ rack_carries packRack_needs unpackRack_returns rack_fits,
    array_comesBack_iff _ _ _ _ _ node_carries packNode_needs unpackNode_returns node_fits,
    schedulers_comesBack_iff⟩

def namedNode : Node :=
  { schedulerCon.controller with
    name := some ⟨[97], by decide⟩, config := ⟨none, some [⟨[120, 61, 49], by decide⟩],
      none, true⟩ }

/-- Of two schedulers that were packed, unpacking returns a new object and the first of the two, and
the data of the second is left in the buffer. -/
theorem second_scheduler_is_lost :
    let second : Scheduler := { schedulerCon with queues := some [⟨[113], by decide⟩] }
    let first : Scheduler := { schedulerCon with controller := namedNode }
    let packed := exec (orcmPackScheduler .lp64 [first, second]) (Buffer.empty .nonDesc)
    let unpacked := exec (orcmUnpackScheduler .lp64 2) packed.2
    packed.1 = .ok () ∧ unpacked.1 = .ok [schedulerCon, first] ∧
      unpacked.2.unpack_ptr < unpacked.2.pack_ptr := by
  decide +kernel

end Orcm.ClusterRecord
