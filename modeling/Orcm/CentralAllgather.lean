import Mathlib.Logic.Function.Basic
import Orcm.DssTypes
import Orcm.ErrorCode
import Orcm.KeyedList
import Orcm.TransitionSystem

/-!
The allgather of `orte/mca/grpcomm/direct/grpcomm_direct.c`, with the sequence numbers and trackers
of `grpcomm_base_stubs.c`. The head node releases a collective when all daemons have reported; each
of them receives the release once. A buffer is modelled as the contributions in it. All daemons know
the same jobs, memory is always granted, and packing succeeds.
-/

namespace Orcm.CentralAllgather

open DssTypes TransitionSystem

abbrev Vpid := BitVec 32

/-- What is known of a job: the daemons of the nodes in its map, and the daemon that each of its
processes is on. -/
structure Job where
  num_procs : Nat
  map : Option (List Vpid)
  procs : BitVec 32 → Option Vpid

/-- The daemons, the head node among them, and the jobs. Each node of a map has a daemon of its
own. -/
structure Site where
  daemons : List Vpid
  hnp : Vpid
  jobs : BitVec 32 → Option Job
  distinct : daemons.Nodup
  hnp_mem : hnp ∈ daemons
  map_mem : ∀ jobid job nodes, jobs jobid = some job → job.map = some nodes →
    nodes.Nodup ∧ ∀ daemon ∈ nodes, daemon ∈ daemons
  procs_mem : ∀ jobid job vpid daemon, jobs jobid = some job → job.procs vpid = some daemon →
    daemon ∈ daemons

/-- `orte_grpcomm_signature_t`; the pointer to the names can be `NULL`. -/
structure Signature where
  names : Option (List ProcessName)
  seq_num : BitVec 32
  deriving DecidableEq

/-- A signature that is packed and unpacked again has no array if it has no names. -/
def unpackSig (names : List ProcessName) (seq_num : BitVec 32) : Signature :=
  ⟨if names = [] then none else some names, seq_num⟩

/-- The caller's record of a call: the signature, and how many calls with it there were before. -/
structure Callback where
  names : List ProcessName
  index : Nat
  deriving DecidableEq

section Data

variable (Data : Type)

/-- What a callback is given; a reply without an error is `ORTE_SUCCESS`. -/
structure Reply where
  error : Option ErrorCode
  nprocs : Nat
  bucket : List Data

/-- A tracker, `orte_grpcomm_coll_t`. Its signature is a copy, and the array of a copy is never
`NULL`. -/
structure Coll where
  names : List ProcessName
  seq_num : BitVec 32
  ndmns : Nat
  nreported : Nat
  bucket : List Data
  cbfunc : Option Callback

inductive Body where
  | report (sender : Vpid) (sig : Signature) (data : Data)
  | release (sig : Signature) (reply : Reply Data)

structure Message where
  peer : Vpid
  body : Body Data

/-- A daemon: the data of the calls made here, the last sequence number of each signature, the
ongoing collectives, and the callbacks that were executed. -/
structure Daemon where
  requests : List ProcessName → List Data
  sig_table : List ProcessName → Option (BitVec 32)
  ongoing : List (Coll Data)
  replies : List (Callback × Reply Data)

/-- What a call does: the daemon after it, the messages it sends, and the collectives that it
releases. -/
structure Outcome where
  daemon : Daemon Data
  sent : List (Message Data)
  released : List Signature

structure Network where
  daemon : Vpid → Daemon Data
  flight : List (Message Data)
  released : List Signature

inductive Event where
  | call (me : Vpid) (names : List ProcessName) (data : Data)
  | deliver (index : Nat)

end Data

variable {Data : Type}

def Coll.key (coll : Coll Data) : List ProcessName × BitVec 32 := (coll.names, coll.seq_num)

section Daemon

variable (site : Site) (me : Vpid)

def locate : List ProcessName → List Vpid → Result (List Vpid)
  | [], found => .ok found
  | name :: rest, found =>
    match site.jobs name.jobid with
    | none => Result.fail .notFound
    | some job =>
      match job.procs name.vpid with
      | none => Result.fail .notFound
      | some daemon => locate rest (if daemon ∈ found then found else found ++ [daemon])

/-- The daemons of a signature, and how many they are. Without an array all daemons take part, and
an array without names is read behind its end. -/
def createDmns : Option (List ProcessName) → Result (List Vpid × Nat)
  | none => .ok ([], site.daemons.length)
  | some [] => Result.undefined
  | some (first :: rest) =>
    -- `ORTE_VPID_WILDCARD`
    if first.vpid = 4294967294 then
      match site.jobs first.jobid with
      | none => Result.fail .notFound
      | some job =>
        match job.map with
        | none => if me = site.hnp then .ok ([me], 1) else Result.fail .notFound
        | some nodes => .ok (nodes, nodes.length)
    else do
      let found ← locate site (first :: rest) []
      if found = [] then Result.fail .badParam else .ok (found, found.length)

/-- The tracker of a signature, and the list with it. A new tracker whose daemons are not found is
in the list, but not returned. -/
def getTracker (sig : Signature) (ongoing : List (Coll Data)) :
    Result (Option (Coll Data) × List (Coll Data)) :=
  match sig.names.bind fun names => KeyedList.lookup Coll.key (names, sig.seq_num) ongoing with
  | some coll => .ok (some coll, ongoing)
  | none =>
    match createDmns site me sig.names with
    | .ok (_, ndmns) =>
      let coll : Coll Data := ⟨sig.names.getD [], sig.seq_num, ndmns, 0, [], none⟩
      .ok (some coll, ongoing ++ [coll])
    | .error (.error _) => .ok (none, ongoing ++ [⟨sig.names.getD [], sig.seq_num, 0, 0, [], none⟩])
    | .error .undefined => Result.undefined

/-- The broadcast of a release. It is made for the daemons of the signature, and goes to all
daemons. -/
def xcast (sig : Signature) (reply : Reply Data) : Result (List (Message Data) × List Signature) :=
  match createDmns site me sig.names with
  | .ok _ => .ok (site.daemons.map fun daemon => ⟨daemon, .release sig reply⟩, [sig])
  | .error (.error _) => .ok ([], [])
  | .error .undefined => Result.undefined

/-- The number of processes: those of the job if the signature has one entry, its entries
otherwise. -/
def countProcs : List ProcessName → Option Nat
  | [name] => (site.jobs name.jobid).map Job.num_procs
  | names => some names.length

def release (sig : Signature) (bucket : List Data) :
    Result (List (Message Data) × List Signature) :=
  match countProcs site (sig.names.getD []) with
  | none => .ok ([], [])
  | some nprocs => xcast site me sig ⟨none, nprocs, bucket⟩

/-- `allgather` of the module: the head node releases at once what concerns no other daemon. -/
def allgather (coll : Coll Data) (data : Data) : Result (List (Message Data) × List Signature) :=
  if me = site.hnp ∧ coll.ndmns = 1 then release site me (unpackSig coll.names coll.seq_num) [data]
  else .ok ([⟨site.hnp, .report me (unpackSig coll.names coll.seq_num) data⟩], [])

def nextSeqNum : Option (BitVec 32) → BitVec 32
  | none => 0
  | some last => last + 1

/-- `allgather_stub`, with the copy that `orte_grpcomm_API_allgather` makes of the signature. -/
def allgatherStub (names : List ProcessName) (data : Data) (daemon : Daemon Data) :
    Result (Outcome Data) := do
  let seq_num := nextSeqNum (daemon.sig_table names)
  let (found, ongoing) ← getTracker site me ⟨some names, seq_num⟩ daemon.ongoing
  match found with
  | none => Result.undefined
  | some coll =>
    let coll := { coll with cbfunc := some ⟨names, (daemon.requests names).length⟩ }
    let (sent, released) ← allgather site me coll data
    .ok
      { daemon :=
          { daemon with
            requests := Function.update daemon.requests names (daemon.requests names ++ [data])
            sig_table := Function.update daemon.sig_table names (some seq_num)
            ongoing := KeyedList.replace Coll.key coll.key coll ongoing }
        sent
        released }

/-- The head node collects. -/
def allgatherRecv (sig : Signature) (data : Data) (daemon : Daemon Data) :
    Result (Outcome Data) := do
  let (found, ongoing) ← getTracker site me sig daemon.ongoing
  match found with
  | none => .ok ⟨{ daemon with ongoing }, [], []⟩
  | some coll =>
    let coll := { coll with nreported := coll.nreported + 1, bucket := coll.bucket ++ [data] }
    let daemon := { daemon with ongoing := KeyedList.replace Coll.key coll.key coll ongoing }
    if coll.ndmns = coll.nreported then
      let (sent, released) ← release site me sig coll.bucket
      .ok ⟨daemon, sent, released⟩
    else .ok ⟨daemon, [], []⟩

/-- A tracker that is not found means that this daemon is not involved. -/
def barrierRelease (sig : Signature) (reply : Reply Data) (daemon : Daemon Data) : Outcome Data :=
  match sig.names.bind fun names => KeyedList.lookup Coll.key
    (names, sig.seq_num) daemon.ongoing with
  | none => ⟨daemon, [], []⟩
  | some coll =>
    { daemon :=
        { daemon with
          ongoing := KeyedList.erase Coll.key coll.key daemon.ongoing
          replies := daemon.replies ++ (coll.cbfunc.map fun callback => (callback, reply)).toList }
      sent := []
      released := [] }

end Daemon

section Network

variable (site : Site)

def participants (names : List ProcessName) : List Vpid :=
  if names = [] then site.daemons
  else
    match createDmns site site.hnp (some names) with
    | .ok (found, _) => found
    | .error _ => []

/-- Any daemon that takes part can make a call at any time, and any message that is on its way can
be delivered next. -/
def Network.Enabled (network : Network Data) : Event Data → Prop
  | .call me names _ => me ∈ participants site names
  | .deliver index => index < network.flight.length

instance (network : Network Data) (event : Event Data) : Decidable (network.Enabled site event) :=
  match event with
  | .call me names _ => inferInstanceAs (Decidable (me ∈ participants site names))
  | .deliver index => inferInstanceAs (Decidable (index < network.flight.length))

def Network.put (network : Network Data) (me : Vpid) (outcome : Outcome Data) : Network Data where
  daemon := Function.update network.daemon me outcome.daemon
  flight := network.flight ++ outcome.sent
  released := network.released ++ outcome.released

def receive (message : Message Data) (daemon : Daemon Data) : Result (Outcome Data) :=
  match message.body with
  | .report _ sig data => allgatherRecv site message.peer sig data daemon
  | .release sig reply => .ok (barrierRelease sig reply daemon)

def Network.perform (network : Network Data) : Event Data → Result (Network Data)
  | .call me names data => do
      let outcome ← allgatherStub site me names data (network.daemon me)
      .ok (network.put me outcome)
  | .deliver index =>
    match network.flight[index]? with
    | none => .ok network
    | some message => do
        let outcome ← receive site message (network.daemon message.peer)
        .ok ({ network with flight := network.flight.eraseIdx index }.put message.peer outcome)

def network : System (Network Data) (Event Data) where
  initial state := state = ⟨fun _ => ⟨fun _ => [], fun _ => none, [], []⟩, [], []⟩
  step state event := if state.Enabled site event then (state.perform site event).toOption else none

def Network.repliesTo (network : Network Data) (me : Vpid) (callback : Callback) :
    List (Reply Data) :=
  (network.daemon me).replies.filterMap fun entry => if entry.1 = callback then some entry.2
    else none

def Network.releasesOf (network : Network Data) (callback : Callback) : Nat :=
  network.released.count ⟨some callback.names, BitVec.ofNat 32 callback.index⟩

/-- The data that the daemons have contributed to one collective: the calls of all participants with
the same signature and the same index. -/
def Network.contributions (network : Network Data) (callback : Callback) (order : List Vpid) :
    List (Option Data) :=
  order.map fun daemon => ((network.daemon daemon).requests callback.names)[callback.index]?

/-- How much is still to be delivered: a report can lead to a release for every daemon. -/
def Message.weight (message : Message Data) : Nat :=
  match message.body with
  | .report _ _ _ => site.daemons.length + 1
  | .release _ _ => 1

def Network.work (network : Network Data) : Nat := (network.flight.map (Message.weight site)).sum

/-- What the allgather is to do, for the collective that a callback belongs to. -/
structure Network.Correct (network : Network Data) (callback : Callback) : Prop where
  released_once : network.releasesOf callback ≤ 1
  released_after : network.releasesOf callback ≠ 0 → ∀ daemon ∈ participants site callback.names,
    callback.index < ((network.daemon daemon).requests callback.names).length
  replied_once : ∀ me, (network.repliesTo me callback).length ≤ 1
  replied_whole : ∀ me, ∀ reply ∈ network.repliesTo me callback,
    me ∈ participants site callback.names ∧
    reply.error = none ∧ ∃ order : List Vpid, order.Perm (participants site callback.names) ∧
      reply.bucket.map some = network.contributions callback order
  complete : network.flight = [] → participants site callback.names ≠ [] →
    (∀ daemon ∈ participants site callback.names,
      callback.index < ((network.daemon daemon).requests callback.names).length) →
    network.releasesOf callback = 1 ∧ ∀ me ∈ participants site callback.names,
      network.repliesTo me callback ≠ []

end Network

end Orcm.CentralAllgather
