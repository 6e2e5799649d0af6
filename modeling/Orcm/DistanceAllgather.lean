import Orcm.ErrorCode
import Orcm.TransitionSystem

/-!
The allgather of `orte/mca/grpcomm/rcd/grpcomm_rcd.c` and of `orte/mca/grpcomm/brks/grpcomm_brks.c`.
They differ in the daemon that they send to and in the sizes of mask and slots. One collective is
followed, among daemons that all know the same group. A buffer is modelled as the contributions in
it, named by their daemons. Memory is always granted, packing succeeds, and assertions are not
compiled in.
-/

namespace Orcm.DistanceAllgather

open TransitionSystem

abbrev Vpid := BitVec 32

/-- The daemons that take part, as `create_dmns` finds them from a signature, and what is needed to
count the processes. -/
structure Group where
  dmns : List Vpid
  sz : Nat
  num_procs : Nat
  distinct : dmns.Nodup
  some_daemon : dmns ≠ []
  -- `ORTE_VPID_INVALID` is no daemon's
  bounded : dmns.length < 4294967296

/-- What the callback is given; a reply without an error is `ORTE_SUCCESS`. -/
structure Reply where
  error : Option ErrorCode
  nprocs : Nat
  bucket : List Vpid
  deriving DecidableEq, Repr

/-- The tracker of the collective, `orte_grpcomm_coll_t`. -/
structure Coll where
  nreported : Nat
  bucket : List Vpid
  distance_mask_recv : Option (List (BitVec 32))
  buffers : Option (List (Option (List Vpid)))
  cbfunc : Bool

def construct : Coll := ⟨0, [], none, none, false⟩

structure Message where
  peer : Vpid
  distance : Nat
  bucket : List Vpid
  deriving DecidableEq, Repr

/-- What the two modules do differently: the index of the daemon to send to, the words of the mask,
the number of slots, and the slot of a distance. -/
structure Algorithm where
  peer : (ndmns rank distance : Nat) → Nat
  maskWords : (ndmns : Nat) → Option Nat
  slots : (ndmns : Nat) → Nat
  slot : (distance : Nat) → Option Nat

/-- The logarithm of zero has no integer value. -/
def rcd : Algorithm where
  peer _ rank distance := rank ^^^ distance
  maskWords ndmns := if 1 < ndmns then some ndmns.log2 else none
  slots ndmns := ndmns.log2
  slot distance := if distance = 0 then none else some distance.log2

def brks : Algorithm where
  peer ndmns rank distance := (ndmns + rank - distance) % ndmns
  maskWords ndmns := some (ndmns - 1)
  slots ndmns := ndmns - 1
  slot distance := some ((distance + 4294967295) % 4294967296)

/-! `grpcomm_base_stubs.c` -/

def markDistanceRecv (mask : Option (List (BitVec 32))) (distance : Nat) :
    Result (List (BitVec 32)) :=
  match mask with
  | none => Result.undefined
  | some words =>
    if distance / 32 < words.length then
      .ok (words.modify (distance / 32) fun word => word ||| (1#32 <<< (distance % 32)))
    else Result.undefined

def checkDistanceRecv (mask : Option (List (BitVec 32))) (distance : Nat) : Result Bool :=
  match mask with
  | none => .ok false
  | some words =>
    if distance = 0 then .ok true
    else
      match words[distance / 32]? with
      | none => Result.undefined
      | some word => .ok (word.getLsbD (distance % 32))

section Daemon

variable (algorithm : Algorithm) (group : Group)

def takeBuffer (distance : Nat) (buffers : Option (List (Option (List Vpid)))) :
    Result (Option (List Vpid × List (Option (List Vpid)))) :=
  match buffers with
  | none => .ok none
  | some slots =>
    match algorithm.slot distance with
    | none => Result.undefined
    | some index =>
      match slots[index]? with
      | none => Result.undefined
      | some none => .ok none
      | some (some data) => .ok (some (data, slots.set index none))

def waitingData (buffers : Option (List (Option (List Vpid)))) : Nat :=
  (buffers.getD []).countP Option.isSome

theorem takeBuffer_waiting
    (taken : takeBuffer algorithm distance buffers = .ok (some (data, rest))) :
    waitingData (some rest) < waitingData buffers := by
  cases buffers with
  | none => cases taken
  | some slots =>
    rw [takeBuffer] at taken
    split at taken
    · cases taken
    · rename_i index _
      split at taken
      · cases taken
      · cases taken
      · rename_i found
        cases taken
        obtain ⟨inside, same⟩ := List.getElem?_eq_some_iff.mp found
        have positive : 0 < slots.countP Option.isSome :=
          List.countP_pos_iff.mpr ⟨some data, List.mem_of_getElem? found, rfl⟩
        simp only [waitingData, Option.getD_some]
        rw [List.countP_set inside, same]
        simpa using positive

/-- The loop of `process_data`: send what there is, and go on while the data of the distance
waits. -/
def processLoop (rank distance : Nat) (coll : Coll) : Result (Coll × List Message) :=
  if distance < group.dmns.length then
    match group.dmns[algorithm.peer group.dmns.length rank distance]? with
    | none => Result.undefined
    | some peer =>
      match _taken : takeBuffer algorithm distance coll.buffers with
      | .error fault => .error fault
      | .ok none => .ok (coll, [⟨peer, distance, coll.bucket⟩])
      | .ok (some (data, rest)) =>
        match markDistanceRecv coll.distance_mask_recv distance with
        | .error fault => .error fault
        | .ok mask =>
          (fun (final, sent) => (final, ⟨peer, distance, coll.bucket⟩ :: sent)) <$>
            processLoop rank (distance * 2 % 4294967296)
              { coll with
                bucket := coll.bucket ++ data
                nreported := coll.nreported + distance
                distance_mask_recv := some mask
                buffers := some rest }
  else .ok (coll, [])
termination_by waitingData coll.buffers
decreasing_by exact takeBuffer_waiting algorithm (by assumption)

section LoopSteps

variable {algorithm group} {rank distance : Nat} {coll : Coll} {peer : Vpid}
    (more : distance < group.dmns.length)
  (found : group.dmns[algorithm.peer group.dmns.length rank distance]? = some peer)
include more found

theorem processLoop_fault (taken : takeBuffer algorithm distance coll.buffers = .error fault) :
    processLoop algorithm group rank distance coll = .error fault := by
  rw [processLoop, if_pos more, found]
  dsimp only
  split <;> simp_all

theorem processLoop_nothing (taken : takeBuffer algorithm distance coll.buffers = .ok none) :
    processLoop algorithm group rank distance coll = .ok
      (coll, [⟨peer, distance, coll.bucket⟩]) := by
  rw [processLoop, if_pos more, found]
  dsimp only
  split <;> simp_all

variable {data : List Vpid} {rest : List (Option (List Vpid))}
  (taken : takeBuffer algorithm distance coll.buffers = .ok (some (data, rest)))
include taken

theorem processLoop_unmarked (fault : Fault)
    (marked : markDistanceRecv coll.distance_mask_recv distance = .error fault) :
    processLoop algorithm group rank distance coll = .error fault := by
  rw [processLoop, if_pos more, found]
  dsimp only
  split <;> simp_all

theorem processLoop_next (mask : List (BitVec 32))
    (marked : markDistanceRecv coll.distance_mask_recv distance = .ok mask) :
    processLoop algorithm group rank distance coll =
      (fun (final, sent) => (final, ⟨peer, distance, coll.bucket⟩ :: sent)) <$>
        processLoop algorithm group rank (distance * 2 % 4294967296)
          { coll with
            bucket := coll.bucket ++ data
            nreported := coll.nreported + distance
            distance_mask_recv := some mask
            buffers := some rest } := by
  rw [processLoop, if_pos more, found]
  dsimp only
  split
  · simp_all
  · simp_all
  · rename_i same
    rw [taken] at same
    cases same
    rw [marked]

end LoopSteps

structure Outcome where
  coll : Option Coll
  sent : List Message
  replies : List Reply

def finalizeColl (error : Option ErrorCode) (coll : Coll) : List Reply :=
  if coll.cbfunc then [⟨error, if group.sz = 1 then group.num_procs else group.sz, coll.bucket⟩]
    else []

def processData (me : Vpid) (distance : Nat) (coll : Coll) : Result Outcome :=
  if me ∈ group.dmns then do
    let (coll, sent) ← processLoop algorithm group (group.dmns.idxOf me) distance coll
    if group.dmns.length ≤ coll.nreported then .ok ⟨none, sent, finalizeColl group none coll⟩
    else .ok ⟨some coll, sent, []⟩
  else .ok ⟨none, [], finalizeColl group (some .notFound) coll⟩

def allgather (me : Vpid) (coll : Coll) : Result Outcome :=
  processData algorithm group me 1
    { coll with
      nreported := 1
      distance_mask_recv := ((algorithm.maskWords group.dmns.length).map fun words =>
        List.replicate words 0).or
        coll.distance_mask_recv
      bucket := coll.bucket ++ [me] }

def receiveEarly (distance : Nat) (data : List Vpid) (coll : Coll) : Result Outcome :=
  let slots := coll.buffers.getD (List.replicate (algorithm.slots group.dmns.length) none)
  match algorithm.slot distance with
  | none => Result.undefined
  | some index =>
    if index < slots.length then
      .ok ⟨some { coll with buffers := some (slots.set index (some data)) }, [], []⟩
    else Result.undefined

def recvDist (me : Vpid) (distance : Nat) (data : List Vpid) (coll : Coll) : Result Outcome := do
  if ← checkDistanceRecv coll.distance_mask_recv (distance / 2) then
    let mask ← markDistanceRecv coll.distance_mask_recv distance
    processData algorithm group me (distance * 2 % 4294967296)
      { coll with
        bucket := coll.bucket ++ data
        nreported := coll.nreported + distance
        distance_mask_recv := some mask }
  else receiveEarly algorithm group distance data coll

end Daemon

/-- `allgather` of the module `rcd` takes groups whose size is a power of two, and leaves the others
to the next module. -/
def rcdAllgather (group : Group) (me : Vpid) (coll : Coll) : Result Outcome :=
  if group.dmns.length &&& (group.dmns.length - 1) = 0 then allgather rcd group me coll
  else Result.fail .takeNextOption

def brksAllgather : Group → Vpid → Coll → Result Outcome := allgather brks

def rcdAllgatherRecvDist : Group → Vpid → Nat → List Vpid → Coll → Result Outcome := recvDist rcd

def brksAllgatherRecvDist : Group → Vpid → Nat → List Vpid → Coll → Result Outcome := recvDist brks

/-- What a daemon does when it joins and when a message comes. -/
structure Component where
  allgather : Group → Vpid → Coll → Result Outcome
  recvDist : Group → Vpid → Nat → List Vpid → Coll → Result Outcome

def rcdComponent : Component := ⟨rcdAllgather, rcdAllgatherRecvDist⟩

def brksComponent : Component := ⟨brksAllgather, brksAllgatherRecvDist⟩

/-- The tracker, if the list of ongoing collectives has it, and the replies so far. -/
structure Daemon where
  ongoing : Option Coll
  replies : List Reply

/-- The daemons that have not joined, the state of each, and the messages that have been sent and
not delivered. -/
structure Network where
  waiting : List Vpid
  daemon : Vpid → Daemon
  flight : List Message

inductive Event where
  | join (me : Vpid)
  | deliver (message : Message)

def Network.Enabled (network : Network) : Event → Prop
  | .join me => me ∈ network.waiting
  | .deliver message => message ∈ network.flight

instance (network : Network) (event : Event) : Decidable (network.Enabled event) :=
  match event with
  | .join me => inferInstanceAs (Decidable (me ∈ network.waiting))
  | .deliver message => inferInstanceAs (Decidable (message ∈ network.flight))

def Daemon.tracker (daemon : Daemon) : Coll := daemon.ongoing.getD construct

def Network.put (network : Network) (me : Vpid) (outcome : Outcome) : Network :=
  { network with
    daemon := Function.update network.daemon me ⟨outcome.coll,
      (network.daemon me).replies ++ outcome.replies⟩
    flight := network.flight ++ outcome.sent }

section Network

variable (implementation : Component) (group : Group)

/-- A daemon joins once. Any message that is on its way can be delivered next. -/
def Network.perform (network : Network) : Event → Result Network
  | .join me => do
      let outcome ← implementation.allgather group me { (network.daemon me).tracker with
        cbfunc := true }
      .ok ({ network with waiting := network.waiting.erase me }.put me outcome)
  | .deliver message => do
      let outcome ← implementation.recvDist group message.peer message.distance message.bucket
        (network.daemon message.peer).tracker
      .ok ({ network with flight := network.flight.erase message }.put message.peer outcome)

def network : System Network Event where
  initial state := state = ⟨group.dmns, fun _ => ⟨none, []⟩, []⟩
  step state event := if state.Enabled event then
    (state.perform implementation group event).toOption else none

/-- No event goes wrong, no daemon replies twice, every reply has all contributions once, and once
all have joined and all messages have been delivered every daemon has replied. -/
structure Network.Correct (network : Network) : Prop where
  defined : ∀ event, network.Enabled event →
    ∃ next, network.perform implementation group event = .ok next
  once : ∀ me ∈ group.dmns, (network.daemon me).replies.length ≤ 1
  whole : ∀ me ∈ group.dmns, ∀ reply ∈ (network.daemon me).replies, reply.error = none ∧
    reply.bucket.Perm group.dmns
  complete : network.waiting = [] → network.flight = [] → ∀ me ∈ group.dmns,
    (network.daemon me).replies ≠ []

/-- Every state that can be reached is correct, and there is an end to every run. -/
def Completes : Prop :=
  (∀ state, Reachable (network implementation group) state → state.Correct implementation group) ∧
  ∃ bound, ∀ state, (network implementation group).initial state → ∀ events final,
    (network implementation group).run (fun _ _ => true) state events = some final →
      events.length ≤ bound

end Network

end Orcm.DistanceAllgather
