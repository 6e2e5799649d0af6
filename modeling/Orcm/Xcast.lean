import Orcm.CentralAllgather
import Orcm.RadixRoutes

/-!
The broadcast of `orte/mca/grpcomm`: `orte_grpcomm_API_xcast` of the base functions, `xcast` and
`xcast_recv` of the direct module, and the recipients as the radix module and the base functions of
`orte/mca/routed` list them. A buffer is modelled by the items in it that have not been read, and an
item is only unpacked as what it was packed as. The channels between two daemons are reliable and
first-in first-out, memory is always granted, and the map of the daemons does not change.
-/

namespace Orcm.Xcast

open DssTypes TransitionSystem CentralAllgather Routed

/-- What a call of `opal_dss.pack` has put into a buffer; what is not unpacked here is not told
apart. -/
inductive Item (Data : Type) where
  | signature (sig : Signature)
  | tag (tag : BitVec 32)
  | command (command : BitVec 8)
  | byteObject (bytes : List UInt8)
  | int8 (flag : BitVec 8)
  | other (data : Data)
  deriving DecidableEq

structure Payload (Data : Type) where
  type : BufferType
  items : List (Item Data)

/-- The daemons with their plans, what each of them knows of the others, and the outcome of what
they do with the maps and contact information that they are sent. -/
structure Site where
  radix : Nat
  num_procs : Nat
  fuel : Nat
  plan : Nat → Plan
  procs : Nat → Nat → Option Nat
  cluster : CentralAllgather.Site
  decodeDaemonNodemap : Nat → List UInt8 → Bool
  initRoutes : Nat → List UInt8 → Bool
  some : 0 < num_procs
  planned : ∀ vpid < num_procs, RadixTree.updateRoutingPlan radix num_procs fuel vpid =
    .ok (plan vpid)
  /-- All daemons are known to each other, in a state of at most `ORTE_PROC_STATE_RUNNING`. -/
  running : ∀ me < num_procs, ∀ daemon < num_procs, ∃ state ≤ 4, procs me daemon = .some state

section Data

variable (Data : Type)

structure Delivery where
  tag : BitVec 32
  items : List (Item Data)
  deriving DecidableEq

/-- What `xcast_recv` sends: a copy to the recipients, and the message to this daemon itself. -/
structure Outcome where
  recipients : List Nat
  rly : List (Item Data)
  delivery : Delivery Data

/-- The channels from one daemon to another, what the daemons have handed over, and the two flags
that the head node reads. All successful calls are recorded. -/
structure Network where
  channel : Nat → Nat → List (List (Item Data))
  handed : Nat → List (Delivery Data)
  issued : List (Delivery Data)
  abnormal_term_ordered : Bool
  routing_is_enabled : Bool

inductive Event where
  | xcast (me : Nat) (sig : Signature) (tag : BitVec 32) (msg : Option (Payload Data))
  | deliver (source target : Nat)
  | orderAbnormalTerm
  | enableRouting (enabled : Bool)

end Data

variable {Data : Type} (site : Site)

/-- `copy_payload` into a buffer that already holds something. -/
def copyPayload (items : List (Item Data)) : Option (Payload Data) → Result (List (Item Data))
  | none => Result.fail .badParam
  | some payload =>
    if payload.type = .fullyDesc then .ok (items ++ payload.items) else Result.fail .buffer

/-- `pack_xcast`; an error is not passed on. -/
def packXcast (sig : Signature) (tag : BitVec 32) (msg : Option (Payload Data)) :
    List (Item Data) :=
  match copyPayload [.signature sig, .tag tag] msg with
  | .ok buffer => buffer
  | .error _ => [.signature sig, .tag tag]

/-- The message to the head node, or the error that is returned without sending any. -/
def apiXcast (me : Nat) (sig : Signature) (tag : BitVec 32) (msg : Option (Payload Data)) :
    Result (List (Item Data)) := do
  let _ ← createDmns site.cluster (BitVec.ofNat 32 me) sig.names
  .ok (packXcast sig tag msg)

/-- `orte_routed_base_xcast_routing`: children, or all daemons where the head node does not
route. -/
def xcastRouting (direct : Bool) (me : Nat) : List Nat :=
  if me = 0 ∧ direct = true then (List.range site.num_procs).tail
    else (site.plan me).children.map Child.vpid

/-- The recipients that are found and not past `ORTE_PROC_STATE_RUNNING`. -/
def aliveRecipients (me : Nat) (recipients : List Nat) : List Nat :=
  recipients.filter fun daemon => (site.procs me daemon).any fun state => ¬ 4 < state

/-- The message that is rebuilt from what follows the command `ORTE_DAEMON_ADD_LOCAL_PROCS`: the map
of the daemons and the contact information are left out, and an error leaves the command alone. -/
def addLocalProcs (me : Nat) (command : BitVec 8) : List (Item Data) → List (Item Data)
  | .byteObject daemonmap :: .int8 flag :: rest =>
    if me ≠ 0 ∧ site.decodeDaemonNodemap me daemonmap = false then [.command command]
    else if flag = 0 then .command command :: rest
    else
      match rest with
      | .byteObject wireup :: rest =>
        if wireup ≠ [] ∧ site.initRoutes me wireup = false then [.command command]
          else .command command :: rest
      | _ => [.command command]
  | _ => [.command command]

/-- A message without its header is a fault of the sender, and the daemon gives up. A message to the
daemons that does not start with a command ends in the destruction of a list that has not been
constructed. -/
def xcastRecv (direct : Bool) (me : Nat) (buffer : List (Item Data)) : Result (Outcome Data) :=
  let recipients := aliveRecipients site me (xcastRouting site direct me)
  match buffer with
  | .signature _ :: .tag tag :: payload =>
    -- `ORTE_RML_TAG_DAEMON`
    if tag = 1 then
      match payload with
      | .command command :: rest =>
        -- `ORTE_DAEMON_ADD_LOCAL_PROCS`
        if command = 4 then .ok ⟨recipients, buffer, tag, addLocalProcs site me command rest⟩
        else .ok ⟨recipients, buffer, tag, payload⟩
      | _ => Result.undefined
    else .ok ⟨recipients, buffer, tag, payload⟩
  | _ => Result.fail .unpackFailure

def send (channel : Nat → Nat → List (List (Item Data))) (source target : Nat)
    (buffers : List (List (Item Data))) :
    Nat → Nat → List (List (Item Data)) :=
  fun one other => if one = source ∧ other = target then channel one other ++ buffers
    else channel one other

def relay (channel : Nat → Nat → List (List (Item Data))) (source : Nat) (recipients : List Nat)
    (rly : List (Item Data)) :
    Nat → Nat → List (List (Item Data)) :=
  fun one other => if one = source then channel one other ++ (recipients.filter (· = other)).map
    fun _ => rly
    else channel one other

/-- A message to oneself is posted for receipt. It is refused for `ORTE_RML_TAG_INVALID`, and for
`ORTE_RML_TAG_XCAST` it comes back as a broadcast. -/
def handOver (network : Network Data) (me : Nat) (delivery : Delivery Data) : Network Data :=
  if delivery.tag = 0 then network
  else
    { network with
      channel := if delivery.tag = 15 then send network.channel me me [delivery.items]
        else network.channel
      handed := Function.update network.handed me (network.handed me ++ [delivery]) }

def Network.Enabled (network : Network Data) : Event Data → Prop
  | .xcast me _ _ _ => me < site.num_procs
  | .deliver source target => network.channel source target ≠ []
  | _ => True

instance (network : Network Data) (event : Event Data) : Decidable (network.Enabled site event) :=
  match event with
  | .xcast me _ _ _ => inferInstanceAs (Decidable (me < site.num_procs))
  | .deliver source target =>
    decidable_of_iff (¬ (network.channel source target).isEmpty = true) (not_congr List.isEmpty_iff)
  | .orderAbnormalTerm => inferInstanceAs (Decidable True)
  | .enableRouting _ => inferInstanceAs (Decidable True)

def Network.perform (network : Network Data) : Event Data → Result (Network Data)
  | .xcast me sig tag msg =>
    match apiXcast site me sig tag msg with
    | .ok buffer => .ok { network with
        channel := send network.channel me 0 [buffer]
        issued := network.issued ++ [⟨tag, (msg.map Payload.items).getD []⟩] }
    | .error (.error _) => .ok network
    | .error .undefined => Result.undefined
  | .deliver source target =>
    match network.channel source target with
    | [] => .ok network
    | buffer :: rest => do
        let direct := network.abnormal_term_ordered || !network.routing_is_enabled
        let outcome ← xcastRecv site direct target buffer
        let taken :=
          Function.update network.channel source
            (Function.update (network.channel source) target rest)
        let relayed := relay taken target outcome.recipients outcome.rly
        .ok (handOver { network with channel := relayed } target outcome.delivery)
  | .orderAbnormalTerm => .ok { network with abnormal_term_ordered := true }
  | .enableRouting enabled => .ok { network with routing_is_enabled := enabled }

def Network.start : Network Data := ⟨fun _ _ => [], fun _ => [], [], false, true⟩

def network : System (Network Data) (Event Data) where
  initial state := state = Network.start
  step state event := if state.Enabled site event then (state.perform site event).toOption else none

def Network.work (network : Network Data) : Nat :=
  ((List.range site.num_procs).map fun me => network.issued.length - (network.handed me).length).sum

/-- What the broadcast is to do: no daemon hands over a message that was not sent, or one message
twice, all daemons hand over the messages in the same order, and in the end everyone has handed over
everything. -/
structure Network.Correct (network : Network Data) : Prop where
  once : ∀ me < site.num_procs, (network.handed me).Subperm network.issued
  same_order : ∀ me < site.num_procs, ∀ other < site.num_procs,
    network.handed me <+: network.handed other ∨ network.handed other <+: network.handed me
  complete : (∀ source target, network.channel source target = []) →
    ∀ me < site.num_procs, (network.handed me).Perm network.issued

end Orcm.Xcast
