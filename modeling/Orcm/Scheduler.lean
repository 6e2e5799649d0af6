import Mathlib.Logic.Function.Basic
import Orcm.NodeReport
import Orcm.RegexCreate
import Orcm.TransitionSystem

/-!
The FIFO scheduler `scd_fifo.c` with the resource manager of `scd_base_rm.c` and the commands of
`scd_base_recv.c` and `scd_base_rm_recv.c` that change its state. Scheduler events run on
`orcm_scd_base.ev_base` and resource manager events on `orte_event_base`. All of them have the same
priority, so each base handles its events in the order of their activation, and the two bases
interleave freely. One handler is one step. An object that is linked into two lists at once leaves
the lists broken, and nothing is said about a later handler that walks them. The power attributes of
an allocation, its notes and the names it gets for its head node are left out: no decision depends
on them.
-/

namespace Orcm.Scheduler

open CLibrary NodePool Hierarchy NodeReport RegexExtract RegexCreate TransitionSystem

/-- `orcm_alloc_t` -/
structure Alloc where
  id : Int
  min_nodes : Int
  nodes : Option CString
  deriving DecidableEq, Repr

/-- `orcm_session_t` -/
structure Session where
  id : Nat
  alloc : Alloc
  deriving DecidableEq, Repr

abbrev Ref := Nat

/-- `orcm_alloc_tracker_t`; the identifier is an `int`. -/
structure Tracker where
  alloc_id : Int
  count_checked_in : Int
  deriving DecidableEq, Repr

/-- Events of the scheduler. `TERMINATED` and `CANCEL` come with a session object of their own;
`SCHEDULE` does not look at its session. -/
inductive ScdEvent where
  | init (session : Ref)
  | schedule
  | allocd (session : Ref)
  | terminated (session : Session)
  | cancel (id : Nat)
  deriving DecidableEq, Repr

inductive RmEvent where
  | req (session : Ref)
  | active (session : Ref)
  | kill (session : Ref)
  deriving DecidableEq, Repr

structure State where
  /-- the session objects; those below `allocated` exist -/
  object : Ref → Session
  allocated : Nat
  running : List Ref
  hold : List Ref
  default : List Ref
  scd : List ScdEvent
  rm : List RmEvent
  nodes : Pool
  tracking : List Tracker
  last_session_id : Nat
  /-- the allocations that daemons have been sent and can report on -/
  sent : List Alloc

def start (nodes : Pool) : State where
  object _ := ⟨0, ⟨0, 0, none⟩⟩
  allocated := 0
  running := []
  hold := []
  default := []
  scd := []
  rm := []
  nodes
  tracking := []
  last_session_id := 0
  sent := []

def activateScd (event : ScdEvent) (s : State) : State := { s with scd := s.scd ++ [event] }

def activateRm (event : RmEvent) (s : State) : State := { s with rm := s.rm ++ [event] }

def fifoFindQueue (session : Ref) (s : State) : State :=
  if (s.object session).alloc.min_nodes > definedNodes s.nodes then
    activateScd .schedule { s with hold := s.hold ++ [session] }
  else activateScd .schedule { s with default := s.default ++ [session] }

def fifoSchedule (s : State) : State :=
  match s.default with
  | [] => s
  | sessionptr :: rest =>
    if (s.object sessionptr).alloc.min_nodes ≤ (freeNodes s.nodes).length then
      activateRm (.req sessionptr) { s with default := rest }
    else s

/-- The `ERROR` label: the first session of the running queue is removed, whichever it is. -/
def requeue (session : Ref) (s : State) : State :=
  activateScd .schedule { s with running := s.running.tail, default := session :: s.default }

def errorText : CString := ['E', 'R', 'R', 'O', 'R']

def fifoAllocated (session : Ref) (s : State) : Result State :=
  let alloc := (s.object session).alloc
  let queued := { s with running := s.running ++ [session] }
  match alloc.nodes with
  -- strcmp of a null pointer
  | none => Result.undefined
  | some nodes =>
    if nodes = errorText then .ok (requeue session queued)
    else
      let active := activateRm (.active session) queued
      match orteRegexExtractNodeNames (some nodes) with
      | .error .undefined => Result.undefined
      | .error (.error _) => .ok (requeue session active)
      | .ok nodenames =>
        if nodenames.length ≠ alloc.min_nodes then .ok (requeue session active)
        else .ok { active with nodes := setScdState nodenames .alloc s.nodes }

def fifoTerminated (session : Session) (s : State) : Result State :=
  match orteRegexExtractNodeNames session.alloc.nodes with
  | .error .undefined => Result.undefined
  | .error (.error _) => .ok s
  | .ok nodenames =>
    .ok (activateScd .schedule { s with
      nodes := setScdState nodenames .unalloc s.nodes
      running := s.running.filter fun ref => (s.object ref).id ≠ session.id })

/-- The queues in their order; in each of them only the first session with the identifier counts. -/
def fifoCancel (id : Nat) (s : State) : State :=
  let found (ref : Ref) : Bool := (s.object ref).id = id
  let s := match s.running.find? found with
    | some session => activateRm (.kill session) s
    | none => s
  let s :=
    if s.hold.any found then activateScd .schedule { s with hold := s.hold.eraseP found } else s
  if s.default.any found then activateScd .schedule { s with default := s.default.eraseP found }
    else s

def Intact (s : State) : Prop := (s.running ++ s.hold ++ s.default).Nodup

instance (s : State) : Decidable (Intact s) := inferInstanceAs (Decidable (List.Nodup _))

def handleScd (event : ScdEvent) (s : State) : Result State :=
  if Intact s then
    match event with
    | .init session => .ok (fifoFindQueue session s)
    | .schedule => .ok (fifoSchedule s)
    | .allocd session => fifoAllocated session s
    | .terminated session => fifoTerminated session s
    | .cancel id => .ok (fifoCancel id s)
  else Result.undefined

def setNodes (session : Ref) (nodes : CString) (s : State) : State :=
  let old := s.object session
  { s with object := Function.update s.object session { old with
    alloc := { old.alloc with nodes := some nodes } } }

def pickNodes (alloc : Alloc) (pool : Pool) : List Name :=
  ((freeNodes pool).take alloc.min_nodes.toNat).map Node.name

def scdBaseRmRequest (session : Ref) (s : State) : Result State :=
  let alloc := (s.object session).alloc
  if 0 < alloc.min_nodes then
    let names := pickNodes alloc s.nodes
    if names.length = alloc.min_nodes then
      match orteRegexCreate (joinWith ',' names) with
      | .ok noderegex => .ok (activateScd (.allocd session) (setNodes session noderegex s))
      | .error (.error _) => .ok (activateScd (.allocd session) (setNodes session errorText s))
      | .error .undefined => Result.undefined
    else .ok (activateScd (.allocd session) s)
  else .ok s

/-- The loops that send the allocation to its nodes: every name up to `min_nodes` is compared with
the names of all nodes, also the names after the last one. -/
def sendAlloc (alloc : Alloc) (nodenames : List Name) (s : State) : Result State :=
  if nodenames.length < alloc.min_nodes ∧ (s.nodes.filterMap id) ≠ [] then Result.undefined
  else if (nodenames.take alloc.min_nodes.toNat).any fun name => (s.nodes.filterMap id).any
    (·.name = name) then
    .ok { s with sent := s.sent ++ [alloc] }
  else .ok s

def scdBaseRmActive (session : Ref) (s : State) : Result State :=
  let alloc := (s.object session).alloc
  match orteRegexExtractNodeNames alloc.nodes with
  | .error .undefined => Result.undefined
  | .error (.error _) => .ok s
  | .ok [] => .ok s
  | .ok nodenames =>
    sendAlloc alloc nodenames
      { s with tracking := s.tracking ++ [⟨toInt (s.object session).id, 0⟩] }

def scdBaseRmKill (session : Ref) (s : State) : Result State :=
  let alloc := (s.object session).alloc
  match orteRegexExtractNodeNames alloc.nodes with
  | .error .undefined => Result.undefined
  | .error (.error _) => .ok s
  | .ok [] => .ok s
  | .ok nodenames => sendAlloc alloc nodenames s

def handleRm (event : RmEvent) (s : State) : Result State :=
  match event with
  | .req session => scdBaseRmRequest session s
  | .active session => scdBaseRmActive session s
  | .kill session => scdBaseRmKill session s

def orcmScdBaseGetNextSessionId (s : State) : Nat := (s.last_session_id + 1) % 4294967296

/-- `ORCM_SESSION_REQ_COMMAND`; the power manager may refuse the session, which still uses up an
identifier. -/
def sessionReq (alloc : Alloc) (accepted : Bool) (s : State) : State :=
  let id := orcmScdBaseGetNextSessionId s
  if accepted then
    activateScd (.init s.allocated) { s with
      object := Function.update s.object s.allocated ⟨id, { alloc with id := id }⟩
      allocated := s.allocated + 1
      last_session_id := id }
  else { s with last_session_id := id }

/-- The search through the trackers: the trackers afterwards, and whether all nodes have checked
in. -/
def checkIn (alloc : Alloc) : List Tracker → List Tracker × Bool
  | [] => ([], false)
  | trk :: rest =>
    if trk.alloc_id = alloc.id then
      if trk.count_checked_in + 1 = alloc.min_nodes then (rest, true)
      else ({ trk with count_checked_in := trk.count_checked_in + 1 } :: rest, false)
    else (trk :: (checkIn alloc rest).1, (checkIn alloc rest).2)

/-- `ORCM_STEPD_COMPLETE_COMMAND` -/
def stepdComplete (alloc : Alloc) (s : State) : State :=
  let (tracking, all) := checkIn alloc s.tracking
  let s := { s with tracking }
  if all then activateScd (.terminated ⟨(alloc.id % 4294967296).toNat, alloc⟩) s else s

inductive Label where
  | scd
  | rm
  | submit (alloc : Alloc) (accepted : Bool)
  | cancel (id : Nat)
  | complete (alloc : Alloc)
  | report (report : Report)

def step (clusters : List Cluster) (s : State) : Label → Option State
  | .scd =>
    match s.scd with
    | [] => none
    | event :: rest => (handleScd event { s with scd := rest }).toOption
  | .rm =>
    match s.rm with
    | [] => none
    | event :: rest => (handleRm event { s with rm := rest }).toOption
  | .submit alloc accepted => some (sessionReq alloc accepted s)
  | .cancel id => some (activateScd (.cancel id) s)
  | .complete alloc => if alloc ∈ s.sent then some (stepdComplete alloc s) else none
  | .report report =>
    match nodestateUpdate clusters report s.nodes with
    | (.error .undefined, _) => none
    | (_, nodes) => some { s with nodes }

def scheduler (clusters : List Cluster) : System State Label where
  initial s := ∃ nodes, s = start nodes
  step := step clusters

/-! Small systems for runs that are followed step by step. -/

/-- Nodes `a` and `b` as the configuration leaves them, before their daemons report. -/
def twoNodes : Pool :=
  [some ⟨['a'], daemonName 1, .unknown, .undef⟩, some ⟨['b'], daemonName 2, .unknown, .undef⟩]

def request (min_nodes : Int) : Label := .submit ⟨0, min_nodes, none⟩ true

end Orcm.Scheduler
