import Orcm.AttributeList

/-!
Heartbeats, `orcm/mca/sensor/heartbeat/sensor_heartbeat.c`. Both handlers ask for the count of beats
with the address of the variable `beats` in the place of the address of a pointer to it: where the
count is stored already, the four bytes of `beats`, which are zero, and the four bytes behind it on
the stack are taken for the pointer that the count is to be copied to. With other bytes than zero
behind `beats` that is undefined; with zeros nothing is copied. The unloading of sampled data is
left out.
-/

namespace Orcm.Heartbeat

open DssTypes Attributes AttributeList KeyedList

variable {machine : Machine}

/-- `ORTE_PROC_NBEATS` -/
def nbeats : Key := 314

abbrev int32Type : AttrType := .scalar .int32 rfl

inductive ProcState where
  | running
  | heartbeatFailed
  | other (code : Nat)
  deriving DecidableEq

structure Proc (machine : Machine) where
  name : ProcessName
  state : ProcState
  attributes : List (Attribute machine)

/-- `quiet` when the monitor is terminating or not initialised; `procs` is the pointer array of
`daemons`. -/
structure Monitor (machine : Machine) where
  me : ProcessName
  quiet : Bool
  procs : List (Option (Proc machine))

/-- `opal_pointer_array_get_item` at an index that is not negative. -/
def getItem (procs : List (Option (Proc machine))) (index : Nat) : Option (Proc machine) :=
  procs[index]?.join

def Monitor.item (monitor : Monitor machine) (index : Nat) : Option (Proc machine) :=
  getItem monitor.procs index

/-- `beats` after the call of `orte_get_attribute`; `behind` are the four bytes behind it, which
belong to the pointer that is read: whatever the other widths of the machine are, a pointer has
eight bytes. -/
def getBeats (attributes : List (Attribute machine)) (behind : Word .four) : Option (Word .four) :=
  if behind = 0 then
    if (orteGetAttribute attributes nbeats .null int32Type).2.isSome then none else some 0
  else if (orteGetAttribute attributes nbeats .absent int32Type).1 then none
  else some 0

/-- Here the address of `beats` is what is asked for. The returned code is not looked at. -/
def setBeats (attributes : List (Attribute machine)) (beats : Word .four) :
    List (Attribute machine) :=
  (orteSetAttribute attributes nbeats true int32Type (some beats)).2

def markBeat (proc : Proc machine) (behind : Word .four) : Option (Proc machine) :=
  (getBeats proc.attributes behind).map fun beats =>
    { proc with
      attributes := setBeats proc.attributes (beats + 1)
      state := if proc.state = .heartbeatFailed then .running else proc.state }

/-- The number of the sender is an index of the array, which is an `int`. -/
def recvBeats (monitor : Monitor machine) (sender : ProcessName) (behind : Word .four) :
    Option (Monitor machine) :=
  if monitor.quiet then some monitor
  else if 2147483648 ≤ sender.vpid.toNat then none
  else
    match monitor.item sender.vpid.toNat with
    | some proc => (markBeat proc behind).map fun proc =>
      { monitor with procs := monitor.procs.set sender.vpid.toNat (some proc) }
    | none => some monitor

/-- The daemon is not the monitor itself, and it is running. -/
def Watched (me : ProcessName) (proc : Proc machine) : Prop :=
  proc.name.vpid ≠ me.vpid ∧ proc.state = .running

instance (me : ProcessName) (proc : Proc machine) : Decidable (Watched me proc) :=
  inferInstanceAs (Decidable (_ ∧ _))

def checkProc (me : ProcessName) (proc : Proc machine) (behind : Word .four) :
    Option (Bool × Proc machine) :=
  if Watched me proc then
    (getBeats proc.attributes behind).map fun beats =>
      (beats = 0, { proc with attributes := setBeats proc.attributes 0 })
  else some (false, proc)

/-- The loop over the array from an index on, and the daemons that are reported. -/
def checkProcs (me : ProcessName) (behind : Nat → Word .four) :
    Nat → List (Option (Proc machine)) → Option (List ProcessName × List (Option (Proc machine)))
  | _, [] => some ([], [])
  | index, none :: rest =>
    (checkProcs me behind (index + 1) rest).map fun done => (done.1, none :: done.2)
  | index, some proc :: rest =>
    (checkProc me proc (behind index)).bind fun checked =>
      (checkProcs me behind (index + 1) rest).map fun done =>
        (if checked.1 then proc.name :: done.1 else done.1, some checked.2 :: done.2)

def checkHeartbeat (monitor : Monitor machine) (behind : Nat → Word .four) :
    Option (List ProcessName × Monitor machine) :=
  if monitor.quiet then some ([], monitor)
  else (checkProcs monitor.me behind 0 monitor.procs).map fun done =>
    (done.1, { monitor with procs := done.2 })

/-- What happens to the monitor. The bytes behind `beats` are those that the handlers find on the
stack; the state of a daemon is also changed by the state machine, and termination by others. -/
inductive Event where
  | beat (sender : ProcessName) (behind : Word .four)
  | check (behind : Nat → Word .four)
  | activated (index : Nat) (state : ProcState)
  | terminating

def activate (monitor : Monitor machine) (index : Nat) (state : ProcState) : Monitor machine :=
  match monitor.item index with
  | some proc => { monitor with procs := monitor.procs.set index (some { proc with state }) }
  | none => monitor

def perform (monitor : Monitor machine) : Event → Option (List ProcessName × Monitor machine)
  | .beat sender behind => (recvBeats monitor sender behind).map fun after => ([], after)
  | .check behind => checkHeartbeat monitor behind
  | .activated index state => some ([], activate monitor index state)
  | .terminating => some ([], { monitor with quiet := true })

def sinceAfter (monitor : Monitor machine) (since : Nat → Nat) : Event → Nat → Nat
  | .beat sender _ => fun index =>
    match monitor.item index with
    | some proc => if proc.name = sender then since index + 1 else since index
    | none => since index
  | .check _ => fun _ => 0
  | .activated _ _ | .terminating => since

/-- Whether a beat was received under a number since the last check that looked at its daemon. -/
def markedAfter (monitor : Monitor machine) (marked : Nat → Bool) : Event → Nat → Bool
  | .beat sender _ => fun index => if index = sender.vpid.toNat then true else marked index
  | .check _ => fun index =>
    match monitor.item index with
    | some proc => if Watched monitor.me proc then false else marked index
    | none => marked index
  | .activated _ _ | .terminating => marked

def reported (me : ProcessName) (due : Nat → Bool) :
    Nat → List (Option (Proc machine)) → List ProcessName
  | _, [] => []
  | index, none :: rest => reported me due (index + 1) rest
  | index, some proc :: rest =>
    if Watched me proc ∧ due index = true then proc.name :: reported me due (index + 1) rest
    else reported me due (index + 1) rest

def expected (monitor : Monitor machine) (since : Nat → Nat) : Event → List ProcessName
  | .check _ =>
    if monitor.quiet then [] else reported monitor.me (fun index => since index = 0) 0 monitor.procs
  | _ => []

def countOf : AttrValue machine → Int
  | ⟨.scalar .int32 _, beats⟩ => beats.toInt
  | _ => 0

def beatCount (attributes : List (Attribute machine)) : Int :=
  ((stored nbeats attributes).map countOf).getD 0

def Counted (monitor : Monitor machine) (since : Nat → Nat) : Prop :=
  ∀ index proc, monitor.item index = some proc → Watched monitor.me proc →
    beatCount proc.attributes = since index

/-- The event is handled, the right daemons are reported, and the counts are right while the monitor
is not terminating. -/
def Correct (monitor : Monitor machine) (since : Nat → Nat) (event : Event) : Prop :=
  ∃ done, perform monitor event = some done ∧ done.1 = expected monitor since event ∧
    (done.2.quiet = false → Counted done.2 (sinceAfter monitor since event))

def AllCorrect (monitor : Monitor machine) (since : Nat → Nat) : List Event → Prop
  | [] => True
  | event :: events => Correct monitor since event ∧
      ∀ done, perform monitor event = some done →
        AllCorrect done.2 (sinceAfter monitor since event) events

def Readable (proc : Proc machine) (behind : Word .four) : Prop :=
  stored nbeats proc.attributes = none ∨ behind = 0

def Meets (monitor : Monitor machine) (since : Nat → Nat) (marked : Nat → Bool) (event : Event) :
    Prop :=
  monitor.quiet = false →
    match event with
    | .beat sender behind => sender.vpid.toNat < 2147483648 ∧
        ∀ proc, monitor.item sender.vpid.toNat = some proc → Readable proc behind ∧
          (proc.name.vpid ≠ monitor.me.vpid → proc.state = .running ∨
            proc.state = .heartbeatFailed →
            since sender.vpid.toNat + (if proc.name = sender then 1 else 0) = 1)
    | .check behind => ∀ index proc, monitor.item index = some proc → Watched monitor.me proc →
        since index = 0 ∧ Readable proc (behind index)
    | .activated index state => state = .running → ∀ proc, monitor.item index = some proc →
        proc.name.vpid ≠ monitor.me.vpid → since index = if marked index then 1 else 0
    | .terminating => True

def AllMeet (monitor : Monitor machine) (since : Nat → Nat) (marked : Nat → Bool) :
    List Event → Prop
  | [] => True
  | event :: events => Meets monitor since marked event ∧
      ∀ done, perform monitor event = some done →
        AllMeet done.2 (sinceAfter monitor since event) (markedAfter monitor marked event) events

def Typed (attributes : List (Attribute machine)) : Prop :=
  ∀ value, stored nbeats attributes = some value → value.type = int32Type

variable {attributes : List (Attribute machine)}

theorem getBeats_eq (typed : Typed attributes) :
    getBeats attributes behind = if stored nbeats attributes = none ∨ behind = 0 then some 0
      else none := by
  rw [getBeats, orteGetAttribute, orteGetAttribute, stored]
  cases found : lookup Attribute.key nbeats attributes with
  | none => simp
  | some kv =>
    have type : kv.value.type = int32Type := typed kv.value (by rw [stored, found]; rfl)
    simp [type, orteAttrUnload, needsStorage, Except.toOption]

theorem getBeats_readable (typed : Typed proc.attributes)
    (readable : Readable proc behind) : getBeats proc.attributes behind = some 0 :=
  (getBeats_eq typed).trans (if_pos readable)

theorem getBeats_unreadable (typed : Typed proc.attributes)
    (unreadable : ¬ Readable proc behind) : getBeats proc.attributes behind = none :=
  (getBeats_eq typed).trans (if_neg unreadable)

section

variable (typed : Typed attributes) (beats : Word .four)
include typed beats

theorem stored_setBeats :
    stored nbeats (setBeats attributes beats) = some ⟨int32Type, beats⟩ := by
  have loads : orteAttrLoad machine int32Type (some beats) = .ok beats := rfl
  cases found : lookup Attribute.key nbeats attributes with
  | none =>
    have appended :
        setBeats attributes beats = attributes ++ [⟨nbeats, true, ⟨int32Type, beats⟩⟩] := by
      simp [setBeats, orteSetAttribute, found, loads]
    rw [appended, stored, lookup_append Attribute.key nbeats ⟨nbeats, true, _⟩ found]
    rfl
  | some kv =>
    have type : kv.value.type = int32Type := typed kv.value (by rw [stored, found]; rfl)
    have same : kv.key = nbeats := lookup_key Attribute.key nbeats kv attributes found
    have replaced : setBeats attributes beats =
        replace Attribute.key nbeats { kv with value := ⟨int32Type, beats⟩ } attributes := by
      simp [setBeats, orteSetAttribute, found, loads, type]
    rw [replaced, stored, lookup_replace Attribute.key nbeats nbeats
      { kv with value := ⟨int32Type, beats⟩ } attributes same, if_pos rfl, found]
    rfl

theorem typed_setBeats :
    Typed (setBeats attributes beats) := by
  intro value same
  rw [stored_setBeats typed] at same
  cases same
  rfl

theorem beatCount_setBeats :
    beatCount (setBeats attributes beats) = beats.toInt := by
  rw [beatCount, stored_setBeats typed]
  rfl

end

def Marks (monitor : Monitor machine) (marked : Nat → Bool) : Prop :=
  ∀ index proc, monitor.item index = some proc →
    beatCount proc.attributes = if marked index then 1 else 0

/-- A daemon is found under its number, and the counts are right while the monitor is not
terminating. -/
structure Invariant (monitor : Monitor machine) (since : Nat → Nat) (marked : Nat → Bool) :
    Prop where
  named : ∀ index (proc : Proc machine), monitor.item index = some proc →
    proc.name.vpid.toNat = index
  typed : ∀ index (proc : Proc machine), monitor.item index = some proc → Typed proc.attributes
  counted : monitor.quiet = false → Counted monitor since
  marks : monitor.quiet = false → Marks monitor marked

section Steps

variable {monitor : Monitor machine} {since : Nat → Nat} {marked : Nat → Bool} {event : Event}
    {index : Nat} {proc before : Proc machine} {sender me : ProcessName} {behind : Word .four}

theorem sinceAfter_beat (slot : monitor.item index = some proc) (sender : ProcessName)
    (behind : Word .four) :
    sinceAfter monitor since (.beat sender behind) index = since index + if proc.name = sender then
      1 else 0 := by
  simp only [sinceAfter, slot]
  split <;> rfl

theorem sinceAfter_beat_other (inv : Invariant monitor since marked)
    (slot : monitor.item index = some proc) (different : index ≠ sender.vpid.toNat)
    (behind : Word .four) :
    sinceAfter monitor since (.beat sender behind) index = since index := by
  rw [sinceAfter_beat slot, if_neg, Nat.add_zero]
  rintro rfl
  exact different (inv.named index proc slot).symm

theorem item_replaced (slot : monitor.item index = some before) (after : Proc machine)
    (other : Nat) :
    Monitor.item { monitor with procs := monitor.procs.set index (some after) } other =
      if other = index then some after else monitor.item other := by
  have inside : index < monitor.procs.length := by
    by_contra outside
    rw [Monitor.item, getItem, List.getElem?_eq_none (Nat.le_of_not_lt outside)] at slot
    cases slot
  rw [Monitor.item, Monitor.item, getItem, getItem, List.getElem?_set]
  by_cases here : index = other
  · rw [if_pos here, if_pos inside, if_pos here.symm]
    rfl
  · rw [if_neg here, if_neg (Ne.symm here)]

theorem Invariant.replaced {after : Proc machine} {since' : Nat → Nat} {marked' : Nat → Bool}
    (inv : Invariant monitor since marked) (slot : monitor.item index = some before)
    (name : after.name = before.name) (typed : Typed after.attributes)
    (counted : monitor.quiet = false →
      Counted { monitor with procs := monitor.procs.set index (some after) } since')
    (mark : monitor.quiet = false → beatCount after.attributes = if marked' index then 1 else 0)
    (others : ∀ other, other ≠ index → marked' other = marked other) :
    Invariant { monitor with procs := monitor.procs.set index (some after) } since' marked' where
  named := by
    intro other proc found
    rw [item_replaced slot] at found
    split at found
    · rename_i here
      cases found
      rw [name, here]
      exact inv.named index before slot
    · exact inv.named other proc found
  typed := by
    intro other proc found
    rw [item_replaced slot] at found
    split at found
    · cases found
      exact typed
    · exact inv.typed other proc found
  counted := counted
  marks := by
    intro loud other proc found
    rw [item_replaced slot] at found
    split at found
    · rename_i here
      cases found
      rw [here]
      exact mark loud
    · rename_i different
      rw [others other different]
      exact inv.marks loud other proc found

theorem counted_replaced {after : Proc machine} {since' : Nat → Nat}
    (slot : monitor.item index = some before) (counted : Counted monitor since)
    (others : ∀ other proc, monitor.item other = some proc → other ≠ index →
      since' other = since other) :
    Counted { monitor with procs := monitor.procs.set index (some after) } since' ↔
      (Watched monitor.me after → beatCount after.attributes = since' index) := by
  constructor
  · intro all watched
    apply all index after _ watched
    rw [item_replaced slot, if_pos rfl]
  · intro here other proc found watched
    rw [item_replaced slot] at found
    split at found
    · rename_i same
      cases found
      rw [same]
      exact here watched
    · rename_i different
      rw [others other proc found different]
      exact counted other proc found watched

/-- The event is correct exactly when it meets the condition, and then the invariant is kept. -/
def Step (monitor : Monitor machine) (since : Nat → Nat) (marked : Nat → Bool) (event : Event) :
    Prop :=
  (Correct monitor since event ↔ Meets monitor since marked event) ∧
    (Correct monitor since event → ∀ done, perform monitor event = some done →
      Invariant done.2 (sinceAfter monitor since event) (markedAfter monitor marked event))

theorem step_of_undefined (undefined : perform monitor event = none)
    (fails : ¬ Meets monitor since marked event) : Step monitor since marked event := by
  have wrong : ¬ Correct monitor since event := by
    rintro ⟨done, performed, -⟩
    rw [undefined] at performed
    cases performed
  exact ⟨iff_of_false wrong fails, fun correct => absurd correct wrong⟩

theorem step_of_performed {reports : List ProcessName} {after : Monitor machine}
    (performed : perform monitor event = some (reports, after))
    (correct : reports = expected monitor since event ∧
      (after.quiet = false → Counted after (sinceAfter monitor since event)) ↔
        Meets monitor since marked event)
    (kept : (after.quiet = false → Counted after (sinceAfter monitor since event)) →
      Invariant after (sinceAfter monitor since event) (markedAfter monitor marked event)) :
    Step monitor since marked event := by
  have same : Correct monitor since event ↔ reports = expected monitor since event ∧
      (after.quiet = false → Counted after (sinceAfter monitor since event)) := by
    rw [Correct, performed]
    constructor
    · rintro ⟨done, equal, right⟩
      cases equal
      exact right
    · exact fun right => ⟨_, rfl, right⟩
  constructor
  · exact same.trans correct
  · intro right done equal
    rw [performed] at equal
    cases equal
    exact kept (same.mp right).2

def beaten (proc : Proc machine) : Proc machine :=
  { proc with
    attributes := setBeats proc.attributes 1
    state := if proc.state = .heartbeatFailed then .running else proc.state }

theorem markBeat_readable (typed : Typed proc.attributes)
    (readable : Readable proc behind) : markBeat proc behind = some (beaten proc) := by
  rw [markBeat, getBeats_readable typed readable]
  rfl

theorem markBeat_unreadable (typed : Typed proc.attributes)
    (unreadable : ¬ Readable proc behind) : markBeat proc behind = none := by
  rw [markBeat, getBeats_unreadable typed unreadable]
  rfl

theorem watched_beaten :
    Watched me (beaten proc) ↔ proc.name.vpid ≠ me.vpid ∧
      (proc.state = .running ∨ proc.state = .heartbeatFailed) := by
  apply and_congr Iff.rfl
  change (if proc.state = .heartbeatFailed then ProcState.running else proc.state) = .running ↔ _
  split
  · rename_i failed
    exact iff_of_true rfl (Or.inr failed)
  · rename_i not_failed
    exact (or_iff_left not_failed).symm

theorem recvBeats_some (loud : monitor.quiet = false) (index : sender.vpid.toNat < 2147483648)
    (slot : monitor.item sender.vpid.toNat = some proc) (behind : Word .four) :
    recvBeats monitor sender behind = (markBeat proc behind).map fun proc =>
      { monitor with procs := monitor.procs.set sender.vpid.toNat (some proc) } := by
  rw [recvBeats, if_neg (by rw [loud]; exact Bool.noConfusion),
    if_neg (Nat.not_le_of_lt index), slot]

theorem recvBeats_none (loud : monitor.quiet = false) (index : sender.vpid.toNat < 2147483648)
    (slot : monitor.item sender.vpid.toNat = none) (behind : Word .four) :
    recvBeats monitor sender behind = some monitor := by
  rw [recvBeats, if_neg (by rw [loud]; exact Bool.noConfusion),
    if_neg (Nat.not_le_of_lt index), slot]

section

variable (inv : Invariant monitor since marked) (loud : monitor.quiet = false)
include inv loud

theorem step_untracked (index : sender.vpid.toNat < 2147483648)
    (slot : monitor.item sender.vpid.toNat = none) :
    Step monitor since marked (.beat sender behind) := by
  have unchanged : Counted monitor (sinceAfter monitor since (.beat sender behind)) := by
    intro other proc found watched
    rw [sinceAfter_beat_other inv found]
    · exact inv.counted loud other proc found watched
    · rintro rfl
      rw [slot] at found
      cases found
  apply step_of_performed
  · rw [perform, recvBeats_none loud index slot]
    rfl
  · apply iff_of_true
    · exact ⟨rfl, fun _ => unchanged⟩
    · intro _
      refine ⟨index, fun proc found => ?_⟩
      rw [slot] at found
      cases found
  · refine fun _ => ⟨inv.named, inv.typed, fun _ => unchanged, fun _ other proc found => ?_⟩
    have elsewhere : other ≠ sender.vpid.toNat := by
      rintro rfl
      rw [slot] at found
      cases found
    have same : markedAfter monitor marked (.beat sender behind) other = marked other :=
      if_neg elsewhere
    rw [same]
    exact inv.marks loud other proc found

theorem step_tracked (index : sender.vpid.toNat < 2147483648)
    (slot : monitor.item sender.vpid.toNat = some proc) :
    Step monitor since marked (.beat sender behind) := by
  have typed := inv.typed _ proc slot
  by_cases readable : Readable proc behind
  · have others : ∀ other proc, monitor.item other = some proc → other ≠ sender.vpid.toNat →
        sinceAfter monitor since (.beat sender behind) other = since other :=
      fun other proc found different => sinceAfter_beat_other inv found different behind
    apply step_of_performed
    · rw [perform, recvBeats_some loud index slot, markBeat_readable typed readable]
      rfl
    · have right :=
        @counted_replaced _ monitor since _ proc (beaten proc) _ slot (inv.counted loud) others
      have one : beatCount (beaten proc).attributes = 1 := beatCount_setBeats typed 1
      rw [watched_beaten, one, sinceAfter_beat slot] at right
      constructor
      · rintro ⟨-, counted⟩ _
        refine ⟨index, fun other found => ?_⟩
        rw [slot] at found
        cases found
        refine ⟨readable, fun different state => ?_⟩
        exact_mod_cast (right.mp (counted loud) ⟨different, state⟩).symm
      · intro meets
        refine ⟨rfl, fun _ => right.mpr fun watched => ?_⟩
        exact_mod_cast (((meets loud).2 proc slot).2 watched.1 watched.2).symm
    · intro right
      have here : markedAfter monitor marked (.beat sender behind) sender.vpid.toNat = true :=
        if_pos rfl
      exact inv.replaced slot rfl (typed_setBeats typed 1) right
        (fun _ => by rw [here]; exact beatCount_setBeats typed 1) fun _ different =>
          if_neg different
  · apply step_of_undefined
    · rw [perform, recvBeats_some loud index slot, markBeat_unreadable typed readable]
      rfl
    · exact fun meets => readable ((meets loud).2 proc slot).1

theorem step_beat :
    Step monitor since marked (.beat sender behind) := by
  by_cases index : sender.vpid.toNat < 2147483648
  · cases slot : monitor.item sender.vpid.toNat with
    | none => exact step_untracked inv loud index slot
    | some => exact step_tracked inv loud index slot
  · apply step_of_undefined
    · rw [perform, recvBeats, if_neg (by rw [loud]; exact Bool.noConfusion),
        if_pos (Nat.le_of_not_lt index)]
      rfl
    · exact fun meets => index (meets loud).1

end

def checked (me : ProcessName) (proc : Proc machine) : Proc machine :=
  if Watched me proc then { proc with attributes := setBeats proc.attributes 0 } else proc

theorem checkProc_eq (typed : Typed proc.attributes)
    (readable : Watched me proc → Readable proc behind) :
    checkProc me proc behind = some (decide (Watched me proc), checked me proc) := by
  rw [checkProc, checked]
  by_cases watched : Watched me proc
  · rw [if_pos watched, if_pos watched, getBeats_readable typed (readable watched),
      decide_eq_true watched]
    rfl
  · rw [if_neg watched, if_neg watched, decide_eq_false watched]

theorem checkProcs_eq {behind : Nat → Word .four} {procs : List (Option (Proc machine))}
    (typed : ∀ offset proc, getItem procs offset = some proc → Typed proc.attributes)
    (readable : ∀ offset proc, getItem procs offset = some proc → Watched me proc →
      Readable proc (behind (index + offset))) :
    checkProcs me behind index procs =
      some (reported me (fun _ => true) index procs, procs.map (Option.map (checked me))) := by
  induction procs generalizing index with
  | nil => rfl
  | cons slot rest ih =>
    have rest_readable : ∀ offset proc, getItem rest offset = some proc → Watched me proc →
        Readable proc (behind (index + 1 + offset)) := by
      intro offset proc found watched
      rw [Nat.add_assoc, Nat.add_comm 1]
      exact readable (offset + 1) proc found watched
    have further := ih (fun offset => typed (offset + 1)) rest_readable
    cases slot with
    | none =>
      rw [checkProcs, further]
      rfl
    | some proc =>
      have here :
          checkProc me proc (behind index) = some (decide (Watched me proc), checked me proc) :=
        checkProc_eq (typed 0 proc rfl) (readable 0 proc rfl)
      rw [checkProcs, here, further, reported]
      by_cases watched : Watched me proc <;> simp [watched]

theorem checkProcs_undefined {behind : Nat → Word .four} {procs : List (Option (Proc machine))}
    (found : getItem procs offset = some proc) (typed : Typed proc.attributes)
    (watched : Watched me proc) (unreadable : ¬ Readable proc (behind (index + offset))) :
    checkProcs me behind index procs = none := by
  induction procs generalizing index offset with
  | nil => cases found
  | cons slot rest ih =>
    cases offset with
    | zero =>
      cases slot with
      | none => cases found
      | some =>
        cases found
        rw [Nat.add_zero] at unreadable
        rw [checkProcs, checkProc, if_pos watched, getBeats_unreadable typed unreadable]
        rfl
    | succ =>
      have further : checkProcs me behind (index + 1) rest = none := by
        apply ih found
        rwa [Nat.add_assoc, Nat.add_comm 1]
      cases slot with
      | none =>
        rw [checkProcs, further]
        rfl
      | some first =>
        rw [checkProcs, further]
        cases checkProc me first (behind index) <;> rfl

variable (procs : List (Option (Proc machine)))

theorem length_reported_le (me : ProcessName) (due : Nat → Bool) (index : Nat) :
    (reported me due index procs).length ≤ (reported me (fun _ => true) index procs).length := by
  induction procs generalizing index with
  | nil => exact Nat.le_refl _
  | cons slot rest ih =>
    cases slot with
    | none => exact ih (index + 1)
    | some proc =>
      have further := ih (index + 1)
      simp only [reported]
      by_cases watched : Watched me proc <;> by_cases is_due : due index = true <;>
        simp [watched, is_due] <;> omega

theorem reported_eq_iff (me : ProcessName) (due : Nat → Bool) (index : Nat) :
    reported me (fun _ => true) index procs = reported me due index procs ↔
      ∀ offset proc, getItem procs offset = some proc → Watched me proc →
        due (index + offset) = true := by
  induction procs generalizing index with
  | nil => exact iff_of_true rfl fun offset proc found => absurd found (by simp [getItem])
  | cons slot rest ih =>
    have shifted :
        (∀ offset proc, getItem (slot :: rest) (offset + 1) = some proc → Watched me proc →
        due (index + (offset + 1)) = true) ↔
        ∀ offset proc, getItem rest offset = some proc → Watched me proc →
          due (index + 1 + offset) = true := by
      apply forall_congr'
      intro offset
      rw [Nat.add_assoc, Nat.add_comm 1]
      exact Iff.rfl
    rw [← Nat.and_forall_add_one, shifted, ← ih (index + 1)]
    cases slot with
    | none =>
      apply (and_iff_right _).symm
      intro proc found
      cases found
    | some proc =>
      simp only [reported]
      by_cases watched : Watched me proc
      · by_cases is_due : due index = true
        · rw [if_pos ⟨watched, trivial⟩, if_pos ⟨watched, is_due⟩, List.cons_inj_right]
          apply (and_iff_right _).symm
          intro other found _
          cases found
          exact is_due
        · rw [if_pos ⟨watched, trivial⟩, if_neg fun both => is_due both.2]
          apply iff_of_false
          · intro same
            have longer := congrArg List.length same
            have bound := length_reported_le rest me due (index + 1)
            rw [List.length_cons] at longer
            omega
          · exact fun both => is_due (both.1 proc rfl watched)
      · rw [if_neg fun both => watched both.1, if_neg fun both => watched both.1]
        apply (and_iff_right _).symm
        intro other found now_watched
        cases found
        exact absurd now_watched watched

theorem getItem_checked {index : Nat} :
    getItem (procs.map (Option.map (checked me))) index = (getItem procs index).map
      (checked me) := by
  rw [getItem, getItem, List.getElem?_map]
  cases procs[index]? with
  | none => rfl
  | some slot => cases slot <;> rfl

theorem name_checked : (checked me proc).name = proc.name := by
  rw [checked]
  split <;> rfl

theorem watched_checked (watched : Watched me (checked me proc)) :
    Watched me proc := by
  rw [checked] at watched
  split at watched
  · assumption
  · exact watched

theorem typed_checked (typed : Typed proc.attributes) :
    Typed (checked me proc).attributes := by
  rw [checked]
  split
  · exact typed_setBeats typed 0
  · exact typed

theorem beatCount_checked (typed : Typed proc.attributes)
    (watched : Watched me proc) : beatCount (checked me proc).attributes = 0 := by
  rw [checked, if_pos watched]
  exact beatCount_setBeats typed 0

theorem step_check (inv : Invariant monitor since marked) (loud : monitor.quiet = false)
    {behind : Nat → Word .four} :
    Step monitor since marked (.check behind) := by
  by_cases readable : ∀ index proc, monitor.item index = some proc → Watched monitor.me proc →
    Readable proc (behind index)
  · have from_zero : ∀ offset proc, getItem monitor.procs offset = some proc →
        Watched monitor.me proc →
        Readable proc (behind (0 + offset)) := by
      intro offset proc found watched
      rw [Nat.zero_add]
      exact readable offset proc found watched
    have loop := checkProcs_eq inv.typed from_zero
    have counted :
        Counted { monitor with procs := monitor.procs.map (Option.map (checked monitor.me)) }
          fun _ => 0 := by
      intro index proc found watched
      rw [Monitor.item, getItem_checked] at found
      obtain ⟨before, slot, rfl⟩ := Option.map_eq_some_iff.mp found
      exact beatCount_checked (inv.typed index before slot) (watched_checked watched)
    have silent := reported_eq_iff monitor.procs monitor.me (fun index => since index = 0) 0
    apply step_of_performed
    · rw [perform, checkHeartbeat, if_neg (by rw [loud]; exact Bool.noConfusion), loop]
      rfl
    · rw [expected, if_neg (by rw [loud]; exact Bool.noConfusion), silent]
      constructor
      · rintro ⟨none_arrived, -⟩ _ index proc found watched
        have zero := none_arrived index proc found watched
        rw [Nat.zero_add, decide_eq_true_eq] at zero
        exact ⟨zero, readable index proc found watched⟩
      · intro meets
        refine ⟨fun index proc found watched => ?_, fun _ => counted⟩
        rw [Nat.zero_add]
        exact decide_eq_true (meets loud index proc found watched).1
    · intro _
      refine ⟨?_, ?_, fun _ => counted, fun _ => ?_⟩
      · intro index proc found
        rw [Monitor.item, getItem_checked] at found
        obtain ⟨before, slot, rfl⟩ := Option.map_eq_some_iff.mp found
        rw [name_checked]
        exact inv.named index before slot
      · intro index proc found
        rw [Monitor.item, getItem_checked] at found
        obtain ⟨before, slot, rfl⟩ := Option.map_eq_some_iff.mp found
        exact typed_checked (inv.typed index before slot)
      · intro index proc found
        rw [Monitor.item, getItem_checked] at found
        obtain ⟨before, slot, rfl⟩ := Option.map_eq_some_iff.mp found
        have here : monitor.item index = some before := slot
        simp only [markedAfter, here]
        split
        · rename_i watched
          exact beatCount_checked (inv.typed index before slot) watched
        · rename_i unwatched
          rw [checked, if_neg unwatched]
          exact inv.marks loud index before slot
  · have unreadable := readable
    push Not at unreadable
    obtain ⟨index, proc, found, watched, fails⟩ := unreadable
    apply step_of_undefined
    · have loop : checkProcs monitor.me behind 0 monitor.procs = none := by
        apply checkProcs_undefined found (inv.typed index proc found) watched
        rwa [Nat.zero_add]
      rw [perform, checkHeartbeat, if_neg (by rw [loud]; exact Bool.noConfusion), loop]
      rfl
    · exact fun meets => readable fun index proc found watched =>
        (meets loud index proc found watched).2

theorem activate_some (slot : monitor.item index = some proc) (state : ProcState) :
    activate monitor index state =
      { monitor with procs := monitor.procs.set index (some { proc with state := state }) } := by
  rw [activate, slot]

variable (inv : Invariant monitor since marked)
include inv

theorem step_activated (loud : monitor.quiet = false) {index : Nat} {state : ProcState} :
    Step monitor since marked (.activated index state) := by
  cases slot : monitor.item index with
  | none =>
    have unchanged : activate monitor index state = monitor := by rw [activate, slot]
    apply step_of_performed
    · rw [perform, unchanged]
    · apply iff_of_true
      · exact ⟨rfl, inv.counted⟩
      · intro _ _ proc found
        rw [slot] at found
        cases found
    · exact fun _ => inv
  | some proc =>
    have right := @counted_replaced _ monitor since _ proc { proc with state := state } since slot
      (inv.counted loud)
      fun _ _ _ _ => rfl
    apply step_of_performed
    · rw [perform, activate_some slot]
    · have mark := inv.marks loud index proc slot
      constructor
      · rintro ⟨-, counted⟩ _ rfl other found different
        rw [slot] at found
        cases found
        have count : beatCount proc.attributes = since index :=
          right.mp (counted loud) ⟨different, rfl⟩
        rw [mark] at count
        exact_mod_cast count.symm
      · intro meets
        refine ⟨rfl, fun _ => right.mpr fun watched => ?_⟩
        change beatCount proc.attributes = since index
        rw [mark, meets loud watched.2 proc slot watched.1]
        norm_cast
    · exact fun counted => inv.replaced slot rfl (inv.typed index proc slot) counted
        (fun _ => inv.marks loud index proc slot) fun _ _ => rfl

theorem Invariant.activate (quiet : monitor.quiet = true) (index : Nat) (state : ProcState) :
    Invariant (activate monitor index state) since marked := by
  cases slot : monitor.item index with
  | none =>
    rw [Heartbeat.activate, slot]
    exact inv
  | some proc =>
    rw [activate_some slot]
    have silent : monitor.quiet ≠ false := by simp [quiet]
    exact inv.replaced slot rfl (inv.typed index proc slot) (fun loud => absurd loud silent)
      (fun loud => absurd loud silent) fun _ _ => rfl

theorem step_quiet (quiet : monitor.quiet = true) :
    Step monitor since marked event := by
  have meets : Meets monitor since marked event := by
    intro loud
    rw [quiet] at loud
    cases loud
  have silent : ∀ {after : Monitor machine} {claim : Prop}, after.quiet = true →
      after.quiet = false → claim := by
    intro after claim still loud
    rw [still] at loud
    cases loud
  cases event with
  | beat =>
    apply step_of_performed
    · rw [perform, recvBeats, if_pos quiet]
      rfl
    · exact iff_of_true ⟨rfl, silent quiet⟩ meets
    · exact fun _ => ⟨inv.named, inv.typed, silent quiet, silent quiet⟩
  | check =>
    apply step_of_performed
    · rw [perform, checkHeartbeat, if_pos quiet]
    · rw [expected, if_pos quiet]
      exact iff_of_true ⟨rfl, silent quiet⟩ meets
    · exact fun _ => ⟨inv.named, inv.typed, silent quiet, silent quiet⟩
  | activated index state =>
    have kept := inv.activate quiet index state
    apply step_of_performed rfl
    · exact iff_of_true ⟨rfl, kept.counted⟩ meets
    · exact fun _ => kept
  | terminating =>
    apply step_of_performed rfl
    · exact iff_of_true ⟨rfl, silent rfl⟩ meets
    · exact fun _ => ⟨inv.named, inv.typed, silent rfl, silent rfl⟩

theorem step : Step monitor since marked event := by
  cases quiet : monitor.quiet with
  | true => exact step_quiet inv quiet
  | false =>
    cases event with
    | beat sender behind => exact step_beat inv quiet
    | check behind => exact step_check inv quiet
    | activated index state => exact step_activated inv quiet
    | terminating =>
      apply step_of_performed rfl
      · exact iff_of_true ⟨rfl, fun loud => Bool.noConfusion loud⟩ fun _ => trivial
      · exact fun _ => ⟨inv.named, inv.typed, fun loud => Bool.noConfusion loud,
          fun loud => Bool.noConfusion loud⟩

theorem run_iff (events : List Event) :
    AllCorrect monitor since events ↔ AllMeet monitor since marked events := by
  induction events generalizing monitor since marked with
  | nil => exact Iff.rfl
  | cons event events ih =>
    obtain ⟨same, kept⟩ := step inv
    rw [AllMeet, ← same]
    apply and_congr_right
    intro correct
    exact forall_congr' fun done => forall_congr' fun performed => ih (kept correct done performed)

end Steps

structure Started (monitor : Monitor machine) : Prop where
  named : ∀ index (proc : Proc machine), monitor.item index = some proc →
    proc.name.vpid.toNat = index
  uncounted : ∀ index (proc : Proc machine), monitor.item index = some proc →
    stored nbeats proc.attributes = none

theorem started_invariant {monitor : Monitor machine} (started : Started monitor) :
    Invariant monitor (fun _ => 0) fun _ => false where
  named := started.named
  typed := by
    intro index proc found value held
    rw [started.uncounted index proc found] at held
    cases held
  counted := by
    intro _ index proc found _
    rw [beatCount, started.uncounted index proc found]
    rfl
  marks := by
    intro _ index proc found
    rw [beatCount, started.uncounted index proc found]
    rfl

theorem heartbeats_counted_iff (monitor : Monitor machine) (started : Started monitor)
    (events : List Event) :
    AllCorrect monitor (fun _ => 0) events ↔
      AllMeet monitor (fun _ => 0) (fun _ => false) events :=
  run_iff (started_invariant started) events

def pair : Monitor .lp64 :=
  ⟨⟨1, 0⟩, false, [some ⟨⟨1, 0⟩, .running, []⟩, some ⟨⟨1, 1⟩, .running, []⟩]⟩

theorem pair_started : Started pair := by
  constructor <;> intro index proc found
  all_goals
    rcases index with _ | _ | index
    · cases found
      rfl
    · cases found
      rfl
    · simp [Monitor.item, getItem, pair] at found

/-- A daemon that has sent nothing is reported by the first check, and then its first beat is
counted. -/
theorem pair_counted : AllCorrect pair (fun _ => 0) [.check fun _ => 5, .beat ⟨1, 1⟩ 0] := by
  rw [heartbeats_counted_iff pair pair_started]
  refine ⟨fun _ index proc found _ => ⟨rfl, .inl (pair_started.uncounted index proc found)⟩, ?_⟩
  rintro _ ⟨⟩
  refine ⟨fun _ => ⟨by decide, ?_⟩, fun _ _ => trivial⟩
  rintro _ ⟨⟩
  exact ⟨.inr rfl, fun _ _ => rfl⟩

/-- A beat has arrived since the check before, and the daemon is reported all the same. -/
theorem beating_daemon_reported :
    ¬ AllCorrect pair (fun _ => 0) [.beat ⟨1, 1⟩ 0, .check fun _ => 0] := by
  rw [run_iff (started_invariant pair_started)]
  rintro ⟨-, rest⟩
  have meets := (rest _ rfl).1 rfl 1 _ rfl ⟨by decide, rfl⟩
  exact absurd meets.1 (by decide)

end Orcm.Heartbeat
