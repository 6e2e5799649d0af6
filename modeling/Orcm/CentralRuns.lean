import Mathlib.Data.List.Perm.Subperm
import Orcm.CentralViews

/-!
The runs of the centralised allgather. A collective is first collected and then released, and each
event moves one collective on.
-/

namespace Orcm.CentralRuns

open DssTypes CentralAllgather CentralViews TransitionSystem List Function

variable {Data : Type} (site : Site)

structure Live (callback : Callback) : Prop where
  named : callback.names ≠ []
  small : callback.index < 4294967296
  resolved : Resolved site callback.names (participants site callback.names)
  inhabited : participants site callback.names ≠ []

variable {me : Vpid}

theorem live_of_participant (index : Nat) (named : names ≠ []) (small : index < 4294967296)
    (member : me ∈ participants site names) : Live site ⟨names, index⟩ where
  named := named
  small := small
  resolved := participants_resolved site names me named member
  inhabited := ne_nil_of_mem member

section Stages

variable (callback : Callback)

def sigOf : Signature := ⟨some callback.names, BitVec.ofNat 32 callback.index⟩

def reportOf (entry : Vpid × Data) : Message Data :=
  ⟨site.hnp, .report entry.1 (sigOf callback) entry.2⟩

def releaseOf (reply : Reply Data) (daemon : Vpid) : Message Data :=
  ⟨daemon, .release (sigOf callback) reply⟩

def collects (gathered : List (Vpid × Data)) (me : Vpid) (cbfunc : Option Callback) :
    Coll Data where
  names := callback.names
  seq_num := BitVec.ofNat 32 callback.index
  ndmns := (participants site callback.names).length
  nreported := if me = site.hnp then gathered.length else 0
  bucket := if me = site.hnp then gathered.map Prod.snd else []
  cbfunc := cbfunc

structure Collecting (view : View Data) (pending gathered : List (Vpid × Data)) : Prop where
  distinct : ((pending ++ gathered).map Prod.fst).Nodup
  taking_part : ∀ entry ∈ pending ++ gathered, entry.1 ∈ participants site callback.names
  requested : ∀ me data, (view.part me).request = some data ↔ (me, data) ∈ pending ++ gathered
  tracker : ∀ me, (view.part me).tracker =
    if (view.part me).request ≠ none ∨ me = site.hnp ∧ gathered ≠ [] then
      some (collects site callback gathered me ((view.part me).request.map fun _ => callback))
    else none
  unanswered : ∀ me, (view.part me).replies = []
  flight : view.flight.Perm (pending.map (reportOf site callback))
  unreleased : view.released = 0

structure Released (view : View Data) (gathered : List (Vpid × Data)) (undelivered : List Vpid)
    (reply : Reply Data) :
    Prop where
  everyone : (gathered.map Prod.fst).Perm (participants site callback.names)
  requested : ∀ me data, (view.part me).request = some data ↔ (me, data) ∈ gathered
  succeeded : reply.error = none
  whole : reply.bucket = gathered.map Prod.snd
  distinct : undelivered.Nodup
  waits : ∀ me, (view.part me).tracker.bind Coll.cbfunc =
    if me ∈ participants site callback.names ∧ me ∈ undelivered then some callback else none
  replies : ∀ me, (view.part me).replies =
    if me ∈ participants site callback.names ∧ me ∉ undelivered then [reply] else []
  flight : view.flight.Perm (undelivered.map (releaseOf callback reply))
  once : view.released = 1

inductive Stage (view : View Data) : Prop where
  | collecting (pending gathered : List (Vpid × Data))
      (unfinished : gathered.length < (participants site callback.names).length)
      (holds : Collecting site callback view pending gathered)
  | released (gathered : List (Vpid × Data)) (undelivered : List Vpid) (reply : Reply Data)
      (holds : Released site callback view gathered undelivered reply)

theorem stage_perm {view : View Data} (same : view.flight.Perm flight)
    (stage : Stage site callback view) : Stage site callback { view with flight } := by
  cases stage with
  | collecting pending gathered unfinished holds =>
    exact .collecting pending gathered unfinished
      { holds with flight := same.symm.trans holds.flight }
  | released gathered undelivered reply holds =>
    exact .released gathered undelivered reply { holds with flight := same.symm.trans holds.flight }

variable {site callback} {gathered pending : List (Vpid × Data)} {view : View Data}

section

variable (holds : Collecting site callback view pending gathered)
include holds

theorem Collecting.waits (me : Vpid) :
    (view.part me).tracker.bind Coll.cbfunc = (view.part me).request.map fun _ => callback := by
  rw [holds.tracker me]
  by_cases tracked : (view.part me).request ≠ none ∨ me = site.hnp ∧ gathered ≠ []
  · rw [if_pos tracked]
    rfl
  · rw [if_neg tracked, not_not.mp (not_or.mp tracked).1]
    rfl

theorem Collecting.tracked (me : Vpid) :
    (view.part me).tracker.getD
        ⟨callback.names, BitVec.ofNat 32 callback.index, (participants site callback.names).length,
          0, [], none⟩ =
      collects site callback gathered me ((view.part me).request.map fun _ => callback) := by
  rw [holds.tracker me]
  by_cases tracked : (view.part me).request ≠ none ∨ me = site.hnp ∧ gathered ≠ []
  · rw [if_pos tracked]
    rfl
  · rw [if_neg tracked]
    obtain ⟨silent, nothing⟩ := not_or.mp tracked
    rw [not_not.mp silent]
    by_cases head : me = site.hnp
    · have empty : gathered = [] := not_not.mp fun some => nothing ⟨head, some⟩
      simp [collects, empty]
    · simp [collects, head]

theorem Collecting.call (member : me ∈ participants site callback.names)
    (first : (view.part me).request = none) :
    Collecting site callback
      { part := update view.part me
          ⟨some data, some (collects site callback gathered me (some callback)),
            (view.part me).replies⟩
        flight := view.flight ++ [reportOf site callback (me, data)]
        released := view.released }
      (pending ++ [(me, data)]) gathered := by
  have absent : ∀ value, (me, value) ∉ pending ++ gathered := by
    intro value present
    rw [(holds.requested me value).mpr present] at first
    cases first
  have members : ∀ entry, entry ∈ pending ++ [(me, data)] ++ gathered ↔ entry = (me, data) ∨
      entry ∈ pending ++ gathered := by
    intro entry
    grind
  refine ⟨?_, ?_, ?_, ?_, ?_, ?_, holds.unreleased⟩
  · have moved :
        ((me, data) :: (pending ++ gathered)).Perm (pending ++ [(me, data)] ++ gathered) := by
      rw [append_assoc]
      exact List.perm_middle.symm
    apply (moved.map Prod.fst).nodup
    apply List.nodup_cons.mpr
    refine ⟨fun present => ?_, holds.distinct⟩
    obtain ⟨entry, present, same⟩ := List.mem_map.mp present
    obtain ⟨other, value⟩ := entry
    cases same
    exact absent value present
  · intro entry present
    rcases (members entry).mp present with rfl | before
    · exact member
    · exact holds.taking_part entry before
  · intro other value
    rw [members]
    by_cases same : other = me
    · subst other
      simp only [update_self]
      constructor
      · intro now
        cases now
        exact .inl rfl
      · rintro (now | before)
        · cases now
          rfl
        · exact absurd before (absent value)
    · simp only [update_of_ne same, holds.requested]
      constructor
      · exact .inr
      · rintro (now | before)
        · cases now
          exact absurd rfl same
        · exact before
  · intro other
    by_cases same : other = me
    · subst other
      simp only [update_self]
      rfl
    · simp only [update_of_ne same]
      exact holds.tracker other
  · intro other
    by_cases same : other = me
    · subst other
      simp only [update_self]
      exact holds.unanswered me
    · simp only [update_of_ne same]
      exact holds.unanswered other
  · rw [map_append]
    exact holds.flight.append_right _

theorem Collecting.report (delivers : view.flight.Perm (message :: rest)) :
    ∃ entry left, message = reportOf site callback entry ∧
      Collecting site callback
        { part := update view.part site.hnp
            { view.part site.hnp with
              tracker := some (collects site callback (gathered ++ [entry]) site.hnp
                ((view.part site.hnp).request.map fun _ => callback)) }
          flight := rest
          released := view.released }
        left (gathered ++ [entry]) := by
  have sent : message ∈ pending.map (reportOf site callback) :=
    (delivers.symm.trans holds.flight).subset mem_cons_self
  obtain ⟨entry, member, rfl⟩ := List.mem_map.mp sent
  obtain ⟨front, back, rfl⟩ := append_of_mem member
  have moved :
      (front ++ entry :: back ++ gathered).Perm (front ++ back ++ (gathered ++ [entry])) := by
    calc (front ++ entry :: back ++ gathered).Perm (entry :: (front ++ back) ++ gathered) :=
          List.perm_middle.append_right gathered
      _ = entry :: (front ++ back ++ gathered) := rfl
      List.Perm _ (front ++ back ++ gathered ++ [entry]) := (perm_append_singleton _ _).symm
      _ = front ++ back ++ (gathered ++ [entry]) := append_assoc ..
  refine ⟨entry, front ++ back, rfl, (moved.map Prod.fst).nodup holds.distinct, ?_, ?_, ?_, ?_, ?_,
    holds.unreleased⟩
  · intro other present
    exact holds.taking_part other (moved.mem_iff.mpr present)
  · intro me data
    rw [← moved.mem_iff, ← holds.requested]
    by_cases head : me = site.hnp
    · subst me
      simp [update_self]
    · simp [update_of_ne head]
  · intro me
    by_cases head : me = site.hnp
    · subst me
      simp only [update_self]
      rw [if_pos (.inr ⟨trivial, append_ne_nil_of_right_ne_nil _ (cons_ne_nil _ _)⟩)]
    · simp only [update_of_ne head]
      rw [holds.tracker me]
      simp [head, collects]
  · intro me
    by_cases head : me = site.hnp
    · subst me
      simp only [update_self]
      exact holds.unanswered _
    · simp only [update_of_ne head]
      exact holds.unanswered me
  · have all := delivers.symm.trans holds.flight
    rw [map_append] at all
    rw [map_append]
    exact (all.trans perm_middle).cons_inv

theorem Collecting.complete (full : gathered.length = (participants site callback.names).length) :
    pending = [] ∧ (gathered.map Prod.fst).Perm (participants site callback.names) := by
  have inside :
      ((pending ++ gathered).map Prod.fst).Subperm (participants site callback.names) := by
    apply holds.distinct.subperm
    intro me present
    obtain ⟨entry, member, rfl⟩ := List.mem_map.mp present
    exact holds.taking_part entry member
  have bound := inside.length_le
  rw [length_map, length_append] at bound
  have nothing : pending = [] := eq_nil_of_length_eq_zero (by omega)
  subst pending
  exact ⟨rfl, inside.perm_of_length_le (by rw [nil_append, length_map, full])⟩

end

theorem released_start (view : View Data) (gathered : List (Vpid × Data)) (reply : Reply Data)
    (resolved : Resolved site callback.names (participants site callback.names))
    (everyone : (gathered.map Prod.fst).Perm (participants site callback.names))
    (requested : ∀ me data, (view.part me).request = some data ↔ (me, data) ∈ gathered)
    (waits : ∀ me, (view.part me).tracker.bind Coll.cbfunc = (view.part me).request.map
      fun _ => callback)
    (unanswered : ∀ me, (view.part me).replies = []) (succeeded : reply.error = none)
    (whole : reply.bucket = gathered.map Prod.snd) :
    Released site callback ⟨view.part, site.daemons.map (releaseOf callback reply), 1⟩ gathered
      site.daemons reply where
  everyone := everyone
  requested := requested
  succeeded := succeeded
  whole := whole
  distinct := site.distinct
  waits me := by
    change (view.part me).tracker.bind Coll.cbfunc = _
    rw [waits me]
    by_cases member : me ∈ participants site callback.names
    · obtain ⟨entry, present, rfl⟩ := List.mem_map.mp (everyone.mem_iff.mpr member)
      rw [if_pos ⟨member, resolved.inside _ member⟩, (requested entry.1 entry.2).mpr present]
      rfl
    · rw [if_neg fun both => member both.1]
      cases request : (view.part me).request with
      | none => rfl
      | some data =>
        have present := (requested me data).mp request
        exact absurd (everyone.mem_iff.mp (mem_map_of_mem present)) member
  replies me := by
    change (view.part me).replies = _
    rw [unanswered me, if_neg fun both => both.2 (resolved.inside _ both.1)]
  flight := .refl _
  once := rfl

theorem Collecting.alone (holds : Collecting site callback view pending gathered)
    (single : (participants site callback.names).length = 1)
    (member : me ∈ participants site callback.names) (first : (view.part me).request = none)
    (resolved : Resolved site callback.names (participants site callback.names))
    (succeeded : reply.error = none) (whole : reply.bucket = [data]) :
    Released site callback
      { part := update view.part me
          ⟨some data, some (collects site callback gathered me (some callback)),
            (view.part me).replies⟩
        flight := view.flight ++ site.daemons.map (releaseOf callback reply)
        released := view.released + 1 }
      [(me, data)] site.daemons reply := by
  obtain ⟨sole, everyone⟩ := List.length_eq_one_iff.mp single
  have only : ∀ other ∈ participants site callback.names, other = me := by
    intro other present
    rw [everyone] at present member
    rw [List.mem_singleton.mp present, List.mem_singleton.mp member]
  have silent : ∀ other, (view.part other).request = none := by
    intro other
    apply Option.eq_none_iff_forall_ne_some.mpr
    intro value request
    have present := (holds.requested other value).mp request
    rw [only other (holds.taking_part _ present), first] at request
    cases request
  have nothing : pending = [] := by
    apply List.eq_nil_iff_forall_not_mem.mpr
    intro entry present
    have request := (holds.requested entry.1 entry.2).mpr (mem_append_left _ present)
    rw [silent] at request
    cases request
  have quiet : view.flight = [] := by
    have flight := holds.flight
    rw [nothing] at flight
    exact flight.eq_nil
  rw [quiet, holds.unreleased]
  refine released_start
    ⟨update view.part me
      ⟨some data, some (collects site callback gathered me (some callback)),
        (view.part me).replies⟩, [], 0⟩
    [(me, data)] reply resolved ?_ ?_ ?_ ?_ succeeded whole
  · rw [everyone, ← only sole (everyone ▸ mem_singleton_self sole)]
    exact .refl _
  · intro other value
    by_cases same : other = me
    · rw [same]
      simp [eq_comm]
    · simp [silent, same]
  · intro other
    by_cases same : other = me
    · rw [same]
      simp only [update_self]
      rfl
    · simp only [update_of_ne same]
      exact holds.waits other
  · intro other
    by_cases same : other = me
    · rw [same]
      simp only [update_self]
      exact holds.unanswered me
    · simp only [update_of_ne same]
      exact holds.unanswered other

theorem Released.deliver (holds : Released site callback view gathered undelivered reply)
    (delivers : view.flight.Perm (message :: rest)) :
    ∃ me left, message = releaseOf callback reply me ∧
      Released site callback
        { part := update view.part me
            { request := (view.part me).request
              tracker := none
              replies := (view.part me).replies ++
                (((view.part me).tracker.bind Coll.cbfunc).map fun _ => reply).toList }
          flight := rest
          released := view.released }
        gathered left reply := by
  have all := delivers.symm.trans holds.flight
  obtain ⟨me, member, rfl⟩ := List.mem_map.mp (all.subset mem_cons_self)
  obtain ⟨front, back, rfl⟩ := append_of_mem member
  have moved : (front ++ me :: back).Perm (me :: (front ++ back)) := perm_middle
  obtain ⟨gone, distinct⟩ := List.nodup_cons.mp (moved.nodup holds.distinct)
  have still : ∀ other ≠ me, (other ∈ front ++ me :: back ↔ other ∈ front ++ back) := by
    intro other differs
    rw [moved.mem_iff, mem_cons, or_iff_right differs]
  refine ⟨me, front ++ back, rfl, holds.everyone, ?_, holds.succeeded, holds.whole, distinct, ?_,
    ?_, ?_, holds.once⟩
  · intro other data
    rw [← holds.requested]
    by_cases same : other = me
    · subst other
      simp only [update_self]
    · simp only [update_of_ne same]
  · intro other
    by_cases same : other = me
    · subst other
      simp only [update_self]
      rw [if_neg fun both => gone both.2]
      rfl
    · simp only [update_of_ne same]
      simp only [holds.waits other, still other same]
  · intro other
    by_cases same : other = me
    · rw [same]
      simp only [update_self]
      rw [holds.waits me, holds.replies me, if_neg fun both => both.2 member]
      by_cases takes : me ∈ participants site callback.names
      · rw [if_pos ⟨takes, member⟩, if_pos ⟨takes, gone⟩]
        rfl
      · rw [if_neg fun both => takes both.1, if_neg fun both => takes both.1]
        rfl
    · simp only [update_of_ne same]
      simp [holds.replies other, still other same]
  · rw [map_append, map_cons] at all
    rw [map_append]
    exact (all.trans perm_middle).cons_inv

end Stages

structure Sound (network : Network Data) : Prop where
  tidy : ∀ me, Tidy site me (network.daemon me)
  stage : ∀ callback, Live site callback → Stage site callback (view network callback)
  owned : ∀ message ∈ network.flight, ∃ callback, Live site callback ∧
    Message.key message = Callback.key callback

variable {site} (callback : Callback)

theorem put_sound {network : Network Data} (sound : Sound site network) (live : Live site callback)
    (fewer : ∀ message ∈ flight, message ∈ network.flight)
    (kept : ∀ other, other ≠ callback → Live site other →
      (messagesOf other network.flight).Perm (messagesOf other flight))
        (tidy : Tidy site me outcome.daemon)
    (sent : ∀ message ∈ outcome.sent, Message.key message = Callback.key callback)
    (released : ∀ sig ∈ outcome.released, sigOf callback = sig)
    (others : ∀ other, other ≠ callback → Live site other →
      part outcome.daemon other = part (network.daemon me) other)
    (stage : Stage site callback
      { part := update (view network callback).part me (part outcome.daemon callback)
        flight := messagesOf callback flight ++ outcome.sent
        released := (view network callback).released + outcome.released.length }) :
    Sound site ({ network with flight }.put me outcome) where
  tidy other := by
    by_cases same : other = me
    · subst other
      simp only [Network.put, update_self]
      exact tidy
    · simp only [Network.put, update_of_ne same]
      exact sound.tidy other
  stage other alive := by
    rw [view_put]
    by_cases same : other = callback
    · subst other
      have whole : messagesOf callback outcome.sent = outcome.sent := by
        apply List.filter_eq_self.mpr
        intro message member
        exact decide_eq_true (sent message member)
      have count : outcome.released.count (sigOf callback) = outcome.released.length :=
        List.count_eq_length.mpr released
      rw [whole]
      rw [← count] at stage
      exact stage
    · have different : Callback.key other ≠ Callback.key callback := fun equal =>
        same (key_injective alive.small live.small equal)
      have nothing : messagesOf other outcome.sent = [] := by
        apply List.filter_eq_nil_iff.mpr
        intro message member
        rw [decide_eq_true_eq, sent message member]
        exact Ne.symm different
      have count : outcome.released.count (sigOf other) = 0 := by
        apply List.count_eq_zero.mpr
        intro member
        have equal :=
          congrArg (fun sig : Signature => (sig.names.getD [], sig.seq_num)) (released _ member)
        exact different equal.symm
      have unchanged : update (view network other).part me (part outcome.daemon other) =
          (view network other).part := by
        rw [others other same alive]
        exact update_eq_self ..
      change Stage site other
        { part := update (view network other).part me (part outcome.daemon other)
          flight := messagesOf other flight ++ messagesOf other outcome.sent
          released := (view network other).released + outcome.released.count (sigOf other) }
      rw [nothing, append_nil, count, unchanged]
      exact stage_perm site other (kept other same alive) (sound.stage other alive)
  owned message member := by
    rcases List.mem_append.mp member with before | new
    · exact sound.owned message (fewer message before)
    · exact ⟨callback, live, sent message new⟩

theorem messages_delivered (delivers : flight.Perm (message :: rest)) :
    (messagesOf callback flight).Perm
      (if Message.key message = Callback.key callback then message :: messagesOf callback rest
      else messagesOf callback rest) := by
  have filtered := delivers.filter fun message => Message.key message = Callback.key callback
  rw [filter_cons] at filtered
  simpa [messagesOf] using filtered

theorem release_live (live : Live site callback)
    (created : createDmns site me (some callback.names) =
      .ok (participants site callback.names, (participants site callback.names).length)) :
    ∃ reply : Reply Data, reply.error = none ∧ reply.bucket = bucket ∧
      release site me (sigOf callback) bucket = .ok (site.daemons.map (releaseOf callback reply),
        [sigOf callback]) := by
  obtain ⟨nprocs, counted⟩ := Option.isSome_iff_exists.mp live.resolved.counted
  exact ⟨⟨none, nprocs, bucket⟩, rfl, rfl, release_ok site callback.names me created counted⟩

theorem allgather_collects (live : Live site callback) (gathered : List (Vpid × Data)) (me : Vpid)
    (cbfunc : Option Callback) (data : Data) :
    allgather site me (collects site callback gathered me cbfunc) data =
      if me = site.hnp ∧ (participants site callback.names).length = 1 then
        release site me (sigOf callback) [data]
      else .ok ([reportOf site callback (me, data)], []) := by
  have packed : unpackSig (collects site callback gathered me cbfunc).names
      (collects site callback gathered me cbfunc).seq_num = sigOf callback := by
    exact congrArg (Signature.mk · _) (if_neg live.named)
  rw [allgather, packed]
  rfl

section Events

variable {network : Network Data} (sound : Sound site network)
include sound

theorem call_sound {me : Vpid} (named : names ≠ []) (member : me ∈ participants site names)
    (room : ((network.daemon me).requests names).length < 4294967296) :
    ∃ next, network.perform site (.call me names data) = .ok next ∧ Sound site next := by
  obtain ⟨ongoing, puts, stub⟩ := allgatherStub_eq site me (sound.tidy me) named member data
  have live := live_of_participant site _ named room member
  have first :
      ((view network ⟨names, ((network.daemon me).requests names).length⟩).part me).request =
        none :=
    getElem?_eq_none (le_refl _)
  have now := called_part site data puts
  have others := fun other differs (alive : Live site other) =>
    called_part_other site room data puts alive.small differs
  have tidy := called_tidy site me (sound.tidy me) named member room data puts
  generalize collective : (⟨names, ((network.daemon me).requests names).length⟩ : Callback) =
    callback at live first now others
  have sameNames : callback.names = names := by rw [← collective]
  rw [← sameNames] at member
  cases sound.stage callback live with
  | released gathered undelivered reply holds =>
    obtain ⟨entry, present, same⟩ := List.mem_map.mp (holds.everyone.mem_iff.mpr member)
    rw [← same, (holds.requested entry.1 entry.2).mpr present] at first
    cases first
  | collecting pending gathered unfinished holds =>
    have coll : calledColl site (network.daemon me) names = collects site callback gathered me
        (some callback) := by
      have tracked := holds.tracked me
      subst collective
      exact congrArg (fun coll : Coll Data =>
        { coll with cbfunc := some ⟨names, ((network.daemon me).requests names).length⟩ }) tracked
    rw [coll] at now
    rw [coll, allgather_collects callback live] at stub
    rw [Network.perform, stub]
    by_cases alone : me = site.hnp ∧ (participants site callback.names).length = 1
    · obtain ⟨reply, succeeded, whole, releases⟩ :=
        release_live callback live (live.resolved.each me member)
      rw [if_pos alone, releases]
      refine ⟨_, rfl, put_sound callback sound live (fun _ => id) (fun _ _ _ => .refl _) tidy
        (fun message sent => ?_) (fun sig released => (List.mem_singleton.mp released).symm)
          others ?_⟩
      · obtain ⟨daemon, -, rfl⟩ := List.mem_map.mp sent
        rfl
      · rw [now]
        exact .released _ _ reply (holds.alone alone.2 member first live.resolved succeeded whole)
    · rw [if_neg alone, Result.ok_bind, Result.ok_bind]
      refine ⟨_, rfl, put_sound callback sound live (fun _ => id) (fun _ _ _ => .refl _) tidy
        ?_ ?_ others ?_⟩
      · intro message sent
        rw [List.mem_singleton.mp sent]
        rfl
      · intro sig released
        cases released
      · rw [now]
        exact .collecting _ gathered unfinished (holds.call member first)

theorem report_received {callback : Callback} (live : Live site callback)
    (holds : Collecting site callback (view network callback) pending gathered) :
    ∃ daemon : Daemon Data, Tidy site site.hnp daemon ∧
      part daemon callback =
        { (view network callback).part site.hnp with
          tracker := some (collects site callback (gathered ++ [entry]) site.hnp
            (((view network callback).part site.hnp).request.map fun _ => callback)) } ∧
      (∀ other, other ≠ callback → Live site other →
        part daemon other = part (network.daemon site.hnp) other) ∧
      receive site (reportOf site callback entry) (network.daemon site.hnp) =
        if (participants site callback.names).length = gathered.length + 1 then
          release site site.hnp (sigOf callback) ((gathered ++ [entry]).map Prod.snd) >>=
            fun result => .ok ⟨daemon, result.1, result.2⟩
        else .ok ⟨daemon, [], []⟩ := by
  obtain ⟨ongoing, puts, received⟩ := allgatherRecv_eq site site.hnp (sound.tidy site.hnp)
    callback.names _ live.resolved.head entry.2
  have tidy := report_tidy site site.hnp (sound.tidy site.hnp) _ _ puts
  have parts := reported_part _ _ puts
  have coll :
      reportedColl (network.daemon site.hnp) callback.names (BitVec.ofNat 32 callback.index) entry.2
      (participants site callback.names).length = collects site callback
        (gathered ++ [entry]) site.hnp
        (((view network callback).part site.hnp).request.map fun _ => callback) := by
    have tracked := congrArg (fun coll : Coll Data =>
      { coll with nreported := coll.nreported + 1, bucket := coll.bucket ++ [entry.2] })
        (holds.tracked site.hnp)
    apply tracked.trans
    simp [collects]
  rw [coll] at parts received
  refine ⟨_, tidy, (parts callback).trans (if_pos rfl), fun other differs alive => ?_,
    received.trans ?_⟩
  · exact (parts other).trans
      (if_neg fun same => differs (key_injective alive.small live.small same))
  · have counts : (collects site callback (gathered ++ [entry]) site.hnp
        (((view network callback).part site.hnp).request.map fun _ => callback)).nreported =
          gathered.length + 1 := by
      simp [collects]
    have bucket : (collects site callback (gathered ++ [entry]) site.hnp
        (((view network callback).part site.hnp).request.map fun _ => callback)).bucket =
          (gathered ++ [entry]).map Prod.snd := if_pos rfl
    rw [counts, bucket]
    rfl

theorem deliver_sound {index : Nat} (found : network.flight[index]? = some message) :
    ∃ outcome, receive site message (network.daemon message.peer) = .ok outcome ∧
      Sound site
        ({ network with flight := network.flight.eraseIdx index }.put message.peer outcome) ∧
      (outcome.sent.map (Message.weight site)).sum < message.weight site := by
  obtain ⟨inside, found⟩ := List.getElem?_eq_some_iff.mp found
  have delivers : network.flight.Perm (message :: network.flight.eraseIdx index) := by
    rw [← found]
    exact (getElem_cons_eraseIdx_perm inside).symm
  obtain ⟨callback, live, key⟩ := sound.owned message (delivers.mem_iff.mpr mem_cons_self)
  have fewer : ∀ other ∈ network.flight.eraseIdx index, other ∈ network.flight :=
    fun other member => delivers.mem_iff.mpr (mem_cons_of_mem _ member)
  have own := messages_delivered callback delivers
  rw [if_pos key] at own
  have kept : ∀ other, other ≠ callback → Live site other →
      (messagesOf other network.flight).Perm
        (messagesOf other (network.flight.eraseIdx index)) := by
    intro other differs alive
    have perm := messages_delivered other delivers
    rwa [if_neg fun same =>
      differs (key_injective alive.small live.small (same.symm.trans key))] at perm
  cases sound.stage callback live with
  | collecting pending gathered unfinished holds =>
    obtain ⟨entry, left, rfl, next⟩ := holds.report own
    obtain ⟨daemon, tidy, now, others, received⟩ := report_received sound live holds
    by_cases full : (participants site callback.names).length = gathered.length + 1
    · obtain ⟨reply, succeeded, whole, releases⟩ := release_live callback live live.resolved.head
      rw [if_pos full, releases] at received
      refine ⟨_, received, put_sound callback sound live fewer kept tidy (fun message sent => ?_)
        (fun sig released => (List.mem_singleton.mp released).symm) others ?_, ?_⟩
      · obtain ⟨daemon, -, rfl⟩ := List.mem_map.mp sent
        rfl
      · obtain ⟨rfl, everyone⟩ := next.complete (by rw [length_append]; exact full.symm)
        have quiet := next.flight.eq_nil
        simp only at quiet
        rw [now, quiet, holds.unreleased]
        exact .released _ _ reply
          (released_start ⟨_, [], 0⟩ _ reply live.resolved everyone next.requested next.waits
          next.unanswered succeeded whole)
      · have weights : (site.daemons.map (releaseOf callback reply)).map (Message.weight site) =
            site.daemons.map fun _ => 1 := map_map
        simp only [weights, map_const', sum_replicate_nat, Nat.mul_one]
        exact Nat.lt_succ_self _
    · rw [if_neg full] at received
      refine ⟨_, received, put_sound callback sound live fewer kept tidy
        (fun _ sent => absurd sent not_mem_nil) (fun _ released => absurd released not_mem_nil)
          others ?_,
        Nat.succ_pos _⟩
      rw [now, append_nil]
      refine .collecting left (gathered ++ [entry]) ?_ next
      rw [length_append, length_singleton]
      omega
  | released gathered undelivered reply holds =>
    obtain ⟨me, left, rfl, next⟩ := holds.deliver own
    have parts := barrierRelease_part site me (network.daemon me) (sound.tidy me) callback.names
      (BitVec.ofNat 32 callback.index) reply
    have silent : (barrierRelease (sigOf callback) reply (network.daemon me)).sent = [] ∧
        (barrierRelease (sigOf callback) reply (network.daemon me)).released = [] := by
      rw [barrierRelease]
      split
      · exact ⟨rfl, rfl⟩
      · exact ⟨rfl, rfl⟩
    refine ⟨barrierRelease (sigOf callback) reply (network.daemon me), rfl,
      put_sound callback sound live fewer kept
        (barrierRelease_tidy site me (network.daemon me) (sound.tidy me) _ _ reply) ?_ ?_ ?_ ?_, ?_⟩
    · rw [silent.1]
      exact fun _ sent => absurd sent not_mem_nil
    · rw [silent.2]
      exact fun _ released => absurd released not_mem_nil
    · intro other differs alive
      exact (parts other alive.small).trans
        (if_neg fun same => differs (key_injective alive.small live.small same))
    · rw [silent.1, silent.2, append_nil]
      rw [show part (barrierRelease (sigOf callback) reply (network.daemon me)).daemon
        callback = _ from
        (parts callback live.small).trans (if_pos rfl)]
      exact .released _ left reply next
    · rw [silent.1]
      exact Nat.one_pos

end Events

theorem initial_sound :
    Sound site (⟨fun _ => ⟨fun _ => [], fun _ => none, [], []⟩, [], []⟩ : Network Data) where
  tidy me :=
    { unique := nodup_nil
      own := fun _ member => absurd member not_mem_nil
      last := fun _ => rfl
      bounded := fun _ => Nat.zero_le _
      takes_part := fun _ some_call => absurd rfl some_call }
  stage callback live := by
    refine .collecting [] [] (List.length_pos_iff.mpr live.inhabited) ?_
    refine ⟨nodup_nil, fun _ member => absurd member not_mem_nil, fun me data => ?_, fun me => ?_,
      fun _ => rfl, .refl _, rfl⟩
    · constructor
      · intro request
        cases request
      · exact fun member => absurd member not_mem_nil
    · exact (if_neg fun tracked => tracked.elim (fun request => request rfl) fun gathered =>
        gathered.2 rfl).symm
  owned _ member := absurd member not_mem_nil

/-- The calls for which the allgather works: those with a name, until their sequence numbers are
used up. -/
def allowed (network : Network Data) : Event Data → Bool
  | .call me names _ => names ≠ [] && ((network.daemon me).requests names).length < 4294967296
  | .deliver _ => true

theorem perform_sound {network : Network Data} (sound : Sound site network)
    (enabled : network.Enabled site event) (permitted : allowed network event) :
    ∃ next, network.perform site event = .ok next ∧ Sound site next := by
  cases event with
  | call me names data =>
    simp only [allowed, Bool.and_eq_true, decide_eq_true_eq] at permitted
    exact call_sound sound permitted.1 enabled permitted.2
  | deliver index =>
    have found : network.flight[index]? = some _ := getElem?_eq_getElem enabled
    obtain ⟨outcome, received, next, -⟩ := deliver_sound sound found
    refine ⟨_, ?_, next⟩
    simp [Network.perform, found, received, Result.ok_bind]

theorem reached_sound {state : Network Data}
    (reached : Reached (network site) (fun state event => allowed state event) state) :
    Sound site state := by
  apply Reached.invariant (Sound site) _ _ state reached
  · intro state initially
    rw [show state = _ from initially]
    exact initial_sound
  · intro state event next sound permitted steps
    rw [network] at steps
    by_cases enabled : state.Enabled site event
    · obtain ⟨after, performs, soundAfter⟩ := perform_sound sound enabled permitted
      simp only [if_pos enabled, performs] at steps
      cases steps
      exact soundAfter
    · simp only [if_neg enabled] at steps
      cases steps

theorem stage_correct {network : Network Data} (live : Live site callback)
    (stage : Stage site callback (view network callback)) : network.Correct site callback := by
  cases stage with
  | collecting pending gathered unfinished holds =>
    have unreleased : network.releasesOf callback = 0 := holds.unreleased
    have unanswered : ∀ me, network.repliesTo me callback = [] := holds.unanswered
    refine ⟨by rw [unreleased]; exact Nat.zero_le 1, fun released => absurd unreleased released,
      fun me => ?_, fun me reply member => ?_, fun quiet _ called => ?_⟩
    · rw [unanswered]
      exact Nat.zero_le 1
    · rw [unanswered] at member
      cases member
    · -- With nothing on its way every contribution is gathered, and these are too few.
      exfalso
      have nothing : pending = [] := by
        have flight := holds.flight
        rw [view, quiet] at flight
        exact List.map_eq_nil_iff.mp flight.nil_eq.symm
      subst pending
      have inside : (participants site callback.names).Subperm (gathered.map Prod.fst) := by
        apply live.resolved.distinct.subperm
        intro me member
        have request : ((view network callback).part me).request = some _ :=
          getElem?_eq_getElem (called me member)
        exact mem_map_of_mem ((holds.requested me _).mp request)
      have bound := inside.length_le
      rw [length_map] at bound
      omega
  | released gathered undelivered reply holds =>
    have once : network.releasesOf callback = 1 := holds.once
    have replies : ∀ me, network.repliesTo me callback = _ := holds.replies
    have called : ∀ me ∈ participants site callback.names,
        callback.index < ((network.daemon me).requests callback.names).length := by
      intro me member
      obtain ⟨entry, present, rfl⟩ := List.mem_map.mp (holds.everyone.mem_iff.mpr member)
      exact (List.getElem?_eq_some_iff.mp ((holds.requested entry.1 entry.2).mpr present)).1
    refine ⟨once.le, fun _ => called, fun me => ?_, fun me other member => ?_, fun quiet _ _ =>
      ⟨once, fun me member => ?_⟩⟩
    · rw [replies]
      split
      · exact le_refl 1
      · exact Nat.zero_le 1
    · rw [replies] at member
      by_cases delivered : me ∈ participants site callback.names ∧ me ∉ undelivered
      · rw [if_pos delivered] at member
        obtain rfl := List.mem_singleton.mp member
        refine ⟨delivered.1, holds.succeeded, gathered.map Prod.fst, holds.everyone, ?_⟩
        rw [holds.whole, Network.contributions, map_map, map_map]
        apply map_congr_left
        intro entry present
        exact ((holds.requested entry.1 entry.2).mpr present).symm
      · rw [if_neg delivered] at member
        cases member
    · have flight := holds.flight
      rw [view, quiet] at flight
      have nothing := List.map_eq_nil_iff.mp flight.nil_eq.symm
      rw [replies, if_pos ⟨member, by rw [nothing]; exact not_mem_nil⟩]
      exact cons_ne_nil _ _

/-- While every call has a name and no sequence number is used twice, no event goes wrong, every
collective that was called is released once and by all, and there is always less to deliver. -/
theorem central_allgather (site : Site) (state : Network Data)
    (reached : Reached (network site) (fun state event => allowed state event) state) :
    (∀ event, state.Enabled site event → allowed state event →
      ∃ next, state.perform site event = .ok next) ∧
    (∀ me callback, callback.index < ((state.daemon me).requests callback.names).length →
      state.Correct site callback) ∧
    ∀ index next, (network site).step state (.deliver index) = some next →
      next.work site < state.work site := by
  have sound := reached_sound reached
  refine ⟨fun event enabled permitted => ?_, fun me callback called => ?_,
    fun index next steps => ?_⟩
  · obtain ⟨next, performs, -⟩ := perform_sound sound enabled permitted
    exact ⟨next, performs⟩
  · have tidy := sound.tidy me
    obtain ⟨named, member⟩ :=
      tidy.takes_part callback.names (List.ne_nil_of_length_pos (Nat.zero_lt_of_lt called))
    have bounded := tidy.bounded callback.names
    have live := live_of_participant site callback.index named (by omega) member
    exact stage_correct callback live (sound.stage callback live)
  · have enabled : state.Enabled site (.deliver index) := by
      by_contra disabled
      rw [network] at steps
      simp only [if_neg disabled] at steps
      cases steps
    have found : state.flight[index]? = some _ := List.getElem?_eq_getElem enabled
    obtain ⟨outcome, received, -, lighter⟩ := deliver_sound sound found
    have delivers := ((List.getElem_cons_eraseIdx_perm enabled).map (Message.weight site)).sum_nat
    rw [network] at steps
    simp only [if_pos enabled, Network.perform, found, received] at steps
    cases steps
    change ((state.flight.eraseIdx index ++ outcome.sent).map (Message.weight site)).sum <
      (state.flight.map _).sum
    rw [← delivers, List.map_append, List.sum_append_nat, List.map_cons, List.sum_cons]
    omega

def twoDaemons : Site where
  daemons := [0, 1]
  hnp := 0
  jobs jobid := if jobid = 7 then some ⟨2, some [0, 1], fun _ => none⟩ else none
  distinct := by decide
  hnp_mem := by decide
  map_mem := by
    intro jobid job nodes known mapped
    by_cases same : jobid = 7
    · rw [if_pos same] at known
      cases known
      cases mapped
      exact ⟨by decide, fun _ member => member⟩
    · rw [if_neg same] at known
      cases known
  procs_mem := by
    intro jobid job vpid daemon known located
    by_cases same : jobid = 7
    · rw [if_pos same] at known
      cases known
      cases located
    · rw [if_neg same] at known
      cases known

/-- Two collectives of both daemons, the first of them finished and the second one under way. -/
theorem central_allgather_two : ∃ state : Network Nat,
    Reached (network twoDaemons) (fun state event => allowed state event) state ∧
      (state.repliesTo 1 ⟨[⟨7, 4294967294⟩], 0⟩).map Reply.bucket = [[11, 10]] ∧
        state.flight.length = 2 ∧
      ((∀ event, state.Enabled twoDaemons event → allowed state event →
        ∃ next, state.perform twoDaemons event = .ok next) ∧
        (∀ me callback, callback.index < ((state.daemon me).requests callback.names).length →
          state.Correct twoDaemons callback) ∧
        ∀ index next, (network twoDaemons).step state (.deliver index) = some next →
          next.work twoDaemons < state.work twoDaemons) := by
  obtain ⟨state, reached, seen⟩ := reached_seen (network twoDaemons) allowed
    ⟨fun _ => ⟨fun _ => [], fun _ => none, [], []⟩, [], []⟩
    [.call 0 [⟨7, 4294967294⟩] 10, .call 1 [⟨7, 4294967294⟩] 11, .call 1 [⟨7, 4294967294⟩] 21,
      .deliver 1, .deliver 0, .deliver 2]
    (fun state => ((state.repliesTo 1 ⟨[⟨7, 4294967294⟩], 0⟩).map Reply.bucket,
      state.flight.length)) ([[11, 10]], 2)
    rfl (by decide +kernel)
  obtain ⟨replied, underway⟩ := Prod.mk.inj seen
  exact ⟨state, reached, replied, underway, central_allgather twoDaemons state reached⟩

/-- All daemons take part in a collective without names, but the copy of its signature is read
behind its end. -/
theorem nameless_call_undefined :
    (0 : Vpid) ∈ participants twoDaemons [] ∧
      ∃ state : Network Nat, (network twoDaemons).initial state ∧
        state.Enabled twoDaemons (.call 0 [] 10) ∧ state.perform twoDaemons (.call 0 [] 10) =
          Result.undefined :=
  ⟨by decide, _, rfl, by decide, rfl⟩

end Orcm.CentralRuns
