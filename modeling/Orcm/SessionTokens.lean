import Orcm.SchedulerGrants

/-!
How a running session ends. Starting a session activates one `ACTIVE` event, which becomes one
tracker, which becomes one `TERMINATED` event. A running session has at most one of the three, and
each of them belongs to a running session.
-/

namespace Orcm.SessionTokens

open List hiding all
open CLibrary Hierarchy NodePool Scheduler SchedulerEffects SchedulerFlow SchedulerGrants
    SessionFlow

structure Settled (s : State) (ref : Ref) : Prop where
  known : ref < s.allocated
  gone : ref ∉ unsettled (flow s noHistory)

variable {s : State} {ref : Ref}

theorem settled_of_running (sound : Sound s) (running : ref ∈ s.running) : Settled s ref := by
  refine ⟨sound.known (by simp [all, places, flow, running]), fun member => ?_⟩
  have once := sound.distinct.once ref
  have counted := List.count_pos_iff.mpr running
  have twice := List.count_pos_iff.mpr member
  simp only [unsettled, all, places, flow, List.count_append] at once twice
  omega

variable {label : Label}

theorem allocated_step {next : State} (effect : Effect clusters s label next) :
    s.allocated ≤ next.allocated := by
  cases effect with
  | submit => exact Nat.le_succ _
  | _ => exact Nat.le_refl _

theorem Settled.step {next : State} (settled : Settled s ref)
    (effect : Effect clusters s label next) : Settled next ref := by
  refine ⟨Nat.lt_of_lt_of_le settled.known (allocated_step effect), fun member => ?_⟩
  obtain ⟨move, moves, -⟩ := step_moves effect
  rcases unsettled_moves moves member with before | unknown
  · exact settled.gone before
  · exact unknown (List.mem_range.mpr settled.known)

theorem Settled.object {next : State} (settled : Settled s ref)
    (effect : Effect clusters s label next) : next.object ref = s.object ref := by
  cases effect with
  | grant session rest nodes pending =>
    have differs : ref ≠ session := by
      rintro rfl
      exact settled.gone (by simp [unsettled, flow, pending, reqs])
    simp [grantNodes, Function.update_of_ne differs]
  | submit => exact Function.update_of_ne (Nat.ne_of_lt settled.known) _ _
  | _ => rfl

def actives (events : List RmEvent) : List Ref :=
  events.filterMap fun
    | .active session => some session
    | _ => none

def kills (events : List RmEvent) : List Ref :=
  events.filterMap fun
    | .kill session => some session
    | _ => none

def terminateds (events : List ScdEvent) : List Session :=
  events.filterMap fun
    | .terminated session => some session
    | _ => none

theorem pointed_of_rest (member : ref ∈ actives rest ++ kills rest) :
    ref ∈ actives (event :: rest) ++ kills (event :: rest) := by
  rcases List.mem_append.mp member with active | killed
  · exact mem_append_left _ (((sublist_cons_self event rest).filterMap _).subset active)
  · exact mem_append_right _ (((sublist_cons_self event rest).filterMap _).subset killed)

/-- A cancellation adds at most two `SCHEDULE` events and one `KILL` event. -/
theorem terminateds_cancel (rest : List ScdEvent) (inHold inDefault : Bool) :
    terminateds (rest ++ ((if inHold then [.schedule] else []) ++
      (if inDefault then [.schedule] else []))) = terminateds rest := by
  cases inHold <;> cases inDefault <;> simp [terminateds]

theorem actives_cancel (events : List RmEvent) (found : Option Ref) :
    actives (events ++ found.toList.map .kill) = actives events := by
  cases found <;> simp [actives]

theorem kills_cancel (events : List RmEvent) (found : Option Ref) :
    kills (events ++ found.toList.map .kill) = kills events ++ found.toList := by
  cases found <;> simp [kills]

/-- What is sent for an event of the queue is the allocation of a session that the queue points
to. -/
theorem sent_of_known {session : Ref} {sent : List Alloc}
    (known : ∀ alloc ∈ sent, alloc ∈ s.sent ∨ alloc = (s.object session).alloc)
    (queued : session ∈ actives s.rm ++ kills s.rm) :
    ∀ alloc ∈ sent, alloc ∈ s.sent ∨ ∃ ref ∈ actives s.rm ++ kills s.rm,
      alloc = (s.object ref).alloc :=
  fun alloc member => (known alloc member).imp_right fun own => ⟨session, queued, own⟩

def token (session : Session) : Int := toInt session.id

def tokens (s : State) : List Int :=
  (actives s.rm).map (fun session => token (s.object session)) ++ s.tracking.map Tracker.alloc_id ++
    (terminateds s.scd).map token

structure Tokens (s : State) : Prop where
  once : ∀ id, (tokens s).count id ≤ 1
  runs : ∀ id ∈ tokens s, ∃ session ∈ s.running, token (s.object session) = id
  ended : ∀ session ∈ terminateds s.scd, ∃ ref ∈ s.running, session = s.object ref
  pointed : ∀ ref ∈ actives s.rm ++ kills s.rm, Settled s ref
  reported : ∀ alloc ∈ s.sent, ∃ ref, Settled s ref ∧ alloc = (s.object ref).alloc

theorem Tokens.start {nodes : Pool} : Tokens (start nodes) :=
  ⟨fun _ => Nat.zero_le 1, fun _ member => (by cases member), fun _ member => (by cases member),
    fun _ member => (by cases member), fun _ member => by cases member⟩

theorem toInt_eq_cast {first second : Nat} (small : first < 4294967296)
    (same : toInt first = (second : Int)) :
    first = second := by
  simp only [toInt, Int.bmod_def] at same
  split at same <;> omega

theorem toInt_injective {first second : Nat} (small : first < 4294967296)
    (small' : second < 4294967296) (same : toInt first = toInt second) : first = second := by
  simp only [toInt, Int.bmod_def] at same
  split at same <;> split at same <;> omega

theorem token_injective (numbered : Numbered s) {first second : Ref} (known : first < s.allocated)
    (known' : second < s.allocated) (same : token (s.object first) = token (s.object second)) :
    first = second := by
  have small : ∀ ref < s.allocated, (s.object ref).id < 4294967296 := fun ref known =>
    Nat.lt_of_le_of_lt (numbered.below ref known) numbered.small
  exact numbered.injective known known'
    (toInt_injective (small first known) (small second known') same)

variable {alloc : Alloc}

theorem checkIn_more (more : (checkIn alloc tracking).2 = false) :
    (checkIn alloc tracking).1.map Tracker.alloc_id = tracking.map Tracker.alloc_id := by
  induction tracking with
  | nil => rfl
  | cons trk rest ih =>
    rw [checkIn] at more ⊢
    split at more
    · split at more
      · cases more
      · rename_i found missing
        rw [if_pos found, if_neg missing]
        rfl
    · rename_i other
      rw [if_neg other]
      exact congrArg (List.cons trk.alloc_id) (ih more)

theorem checkIn_last (last : (checkIn alloc tracking).2 = true) :
    (alloc.id :: (checkIn alloc tracking).1.map Tracker.alloc_id).Perm
      (tracking.map Tracker.alloc_id) := by
  induction tracking with
  | nil => cases last
  | cons trk rest ih =>
    rw [checkIn] at last ⊢
    split at last
    · split at last
      · rename_i found complete
        rw [if_pos found, if_pos complete, map_cons, found]
      · cases last
    · rename_i other
      rw [if_neg other]
      exact (List.Perm.swap _ _ _).trans ((ih last).cons _)

section Step

variable (clusters : List Cluster) (s : State) {next : State}
    (effect : Effect clusters s label next)

include effect

variable {s}

theorem reported_step (reported : ∃ ref, Settled s ref ∧ alloc = (s.object ref).alloc) :
    ∃ ref, Settled next ref ∧ alloc = (next.object ref).alloc := by
  obtain ⟨ref, settled, same⟩ := reported
  refine ⟨ref, settled.step effect, ?_⟩
  rw [settled.object effect, same]

theorem Tokens.frame (held : Tokens s) (sound : Sound s)
    (fewer : ∀ id, (tokens next).count id ≤ (tokens s).count id)
    (running : s.running ⊆ next.running) (ended : terminateds next.scd ⊆ terminateds s.scd)
    (pointed : ∀ ref ∈ actives next.rm ++ kills next.rm, ref ∈ actives s.rm ++ kills s.rm ∨
      ref ∈ s.running)
    (sent : ∀ alloc ∈ next.sent, alloc ∈ s.sent ∨ ∃ ref ∈ actives s.rm ++ kills s.rm,
      alloc = (s.object ref).alloc) :
    Tokens next := by
  have same : ∀ ref ∈ s.running, next.object ref = s.object ref := fun ref member =>
    (settled_of_running sound member).object effect
  constructor
  · exact fun id => Nat.le_trans (fewer id) (held.once id)
  · intro id member
    have before : id ∈ tokens s :=
      List.count_pos_iff.mp (Nat.lt_of_lt_of_le (List.count_pos_iff.mpr member) (fewer id))
    obtain ⟨session, runs, named⟩ := held.runs id before
    exact ⟨session, running runs, by rw [same session runs, named]⟩
  · intro session member
    obtain ⟨ref, runs, equal⟩ := held.ended session (ended member)
    exact ⟨ref, running runs, by rw [same ref runs, equal]⟩
  · intro ref member
    rcases pointed ref member with before | runs
    · exact (held.pointed ref before).step effect
    · exact (settled_of_running sound runs).step effect
  · intro alloc member
    refine reported_step clusters effect ?_
    rcases sent alloc member with before | ⟨ref, known, equal⟩
    · exact held.reported alloc before
    · exact ⟨ref, held.pointed ref known, equal⟩

end Step

section Tokens

variable (clusters : List Cluster) (s : State) (held : Tokens s)

include held

/-- A new session changes no session that the queue points to. -/
theorem Tokens.active_tokens (session : Session) :
    ((actives s.rm).map fun ref => token (Function.update s.object s.allocated session ref)) =
      (actives s.rm).map fun ref => token (s.object ref) := by
  refine map_congr_left fun ref member => ?_
  have settled := held.pointed ref (mem_append_left _ member)
  rw [Function.update_of_ne (Nat.ne_of_lt settled.known)]

theorem Tokens.release (pending : s.scd = .terminated session :: rest)
    (effect : Effect clusters s .scd { s with
      scd := rest ++ [.schedule], nodes, running := s.running.filter fun ref =>
        (s.object ref).id ≠ session.id }) :
    Tokens { s with
      scd := rest ++ [.schedule], nodes, running := s.running.filter fun ref =>
        (s.object ref).id ≠ session.id } := by
  have counted : ∀ id, (tokens s).count id = (tokens { s with
      scd := rest ++ [.schedule], nodes,
      running := s.running.filter fun ref => (s.object ref).id ≠ session.id }).count id + [token
        session].count id := by
    intro id
    simp [tokens, terminateds, pending, count_cons]
    omega
  -- the token of the session is used up, so the other tokens are of sessions that stay
  have stays : ∀ ref ∈ s.running, token (s.object ref) ∈ tokens { s with
      scd := rest ++ [.schedule], nodes, running := s.running.filter fun ref =>
        (s.object ref).id ≠ session.id } →
      ref ∈ s.running.filter fun ref => (s.object ref).id ≠ session.id := by
    intro ref runs member
    refine List.mem_filter.mpr ⟨runs, decide_eq_true fun same => ?_⟩
    have once := held.once (token (s.object ref))
    have own : token session = token (s.object ref) := by rw [token, token, same]
    rw [counted, own, count_singleton_self] at once
    have := List.count_pos_iff.mpr member
    omega
  have before : ∀ id, id ∈ tokens { s with
      scd := rest ++ [.schedule], nodes, running := s.running.filter fun ref =>
        (s.object ref).id ≠ session.id } →
      id ∈ tokens s := by
    intro id member
    have := List.count_pos_iff.mpr member
    exact List.count_pos_iff.mp (by rw [counted]; omega)
  constructor
  · intro id
    have := held.once id
    rw [counted] at this
    omega
  · intro id member
    obtain ⟨ref, runs, rfl⟩ := held.runs id (before id member)
    exact ⟨ref, stays ref runs member, rfl⟩
  · intro ended member
    obtain ⟨ref, runs, rfl⟩ := held.ended ended (by simp_all [terminateds])
    exact ⟨ref, stays ref runs (mem_append_right _ (mem_map_of_mem member)), rfl⟩
  · exact fun ref member => (held.pointed ref member).step effect
  · exact fun alloc member => reported_step clusters effect (held.reported alloc member)

variable (sound : Sound s) (numbered : Numbered s)

include sound numbered

theorem Tokens.run (pending : s.scd = .allocd session :: rest) (soundNext : Sound { s with
      scd := rest, rm := s.rm ++ [.active session], running := s.running ++ [session], nodes })
    (effect : Effect clusters s .scd { s with
      scd := rest, rm := s.rm ++ [.active session], running := s.running ++ [session], nodes }) :
    Tokens { s with scd := rest, rm := s.rm ++ [.active session], running := s.running ++ [session],
                    nodes } := by
  have known : session < s.allocated := sound.known (by simp [all, places, flow, pending, allocds])
  -- a session that is about to start has no token yet
  have fresh : (tokens s).count (token (s.object session)) = 0 := by
    refine count_eq_zero_of_not_mem fun member => ?_
    obtain ⟨other, runs, same⟩ := held.runs _ member
    have settled := settled_of_running sound runs
    rw [token_injective numbered settled.known known same] at settled
    exact settled.gone (by simp [unsettled, flow, pending, allocds])
  have counted : ∀ id, (tokens { s with
      scd := rest, rm := s.rm ++ [.active session], running := s.running ++ [session],
      nodes }).count id =
      (tokens s).count id + [token (s.object session)].count id := by
    intro id
    simp [tokens, actives, terminateds, pending, count_cons]
    omega
  constructor
  · intro id
    rw [counted, count_singleton]
    split
    · rename_i same
      rw [← beq_iff_eq.mp same, fresh]
    · exact held.once id
  · intro id member
    have present := List.count_pos_iff.mpr member
    rw [counted] at present
    by_cases new : id = token (s.object session)
    · exact ⟨session, by simp, new.symm⟩
    · have absent : [token (s.object session)].count id = 0 :=
        count_eq_zero_of_not_mem (by simpa using new)
      obtain ⟨other, runs, same⟩ := held.runs id (List.count_pos_iff.mp (by omega))
      exact ⟨other, mem_append_left _ runs, same⟩
  · intro ended member
    obtain ⟨ref, runs, same⟩ := held.ended ended (by simpa [terminateds, pending] using member)
    exact ⟨ref, mem_append_left _ runs, same⟩
  · intro ref member
    by_cases new : ref = session
    · exact settled_of_running soundNext (by simp [new])
    · refine (held.pointed ref ?_).step effect
      simpa [actives, kills, new] using member
  · exact fun alloc member => reported_step clusters effect (held.reported alloc member)

theorem Tokens.completed {alloc : Alloc} (known : alloc ∈ s.sent)
    (last : (checkIn alloc s.tracking).2 = true) :
    ∃ ref ∈ s.running, (⟨(alloc.id % 4294967296).toNat, alloc⟩ : Session) = s.object ref ∧
      token (s.object ref) = alloc.id := by
  obtain ⟨other, settled, rfl⟩ := held.reported alloc known
  have named := numbered.named other settled.known
  have tracked : (s.object other).alloc.id ∈ tokens s := by
    have member := (checkIn_last last).subset mem_cons_self
    simp only [tokens, mem_append]
    exact .inl (.inr member)
  -- the running session with this token is the one that was sent, since identifiers do not repeat
  obtain ⟨ref, runs, same⟩ := held.runs _ tracked
  have reference : ref < s.allocated := (settled_of_running sound runs).known
  have small : (s.object ref).id < 4294967296 :=
    Nat.lt_of_le_of_lt (numbered.below ref reference) numbered.small
  have equal : ref = other := by
    rw [named] at same
    exact numbered.injective reference settled.known (toInt_eq_cast small same)
  subst equal
  refine ⟨ref, runs, ?_, same⟩
  rw [named]
  have wrapped : (((s.object ref).id : Int) % 4294967296).toNat = (s.object ref).id := by omega
  rw [wrapped]

theorem Tokens.complete (known : alloc ∈ s.sent) (last : (checkIn alloc s.tracking).2 = true)
    (effect : Effect clusters s (.complete alloc) { s with
      tracking := (checkIn alloc s.tracking).1,
      scd := s.scd ++ [.terminated ⟨(alloc.id % 4294967296).toNat, alloc⟩] }) :
    Tokens { s with
      tracking := (checkIn alloc s.tracking).1,
      scd := s.scd ++ [.terminated ⟨(alloc.id % 4294967296).toNat, alloc⟩] } := by
  obtain ⟨own, runs, same, named⟩ := held.completed s sound numbered known last
  have counted : ∀ id, (tokens { s with
      tracking := (checkIn alloc s.tracking).1,
      scd := s.scd ++ [.terminated ⟨(alloc.id % 4294967296).toNat, alloc⟩] }).count id =
        (tokens s).count id := by
    intro id
    have moved := (checkIn_last last).count_eq id
    have added : terminateds (s.scd ++ [.terminated ⟨(alloc.id % 4294967296).toNat, alloc⟩]) =
        terminateds s.scd ++ [s.object own] := by simp [terminateds, same]
    simp only [tokens, added, map_append, map_singleton, List.count_append, named, count_cons,
      count_nil] at moved ⊢
    omega
  constructor
  · exact fun id => by rw [counted]; exact held.once id
  · intro id member
    refine held.runs id (List.count_pos_iff.mp ?_)
    rw [← counted]
    exact List.count_pos_iff.mpr member
  · intro session member
    simp only [terminateds, filterMap_append, mem_append] at member
    rcases member with before | now
    · exact held.ended session before
    · exact ⟨own, runs, by simpa [same] using now⟩
  · exact fun ref member => (held.pointed ref member).step effect
  · exact fun alloc member => reported_step clusters effect (held.reported alloc member)

theorem Tokens.step {next : State} (permitted : soundRequest s label = true)
    (effect : Effect clusters s label next) : Tokens next := by
  have soundNext := sound.step permitted effect
  have all : ∀ queue : List Ref, queue ⊆ queue := List.Subset.refl
  have pointed : ∀ ref ∈ actives s.rm ++ kills s.rm, ref ∈ actives s.rm ++ kills s.rm ∨
      ref ∈ s.running :=
    fun ref member => .inl member
  have sent : ∀ alloc ∈ s.sent, alloc ∈ s.sent ∨ ∃ ref ∈ actives s.rm ++ kills s.rm,
      alloc = (s.object ref).alloc :=
    fun alloc member => .inl member
  cases effect with
  | run session rest nodenames pending intact good extracted =>
    exact held.run clusters s sound numbered pending soundNext
      (.run session rest nodenames pending intact good extracted)
  | release session rest nodenames pending intact extracted =>
    exact held.release clusters s pending (.release session rest nodenames pending intact extracted)
  | complete alloc known last =>
    exact held.complete clusters s sound numbered known last (.complete alloc known last)
  | requeue session rest rm pending intact bad =>
    rw [sound.usable_next pending] at bad
    cases bad
  | hold session rest pending intact =>
    exact held.frame clusters (.hold session rest pending intact) sound
      (by simp [tokens, pending, terminateds]) (all _) (by simp [pending, terminateds]) pointed sent
  | enqueue session rest pending intact =>
    exact held.frame clusters (.enqueue session rest pending intact) sound
      (by simp [tokens, pending, terminateds]) (all _) (by simp [pending, terminateds]) pointed sent
  | wait rest pending intact short =>
    exact held.frame clusters (.wait rest pending intact short) sound
      (by simp [tokens, pending, terminateds]) (all _) (by simp [pending, terminateds]) pointed sent
  | schedule session rest waiting pending intact queued enough =>
    exact held.frame clusters (.schedule session rest waiting pending intact queued enough) sound
      (by simp [tokens, pending, terminateds, actives]) (all _) (by simp [pending, terminateds])
      (by simpa [actives, kills] using pointed) sent
  | linger session rest pending intact =>
    exact held.frame clusters (.linger session rest pending intact) sound
      (by simp [tokens, pending, terminateds, count_cons]) (all _) (by simp [pending, terminateds])
        pointed sent
  | cancel id rest pending intact =>
    have ended : terminateds rest = terminateds s.scd := by simp [pending, terminateds]
    refine held.frame clusters (.cancel id rest pending intact) sound ?_ (all _) ?_ ?_ sent
    · simp only [tokens, actives_cancel, terminateds_cancel, ended, Nat.le_refl, implies_true]
    · simp only [terminateds_cancel, ended, List.Subset.refl]
    · intro ref member
      simp only [actives_cancel, kills_cancel, ← append_assoc] at member
      refine (List.mem_append.mp member).imp_right fun found => ?_
      exact mem_of_find?_eq_some (Option.mem_toList.mp found)
  | lose session rest pending none =>
    exact held.frame clusters (.lose session rest pending none) sound
      (by simp [tokens, pending, actives]) (all _) (List.Subset.refl _)
      (by simpa [pending, actives, kills] using pointed) sent
  | grant session rest nodes pending asked chosen =>
    have same : ∀ ref, token (grantNodes s.object session nodes ref) = token (s.object ref) :=
      fun ref => congrArg (fun id : Nat => toInt id) grantNodes_id.1
    exact held.frame clusters (.grant session rest nodes pending asked chosen) sound
      (by simp [tokens, pending, actives, terminateds, same]) (all _) (by simp [terminateds])
      (by simpa [pending, actives, kills] using pointed) sent
  | launch session rest sent pending known =>
    refine held.frame clusters (.launch session rest sent pending known) sound ?_ (all _)
      (List.Subset.refl _) ?_ (sent_of_known known (by simp [pending, actives]))
    · intro id
      simp [tokens, pending, actives, count_cons, token]
      omega
    · exact fun ref member => .inl (pending ▸ pointed_of_rest member)
  | stall session rest pending =>
    exact held.frame clusters (.stall session rest pending) sound
      (by simp [tokens, pending, actives, count_cons]) (all _) (List.Subset.refl _)
      (fun ref member => .inl (pending ▸ pointed_of_rest member)) sent
  | kill session rest sent pending known =>
    exact held.frame clusters (.kill session rest sent pending known) sound
      (by simp [tokens, pending, actives]) (all _) (List.Subset.refl _)
      (fun ref member => .inl (pending ▸ pointed_of_rest member))
      (sent_of_known known (by simp [pending, kills]))
  | refuse alloc =>
    exact held.frame clusters (.refuse alloc) sound (fun _ => Nat.le_refl _) (all _)
      (List.Subset.refl _) pointed sent
  | submit alloc =>
    exact held.frame clusters (.submit alloc) sound
      (by simp [tokens, terminateds, held.active_tokens]) (all _)
        (by simp [terminateds]) pointed sent
  | askCancel id =>
    exact held.frame clusters (.askCancel id) sound (by simp [tokens, terminateds]) (all _)
      (by simp [terminateds])
      pointed sent
  | checkIn alloc known more =>
    exact held.frame clusters (.checkIn alloc known more) sound
      (by simp [tokens, checkIn_more more])
      (all _) (List.Subset.refl _) pointed sent
  | report report =>
    exact held.frame clusters (.report report) sound (fun _ => Nat.le_refl _) (all _)
      (List.Subset.refl _) pointed sent

end Tokens

end Orcm.SessionTokens
