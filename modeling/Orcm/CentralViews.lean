import Orcm.CentralAllgather

/-!
Every collective on its own. Collectives are told apart by signature and sequence number, so an
event changes what belongs to one of them.
-/

namespace Orcm.CentralViews

open DssTypes KeyedList CentralAllgather List Function Option Result

variable {Data : Type} (site : Site) (names : List ProcessName)

theorem locate_ok (distinct : found.Nodup) (inside : ∀ daemon ∈ found, daemon ∈ site.daemons)
    (located : locate site names found = .ok result) :
    result.Nodup ∧ (∀ daemon ∈ result, daemon ∈ site.daemons) ∧ ∀ name ∈ names,
      (site.jobs name.jobid).isSome := by
  induction names generalizing found with
  | nil =>
    cases located
    exact ⟨distinct, inside, fun name member => absurd member not_mem_nil⟩
  | cons name rest ih =>
    rw [locate] at located
    cases known : site.jobs name.jobid with
    | none => rw [known] at located; cases located
    | some job =>
      cases host : job.procs name.vpid with
      | none => simp only [known, host] at located; cases located
      | some daemon =>
        simp only [known, host] at located
        have hosted := site.procs_mem _ job _ daemon known host
        have next : (if daemon ∈ found then found else found ++ [daemon]).Nodup ∧
            ∀ other ∈ (if daemon ∈ found then found else found ++ [daemon]),
              other ∈ site.daemons := by
          by_cases present : daemon ∈ found
          · rw [if_pos present]
            exact ⟨distinct, inside⟩
          · rw [if_neg present, ← concat_eq_append]
            refine ⟨distinct.concat present, fun other member => ?_⟩
            rw [concat_eq_append] at member
            rcases List.mem_append.mp member with before | same
            · exact inside other before
            · rwa [List.mem_singleton.mp same]
        obtain ⟨resultDistinct, resultInside, jobs⟩ := ih next.1 next.2 located
        exact ⟨resultDistinct, resultInside, List.forall_mem_cons.mpr ⟨by rw [known]; rfl, jobs⟩⟩

/-- The participants of a signature with names, as every participant finds them. -/
structure Resolved (names : List ProcessName) (dmns : List Vpid) : Prop where
  distinct : dmns.Nodup
  inside : ∀ daemon ∈ dmns, daemon ∈ site.daemons
  counted : (countProcs site names).isSome
  head : createDmns site site.hnp (some names) = .ok (dmns, dmns.length)
  each : ∀ me ∈ dmns, createDmns site me (some names) = .ok (dmns, dmns.length)

theorem countProcs_isSome (known : ∀ name ∈ names, (site.jobs name.jobid).isSome) :
    (countProcs site names).isSome := by
  rcases names with _ | ⟨name, _ | ⟨second, rest⟩⟩
  · rfl
  · obtain ⟨job, found⟩ := Option.isSome_iff_exists.mp (known name mem_cons_self)
    rw [countProcs, found]
    rfl
  · rfl

variable {ndmns : Nat}

theorem createDmns_resolved {dmns : List Vpid}
    (created : createDmns site site.hnp (some names) = .ok (dmns, ndmns)) :
    Resolved site names dmns := by
  cases names with
  | nil => cases created
  | cons first rest =>
    rw [createDmns] at created
    by_cases wildcard : first.vpid = 4294967294
    · rw [if_pos wildcard] at created
      cases known : site.jobs first.jobid with
      | none => rw [known] at created; cases created
      | some job =>
        have counted : (countProcs site (first :: rest)).isSome := by
          cases rest with
          | nil => rw [countProcs, known]; rfl
          | cons => rfl
        simp only [known] at created
        cases mapped : job.map with
        | none =>
          simp only [mapped] at created
          cases created
          refine ⟨nodup_singleton _, ?_, counted, ?_, ?_⟩
          · intro daemon member
            rw [List.mem_singleton.mp member]
            exact site.hnp_mem
          · simp only [createDmns, if_pos wildcard, known, mapped, ↓reduceIte]
            rfl
          · intro me member
            rw [List.mem_singleton.mp member]
            simp only [createDmns, if_pos wildcard, known, mapped]
            rfl
        | some =>
          simp only [mapped] at created
          cases created
          obtain ⟨distinct, inside⟩ := site.map_mem _ job _ known mapped
          have every :
              ∀ me, createDmns site me (some (first :: rest)) = .ok (dmns, dmns.length) := by
            intro me
            simp only [createDmns, if_pos wildcard, known, mapped]
          exact ⟨distinct, inside, counted, every site.hnp, fun me _ => every me⟩
    · rw [if_neg wildcard] at created
      obtain ⟨found, located, created⟩ := (bind_eq_ok ..).mp created
      by_cases nobody : found = []
      · rw [if_pos nobody] at created
        cases created
      · rw [if_neg nobody] at created
        cases created
        obtain ⟨distinct, inside, jobs⟩ := locate_ok site _ nodup_nil
          (fun daemon member => absurd member not_mem_nil) located
        have every : ∀ me, createDmns site me (some (first :: rest)) = .ok (dmns, dmns.length) := by
          intro me
          rw [createDmns, if_neg wildcard, located, ok_bind, if_neg nobody]
        exact ⟨distinct, inside, countProcs_isSome site _ jobs, every site.hnp,
          fun me _ => every me⟩

theorem locate_defined : locate site names found ≠ Result.undefined := by
  induction names generalizing found with
  | nil => exact fun undefined => by cases undefined
  | cons name rest ih =>
    rw [locate]
    cases site.jobs name.jobid with
    | none => exact fun undefined => by cases undefined
    | some job =>
      simp only
      cases job.procs name.vpid with
      | none => exact fun undefined => by cases undefined
      | some => exact ih

variable (me : Vpid)

theorem createDmns_defined {names : Option (List ProcessName)} (named : names ≠ some []) :
    createDmns site me names ≠ Result.undefined := by
  rcases names with _ | _ | ⟨first, rest⟩
  · exact fun undefined => by cases undefined
  · exact absurd rfl named
  · rw [createDmns]
    by_cases wildcard : first.vpid = 4294967294
    · rw [if_pos wildcard]
      cases site.jobs first.jobid with
      | none => exact fun undefined => by cases undefined
      | some job =>
        simp only
        cases job.map with
        | none =>
          simp only
          split
          · exact fun undefined => by cases undefined
          · exact fun undefined => by cases undefined
        | some => exact fun undefined => by cases undefined
    · rw [if_neg wildcard]
      cases located : locate site (first :: rest) [] with
      | error =>
        intro undefined
        cases undefined
        exact locate_defined site (first :: rest) located
      | ok =>
        rw [ok_bind]
        split
        · exact fun undefined => by cases undefined
        · exact fun undefined => by cases undefined

theorem participants_resolved (named : names ≠ []) (member : me ∈ participants site names) :
    Resolved site names (participants site names) := by
  rw [participants, if_neg named] at member ⊢
  cases created : createDmns site site.hnp (some names) with
  | error => rw [created] at member; cases member
  | ok found =>
    obtain ⟨dmns, ndmns⟩ := found
    exact createDmns_resolved site names created

def Message.key (message : Message Data) : List ProcessName × BitVec 32 :=
  match message.body with
  | .report _ sig _ => (sig.names.getD [], sig.seq_num)
  | .release sig _ => (sig.names.getD [], sig.seq_num)

def Callback.key (callback : Callback) : List ProcessName × BitVec 32 :=
  (callback.names, BitVec.ofNat 32 callback.index)

structure Part (Data : Type) where
  request : Option Data
  tracker : Option (Coll Data)
  replies : List (Reply Data)

def part (daemon : Daemon Data) (callback : Callback) : Part Data where
  request := (daemon.requests callback.names)[callback.index]?
  tracker := lookup Coll.key (Callback.key callback) daemon.ongoing
  replies := daemon.replies.filterMap fun entry => if entry.1 = callback then some entry.2 else none

structure View (Data : Type) where
  part : Vpid → Part Data
  flight : List (Message Data)
  released : Nat

def messagesOf (callback : Callback) (flight : List (Message Data)) : List (Message Data) :=
  flight.filter fun message => Message.key message = Callback.key callback

def view (network : Network Data) (callback : Callback) : View Data where
  part me := part (network.daemon me) callback
  flight := messagesOf callback network.flight
  released := network.releasesOf callback

theorem view_put {network : Network Data} :
    view (network.put me outcome) callback =
      { part := update (view network callback).part me (part outcome.daemon callback)
        flight := (view network callback).flight ++ messagesOf callback outcome.sent
        released := (view network callback).released +
          outcome.released.count ⟨some callback.names, BitVec.ofNat 32 callback.index⟩ } := by
  have parts : (view (network.put me outcome) callback).part =
      update (view network callback).part me (part outcome.daemon callback) := by
    funext other
    by_cases same : other = me
    · subst other
      simp [view, Network.put]
    · simp [view, Network.put, update_of_ne same]
  rw [← parts]
  simp [view, messagesOf, Network.releasesOf, Network.put]

theorem key_injective (small : callback.index < 4294967296)
    (otherSmall : other.index < 4294967296) (same : Callback.key callback = Callback.key other) :
    callback = other := by
  obtain ⟨names, index⟩ := callback
  obtain ⟨otherNames, otherIndex⟩ := other
  obtain ⟨rfl, numbers⟩ := Prod.mk.inj same
  have numbers := congrArg BitVec.toNat numbers
  rw [BitVec.toNat_ofNat, BitVec.toNat_ofNat, Nat.mod_eq_of_lt small,
    Nat.mod_eq_of_lt otherSmall] at numbers
  exact congrArg (Callback.mk names) numbers

/-- What holds of a daemon whatever the state of its collectives: trackers are unique and belong to
the callback that they execute, and the last sequence number of a signature is that of its last
call. -/
structure Tidy (me : Vpid) (daemon : Daemon Data) : Prop where
  unique : Unique Coll.key daemon.ongoing
  own : ∀ coll ∈ daemon.ongoing, ∀ callback, coll.cbfunc = some callback →
    Callback.key callback = coll.key ∧
    callback.index < 4294967296
  last : ∀ names, daemon.sig_table names =
    if daemon.requests names = [] then none
      else some (BitVec.ofNat 32 ((daemon.requests names).length - 1))
  bounded : ∀ names, (daemon.requests names).length ≤ 4294967296
  takes_part : ∀ names, daemon.requests names ≠ [] → names ≠ [] ∧ me ∈ participants site names

structure Puts (coll : Coll Data) (before after : List (Coll Data)) : Prop where
  lookup : ∀ key, lookup Coll.key key after = if key = coll.key then some coll
    else lookup Coll.key key before
  unique : Unique Coll.key after
  members : ∀ other ∈ after, other = coll ∨ other ∈ before

def tracked (names : List ProcessName) (seq_num : BitVec 32) (ndmns : Nat)
    (ongoing : List (Coll Data)) : Coll Data :=
  (lookup Coll.key (names, seq_num) ongoing).getD ⟨names, seq_num, ndmns, 0, [], none⟩

theorem tracked_key {seq_num : BitVec 32} :
    (tracked names seq_num ndmns ongoing).key = (names, seq_num) := by
  rw [tracked]
  cases found : lookup Coll.key (names, seq_num) ongoing with
  | none => rfl
  | some coll => exact lookup_key Coll.key _ coll ongoing found

theorem getTracker_tracked {seq_num : BitVec 32} {dmns : List Vpid}
    (unique : Unique Coll.key ongoing)
    (created : createDmns site me (some names) = .ok (dmns, ndmns)) :
    ∃ after, getTracker site me ⟨some names, seq_num⟩ ongoing = .ok
      (some (tracked names seq_num ndmns ongoing), after) ∧
      ∀ coll : Coll Data, coll.key = (names, seq_num) →
        Puts coll ongoing (replace Coll.key coll.key coll after) := by
  rw [getTracker, tracked]
  simp only [bind_some]
  cases found : lookup Coll.key (names, seq_num) ongoing with
  | some =>
    refine ⟨ongoing, rfl, fun coll same => ⟨fun key => ?_, unique_replace _ _ _ _ rfl unique,
      fun other member => mem_replace _ _ _ _ member⟩⟩
    rw [lookup_replace _ _ _ _ _ rfl]
    by_cases here : key = coll.key
    · rw [if_pos here, if_pos here, same, found]
      rfl
    · rw [if_neg here, if_neg here]
  | none =>
    simp only [created, getD_some]
    refine ⟨_, rfl, fun coll same => ?_⟩
    have absent : lookup Coll.key coll.key ongoing = none := same ▸ found
    rw [replace_append Coll.key coll.key coll ongoing ⟨names, seq_num, ndmns, 0, [], none⟩
      same.symm absent]
    refine ⟨fun key => lookup_append _ _ _ absent, unique_append _ _ _ unique absent,
      fun other member => ?_⟩
    rcases List.mem_append.mp member with before | new
    · exact .inr before
    · exact .inl (List.mem_singleton.mp new)

theorem release_ok {seq_num : BitVec 32} {dmns : List Vpid}
    (created : createDmns site me (some names) = .ok (dmns, ndmns))
    (counted : countProcs site names = some nprocs) :
    release site me ⟨some names, seq_num⟩ bucket =
      .ok (site.daemons.map fun daemon =>
        ⟨daemon, .release ⟨some names, seq_num⟩ ⟨none, nprocs, bucket⟩⟩,
        [⟨some names, seq_num⟩]) := by
  rw [release, getD_some, counted]
  simp [xcast, created]

theorem next_seq_num {daemon : Daemon Data} (tidy : Tidy site me daemon) :
    nextSeqNum (daemon.sig_table names) = BitVec.ofNat 32 (daemon.requests names).length := by
  rw [tidy.last names]
  by_cases first : daemon.requests names = []
  · rw [if_pos first, first]
    rfl
  · rw [if_neg first]
    have positive := List.length_pos_iff.mpr first
    change BitVec.ofNat 32 ((daemon.requests names).length - 1) + BitVec.ofNat 32 1 = _
    rw [← BitVec.ofNat_add, Nat.sub_add_cancel positive]

section Calls

variable (me : Vpid) (daemon : Daemon Data) (tidy : Tidy site me daemon) (names : List ProcessName)
    (named : names ≠ [])
  (member : me ∈ participants site names) (room : (daemon.requests names).length < 4294967296)
  (data : Data)

def calledColl : Coll Data :=
  { tracked names (BitVec.ofNat 32 (daemon.requests names).length) (participants site
    names).length daemon.ongoing with
    cbfunc := some ⟨names, (daemon.requests names).length⟩ }

theorem calledColl_key :
    (calledColl site daemon names).key = (names, BitVec.ofNat 32 (daemon.requests names).length) :=
  tracked_key names

def called (ongoing : List (Coll Data)) : Daemon Data where
  requests := Function.update daemon.requests names (daemon.requests names ++ [data])
  sig_table := Function.update daemon.sig_table names
    (some (BitVec.ofNat 32 (daemon.requests names).length))
  ongoing := ongoing
  replies := daemon.replies

variable {ongoing : List (Coll Data)}

theorem called_requests :
    (called daemon names data ongoing).requests names = daemon.requests names ++ [data] :=
  update_self ..

variable {daemon} {names}

theorem called_requests_other (differs : other ≠ names) :
    (called daemon names data ongoing).requests other = daemon.requests other :=
  update_of_ne differs ..

theorem called_part (puts : Puts (calledColl site daemon names) daemon.ongoing ongoing) :
    part (called daemon names data ongoing) ⟨names, (daemon.requests names).length⟩ =
      ⟨some data, some (calledColl site daemon names),
        (part daemon ⟨names, (daemon.requests names).length⟩).replies⟩ := by
  have requested :
      ((called daemon names data ongoing).requests names)[(daemon.requests names).length]? =
        some data := by
    rw [called_requests, getElem?_concat_length]
  have found : lookup Coll.key (Callback.key ⟨names, (daemon.requests names).length⟩) ongoing =
      some (calledColl site daemon names) := by
    rw [puts.lookup, calledColl_key]
    exact if_pos rfl
  rw [part, requested]
  exact congrArg (fun tracker => Part.mk (some data) tracker _) found

include room in
theorem called_part_other (puts : Puts (calledColl site daemon names) daemon.ongoing ongoing)
    (small : callback.index < 4294967296)
    (differs : callback ≠ ⟨names, (daemon.requests names).length⟩) :
    part (called daemon names data ongoing) callback = part daemon callback := by
  have requested : ((called daemon names data ongoing).requests callback.names)[callback.index]? =
      (daemon.requests callback.names)[callback.index]? := by
    by_cases same : callback.names = names
    · have away : callback.index ≠ (daemon.requests names).length := by
        intro index
        obtain ⟨callbackNames, callbackIndex⟩ := callback
        cases same
        exact differs (congrArg (Callback.mk _) index)
      rw [same, called_requests, getElem?_append]
      by_cases before : callback.index < (daemon.requests names).length
      · rw [if_pos before]
      · rw [if_neg before, getElem?_eq_none (by simp only [length_singleton]; omega),
          getElem?_eq_none (by omega)]
    · rw [called_requests_other _ same]
  have found : lookup Coll.key (Callback.key callback) ongoing = lookup Coll.key
      (Callback.key callback) daemon.ongoing := by
    rw [puts.lookup, calledColl_key]
    exact if_neg fun same => differs (key_injective small room same)
  rw [part, requested, part]
  exact congrArg (fun tracker => Part.mk _ tracker _) found

include tidy named member

theorem allgatherStub_eq :
    ∃ ongoing, Puts (calledColl site daemon names) daemon.ongoing ongoing ∧
      allgatherStub site me names data daemon = allgather site me (calledColl site daemon names)
        data >>= fun result =>
        .ok ⟨called daemon names data ongoing, result.1, result.2⟩ := by
  have resolved := participants_resolved site names me named member
  obtain ⟨after, found, puts⟩ := getTracker_tracked site names me
    tidy.unique (resolved.each me member)
  refine ⟨_, puts _ (calledColl_key site daemon names), ?_⟩
  rw [allgatherStub, next_seq_num site names me tidy, found, ok_bind]
  rfl

include room

theorem called_tidy (puts : Puts (calledColl site daemon names) daemon.ongoing ongoing) :
    Tidy site me (called daemon names data ongoing) where
  unique := puts.unique
  own coll present callback executes := by
    rcases puts.members coll present with rfl | before
    · cases executes
      exact ⟨(calledColl_key site daemon names).symm, room⟩
    · exact tidy.own coll before callback executes
  last other := by
    by_cases same : other = names
    · subst other
      simp [called]
    · rw [called_requests_other _ same]
      exact (update_of_ne same ..).trans (tidy.last other)
  bounded other := by
    by_cases same : other = names
    · subst other
      rw [called_requests, length_append]
      exact room
    · rw [called_requests_other _ same]
      exact tidy.bounded other
  takes_part other some_call := by
    by_cases same : other = names
    · subst other
      exact ⟨named, member⟩
    · rw [called_requests_other _ same] at some_call
      exact tidy.takes_part other some_call

end Calls

section Reports

variable (me : Vpid) (daemon : Daemon Data) (tidy : Tidy site me daemon) (names : List ProcessName)
    (seq_num : BitVec 32)
  (dmns : List Vpid) (created : createDmns site me (some names) = .ok (dmns, dmns.length))
  (data : Data)

def reportedColl (ndmns : Nat) : Coll Data :=
  let coll := tracked names seq_num ndmns daemon.ongoing
  { coll with nreported := coll.nreported + 1, bucket := coll.bucket ++ [data] }

variable {daemon} {seq_num}

theorem reportedColl_key : (reportedColl daemon names seq_num data ndmns).key = (names, seq_num) :=
  tracked_key names

include tidy created

theorem allgatherRecv_eq :
    ∃ ongoing, Puts (reportedColl daemon names seq_num data dmns.length) daemon.ongoing ongoing ∧
      allgatherRecv site me ⟨some names, seq_num⟩ data daemon =
        if (reportedColl daemon names seq_num data dmns.length).ndmns =
            (reportedColl daemon names seq_num data dmns.length).nreported then
          release site me ⟨some names, seq_num⟩
            (reportedColl daemon names seq_num data dmns.length).bucket >>= fun result =>
            .ok ⟨{ daemon with ongoing }, result.1, result.2⟩
        else .ok ⟨{ daemon with ongoing }, [], []⟩ := by
  obtain ⟨after, found, puts⟩ := getTracker_tracked site names me tidy.unique created
  refine ⟨_, puts _ (reportedColl_key names data), ?_⟩
  rw [allgatherRecv, found]
  rfl

omit created in
theorem report_tidy
    (puts : Puts (reportedColl daemon names seq_num data ndmns) daemon.ongoing ongoing) :
    Tidy site me { daemon with ongoing } where
  unique := puts.unique
  own coll present callback executes := by
    rcases puts.members coll present with rfl | before
    · rw [reportedColl_key]
      have executes : (tracked names seq_num ndmns daemon.ongoing).cbfunc = some callback :=
        executes
      rw [tracked] at executes
      cases found : lookup Coll.key (names, seq_num) daemon.ongoing with
      | none => rw [found] at executes; cases executes
      | some existing =>
        rw [found] at executes
        have own := tidy.own existing (mem_of_find?_eq_some found) callback executes
        rwa [lookup_key Coll.key _ existing _ found] at own
    · exact tidy.own coll before callback executes
  last := tidy.last
  bounded := tidy.bounded
  takes_part := tidy.takes_part

omit tidy created in
theorem reported_part
    (puts : Puts (reportedColl daemon names seq_num data ndmns) daemon.ongoing ongoing)
    (callback : Callback) :
    part { daemon with ongoing } callback =
      if Callback.key callback = (names, seq_num) then
        { part daemon callback with tracker := some (reportedColl daemon names seq_num data ndmns) }
      else part daemon callback := by
  have found := puts.lookup (Callback.key callback)
  rw [reportedColl_key] at found
  by_cases same : Callback.key callback = (names, seq_num)
  · rw [if_pos same] at found ⊢
    exact congrArg (fun tracker => Part.mk _ tracker _) found
  · rw [if_neg same] at found ⊢
    exact congrArg (fun tracker => Part.mk _ tracker _) found

end Reports

section Releases

variable (me : Vpid) (daemon : Daemon Data) (tidy : Tidy site me daemon) (names : List ProcessName)
    (seq_num : BitVec 32)
  (reply : Reply Data)

include tidy

theorem barrierRelease_tidy :
    Tidy site me (barrierRelease ⟨some names, seq_num⟩ reply daemon).daemon := by
  rw [barrierRelease]
  simp only [bind_some]
  cases found : lookup Coll.key (names, seq_num) daemon.ongoing with
  | none => exact tidy
  | some =>
    exact
      { tidy with
        unique := unique_erase _ _ _ tidy.unique
        own := fun other member => tidy.own other (mem_of_mem_eraseP member) }

theorem barrierRelease_part (callback : Callback) (small : callback.index < 4294967296) :
    part (barrierRelease ⟨some names, seq_num⟩ reply daemon).daemon callback =
      if Callback.key callback = (names, seq_num) then
        { request := (part daemon callback).request
          tracker := none
          replies := (part daemon callback).replies ++
            (((part daemon callback).tracker.bind Coll.cbfunc).map fun _ => reply).toList }
      else part daemon callback := by
  rw [barrierRelease]
  simp only [bind_some]
  cases found : lookup Coll.key (names, seq_num) daemon.ongoing with
  | none =>
    by_cases same : Callback.key callback = (names, seq_num)
    · have untracked : (part daemon callback).tracker = none := by
        rw [part, same]
        exact found
      rw [if_pos same, untracked, bind_none, map_none, toList_none, append_nil]
      exact congrArg (fun tracker => Part.mk _ tracker _) untracked
    · rw [if_neg same]
  | some coll =>
    have key := lookup_key Coll.key _ coll _ found
    have own := tidy.own coll (mem_of_find?_eq_some found)
    have erased := lookup_erase Coll.key coll.key daemon.ongoing (Callback.key callback) tidy.unique
    by_cases same : Callback.key callback = (names, seq_num)
    · rw [if_pos (same.trans key.symm)] at erased
      have tracked : (part daemon callback).tracker = some coll := by
        rw [part, same]
        exact found
      rw [if_pos same, tracked, bind_some]
      simp only [part, filterMap_append, erased]
      cases executes : coll.cbfunc with
      | none => rfl
      | some other =>
        obtain ⟨otherKey, otherSmall⟩ := own other executes
        obtain rfl := key_injective otherSmall small (otherKey.trans (key.trans same.symm))
        simp
    · rw [if_neg fun equal => same (equal.trans key)] at erased
      rw [if_neg same]
      simp only [part, erased]
      cases executes : coll.cbfunc with
      | none => simp
      | some other =>
        have differs : other ≠ callback := by
          rintro rfl
          exact same ((own other executes).1.trans key)
        simp [differs]

end Releases

end Orcm.CentralViews
