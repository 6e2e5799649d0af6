import Orcm.AllgatherDaemon

/-! All daemons of an allgather together, in any order of joining and delivery. -/

namespace Orcm.AllgatherNetwork

open DistanceAllgather Doubling TransitionSystem AllgatherDaemon List Function

variable (algorithm : Algorithm) (group : Group) (pattern : Pattern (Fin group.dmns.length))

/-- The daemons and the messages are where the levels say. -/
structure Linked (network : Network) (state : State (Fin group.dmns.length)) : Prop where
  valid : Valid pattern state
  waiting : ∀ me, me ∈ network.waiting ↔ ∃ rank, vpid group rank = me ∧ state.level rank = none
  waiting_distinct : network.waiting.Nodup
  stands : ∀ rank, Stands algorithm group pattern state rank (network.daemon (vpid group rank))
  flight : ∀ other, other ∈ network.flight ↔ ∃ level receiver,
    other = message group pattern level receiver ∧
    state.flight level receiver
  flight_distinct : network.flight.Nodup

/-- An event that goes wrong: it is undefined, or some reply has too many contributions. -/
def WrongStep (result : Result Network) : Prop :=
  result = Result.undefined ∧ ¬ (Fits algorithm group pattern ∧ 2 ^ pattern.levels < 4294967296) ∨
    4294967296 ≤ 2 ^ pattern.levels ∧ ∃ next, result = .ok next ∧
      ∃ rank, ∃ reply ∈ (next.daemon (vpid group rank)).replies,
        reply.bucket.length = 2 ^ pattern.levels

variable {algorithm group pattern}

theorem initial_linked : Linked algorithm group pattern ⟨group.dmns, fun _ => ⟨none, []⟩, []⟩
    (State.initial (Fin group.dmns.length)) where
  valid := initial_valid pattern
  waiting me := by
    rw [mem_iff_vpid]
    constructor
    · rintro ⟨rank, named⟩
      exact ⟨rank, named, rfl⟩
    · rintro ⟨rank, named, -⟩
      exact ⟨rank, named⟩
  waiting_distinct := group.distinct
  stands rank := .idle _ none rfl rfl rfl rfl fun _ early => early
  flight other := by
    constructor
    · exact fun member => absurd member not_mem_nil
    · rintro ⟨_, _, -, flight⟩
      exact flight.elim
  flight_distinct := nodup_nil

theorem put_linked {network : Network} (valid : Valid pattern middle)
    (waiting : ∀ me, me ∈ network.waiting ↔ ∃ rank, vpid group rank = me ∧ middle.level rank = none)
    (waiting_distinct : network.waiting.Nodup)
    (stands : ∀ other ≠ rank, Stands algorithm group pattern middle other
      (network.daemon (vpid group other)))
    (flight : ∀ other, other ∈ network.flight ↔ ∃ level receiver,
      other = message group pattern level receiver ∧
      middle.flight level receiver)
    (flight_distinct : network.flight.Nodup)
    (replies : (network.daemon (vpid group rank)).replies = [])
    (placed : Placed algorithm group pattern middle final rank outcome) :
    Linked algorithm group pattern (network.put (vpid group rank) outcome) final where
  valid := moves_valid placed.moves valid
  waiting me := by
    simp only [moves_absent placed.moves]
    exact waiting me
  waiting_distinct := waiting_distinct
  stands other := by
    by_cases same : other = rank
    · subst other
      have now : (network.put (vpid group rank) outcome).daemon (vpid group rank) = ⟨outcome.coll,
          outcome.replies⟩ := by
        rw [Network.put, replies]
        exact update_self ..
      rw [now]
      exact placed.stands
    · have differs : vpid group other ≠ vpid group rank := (vpid_injective group).ne same
      have now : (network.put (vpid group rank) outcome).daemon (vpid group other) = network.daemon
          (vpid group other) :=
        update_of_ne differs ..
      obtain ⟨sameLevel, sameSent, sameEarly⟩ := moves_others placed.moves same
      rw [now]
      exact stands_congr middle other sameLevel sameSent sameEarly (stands other same)
  flight other := by
    change other ∈ network.flight ++ outcome.sent ↔ _
    rw [mem_append, flight, placed.new]
    constructor
    · rintro (⟨level, receiver, rfl, before⟩ | ⟨level, receiver, rfl, now, -⟩)
      · exact ⟨level, receiver, rfl, moves_flight placed.moves before⟩
      · exact ⟨level, receiver, rfl, now⟩
    · rintro ⟨level, receiver, rfl, now⟩
      by_cases before : middle.flight level receiver
      · exact .inl ⟨level, receiver, rfl, before⟩
      · exact .inr ⟨level, receiver, rfl, now, before⟩
  flight_distinct := by
    apply List.nodup_append.mpr
    refine ⟨flight_distinct, placed.distinct, ?_⟩
    rintro other earlier _ new rfl
    obtain ⟨level, receiver, rfl, before⟩ := (flight other).mp earlier
    obtain ⟨sameLevel, sameReceiver, same, -, notBefore⟩ := (placed.new _).mp new
    obtain ⟨rfl, rfl⟩ := message_injective group pattern _ _ same
    exact notBefore before

theorem put_replies {network : Network} (member : reply ∈ outcome.replies) :
    reply ∈ ((network.put me outcome).daemon me).replies := by
  have now : (network.put me outcome).daemon me = ⟨outcome.coll,
      (network.daemon me).replies ++ outcome.replies⟩ :=
    update_self ..
  rw [now]
  exact mem_append_right _ member

structure Implements (implementation : Component) (algorithm : Algorithm) (group : Group) :
    Prop where
  allgather : ∀ me coll, implementation.allgather group me coll = allgather algorithm group me coll
  recvDist : ∀ me distance data coll,
    implementation.recvDist group me distance data coll = recvDist algorithm group me
      distance data coll

section Events

variable {implementation : Component} (implements : Implements implementation algorithm group)
  (suits : Suits algorithm group pattern) {network : Network}
  {state : State (Fin group.dmns.length)}
  (linked : Linked algorithm group pattern network state)
include implements suits linked

theorem join_linked {rank : Fin group.dmns.length} (waits : vpid group rank ∈ network.waiting) :
    (∃ next final, network.perform implementation group (.join (vpid group rank)) = .ok next ∧
      Linked algorithm group pattern next final ∧ awaited pattern final < awaited pattern state) ∨
    WrongStep algorithm group pattern
      (network.perform implementation group (.join (vpid group rank))) := by
  obtain ⟨other, same, waiting⟩ := (linked.waiting _).mp waits
  obtain rfl := vpid_injective group same
  have stands := linked.stands other
  generalize daemonNow : network.daemon (vpid group other) = daemon at stands
  cases stands with
  | working level coll at_level => rw [waiting] at at_level; cases at_level
  | done at_level => rw [waiting] at at_level; cases at_level
  | idle _ buffers _ sent tracker replies buffered =>
    rw [Network.perform, implements.allgather, daemonNow, tracker]
    rcases allgather_placed suits linked.valid waiting sent buffered with
      ⟨outcome, final, joined, placed⟩ | ⟨joined, unsound⟩ | ⟨large, outcome, joined, reply,
        member, length⟩
    · left
      rw [joined]
      refine ⟨_, final, rfl, put_linked (join_valid linked.valid waiting) ?_
        (linked.waiting_distinct.erase _) ?_ linked.flight linked.flight_distinct
          (daemonNow ▸ replies) placed, ?_⟩
      · intro me
        rw [linked.waiting_distinct.mem_erase_iff, linked.waiting]
        constructor
        · rintro ⟨differs, rank, rfl, waits⟩
          have away : rank ≠ other := fun same => differs (same ▸ rfl)
          exact ⟨rank, rfl, (update_of_ne away ..).trans waits⟩
        · rintro ⟨rank, rfl, waits⟩
          by_cases away : rank = other
          · subst away
            have now : (state.join rank).level rank = some 0 := update_self ..
            rw [now] at waits
            cases waits
          · exact ⟨(vpid_injective group).ne away, rank, rfl,
              (update_of_ne away ..).symm.trans waits⟩
      · intro rank away
        exact stands_congr state rank (update_of_ne away ..) rfl (fun _ => Iff.rfl)
          (linked.stands rank)
      · rw [awaited_moves placed.moves]
        exact awaited_join waiting
    · right
      rw [joined]
      exact .inl ⟨rfl, unsound⟩
    · right
      rw [joined]
      exact .inr ⟨large, _, rfl, other, reply, put_replies member, length⟩

omit suits linked in
theorem perform_deliver (level : Nat) (rank : Fin group.dmns.length) :
    network.perform implementation group (.deliver (message group pattern level rank)) =
      recvDist algorithm group (vpid group rank) (2 ^ level) (payload group pattern level rank)
          (network.daemon (vpid group rank)).tracker >>= fun outcome =>
        .ok ({ network with flight := network.flight.erase (message group pattern level rank) }.put
          (vpid group rank)
          outcome) := by
  rw [Network.perform, implements.recvDist]
  rfl

theorem deliver_linked {delivered : Message} (flies : delivered ∈ network.flight) :
    (∃ next final, network.perform implementation group (.deliver delivered) = .ok next ∧
      Linked algorithm group pattern next final ∧ awaited pattern final < awaited pattern state) ∨
    WrongStep algorithm group pattern
      (network.perform implementation group (.deliver delivered)) := by
  obtain ⟨level, rank, rfl, flight⟩ := (linked.flight _).mp flies
  obtain ⟨replies, received⟩ := recvDist_placed suits linked.valid flight (linked.stands rank)
  rw [perform_deliver implements]
  rcases received with
    ⟨outcome, middle, final, received, toMiddle, sameFlight, placed⟩ | ⟨received, unsound⟩ |
      ⟨large, outcome, received, reply, member, length⟩
  · left
    rw [received]
    refine ⟨_, final, rfl, put_linked
      (moves_valid toMiddle (arrive_valid linked.valid flight)) ?_ linked.waiting_distinct ?_ ?_
      (linked.flight_distinct.erase _) replies placed, ?_⟩
    · simp only [moves_absent toMiddle]
      exact linked.waiting
    · intro other away
      obtain ⟨sameLevel, sameSent, sameEarly⟩ := moves_others toMiddle away
      refine stands_congr state other sameLevel sameSent (fun level => (sameEarly level).trans ?_)
        (linked.stands other)
      exact or_iff_left fun here => away here.2
    · intro other
      rw [linked.flight_distinct.mem_erase_iff, linked.flight]
      simp only [sameFlight]
      constructor
      · rintro ⟨differs, otherLevel, receiver, rfl, before⟩
        refine ⟨otherLevel, receiver, rfl, before, ?_⟩
        rintro ⟨rfl, rfl⟩
        exact differs rfl
      · rintro ⟨otherLevel, receiver, rfl, before, elsewhere⟩
        exact ⟨fun same => elsewhere (message_injective group pattern _ _ same), otherLevel,
          receiver, rfl, before⟩
    · rw [awaited_moves placed.moves, awaited_moves toMiddle]
      exact awaited_arrive linked.valid flight
  · right
    rw [received]
    exact .inl ⟨rfl, unsound⟩
  · right
    rw [received]
    exact .inr ⟨large, _, rfl, rank, reply, put_replies member, length⟩

theorem perform_linked (enabled : network.Enabled event) :
    (∃ next final, network.perform implementation group event = .ok next ∧
      Linked algorithm group pattern next final ∧ awaited pattern final < awaited pattern state) ∨
    WrongStep algorithm group pattern (network.perform implementation group event) := by
  cases event with
  | join me =>
    obtain ⟨rank, rfl, -⟩ := (linked.waiting me).mp enabled
    exact join_linked implements suits linked enabled
  | deliver => exact deliver_linked implements suits linked enabled

omit implements suits in
theorem quiet_finished (nobody : network.waiting = []) (nothing : network.flight = [])
    (rank : Fin group.dmns.length) :
    Fits algorithm group pattern ∧
      network.daemon (vpid group rank) = ⟨none, [finalReply group pattern rank]⟩ := by
  have joined : ∀ rank, state.level rank ≠ none := by
    intro rank waiting
    have member := (linked.waiting _).mpr ⟨rank, rfl, waiting⟩
    rw [nobody] at member
    cases member
  have phase : ∀ rank, ∃ level, state.level rank = some level ∧ ¬ state.early level rank ∧
      state.sent rank = min (level + 1) pattern.levels := by
    intro rank
    have stands := linked.stands rank
    generalize network.daemon (vpid group rank) = daemon at stands
    cases stands with
    | idle _ _ waiting => exact absurd waiting (joined rank)
    | working level coll at_level unfinished sent settled =>
      exact ⟨level, at_level, settled, by omega⟩
    | done at_level =>
      exact ⟨_, at_level, fun early => absurd (linked.valid.early_fresh _ _ early).1
        (Nat.lt_irrefl _), by omega⟩
  choose reached at_level settled sent using phase
  have quiet : ∀ level rank, ¬ state.flight level rank := by
    intro level rank flight
    have member := (linked.flight _).mpr ⟨level, rank, rfl, flight⟩
    rw [nothing] at member
    cases member
  have finished := all_finished linked.valid quiet at_level settled sent
  have stands := linked.stands rank
  generalize network.daemon (vpid group rank) = daemon at stands
  cases stands with
  | idle _ _ waiting => exact absurd waiting (joined rank)
  | working level coll here unfinished =>
    rw [at_level rank, finished rank] at here
    cases here
    exact absurd unfinished (Nat.lt_irrefl _)
  | done _ _ room => exact ⟨room, rfl⟩

end Events

section Runs

variable {implementation : Component} (implements : Implements implementation algorithm group)
    (suits : Suits algorithm group pattern) (current : Network)
    (state : State (Fin group.dmns.length))

theorem step_eq {next : Network} :
    (network implementation group).step current event = some next ↔
      current.Enabled event ∧ current.perform implementation group event = .ok next := by
  change (if current.Enabled event then (current.perform implementation group event).toOption
    else none) = some next ↔ _
  by_cases enabled : current.Enabled event
  · rw [if_pos enabled, and_iff_right enabled]
    cases current.perform implementation group event <;> simp [Except.toOption]
  · rw [if_neg enabled]
    simp [enabled]

include implements suits

section

variable (sound : Fits algorithm group pattern ∧ 2 ^ pattern.levels < 4294967296)
include sound

theorem sound_step (linked : Linked algorithm group pattern current state)
    (enabled : current.Enabled event) :
    ∃ next final, current.perform implementation group event = .ok next ∧
      Linked algorithm group pattern next final ∧
        awaited pattern final < awaited pattern state := by
  rcases perform_linked implements suits linked enabled with right | ⟨-, unsound⟩ | ⟨large, -⟩
  · exact right
  · exact absurd sound unsound
  · exact absurd sound.2 (by omega)

theorem reachable_linked (reachable : Reachable (network implementation group) current) :
    ∃ state, Linked algorithm group pattern current state := by
  apply Reached.invariant (fun current => ∃ state,
    Linked algorithm group pattern current state) _ _ current reachable
  · rintro current rfl
    exact ⟨_, initial_linked⟩
  · rintro current event next ⟨state, linked⟩ - steps
    obtain ⟨enabled, performed⟩ := (step_eq current).mp steps
    obtain ⟨other, final, same, linked, -⟩ :=
      sound_step implements suits current state sound linked enabled
    rw [performed] at same
    cases same
    exact ⟨final, linked⟩

theorem run_bounded (linked : Linked algorithm group pattern current state)
    (runs : (network implementation group).run (fun _ _ => true) current events = some final) :
    events.length ≤ awaited pattern state := by
  induction events generalizing current state with
  | nil => exact Nat.zero_le _
  | cons event rest ih =>
    obtain ⟨next, steps, runs⟩ := Option.bind_eq_some_iff.mp runs
    obtain ⟨enabled, performed⟩ := (step_eq current).mp steps
    obtain ⟨other, after, same, linked, less⟩ :=
      sound_step implements suits current state sound linked enabled
    rw [performed] at same
    cases same
    have shorter := ih next after linked runs
    rw [length_cons]
    omega

end

theorem quiet_reached (correct : ∀ current, Reachable (network implementation group) current →
      current.Correct implementation group)
        (reachable : Reachable (network implementation group) current)
    (linked : Linked algorithm group pattern current state) :
    ∃ final after, Reachable (network implementation group) final ∧
      Linked algorithm group pattern final after ∧
      final.waiting = [] ∧ final.flight = [] := by
  induction left : awaited pattern state using Nat.strongRecOn generalizing current state with
  | _ bound ih =>
    subst left
    have go : ∀ event, current.Enabled event → ∃ final after,
        Reachable (network implementation group) final ∧
        Linked algorithm group pattern final after ∧ final.waiting = [] ∧ final.flight = [] := by
      intro event enabled
      have defined := (correct current reachable).defined event enabled
      rcases perform_linked implements suits linked enabled with
        ⟨next, after, performed, linked, less⟩ | ⟨performed, -⟩ | ⟨large, next, performed, rank,
          reply, member, length⟩
      · exact ih _ less next after
          (.step current event next reachable trivial ((step_eq _).mpr ⟨enabled, performed⟩))
          linked rfl
      · obtain ⟨next, same⟩ := defined
        rw [performed] at same
        cases same
      · have nextReachable : Reachable (network implementation group) next :=
          .step current event next reachable trivial ((step_eq _).mpr ⟨enabled, performed⟩)
        have whole :=
          ((correct next nextReachable).whole _ (vpid_mem group rank) reply member).2.length_eq
        have bounded := group.bounded
        omega
    cases waits : current.waiting with
    | cons me =>
      exact go (.join me) (show me ∈ current.waiting by rw [waits]; exact mem_cons_self)
    | nil =>
      cases flies : current.flight with
      | cons first =>
        exact go (.deliver first) (show first ∈ current.flight by rw [flies]; exact mem_cons_self)
      | nil => exact ⟨current, state, reachable, linked, waits, flies⟩

/-- The collective completes exactly if the mask has room for all distances, and each daemon
collects what every rank contributes once. -/
theorem completes_iff : Completes implementation group ↔
    Fits algorithm group pattern ∧ ∀ rank, (pattern.content pattern.levels rank).Perm
      (List.finRange group.dmns.length) := by
  have whole : ∀ rank, (finalReply group pattern rank).bucket.Perm group.dmns ↔
      (pattern.content pattern.levels rank).Perm (List.finRange group.dmns.length) := by
    intro rank
    have all : (List.finRange group.dmns.length).map (vpid group) = group.dmns :=
      map_get_finRange ..
    rw [finalReply, ← map_perm_map_iff (vpid_injective group), all]
  constructor
  · rintro ⟨correct, -⟩
    obtain ⟨final, state, reachable, linked, nobody, nothing⟩ :=
      quiet_reached implements suits _ _ correct
      (.initial _ rfl) initial_linked
    have some_rank : 0 < group.dmns.length := List.length_pos_iff.mpr group.some_daemon
    refine ⟨(quiet_finished linked nobody nothing ⟨0, some_rank⟩).1, fun rank => (whole rank).mp ?_⟩
    apply ((correct final reachable).whole _ (vpid_mem group rank) _ _).2
    rw [(quiet_finished linked nobody nothing rank).2]
    exact mem_cons_self
  · rintro ⟨fits, perm⟩
    have sound : Fits algorithm group pattern ∧ 2 ^ pattern.levels < 4294967296 := by
      refine ⟨fits, ?_⟩
      have length := (perm ⟨0, List.length_pos_iff.mpr group.some_daemon⟩).length_eq
      rw [content_length, length_finRange] at length
      rw [length]
      exact group.bounded
    constructor
    · intro current reachable
      obtain ⟨state, linked⟩ := reachable_linked implements suits current sound reachable
      constructor
      · intro event enabled
        obtain ⟨next, -, performed, -⟩ :=
          sound_step implements suits current state sound linked enabled
        exact ⟨next, performed⟩
      · intro me member
        obtain ⟨rank, rfl⟩ := (mem_iff_vpid group).mp member
        have stands := linked.stands rank
        generalize current.daemon (vpid group rank) = daemon at stands
        cases stands with
        | idle _ _ _ _ _ replies => rw [replies]; exact Nat.zero_le _
        | working => exact Nat.zero_le _
        | done => exact Nat.le_refl _
      · intro me member reply replied
        obtain ⟨rank, rfl⟩ := (mem_iff_vpid group).mp member
        have stands := linked.stands rank
        generalize current.daemon (vpid group rank) = daemon at stands replied
        cases stands with
        | idle _ _ _ _ _ replies => rw [replies] at replied; cases replied
        | working => cases replied
        | done =>
          rw [mem_singleton] at replied
          subst reply
          exact ⟨rfl, (whole rank).mpr (perm rank)⟩
      · intro nobody nothing me member
        obtain ⟨rank, rfl⟩ := (mem_iff_vpid group).mp member
        rw [(quiet_finished linked nobody nothing rank).2]
        exact cons_ne_nil _ _
    · refine ⟨pattern.levels * Fintype.card (Fin group.dmns.length) + Fintype.card
        (Fin group.dmns.length), ?_⟩
      rintro current rfl events final runs
      exact (run_bounded implements suits _ _ sound initial_linked runs).trans awaited_le

end Runs

end Orcm.AllgatherNetwork
