import Mathlib.Data.List.FinRange
import Orcm.DistanceAllgather
import Orcm.Doubling

/-!
The tracker of a daemon is determined by the level that it has come to and by the messages that wait
for it. A call goes wrong only where the mask has no room for a distance, or where the distance
overflows.
-/

namespace Orcm.AllgatherDaemon

open DistanceAllgather Doubling List Function Result

section Pattern

variable (algorithm : Algorithm) (group : Group) (pattern : Pattern (Fin group.dmns.length))

/-- The pattern is that of the algorithm: the distance of a level is a power of two. -/
structure Suits : Prop where
  levels : ∀ level, level < pattern.levels ↔ 2 ^ level < group.dmns.length
  peer : ∀ level < pattern.levels, ∀ rank, algorithm.peer group.dmns.length rank.val (2 ^ level) =
    (pattern.target level rank).val
  slot : ∀ level < pattern.levels, ∃ index < algorithm.slots group.dmns.length,
    algorithm.slot (2 ^ level) = some index
  slot_injective : ∀ level < pattern.levels, ∀ other < pattern.levels,
    algorithm.slot (2 ^ level) = algorithm.slot (2 ^ other) → level = other
  overflow : ∀ index, algorithm.slot 0 = some index → algorithm.slots group.dmns.length ≤ index
  mask : 1 < group.dmns.length → (algorithm.maskWords group.dmns.length).isSome

def maskSize : Nat := (algorithm.maskWords group.dmns.length).getD 0

def Fits : Prop := ∀ level < pattern.levels, 2 ^ level / 32 < maskSize algorithm group

def vpid (rank : Fin group.dmns.length) : Vpid := group.dmns.get rank

def payload (level : Nat) (rank : Fin group.dmns.length) : List Vpid :=
  (pattern.content level (pattern.source level rank)).map (vpid group)

def message (level : Nat) (rank : Fin group.dmns.length) : Message :=
  ⟨vpid group rank, 2 ^ level, payload group pattern level rank⟩

theorem vpid_injective : Function.Injective (vpid group) :=
  List.nodup_iff_injective_get.mp group.distinct

variable (rank : Fin group.dmns.length) (state : State (Fin group.dmns.length))
    (buffers : Option (List (Option (List Vpid)))) (level : Nat)

theorem message_injective
    (same : message group pattern level rank = message group pattern other receiver) :
    level = other ∧ rank = receiver :=
  ⟨Nat.pow_right_injective (Nat.le_refl 2) (congrArg Message.distance same),
    vpid_injective group (congrArg Message.peer same)⟩

theorem vpid_mem : vpid group rank ∈ group.dmns := get_mem _ _

theorem mem_iff_vpid : me ∈ group.dmns ↔ ∃ rank, vpid group rank = me := mem_iff_get

theorem idxOf_vpid : group.dmns.idxOf (vpid group rank) = rank.val :=
  group.distinct.idxOf_getElem rank.val rank.isLt

def bitAt (words : List (BitVec 32)) (distance : Nat) : Bool :=
  (words.getD (distance / 32) 0).getLsbD (distance % 32)

def Marked (mask : Option (List (BitVec 32))) (level : Nat) : Prop :=
  ∃ words, mask = some words ∧ words.length = maskSize algorithm group ∧
    ∀ other < pattern.levels, 2 ^ other / 32 < maskSize algorithm group →
      bitAt words (2 ^ other) = decide (other < level)

theorem bitAt_modify (inside : distance / 32 < words.length) :
    bitAt (words.modify (distance / 32) fun word => word ||| (1#32 <<< (distance % 32))) other =
      (bitAt words other || decide (other = distance)) := by
  rw [bitAt, bitAt, getD_eq_getElem?_getD, getD_eq_getElem?_getD]
  by_cases sameWord : distance / 32 = other / 32
  · have sameBit : other % 32 = distance % 32 ↔ other = distance := by omega
    rw [← sameWord, getElem?_modify_eq, getElem?_eq_getElem inside, ← BitVec.twoPow_eq]
    simp [Nat.mod_lt _ (show 0 < 32 by omega), ← sameBit]
  · have differs : other ≠ distance := by
      rintro rfl
      exact sameWord rfl
    rw [getElem?_modify_ne _ _ sameWord]
    simp [differs]

variable {algorithm group pattern}

theorem mark_marked {level : Nat} (marked : Marked algorithm group pattern mask level)
    (room : 2 ^ level / 32 < maskSize algorithm group) :
    ∃ words, markDistanceRecv mask (2 ^ level) = .ok words ∧
      Marked algorithm group pattern (some words) (level + 1) := by
  obtain ⟨words, rfl, size, bits⟩ := marked
  refine ⟨_, if_pos (size ▸ room), _, rfl, by rw [length_modify, size], ?_⟩
  intro other bound inside
  rw [bitAt_modify (size ▸ room), bits other bound inside]
  have powers : 2 ^ other = 2 ^ level ↔ other = level :=
    (Nat.pow_right_injective (Nat.le_refl 2)).eq_iff
  simp only [← Bool.decide_or]
  congr 1
  rw [eq_iff_iff]
  omega

theorem mark_undefined (mask : Option (List (BitVec 32)))
    (marked : Marked algorithm group pattern mask level)
    (noRoom : ¬ 2 ^ level / 32 < maskSize algorithm group) :
    markDistanceRecv mask (2 ^ level) = undefined := by
  obtain ⟨words, rfl, size, -⟩ := marked
  exact if_neg (size ▸ noRoom)

theorem half_pow : 2 ^ (level + 1) / 2 = 2 ^ level := by
  rw [Nat.pow_succ, Nat.mul_div_cancel _ (by omega)]

theorem check_marked {level : Nat} (marked : Marked algorithm group pattern mask level)
    (bound : other < pattern.levels) :
    checkDistanceRecv mask (2 ^ other / 2) = .ok (decide (other ≤ level)) ∨
      checkDistanceRecv mask (2 ^ other / 2) = undefined ∧ ¬ Fits algorithm group pattern := by
  obtain ⟨words, rfl, size, bits⟩ := marked
  cases other with
  | zero => exact .inl (by simp [checkDistanceRecv])
  | succ before =>
    have positive : 2 ^ before ≠ 0 := Nat.pos_iff_ne_zero.mp (Nat.two_pow_pos before)
    rw [half_pow, checkDistanceRecv, if_neg positive]
    by_cases inside : 2 ^ before / 32 < words.length
    · left
      have bit := bits before (by omega) (size ▸ inside)
      rw [bitAt, getD_eq_getElem?_getD, getElem?_eq_getElem inside] at bit
      rw [getElem?_eq_getElem inside]
      exact congrArg Except.ok bit
    · right
      rw [getElem?_eq_none (by omega)]
      exact ⟨rfl, fun fits => inside (size ▸ fits before (by omega))⟩

variable (algorithm group pattern)

def Buffered (state : State (Fin group.dmns.length)) (rank : Fin group.dmns.length)
    (buffers : Option (List (Option (List Vpid)))) : Prop :=
  match buffers with
  | none => ∀ level, ¬ state.early level rank
  | some slots => slots.length = algorithm.slots group.dmns.length ∧
      ∀ level < pattern.levels, ∀ index, algorithm.slot (2 ^ level) = some index →
        (state.early level rank → slots[index]? = some (some (payload group pattern level rank))) ∧
        (¬ state.early level rank → slots[index]? = some none)

variable {algorithm group pattern}

theorem buffered_congr {state : State (Fin group.dmns.length)} {rank : Fin group.dmns.length}
    (same : ∀ level, other.early level rank ↔ state.early level rank)
    {buffers : Option (List (Option (List Vpid)))}
    (buffered : Buffered algorithm group pattern state rank buffers) :
    Buffered algorithm group pattern other rank buffers := by
  cases buffers with
  | none => exact fun level => mt (same level).mp (buffered level)
  | some =>
    refine ⟨buffered.1, fun level bound index found => ?_⟩
    rw [same level]
    exact buffered.2 level bound index found

variable (suits : Suits algorithm group pattern)
include suits

section

variable (buffered : Buffered algorithm group pattern state rank buffers)
include buffered

theorem take_nothing (bound : level < pattern.levels)
    (nothing : ¬ state.early level rank) : takeBuffer algorithm (2 ^ level) buffers = .ok none := by
  obtain ⟨index, -, found⟩ := suits.slot level bound
  cases buffers with
  | none => rfl
  | some => simp [takeBuffer, found, (buffered.2 level bound index found).2 nothing]

theorem take_early (bound : level < pattern.levels) (early : state.early level rank) :
    ∃ rest, takeBuffer algorithm (2 ^ level) buffers = .ok
      (some (payload group pattern level rank, rest)) ∧
      Buffered algorithm group pattern (state.advance level rank) rank (some rest) := by
  obtain ⟨index, -, found⟩ := suits.slot level bound
  cases buffers with
  | none => exact absurd early (buffered level)
  | some slots =>
    have here := (buffered.2 level bound index found).1 early
    refine ⟨slots.set index none, by simp [takeBuffer, found, here], by rw [length_set, buffered.1],
      ?_⟩
    intro other otherBound otherIndex otherFound
    by_cases same : other = level
    · subst other
      rw [found] at otherFound
      cases otherFound
      have inside := (List.getElem?_eq_some_iff.mp here).1
      refine ⟨fun still => absurd ⟨rfl, rfl⟩ still.2, fun _ => getElem?_set_self inside⟩
    · have differs : index ≠ otherIndex := by
        rintro rfl
        exact same (suits.slot_injective other otherBound level bound (otherFound.trans found.symm))
      rw [getElem?_set_ne differs]
      have unchanged : (state.advance level rank).early other rank ↔ state.early other rank :=
        and_iff_left fun here => same here.1
      rw [unchanged]
      exact buffered.2 other otherBound otherIndex otherFound

theorem buffered_replicate :
    Buffered algorithm group pattern state rank
      (some (buffers.getD (List.replicate (algorithm.slots group.dmns.length) none))) := by
  cases buffers with
  | some => exact buffered
  | none =>
    refine ⟨length_replicate, fun level bound index found =>
      ⟨fun early => absurd early (buffered level), fun _ => ?_⟩⟩
    obtain ⟨other, inside, same⟩ := suits.slot level bound
    rw [found] at same
    cases same
    rw [Option.getD_none, getElem?_replicate, if_pos inside]

end

theorem receiveEarly_buffered (buffered : Buffered algorithm group pattern state rank coll.buffers)
    (bound : level < pattern.levels) :
    ∃ slots, receiveEarly algorithm group (2 ^ level) (payload group pattern level rank) coll =
        .ok ⟨some { coll with buffers := some slots }, [], []⟩ ∧
      Buffered algorithm group pattern (state.arrive level rank) rank (some slots) := by
  obtain ⟨index, inside, found⟩ := suits.slot level bound
  obtain ⟨size, slots⟩ := buffered_replicate rank state coll.buffers suits buffered
  rw [← size] at inside
  refine ⟨(coll.buffers.getD (List.replicate (algorithm.slots group.dmns.length) none)).set index
      (some (payload group pattern level rank)), by simp [receiveEarly, found, if_pos inside],
    by rw [length_set, size], ?_⟩
  intro other otherBound otherIndex otherFound
  by_cases same : other = level
  · subst other
    rw [found] at otherFound
    cases otherFound
    exact ⟨fun _ => getElem?_set_self inside, fun absent => absurd (.inr ⟨rfl, rfl⟩) absent⟩
  · have differs : index ≠ otherIndex := by
      rintro rfl
      exact same (suits.slot_injective other otherBound level bound (otherFound.trans found.symm))
    rw [getElem?_set_ne differs]
    have unchanged : (state.arrive level rank).early other rank ↔ state.early other rank :=
      or_iff_left fun here => same here.1
    rw [unchanged]
    exact slots other otherBound otherIndex otherFound

end Pattern

section Daemon

variable (algorithm : Algorithm) (group : Group) (pattern : Pattern (Fin group.dmns.length))

/-- The tracker of a daemon that has joined and come to a level. -/
structure Tracks (state : State (Fin group.dmns.length)) (rank : Fin group.dmns.length)
    (level : Nat) (coll : Coll) :
    Prop where
  bucket : coll.bucket = (pattern.content level rank).map (vpid group)
  nreported : coll.nreported = 2 ^ level
  cbfunc : coll.cbfunc = true
  mask : 1 < group.dmns.length → Marked algorithm group pattern coll.distance_mask_recv level
  buffers : Buffered algorithm group pattern state rank coll.buffers
  -- every level so far has been marked
  room : ∀ other < level, 2 ^ other / 32 < maskSize algorithm group

def finalReply (rank : Fin group.dmns.length) : Reply :=
  ⟨none, if group.sz = 1 then group.num_procs else group.sz,
    (pattern.content pattern.levels rank).map (vpid group)⟩

/-- The state of a daemon between two events. -/
inductive Stands (state : State (Fin group.dmns.length)) (rank : Fin group.dmns.length) :
    Daemon → Prop where
  | idle (daemon : Daemon) (buffers : Option (List (Option (List Vpid))))
      (waiting : state.level rank = none)
      (sent : state.sent rank = 0) (tracker : daemon.tracker = { construct with buffers })
        (replies : daemon.replies = [])
      (buffered : Buffered algorithm group pattern state rank buffers) : Stands state rank daemon
  | working (level : Nat) (coll : Coll) (at_level : state.level rank = some level)
      (unfinished : level < pattern.levels)
      (sent : state.sent rank = level + 1) (settled : ¬ state.early level rank)
      (tracks : Tracks algorithm group pattern state rank level coll) : Stands state rank
        ⟨some coll, []⟩
  | done (at_level : state.level rank = some pattern.levels)
      (sent : state.sent rank = pattern.levels)
      (room : Fits algorithm group pattern) : Stands state rank
        ⟨none, [finalReply group pattern rank]⟩

structure Settled (state final : State (Fin group.dmns.length)) (rank : Fin group.dmns.length)
    (level : Nat) (coll : Coll) (sent : List Message) : Prop where
  moves : Moves pattern rank state final
  at_level : final.level rank = some level
  sent_all : final.sent rank = min (level + 1) pattern.levels
  settled : ¬ final.early level rank
  tracks : Tracks algorithm group pattern final rank level coll
  distinct : sent.Nodup
  new : ∀ other, other ∈ sent ↔ ∃ level receiver, other = message group pattern level receiver ∧
    final.flight level receiver ∧ ¬ state.flight level receiver

/-- What a call leaves: the daemon has taken up all it can, and its new messages are on their
way. -/
structure Placed (state final : State (Fin group.dmns.length)) (rank : Fin group.dmns.length)
    (outcome : Outcome) : Prop where
  moves : Moves pattern rank state final
  stands : Stands algorithm group pattern final rank ⟨outcome.coll, outcome.replies⟩
  distinct : outcome.sent.Nodup
  new : ∀ other, other ∈ outcome.sent ↔ ∃ level receiver,
    other = message group pattern level receiver ∧
    final.flight level receiver ∧ ¬ state.flight level receiver

/-- The loop goes wrong: the mask is too small, or the last distance overflows and the loop sends
once more. -/
def LoopWrong (result : Result (Coll × List Message)) : Prop :=
  result = Result.undefined ∧ ¬ (Fits algorithm group pattern ∧ 2 ^ pattern.levels < 4294967296) ∨
    4294967296 ≤ 2 ^ pattern.levels ∧ ∃ coll sent, result = .ok (coll, sent) ∧
      coll.bucket.length = 2 ^ pattern.levels ∧ coll.nreported = 2 ^ pattern.levels ∧
        coll.cbfunc = true

/-- A call that goes wrong, which it can only where the mask is too small or the distance
overflows. -/
def Wrong (result : Result Outcome) : Prop :=
  result = Result.undefined ∧ ¬ (Fits algorithm group pattern ∧ 2 ^ pattern.levels < 4294967296) ∨
    4294967296 ≤ 2 ^ pattern.levels ∧
      ∃ outcome, result = .ok outcome ∧ ∃ reply ∈ outcome.replies,
        reply.bucket.length = 2 ^ pattern.levels

variable {algorithm group pattern} (state : State (Fin group.dmns.length))
    (rank : Fin group.dmns.length) (level : Nat)

theorem stands_congr (sameLevel : other.level rank = state.level rank)
    (sameSent : other.sent rank = state.sent rank)
    (sameEarly : ∀ level, other.early level rank ↔ state.early level rank)
    (stands : Stands algorithm group pattern state rank daemon) :
    Stands algorithm group pattern other rank daemon := by
  cases stands with
  | idle _ buffers waiting sent tracker replies buffered =>
    exact .idle daemon buffers (sameLevel.trans waiting) (sameSent.trans sent) tracker replies
      (buffered_congr sameEarly buffered)
  | working level coll at_level unfinished sent settled tracks =>
    exact .working level coll (sameLevel.trans at_level) unfinished (sameSent.trans sent)
      (mt (sameEarly level).mp settled)
      { tracks with buffers := buffered_congr sameEarly tracks.buffers }
  | done at_level sent room => exact .done (sameLevel.trans at_level) (sameSent.trans sent) room

variable (suits : Suits algorithm group pattern)
include suits

theorem level_pow (bound : level < pattern.levels) :
    2 ^ level % 4294967296 = 2 ^ level ∧ 2 ^ level < group.dmns.length := by
  have below := (suits.levels level).mp bound
  exact ⟨Nat.mod_eq_of_lt (below.trans group.bounded), below⟩

theorem levels_pow : group.dmns.length ≤ 2 ^ pattern.levels := by
  by_contra less
  exact Nat.lt_irrefl _ ((suits.levels pattern.levels).mpr (by omega))

theorem levels_le : pattern.levels ≤ 32 := by
  by_contra more
  have below := (suits.levels 32).mp (by omega)
  have bounded := group.bounded
  omega

theorem dmns_peer (bound : level < pattern.levels) :
    group.dmns[algorithm.peer group.dmns.length rank.val (2 ^ level)]? =
      some (vpid group (pattern.target level rank)) := by
  rw [suits.peer level bound rank]
  exact getElem?_eq_getElem (pattern.target level rank).isLt

theorem processLoop_overflow (coll : Coll)
    (tracks : Tracks algorithm group pattern state rank pattern.levels coll)
    (large : 4294967296 ≤ 2 ^ pattern.levels) :
    LoopWrong algorithm group pattern
      (processLoop algorithm group rank.val (2 ^ pattern.levels % 4294967296) coll) := by
  have levels : pattern.levels = 32 := by
    have atMost := levels_le suits
    have atLeast :=
      (Nat.pow_le_pow_iff_right (show 1 < 2 by omega)).mp
        (show 2 ^ 32 ≤ 2 ^ pattern.levels by omega)
    omega
  have distance : 2 ^ pattern.levels % 4294967296 = 0 := by
    rw [levels]
    decide
  have unsound : ¬ (Fits algorithm group pattern ∧ 2 ^ pattern.levels < 4294967296) :=
    fun sound => by
    omega
  have more : 0 < group.dmns.length := List.length_pos_iff.mpr group.some_daemon
  rw [distance]
  cases found : group.dmns[algorithm.peer group.dmns.length rank.val 0]? with
  | none =>
    rw [processLoop, if_pos more, found]
    exact .inl ⟨rfl, unsound⟩
  | some =>
    cases buffers : coll.buffers with
    | none =>
      rw [processLoop_nothing more found (by rw [buffers]; rfl)]
      refine .inr ⟨large, coll, _, rfl, ?_, tracks.nreported, tracks.cbfunc⟩
      rw [tracks.bucket, length_map, content_length]
    | some slots =>
      have size : slots.length = algorithm.slots group.dmns.length := by
        have buffered := tracks.buffers
        rw [buffers] at buffered
        exact buffered.1
      have nothing : takeBuffer algorithm 0 coll.buffers = undefined := by
        rw [buffers, takeBuffer]
        cases slot : algorithm.slot 0 with
        | none => rfl
        | some index =>
          have outside := suits.overflow index slot
          simp [getElem?_eq_none (show slots.length ≤ index by omega)]
      rw [processLoop_fault more found nothing]
      exact .inl ⟨rfl, unsound⟩

omit suits in
theorem tracks_next {next : State (Fin group.dmns.length)} {state : State (Fin group.dmns.length)}
    {rank : Fin group.dmns.length} {level : Nat}
    (tracks : Tracks algorithm group pattern state rank level coll)
    (marked : Marked algorithm group pattern (some mask) (level + 1))
    (room : 2 ^ level / 32 < maskSize algorithm group)
    {buffers : Option (List (Option (List Vpid)))}
    (buffered : Buffered algorithm group pattern next rank buffers) :
    Tracks algorithm group pattern next rank (level + 1)
      ⟨coll.nreported + 2 ^ level, coll.bucket ++ payload group pattern level rank, some mask,
        buffers, coll.cbfunc⟩ := by
  refine ⟨?_, ?_, tracks.cbfunc, fun _ => marked, buffered, ?_⟩
  · rw [tracks.bucket, Pattern.content, map_append]
    rfl
  · change coll.nreported + 2 ^ level = 2 ^ (level + 1)
    rw [tracks.nreported, Nat.pow_succ]
    omega
  · intro other less
    rcases Nat.lt_succ_iff_lt_or_eq.mp less with before | rfl
    · exact tracks.room other before
    · exact room

omit suits in
theorem settled_turn {state : State (Fin group.dmns.length)} {rank : Fin group.dmns.length}
    {level : Nat} {after : Coll} (bound : level < pattern.levels) (sent : state.sent rank = level)
    (at_level : state.level rank = some level) (early : state.early level rank)
    (notSent : ¬ state.flight level (pattern.target level rank))
    (settled : Settled algorithm group pattern ((state.send pattern level rank).advance level rank)
      final rank reached after
      messages) :
    Settled algorithm group pattern state final rank reached after
      (message group pattern level (pattern.target level rank) :: messages) := by
  have onItsWay : ((state.send pattern level rank).advance level rank).flight level
      (pattern.target level rank) :=
    .inr ⟨rfl, rfl⟩
  refine ⟨.send state final level bound sent (.advance _ final level at_level early settled.moves),
    settled.at_level, settled.sent_all, settled.settled, settled.tracks, ?_, ?_⟩
  · rw [nodup_cons]
    refine ⟨fun again => ?_, settled.distinct⟩
    obtain ⟨other, receiver, same, -, notFlight⟩ := (settled.new _).mp again
    obtain ⟨rfl, rfl⟩ := message_injective group pattern _ _ same
    exact notFlight onItsWay
  · intro other
    rw [mem_cons, settled.new]
    constructor
    · rintro (rfl | ⟨otherLevel, receiver, rfl, flight, notFlight⟩)
      · exact ⟨_, _, rfl, moves_flight settled.moves onItsWay, notSent⟩
      · exact ⟨_, _, rfl, flight, fun before => notFlight (.inl before)⟩
    · rintro ⟨otherLevel, receiver, rfl, flight, notFlight⟩
      by_cases here : otherLevel = level ∧ receiver = pattern.target level rank
      · obtain ⟨rfl, rfl⟩ := here
        exact .inl rfl
      · exact .inr ⟨_, _, rfl, flight, not_or.mpr ⟨notFlight, here⟩⟩

theorem processLoop_settled (coll : Coll) (valid : Valid pattern state)
    (at_level : state.level rank = some level) (sent : state.sent rank = level)
    (tracks : Tracks algorithm group pattern state rank level coll) :
    (∃ final reached after messages,
      processLoop algorithm group rank.val (2 ^ level % 4294967296) coll = .ok (after, messages) ∧
      Settled algorithm group pattern state final rank reached after messages) ∨
    LoopWrong algorithm group pattern
      (processLoop algorithm group rank.val (2 ^ level % 4294967296) coll) := by
  have level_le := valid.level_le rank level at_level
  -- the levels that are left bound the turns of the loop
  induction left : pattern.levels - level generalizing state level coll with
  | zero =>
    obtain rfl : level = pattern.levels := by omega
    by_cases large : 4294967296 ≤ 2 ^ pattern.levels
    · exact .inr (processLoop_overflow state rank suits coll tracks large)
    · left
      have covered := levels_pow suits
      have same : 2 ^ pattern.levels % 4294967296 = 2 ^ pattern.levels :=
        Nat.mod_eq_of_lt (by omega)
      refine ⟨state, pattern.levels, coll, [], ?_, .stay state, at_level, by omega, ?_, tracks,
        nodup_nil, ?_⟩
      · rw [same, processLoop, if_neg (by omega)]
      · intro early
        exact absurd (valid.early_fresh _ _ early).1 (Nat.lt_irrefl _)
      · intro other
        constructor
        · exact fun member => absurd member not_mem_nil
        · rintro ⟨_, _, -, flight, notFlight⟩
          exact absurd flight notFlight
  | succ left ih =>
    have bound : level < pattern.levels := by omega
    obtain ⟨same, more⟩ := level_pow level suits bound
    have found := dmns_peer rank level suits bound
    have sends : (⟨vpid group (pattern.target level rank), 2 ^ level, coll.bucket⟩ : Message) =
        message group pattern level (pattern.target level rank) := by
      rw [message, payload, pattern.source_target level bound, tracks.bucket]
    have sentValid := send_valid valid bound sent
    have notSent : ¬ state.flight level (pattern.target level rank) := by
      intro flight
      have earlier := (valid.sent_iff level bound _).mpr (.inl flight)
      rw [pattern.source_target level bound, sent] at earlier
      exact Nat.lt_irrefl _ earlier
    rw [same]
    by_cases early : state.early level rank
    · obtain ⟨rest, taken, buffered⟩ :=
        take_early rank (state.send pattern level rank) coll.buffers level suits
        tracks.buffers bound early
      have marked := tracks.mask (by have positive := Nat.two_pow_pos level; omega)
      by_cases room : 2 ^ level / 32 < maskSize algorithm group
      · obtain ⟨mask, marks, marked⟩ := mark_marked marked room
        have doubled : 2 ^ level * 2 % 4294967296 = 2 ^ (level + 1) % 4294967296 := by
          rw [Nat.pow_succ]
        have tracksNext := tracks_next tracks marked room buffered
        rw [processLoop_next more found taken mask marks, doubled, sends]
        rcases ih _ (level + 1) _ (advance_valid sentValid at_level early) (update_self ..)
          (update_self ..) tracksNext (by omega) (by omega) with
          ⟨final, reached, after, messages, looped, settled⟩ | wrong
        · left
          refine ⟨final, reached, after, _, ?_,
            settled_turn bound sent at_level early notSent settled⟩
          rw [looped]
          rfl
        · right
          rcases wrong with ⟨looped, unsound⟩ | ⟨large, after, messages, looped, rest⟩
          · rw [looped]
            exact .inl ⟨rfl, unsound⟩
          · rw [looped]
            exact .inr ⟨large, after, _, rfl, rest⟩
      · rw [processLoop_unmarked more found taken _ (mark_undefined level _ marked room)]
        exact .inr (.inl ⟨rfl, fun sound => room (sound.1 level bound)⟩)
    · left
      refine ⟨state.send pattern level rank, level, coll, _,
        processLoop_nothing more found
          (take_nothing rank state coll.buffers level suits tracks.buffers bound early),
        .send state _ level bound sent (.stay _), at_level, ?_, early,
          ⟨tracks.bucket, tracks.nreported, tracks.cbfunc,
          tracks.mask, tracks.buffers, tracks.room⟩, nodup_singleton _, ?_⟩
      · have now : (state.send pattern level rank).sent rank = level + 1 := update_self ..
        omega
      · intro other
        rw [mem_singleton, sends]
        constructor
        · rintro rfl
          exact ⟨_, _, rfl, .inr ⟨rfl, rfl⟩, notSent⟩
        · rintro ⟨otherLevel, receiver, rfl, flight | ⟨rfl, rfl⟩, notFlight⟩
          · exact absurd flight notFlight
          · rfl

variable {level} {rank} {state}

theorem processData_placed (valid : Valid pattern state) (at_level : state.level rank = some level)
    (sent : state.sent rank = level)
    (tracks : Tracks algorithm group pattern state rank level coll) :
    (∃ outcome final, processData algorithm group (vpid group rank) (2 ^ level % 4294967296) coll =
      .ok outcome ∧
      Placed algorithm group pattern state final rank outcome) ∨
    Wrong algorithm group pattern (processData algorithm group (vpid group rank)
      (2 ^ level % 4294967296) coll) := by
  rw [processData, if_pos (vpid_mem group rank), idxOf_vpid]
  rcases processLoop_settled state rank level suits coll valid at_level sent tracks with
    ⟨final, reached, after, messages, looped, settled⟩ | ⟨looped, unsound⟩ | ⟨large, after,
      messages, looped, length, all, called⟩
  · left
    rw [looped]
    have atMost := (moves_valid settled.moves valid).level_le rank reached settled.at_level
    rcases Nat.lt_or_eq_of_le atMost with unfinished | rfl
    · have fewer := (suits.levels reached).mp unfinished
      refine ⟨⟨some after, messages, []⟩, final, ?_, settled.moves, ?_, settled.distinct,
        settled.new⟩
      · exact if_neg (by rw [settled.tracks.nreported]; omega)
      · exact .working reached after settled.at_level unfinished (settled.sent_all.trans (by omega))
          settled.settled
          settled.tracks
    · have all := levels_pow suits
      refine ⟨⟨none, messages, finalizeColl group none after⟩, final, ?_, settled.moves, ?_,
        settled.distinct, settled.new⟩
      · exact if_pos (by rw [settled.tracks.nreported]; exact all)
      · have reply : finalizeColl group none after = [finalReply group pattern rank] := by
          rw [finalizeColl, if_pos settled.tracks.cbfunc, settled.tracks.bucket, finalReply]
        rw [reply]
        exact .done settled.at_level (settled.sent_all.trans (by omega)) settled.tracks.room
  · right
    rw [looped]
    exact .inl ⟨rfl, unsound⟩
  · right
    rw [looped]
    have enough : group.dmns.length ≤ after.nreported := all ▸ levels_pow suits
    refine .inr ⟨large, ⟨none, messages, finalizeColl group none after⟩, if_pos enough, ?_⟩
    rw [finalizeColl, if_pos called]
    exact ⟨_, mem_cons_self, length⟩

theorem allgather_placed {buffers : Option (List (Option (List Vpid)))}
    (valid : Valid pattern state) (waiting : state.level rank = none) (sent : state.sent rank = 0)
    (buffered : Buffered algorithm group pattern state rank buffers) :
    (∃ outcome final, allgather algorithm group (vpid group rank) { construct with
      buffers, cbfunc := true } = .ok outcome ∧
      Placed algorithm group pattern (state.join rank) final rank outcome) ∨
    Wrong algorithm group pattern
      (allgather algorithm group (vpid group rank) { construct with buffers, cbfunc := true }) := by
  have tracks : Tracks algorithm group pattern (state.join rank) rank 0
      ⟨1, [] ++ [vpid group rank], ((algorithm.maskWords group.dmns.length).map fun words =>
        List.replicate words 0).or none, buffers, true⟩ := by
    refine ⟨rfl, rfl, rfl, fun several => ?_, buffered, fun other less =>
      absurd less (Nat.not_lt_zero _)⟩
    obtain ⟨words, some_words⟩ := Option.isSome_iff_exists.mp (suits.mask several)
    refine ⟨List.replicate words 0, by rw [some_words]; rfl, ?_, fun other _ _ => ?_⟩
    · rw [length_replicate, maskSize, some_words, Option.getD_some]
    · rw [bitAt, getD_eq_getElem?_getD, getElem?_replicate, decide_eq_false (Nat.not_lt_zero _)]
      split <;> simp
  exact processData_placed suits (join_valid valid waiting) (update_self ..) sent tracks

theorem receiveEarly_placed (coll : Coll) (bound : level < pattern.levels)
    (buffered : Buffered algorithm group pattern state rank coll.buffers)
    (keeps : ∀ slots, Buffered algorithm group pattern (state.arrive level rank) rank (some slots) →
      Stands algorithm group pattern (state.arrive level rank) rank
        ⟨some { coll with buffers := some slots }, []⟩) :
    ∃ outcome, receiveEarly algorithm group (2 ^ level) (payload group pattern level rank) coll =
      .ok outcome ∧
      Placed algorithm group pattern (state.arrive level rank) (state.arrive level rank) rank
        outcome := by
  obtain ⟨slots, received, buffered⟩ := receiveEarly_buffered rank state level suits buffered bound
  refine ⟨_, received, .stay _, keeps slots buffered, nodup_nil, fun other => ?_⟩
  constructor
  · exact fun member => absurd member not_mem_nil
  · rintro ⟨_, _, -, flight, notFlight⟩
    exact absurd flight notFlight

theorem recvDist_placed (valid : Valid pattern state) (flight : state.flight level rank)
    (stands : Stands algorithm group pattern state rank daemon) :
    daemon.replies = [] ∧
    ((∃ outcome middle final, recvDist algorithm group (vpid group rank) (2 ^ level)
      (payload group pattern level rank)
        daemon.tracker = .ok outcome ∧ Moves pattern rank (state.arrive level rank) middle ∧
        (∀ other receiver, middle.flight other receiver ↔
          (state.arrive level rank).flight other receiver) ∧
        Placed algorithm group pattern middle final rank outcome) ∨
      Wrong algorithm group pattern (recvDist algorithm group (vpid group rank) (2 ^ level)
        (payload group pattern level rank) daemon.tracker)) := by
  obtain ⟨bound, fresh⟩ := valid.flight_fresh level rank flight
  have arrived := arrive_valid valid flight
  cases stands with
  | idle _ buffers waiting sent tracker replies buffered =>
    refine ⟨replies, .inl ?_⟩
    obtain ⟨outcome, received, placed⟩ := receiveEarly_placed suits daemon.tracker bound
      (by rw [tracker]; exact buffered) fun slots now => by
        rw [tracker]
        exact .idle _ (some slots) waiting sent rfl rfl now
    refine ⟨outcome, _, _, ?_, .stay _, fun _ _ => Iff.rfl, placed⟩
    have noMask : daemon.tracker.distance_mask_recv = none := by rw [tracker]; rfl
    rw [recvDist, noMask]
    exact received
  | working reached coll at_level unfinished sent settled tracks =>
    refine ⟨rfl, ?_⟩
    have notPassed : reached ≤ level := by
      by_contra less
      exact fresh (.inr ⟨reached, at_level, by omega⟩)
    have marked := tracks.mask (by
      have more := (suits.levels reached).mp unfinished
      have positive := Nat.two_pow_pos reached
      omega)
    change (∃ outcome middle final, recvDist algorithm group (vpid group rank)
      (2 ^ level) _ coll = _ ∧ _) ∨
      Wrong algorithm group pattern (recvDist algorithm group (vpid group rank) (2 ^ level) _ coll)
    rcases check_marked marked bound with checked | ⟨checked, noRoom⟩
    · rw [recvDist, checked, ok_bind]
      by_cases here : level = reached
      · subst level
        rw [decide_eq_true (Nat.le_refl _)]
        by_cases room : 2 ^ reached / 32 < maskSize algorithm group
        · obtain ⟨mask, marks, marked⟩ := mark_marked marked room
          have early : (state.arrive reached rank).early reached rank := .inr ⟨rfl, rfl⟩
          -- what arrives is used at once: nothing else waits for this level
          have sameEarly :
              ∀ other, ((state.arrive reached rank).advance reached rank).early other rank ↔
              state.early other rank := by
            intro other
            change (state.early other rank ∨ _) ∧ _ ↔ _
            by_cases here : other = reached
            · subst other
              simpa using settled
            · simp [here]
          have tracksNext :=
            tracks_next tracks marked room (buffered_congr sameEarly tracks.buffers)
          rw [marks]
          rcases processData_placed suits (advance_valid arrived at_level early)
            (update_self ..) sent tracksNext with ⟨outcome, final, processed, placed⟩ | wrong
          · exact .inl ⟨outcome, _, final, processed, .advance _ _ reached at_level early (.stay _),
              fun _ _ => Iff.rfl, placed⟩
          · exact .inr wrong
        · right
          rw [mark_undefined reached _ marked room]
          exact .inl ⟨rfl, fun sound => room (sound.1 reached bound)⟩
      · left
        rw [decide_eq_false (by omega)]
        obtain ⟨outcome, received, placed⟩ := receiveEarly_placed suits coll bound tracks.buffers
          fun slots now => .working reached _ at_level unfinished sent (by
            rintro (early | ⟨same, -⟩)
            · exact settled early
            · exact here same.symm) { tracks with buffers := now }
        exact ⟨outcome, _, _, received, .stay _, fun _ _ => Iff.rfl, placed⟩
    · right
      rw [recvDist, checked]
      exact .inl ⟨rfl, fun sound => noRoom sound.1⟩
  | done at_level => exact absurd (.inr ⟨pattern.levels, at_level, bound⟩) fresh

end Daemon

end Orcm.AllgatherDaemon
