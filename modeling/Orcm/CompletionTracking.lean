import Mathlib.Data.List.Nodup
import Orcm.Scheduler

/-!
The trackers of `scd_base_rm.c` and the completion messages that `orcm_scd_base_rm_recv` counts on
them. A tracker keeps the session identifier as an `int`, the message brings it as an `int64_t`.
-/

namespace Orcm.CompletionTracking

open CLibrary Scheduler

/-- The sessions whose step daemons have been launched. -/
structure ActiveSessions where
  sessions : List Session
  distinct : (sessions.map Session.id).Nodup
  numbered : ∀ session ∈ sessions, session.id < 4294967296 ∧ session.alloc.id = session.id
  sized : ∀ session ∈ sessions, 0 < session.alloc.min_nodes

def completions (messages : List Alloc) (id : Int) : Int := messages.countP (·.id = id)

/-- The trackers after the messages, as they are meant to be: a session is on the list until its
nodes have reported. -/
def trackers (sessions : List Session) (messages : List Alloc) : List Tracker :=
  (sessions.filter fun session => completions messages session.id < session.alloc.min_nodes).map
    fun session => ⟨toInt session.id, completions messages session.id⟩

/-- The step daemons report the allocation they were sent. -/
def Reported (sessions : List Session) (messages : List Alloc) : Prop :=
  ∀ alloc ∈ messages, ∀ session ∈ sessions, alloc.id = session.id → alloc = session.alloc

def terminates (id : Nat) : ScdEvent → Bool
  | .terminated session => session.id = id
  | _ => false

def receive (messages : List Alloc) (s : State) : State :=
  messages.foldl (fun s alloc => stepdComplete alloc s) s

/-- Each session has been reported terminated once if its last node has reported, and not at all
before; its tracker depends on its own completions only. -/
def Tracked (sessions : List Session) (messages : List Alloc) (s after : State) : Prop :=
  after.tracking = trackers sessions messages ∧ ∀ session ∈ sessions,
    after.scd.countP (terminates session.id) =
    s.scd.countP (terminates session.id) + if session.alloc.min_nodes ≤ completions messages
      session.id then 1 else 0

theorem receive_concat :
    receive (messages ++ [alloc]) s = stepdComplete alloc (receive messages s) := by
  simp [receive]

theorem completions_concat {id : Int} :
    completions (messages ++ [alloc]) id = completions messages id + if alloc.id = id then 1
      else 0 := by
  simp [completions]

theorem trackers_cons :
    trackers (session :: rest) messages = if completions messages session.id <
      session.alloc.min_nodes then
      ⟨toInt session.id, completions messages session.id⟩ :: trackers rest messages
        else trackers rest messages := by
  simp only [trackers, List.filter_cons, decide_eq_true_eq]
  split <;> rfl

theorem toInt_small {id : Nat} (small : id < 2147483648) : toInt id = id :=
  toInt_of_nonneg (Int.natCast_nonneg id) (by change (id : Int) ≤ 2147483647; omega)

theorem checkIn_absent (absent : ∀ trk ∈ tracking, trk.alloc_id ≠ alloc.id) :
    checkIn alloc tracking = (tracking, false) := by
  induction tracking with
  | nil => rfl
  | cons trk rest ih =>
    rw [List.forall_mem_cons] at absent
    simp [checkIn, absent.1, ih absent.2]

section Small

variable {sessions : List Session} (small : ∀ session ∈ sessions, session.id < 2147483648)
include small

theorem checkIn_others (messages : List Alloc) {alloc : Alloc}
    (others : ∀ session ∈ sessions, alloc.id ≠ session.id) :
    checkIn alloc (trackers sessions messages) = (trackers sessions messages, false) := by
  apply checkIn_absent
  intro trk member same
  obtain ⟨session, listed, rfl⟩ := List.mem_map.mp member
  have listed := (List.mem_filter.mp listed).1
  rw [toInt_small (small session listed)] at same
  exact others session listed same.symm

/-- One completion, while identifiers fit an `int`: the tracker of its session is advanced or, with
the last node, removed, and the others stay. -/
theorem checkIn_trackers (distinct : (sessions.map Session.id).Nodup) {messages : List Alloc}
    {alloc : Alloc}
    (reported : ∀ session ∈ sessions, alloc.id = session.id → alloc = session.alloc) :
    (checkIn alloc (trackers sessions messages)).1 = trackers sessions (messages ++ [alloc]) ∧
      ((checkIn alloc (trackers sessions messages)).2 = true ↔
        ∃ session ∈ sessions, alloc.id = session.id ∧
          completions messages session.id + 1 = session.alloc.min_nodes) := by
  induction sessions with
  | nil => simp [trackers, checkIn]
  | cons session rest ih =>
    rw [List.map_cons, List.nodup_cons] at distinct
    rw [List.forall_mem_cons] at small reported
    have ih := ih small.2 distinct.2 reported.2
    rw [trackers_cons, trackers_cons, completions_concat, toInt_small small.1]
    by_cases own : alloc.id = session.id
    · -- identifiers are distinct, so the rest of the list does not know this one
      have others : ∀ other ∈ rest, alloc.id ≠ other.id := by
        intro other member same
        have : other.id = session.id := by omega
        exact distinct.1 (this ▸ List.mem_map_of_mem member)
      have absent := checkIn_others small.2 messages others
      have whole := reported.1 own
      split
      · simp only [checkIn, whole]
        split <;> grind
      · rw [absent]
        grind
    · have different : (session.id : Int) ≠ alloc.id := fun same => own same.symm
      split <;> simp_all [checkIn]

theorem receive_tracked (distinct : (sessions.map Session.id).Nodup) {messages : List Alloc}
    (fresh : Tracked sessions [] s s) (reported : Reported sessions messages) :
    Tracked sessions messages s (receive messages s) := by
  induction messages using List.reverseRecOn with
  | nil => exact fresh
  | append_singleton messages alloc ih =>
    have own := reported alloc (by simp)
    obtain ⟨tracking, counted⟩ := ih fun other member => reported other (by simp [member])
    obtain ⟨step, last⟩ := checkIn_trackers small distinct own
    rw [receive_concat]
    unfold stepdComplete
    rw [tracking]
    refine ⟨?_, fun session member => ?_⟩
    · rw [← step]
      dsimp only
      split <;> rfl
    · have before := counted session member
      rw [completions_concat]
      dsimp only
      split
      next all =>
        obtain ⟨session', member', same, reached⟩ := last.mp all
        rw [activateScd]
        by_cases equal : alloc.id = session.id
        · have : session'.alloc = session.alloc :=
            (own session' member' same).symm.trans (own session member equal)
          grind [terminates]
        · grind [terminates]
      next all =>
        by_cases equal : alloc.id = session.id
        · have : completions messages session.id + 1 ≠ session.alloc.min_nodes := by
            intro reached
            exact all (last.mpr ⟨session, member, equal, reached⟩)
          grind
        · grind

end Small

theorem trackers_nil (sized : ∀ session ∈ sessions, 0 < session.alloc.min_nodes) :
    trackers sessions [] = sessions.map fun session => ⟨toInt session.id, 0⟩ := by
  rw [trackers,
    List.filter_eq_self.mpr fun session member => by simpa [completions] using sized session member]
  rfl

theorem receive_absent (absent : ∀ trk ∈ s.tracking, trk.alloc_id ≠ alloc.id) (count : Nat) :
    receive (List.replicate count alloc) s = s := by
  have one : stepdComplete alloc s = s := by simp [stepdComplete, checkIn_absent absent]
  induction count with
  | zero => rfl
  | succ count ih => rw [List.replicate_succ', receive_concat, ih, one]

/-- Whatever messages come in, in whatever order, sessions are tracked as long as no identifier is
too large for the `int` of its tracker. -/
theorem completions_tracked_iff (active : ActiveSessions) :
    (∀ s messages, s.tracking = active.sessions.map (fun session => ⟨toInt session.id, 0⟩) →
        Reported active.sessions messages →
          Tracked active.sessions messages s (receive messages s)) ↔
      ∀ session ∈ active.sessions, session.id < 2147483648 := by
  constructor
  · intro tracked session member
    by_contra large
    obtain ⟨bound, named⟩ := active.numbered session member
    have sized := active.sized session member
    let s : State :=
      { start [] with tracking := active.sessions.map fun session => ⟨toInt session.id, 0⟩ }
    have reported :
        Reported active.sessions (List.replicate session.alloc.min_nodes.toNat session.alloc) := by
      intro alloc sent other listed same
      rw [List.eq_of_mem_replicate sent] at same ⊢
      have : session.id = other.id := by omega
      rw [List.inj_on_of_nodup_map active.distinct member listed this]
    -- the tracker's identifier is negative or belongs to another session: it never matches
    have absent : ∀ trk ∈ s.tracking, trk.alloc_id ≠ session.alloc.id := by
      intro trk listed same
      obtain ⟨other, -, rfl⟩ := List.mem_map.mp listed
      have high : toInt other.id ≤ 2147483647 := (toInt_bounds other.id).2
      dsimp only at same
      omega
    have counted := (tracked s _ rfl reported).2 session member
    have reached :
        completions (List.replicate session.alloc.min_nodes.toNat session.alloc) session.id =
        session.alloc.min_nodes := by
      simp only [completions, List.countP_replicate, named, decide_true, ↓reduceIte]
      omega
    rw [receive_absent absent, reached, if_pos le_rfl] at counted
    omega
  · intro small s messages fresh reported
    apply receive_tracked small active.distinct _ reported
    refine ⟨fresh.trans (trackers_nil active.sized).symm, fun session member => ?_⟩
    have := active.sized session member
    simp [completions, this]

def twoActive : ActiveSessions where
  sessions := [⟨1, ⟨1, 2, none⟩⟩, ⟨2, ⟨2, 1, none⟩⟩]
  distinct := by decide
  numbered := by decide
  sized := by decide

/-- The nodes of two sessions report in turn; both sessions end. -/
theorem completions_tracked_two :
    let s : State := { start [] with tracking := [⟨1, 0⟩, ⟨2, 0⟩] }
    Tracked twoActive.sessions [⟨1, 2, none⟩, ⟨2, 1, none⟩, ⟨1, 2, none⟩] s
      (receive [⟨1, 2, none⟩, ⟨2, 1, none⟩, ⟨1, 2, none⟩] s) := by
  apply (completions_tracked_iff twoActive).mpr (by decide) _ _ rfl
  intro alloc sent session listed same
  revert session alloc
  decide

/-- The session after the first 2^31 - 1 ones never ends, though its only node has reported. -/
theorem large_session_never_terminates :
    let session : Session := ⟨2147483648, ⟨2147483648, 1, none⟩⟩
    let s : State := { start [] with tracking := [⟨toInt session.id, 0⟩] }
    (receive [session.alloc] s).scd = [] ∧
      (receive [session.alloc] s).tracking = [⟨-2147483648, 0⟩] ∧
      ¬Tracked [session] [session.alloc] s (receive [session.alloc] s) := by
  refine ⟨by decide, by decide, ?_⟩
  rintro ⟨-, counted⟩
  exact absurd (counted _ (List.mem_singleton_self _)) (by decide)

end Orcm.CompletionTracking
