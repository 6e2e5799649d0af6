import Mathlib.Data.List.Nodup
import Mathlib.Data.List.Pairwise
import Mathlib.Data.List.Perm.Subperm
import Orcm.DssTypes
import Orcm.TransitionSystem

/-!
Posted receives and held messages of `orte/mca/rml/base/rml_base_msg_handlers.c`. Requests and
messages are events, which run in any order. Messages and receives carry a number of their own, in
place of their addresses.
-/

namespace Orcm.ReceiveMatching

open DssTypes TransitionSystem List

/-- `ORTE_JOBID_WILDCARD` and `ORTE_VPID_WILDCARD`. -/
def wildcard : Word .four := 4294967294

/-- `orte_util_compare_name_fields` with all fields and wildcards. -/
def sameName (name1 name2 : ProcessName) : Bool :=
  (name1.jobid == wildcard || name2.jobid == wildcard || name1.jobid == name2.jobid) &&
    (name1.vpid == wildcard || name2.vpid == wildcard || name1.vpid == name2.vpid)

/-- Messages come from processes, whose names have no wildcard. -/
structure Msg where
  id : Nat
  sender : ProcessName
  tag : Word .four
  exact : sender.jobid ≠ wildcard ∧ sender.vpid ≠ wildcard
  deriving DecidableEq

structure PostedRecv where
  id : Nat
  peer : ProcessName
  tag : Word .four
  persistent : Bool
  deriving DecidableEq

def Msg.matches (msg : Msg) (post : PostedRecv) : Bool :=
  sameName msg.sender post.peer && msg.tag == post.tag

def PostedRecv.overlaps (post recv : PostedRecv) : Bool :=
  sameName post.peer recv.peer && post.tag == recv.tag

inductive Event where
  | post (post : PostedRecv)
  | cancel (peer : ProcessName) (tag : Word .four)
  | processMsg (msg : Msg)
  | reprocessMsg (msg : Msg)
  deriving DecidableEq

structure Rml where
  /-- The number of the next message or receive. -/
  next : Nat
  events : List Event
  posted_recvs : List PostedRecv
  unmatched_msgs : List Msg
  /-- The messages that a channel keeps for itself. -/
  kept : List Msg
  handed : List (Msg × PostedRecv)

def completeRecvMsg (rml : Rml) (msg : Msg) : Rml :=
  match rml.posted_recvs.find? msg.matches with
  | some post =>
    { rml with
      handed := rml.handed ++ [(msg, post)]
      posted_recvs := if post.persistent then rml.posted_recvs else rml.posted_recvs.erase post }
  | none => { rml with unmatched_msgs := rml.unmatched_msgs ++ [msg] }

/-- The held messages that are activated for a receive, and those that stay. -/
def msgMatchRecv (rcv : PostedRecv) (get_all : Bool) : List Msg → List Msg × List Msg
  | [] => ([], [])
  | msg :: rest =>
    if msg.matches rcv then
      if get_all then (msg :: (msgMatchRecv rcv get_all rest).1, (msgMatchRecv rcv get_all rest).2)
      else ([msg], rest)
    else ((msgMatchRecv rcv get_all rest).1, msg :: (msgMatchRecv rcv get_all rest).2)

/-- Two receives for the same peer and tag abort the process. -/
def postRecv (rml : Rml) (post : PostedRecv) : Option Rml :=
  if rml.posted_recvs.any post.overlaps then none
  else
    let matched := msgMatchRecv post post.persistent rml.unmatched_msgs
    some { rml with
      posted_recvs := rml.posted_recvs ++ [post]
      unmatched_msgs := matched.2
      events := rml.events ++ matched.1.map .reprocessMsg }

/-- A channel that reports an error for a message keeps it or drops it. -/
def runEvent (rml : Rml) (channelFails : Bool) : Event → Option Rml
  | .post post => postRecv rml post
  | .cancel peer tag =>
    some { rml with posted_recvs := rml.posted_recvs.eraseP fun recv => sameName peer recv.peer &&
                      tag == recv.tag }
  | .processMsg msg =>
    some (if channelFails then { rml with kept := rml.kept ++ [msg] } else completeRecvMsg rml msg)
  | .reprocessMsg msg => some (completeRecvMsg rml msg)

inductive Label where
  | recvNb (peer : ProcessName) (tag : Word .four) (persistent : Bool)
  | recvCancel (peer : ProcessName) (tag : Word .four)
  | arrive (sender : ProcessName) (tag : Word .four) (exact : sender.jobid ≠ wildcard ∧
      sender.vpid ≠ wildcard)
  | run (index : Nat) (channelFails : Bool)
  /-- A channel hands over a message that it has kept. -/
  | complete (index : Nat)

def receives : System Rml Label where
  initial rml := rml = ⟨0, [], [], [], [], []⟩
  step rml
    | .recvNb peer tag persistent =>
      some { rml with
        next := rml.next + 1, events := rml.events ++ [.post ⟨rml.next, peer, tag, persistent⟩] }
    | .recvCancel peer tag => some { rml with events := rml.events ++ [.cancel peer tag] }
    | .arrive sender tag exact =>
      some { rml with
        next := rml.next + 1, events := rml.events ++ [.processMsg ⟨rml.next, sender, tag, exact⟩] }
    | .run index channelFails =>
      rml.events[index]?.bind
        (runEvent { rml with events := rml.events.eraseIdx index } channelFails)
    | .complete index =>
      rml.kept[index]?.map (completeRecvMsg { rml with kept := rml.kept.eraseIdx index })

/-! A message matches one of the posted receives at most. -/

theorem overlaps_of_matches {msg : Msg} (first : msg.matches post = true)
    (second : msg.matches recv = true) : post.overlaps recv = true := by
  obtain ⟨job, process⟩ := msg.exact
  simp only [Msg.matches, PostedRecv.overlaps, sameName] at first second ⊢
  grind

def Apart (post recv : PostedRecv) : Prop := post.overlaps recv = false

instance : Std.Symm Apart where
  symm post recv apart := by
    simp only [Apart, PostedRecv.overlaps, sameName] at apart ⊢
    grind

theorem msgMatchRecv_perm (rcv : PostedRecv) (get_all : Bool) (msgs : List Msg) :
    ((msgMatchRecv rcv get_all msgs).1 ++ (msgMatchRecv rcv get_all msgs).2).Perm msgs := by
  induction msgs with
  | nil => exact .nil
  | cons msg rest ih =>
    rw [msgMatchRecv]
    split
    · split
      · exact ih.cons msg
      · exact .refl _
    · exact List.perm_middle.trans (ih.cons msg)

theorem msgMatchRecv_stays (stays : msg ∈ (msgMatchRecv rcv get_all msgs).2)
    (fits : msg.matches rcv = true) :
    get_all = false ∧ ∃ other ∈ (msgMatchRecv rcv get_all msgs).1, other.matches rcv = true := by
  induction msgs with
  | nil => cases stays
  | cons first rest ih =>
    rw [msgMatchRecv] at stays ⊢
    by_cases here : first.matches rcv = true
    · simp only [if_pos here] at stays ⊢
      cases get_all with
      | true => exact absurd (ih stays).1 (by decide)
      | false => exact ⟨rfl, first, mem_cons_self, here⟩
    · simp only [if_neg here] at stays ⊢
      refine ih ((List.mem_cons.mp stays).resolve_left fun same => here (same ▸ fits))

def Event.msg? : Event → Option Msg
  | .processMsg msg | .reprocessMsg msg => some msg
  | _ => none

def Event.post? : Event → Option PostedRecv
  | .post recv => some recv
  | _ => none

def Rml.msgs (rml : Rml) : List Msg :=
  rml.events.filterMap Event.msg? ++ (rml.unmatched_msgs ++ (rml.kept ++ rml.handed.map Prod.fst))

/-- The receives that have not got their message, and those that are not persistent and have. -/
def Rml.recvs (rml : Rml) : List PostedRecv :=
  rml.events.filterMap Event.post? ++
    (rml.posted_recvs ++ (rml.handed.map Prod.snd).filter fun post => !post.persistent)

/-- Every message and every receive is at one place, while `taken` and `request` are on their way to
another. -/
structure Placed (rml : Rml) (taken : List Msg) (request : List PostedRecv) : Prop where
  msgs : ((taken ++ rml.msgs).map Msg.id).Nodup
  msgs_lt : ∀ msg ∈ taken ++ rml.msgs, msg.id < rml.next
  recvs : ((request ++ rml.recvs).map PostedRecv.id).Nodup
  recvs_lt : ∀ post ∈ request ++ rml.recvs, post.id < rml.next

/-- A held message that matches a posted receive waits for another message to be processed again,
which matches it too. -/
structure Served (rml : Rml) (again : List Msg) : Prop where
  apart : rml.posted_recvs.Pairwise Apart
  fits : ∀ entry ∈ rml.handed, entry.1.matches entry.2 = true
  pending : ∀ msg ∈ rml.unmatched_msgs, ∀ post ∈ rml.posted_recvs, msg.matches post = true →
    post.persistent = false ∧ ∃ other, (.reprocessMsg other ∈ rml.events ∨ other ∈ again) ∧
      other.matches post = true

variable {rml after : Rml} {taken again : List Msg} {request : List PostedRecv} {msg : Msg}
    {post recv : PostedRecv}

theorem Placed.posted_nodup (placed : Placed rml taken request) : rml.posted_recvs.Nodup := by
  have inside : rml.posted_recvs.Sublist (request ++ rml.recvs) :=
    ((sublist_append_left _ _).trans (sublist_append_right _ _)).trans (sublist_append_right _ _)
  exact List.Nodup.of_map _ (placed.recvs.sublist (inside.map _))

theorem Placed.move (placed : Placed rml taken request)
    (msgs : (now ++ after.msgs).Perm (taken ++ rml.msgs))
    (recvs : (still ++ after.recvs).Subperm (request ++ rml.recvs))
    (next : after.next = rml.next) : Placed after now still where
  msgs := (msgs.map _).nodup_iff.mpr placed.msgs
  msgs_lt msg member := next ▸ placed.msgs_lt msg (msgs.mem_iff.mp member)
  recvs := by
    obtain ⟨list, same, part⟩ := recvs
    exact (same.map _).nodup (placed.recvs.sublist (part.map _))
  recvs_lt post member := next ▸ placed.recvs_lt post (recvs.subset member)

variable {rest : List Event}

theorem Placed.take (placed : Placed rml [] []) (runs : rml.events.Perm (event :: rest)) :
    Placed { rml with events := rest } event.msg?.toList event.post?.toList := by
  refine placed.move ?_ (List.Perm.subperm ?_) rfl
  · have split :=
      (runs.filterMap Event.msg?).append_right
        (rml.unmatched_msgs ++ (rml.kept ++ rml.handed.map Prod.fst))
    refine List.Perm.trans (.of_eq ?_) split.symm
    cases event <;> rfl
  · have split := (runs.filterMap Event.post?).append_right
      (rml.posted_recvs ++ (rml.handed.map Prod.snd).filter fun post => !post.persistent)
    refine List.Perm.trans (.of_eq ?_) split.symm
    cases event <;> rfl

theorem Served.unique (served : Served rml again) (posted : post ∈ rml.posted_recvs)
    (also : recv ∈ rml.posted_recvs)
    (first : msg.matches post = true) (second : msg.matches recv = true) : post = recv := by
  by_contra different
  have apart : Apart post recv := served.apart.forall posted also different
  rw [Apart, overlaps_of_matches first second] at apart
  cases apart

theorem posted_sublist (rml : Rml) (post : PostedRecv) :
    (if post.persistent then rml.posted_recvs else rml.posted_recvs.erase post).Sublist
      rml.posted_recvs := by
  split
  · exact .refl _
  · exact erase_sublist

theorem completeRecvMsg_placed (placed : Placed rml [msg] []) :
    Placed (completeRecvMsg rml msg) [] [] := by
  rw [completeRecvMsg]
  split
  · rename_i post found
    refine placed.move ?_ (List.Perm.subperm ?_) rfl
    · simp only [Rml.msgs, map_append, nil_append, ← append_assoc]
      exact perm_append_singleton ..
    · simp only [Rml.recvs, nil_append, map_append, filter_append]
      refine List.Perm.append_left _ ?_
      by_cases persistent : post.persistent = true
      · simp [persistent]
      · have moved : (post :: rml.posted_recvs.erase post).Perm rml.posted_recvs :=
          (perm_cons_erase (mem_of_find?_eq_some found)).symm
        refine List.Perm.trans ?_ (moved.append_right _)
        simp [persistent, ← append_assoc]
  · refine placed.move ?_ (.refl _) rfl
    simp only [Rml.msgs, append_assoc, nil_append, singleton_append]
    rw [← append_assoc, ← append_assoc]
    exact perm_middle

theorem completeRecvMsg_served (nodup : rml.posted_recvs.Nodup) (served : Served rml [msg]) :
    Served (completeRecvMsg rml msg) [] := by
  rw [completeRecvMsg]
  split
  · rename_i post found
    have posted := mem_of_find?_eq_some found
    have fits : msg.matches post = true := find?_some found
    have fewer := posted_sublist rml post
    refine ⟨served.apart.sublist fewer, fun entry member => ?_,
      fun held member recv stays same => ?_⟩
    · rcases List.mem_append.mp member with before | now
      · exact served.fits entry before
      · cases List.mem_singleton.mp now
        exact fits
    · obtain ⟨single, other, there, matching⟩ :=
        served.pending held member recv (fewer.subset stays) same
      refine ⟨single, other, .inl (there.resolve_right fun this => ?_), matching⟩
      -- the receive that was waited for is the one that has got the message, and it is gone
      obtain rfl := List.mem_singleton.mp this
      obtain rfl := served.unique (fewer.subset stays) posted matching fits
      simp only [single] at stays
      exact nodup.not_mem_erase stays
  · rename_i nobody
    have none : ∀ post ∈ rml.posted_recvs, msg.matches post ≠ true := List.find?_eq_none.mp nobody
    refine ⟨served.apart, served.fits, fun held member post posted same => ?_⟩
    rcases List.mem_append.mp member with before | now
    · obtain ⟨single, other, there, matching⟩ := served.pending held before post posted same
      refine ⟨single, other, .inl (there.resolve_right fun this => ?_), matching⟩
      exact none post posted (List.mem_singleton.mp this ▸ matching)
    · exact absurd (List.mem_singleton.mp now ▸ same) (none post posted)

theorem postRecv_placed (placed : Placed rml [] [post]) (posts : postRecv rml post = some after) :
    Placed after [] [] := by
  simp only [postRecv, Option.ite_none_left_eq_some, Option.some.injEq] at posts
  obtain ⟨_, rfl⟩ := posts
  refine placed.move ?_ (List.Perm.subperm ?_) rfl
  · simp only [Rml.msgs, filterMap_append, nil_append, append_assoc]
    refine List.Perm.append_left _ ?_
    rw [← append_assoc]
    refine List.Perm.append_right _ (List.Perm.trans (.of_eq ?_)
      (msgMatchRecv_perm post post.persistent _))
    simp [Function.comp_def, Event.msg?]
  · simp only [Rml.recvs, filterMap_append, nil_append, append_assoc, singleton_append]
    rw [← append_assoc, ← append_assoc]
    refine List.perm_middle.trans (.of_eq ?_)
    simp [Event.post?]

theorem postRecv_served (served : Served rml []) (posts : postRecv rml post = some after) :
    Served after [] := by
  simp only [postRecv, Option.ite_none_left_eq_some, Option.some.injEq] at posts
  obtain ⟨alone, rfl⟩ := posts
  have apart : ∀ recv ∈ rml.posted_recvs, Apart recv post := fun recv member =>
    Std.Symm.symm _ _ (Bool.eq_false_iff.mpr fun overlap =>
      alone (List.any_eq_true.mpr ⟨recv, member, overlap⟩))
  refine ⟨List.pairwise_append.mpr ⟨served.apart, pairwise_singleton ..,
    fun recv member this same => List.mem_singleton.mp same ▸ apart recv member⟩, served.fits,
      fun msg member recv posted same => ?_⟩
  rcases List.mem_append.mp posted with before | now
  · have held :=
      (msgMatchRecv_perm post post.persistent rml.unmatched_msgs).subset (mem_append_right _ member)
    obtain ⟨single, other, there, matching⟩ := served.pending msg held recv before same
    exact ⟨single, other, .inl (mem_append_left _ (there.resolve_right not_mem_nil)), matching⟩
  · obtain rfl := List.mem_singleton.mp now
    obtain ⟨single, other, activated, matching⟩ := msgMatchRecv_stays member same
    exact ⟨single, other, .inl (mem_append_right _ (mem_map_of_mem activated)), matching⟩

theorem nodup_fresh {next : Nat} {ids : List Nat} (single : fresh.Sublist [next])
    (nodup : ids.Nodup) (below : ∀ id ∈ ids, id < next) : (fresh ++ ids).Nodup :=
  (List.nodup_cons.mpr ⟨fun member => Nat.lt_irrefl _ (below next member), nodup⟩).sublist
    (single.append (.refl _))

theorem Placed.grow {fresh : List Msg} {asked : List PostedRecv} (placed : Placed rml [] [])
    (msgs : after.msgs.Perm (fresh ++ rml.msgs)) (recvs : after.recvs.Perm (asked ++ rml.recvs))
    (msg_id : (fresh.map Msg.id).Sublist [rml.next])
    (post_id : (asked.map PostedRecv.id).Sublist [rml.next])
    (next : after.next = rml.next + 1) : Placed after [] [] := by
  have msgs_lt : ∀ id ∈ rml.msgs.map Msg.id, id < rml.next := List.forall_mem_map.mpr placed.msgs_lt
  have recvs_lt : ∀ id ∈ rml.recvs.map PostedRecv.id, id < rml.next :=
    List.forall_mem_map.mpr placed.recvs_lt
  refine ⟨(msgs.map _).nodup_iff.mpr ?_, fun msg member => ?_, (recvs.map _).nodup_iff.mpr ?_,
    fun post member => ?_⟩
  · rw [map_append]
    exact nodup_fresh msg_id placed.msgs msgs_lt
  · rw [next]
    rcases List.mem_append.mp (msgs.mem_iff.mp member) with new | old
    · have this := List.mem_singleton.mp (msg_id.subset (mem_map_of_mem new))
      omega
    · exact Nat.lt_succ_of_lt (placed.msgs_lt msg old)
  · rw [map_append]
    exact nodup_fresh post_id placed.recvs recvs_lt
  · rw [next]
    rcases List.mem_append.mp (recvs.mem_iff.mp member) with new | old
    · have this := List.mem_singleton.mp (post_id.subset (mem_map_of_mem new))
      omega
    · exact Nat.lt_succ_of_lt (placed.recvs_lt post old)

theorem Served.take (served : Served rml []) (runs : rml.events.Perm (event :: rest))
    (awaited : ∀ msg, event = .reprocessMsg msg → msg ∈ again) :
    Served { rml with events := rest } again := by
  refine ⟨served.apart, served.fits, fun msg member post posted same => ?_⟩
  obtain ⟨single, other, there, matching⟩ := served.pending msg member post posted same
  refine ⟨single, other, ?_, matching⟩
  rcases List.mem_cons.mp (runs.mem_iff.mp (there.resolve_right not_mem_nil)) with now | later
  · exact .inr (awaited other now.symm)
  · exact .inl later

theorem Served.later {next : Nat} (served : Served rml []) :
    Served { rml with next, events := rml.events ++ events } [] := by
  refine ⟨served.apart, served.fits, fun msg member post posted same => ?_⟩
  obtain ⟨single, other, there, matching⟩ := served.pending msg member post posted same
  exact ⟨single, other, there.imp_left (mem_append_left _), matching⟩

def Sound (rml : Rml) : Prop := Placed rml [] [] ∧ Served rml []

theorem runEvent_sound (sound : Sound rml) (runs : rml.events.Perm (event :: rest))
    (steps : runEvent { rml with events := rest } channelFails event = some after) :
    Sound after := by
  obtain ⟨placed, served⟩ := sound
  replace placed := placed.take runs
  cases event with
  | post =>
    have served : Served { rml with events := rest } [] := served.take runs (by simp)
    exact ⟨postRecv_placed placed steps, postRecv_served served steps⟩
  | cancel peer tag =>
    have served : Served { rml with events := rest } [] := served.take runs (by simp)
    cases steps
    have fewer :
        (rml.posted_recvs.eraseP fun recv => sameName peer recv.peer && tag == recv.tag).Sublist
      rml.posted_recvs := eraseP_sublist
    refine ⟨placed.move (.refl _) (List.Sublist.subperm ?_) rfl, served.apart.sublist fewer,
      served.fits,
      fun msg member post posted same => served.pending msg member post (fewer.subset posted) same⟩
    exact (List.Sublist.refl _).append ((List.Sublist.refl _).append (fewer.append (.refl _)))
  | processMsg msg =>
    cases steps
    cases channelFails with
    | true =>
      have served : Served { rml with events := rest } [] := served.take runs (by simp)
      refine ⟨placed.move ?_ (.refl _) rfl, served.apart, served.fits, served.pending⟩
      simp only [if_true, Rml.msgs, Event.msg?, Option.toList_some, append_assoc, nil_append,
        singleton_append]
      rw [← append_assoc, ← append_assoc, ← append_assoc, ← append_assoc]
      exact perm_middle
    | false =>
      exact ⟨completeRecvMsg_placed placed, completeRecvMsg_served placed.posted_nodup
        (served.take runs (by simp))⟩
  | reprocessMsg =>
    cases steps
    exact ⟨completeRecvMsg_placed placed, completeRecvMsg_served placed.posted_nodup
      (served.take runs (by simp))⟩

theorem step_sound (sound : Sound rml) (steps : receives.step rml label = some after) :
    Sound after := by
  obtain ⟨placed, served⟩ := sound
  cases label with
  | recvNb peer tag persistent =>
    cases steps
    refine ⟨@Placed.grow _ _ [] [⟨rml.next, peer, tag, persistent⟩] placed ?_ ?_ (nil_sublist _)
      (.refl _) rfl, served.later⟩
    · simp [Rml.msgs, filterMap_cons, Event.msg?]
    · simp only [Rml.recvs, filterMap_append, append_assoc]
      exact perm_middle
  | recvCancel =>
    cases steps
    refine ⟨placed.move (.of_eq ?_) (List.Perm.subperm (.of_eq ?_)) rfl, served.later⟩
    · simp [Rml.msgs, Event.msg?]
    · simp [Rml.recvs, Event.post?]
  | arrive sender tag exact =>
    cases steps
    refine ⟨@Placed.grow _ _ [⟨rml.next, sender, tag, exact⟩] [] placed ?_ ?_ (.refl _)
      (nil_sublist _) rfl, served.later⟩
    · simp only [Rml.msgs, filterMap_append, append_assoc]
      exact perm_middle
    · simp [Rml.recvs, filterMap_cons, Event.post?]
  | run =>
    obtain ⟨event, there, runs⟩ := Option.bind_eq_some_iff.mp steps
    obtain ⟨inside, rfl⟩ := List.getElem?_eq_some_iff.mp there
    exact runEvent_sound ⟨placed, served⟩ (getElem_cons_eraseIdx_perm inside).symm runs
  | complete index =>
    obtain ⟨msg, there, rfl⟩ := Option.map_eq_some_iff.mp steps
    obtain ⟨inside, rfl⟩ := List.getElem?_eq_some_iff.mp there
    have out : Placed { rml with kept := rml.kept.eraseIdx index } [rml.kept[index]] [] := by
      refine placed.move ?_ (.refl _) rfl
      have split :=
        ((getElem_cons_eraseIdx_perm inside).append_right (rml.handed.map Prod.fst)).append_left
        (rml.events.filterMap Event.msg? ++ rml.unmatched_msgs)
      simp only [Rml.msgs, ← append_assoc] at split ⊢
      exact (List.perm_middle.symm.append_right _).trans split
    refine ⟨completeRecvMsg_placed out, completeRecvMsg_served out.posted_nodup ?_⟩
    refine ⟨served.apart, served.fits, fun msg member post posted same => ?_⟩
    obtain ⟨single, other, there, matching⟩ := served.pending msg member post posted same
    exact ⟨single, other, .inl (there.resolve_right not_mem_nil), matching⟩

/-- Every message is handed over once at most and to a receive that matches it, a receive that is
not persistent gets one message at most, and when no event is pending no held message matches a
posted receive. -/
theorem receives_match (rml : Rml) (reached : Reachable receives rml) :
    (rml.handed.map fun entry => entry.1.id).Nodup ∧
      (∀ entry ∈ rml.handed, entry.1.matches entry.2 = true) ∧
      ((rml.handed.filter fun entry => !entry.2.persistent).map fun entry => entry.2.id).Nodup ∧
      (rml.events = [] → ∀ msg ∈ rml.unmatched_msgs, ∀ post ∈ rml.posted_recvs,
        msg.matches post = false) := by
  have sound : Sound rml := reached.invariant Sound
    (by
      rintro rml rfl
      exact ⟨⟨by simp [Rml.msgs], by simp [Rml.msgs], by simp [Rml.recvs], by simp [Rml.recvs]⟩,
        .nil, by simp, by simp⟩)
    (fun rml label next holds _ steps => step_sound holds steps) rml
  obtain ⟨placed, served⟩ := sound
  refine ⟨?_, served.fits, ?_, fun idle msg member post posted => ?_⟩
  · have inside : (rml.handed.map Prod.fst).Sublist rml.msgs :=
      ((List.sublist_append_right _ _).trans (List.sublist_append_right _ _)).trans
        (List.sublist_append_right _ _)
    simpa [Function.comp_def] using placed.msgs.sublist (inside.map Msg.id)
  · have inside :
        ((rml.handed.map Prod.snd).filter fun post => !post.persistent).Sublist rml.recvs :=
      (List.sublist_append_right _ _).trans (List.sublist_append_right _ _)
    simpa [List.filter_map, Function.comp_def] using placed.recvs.sublist (inside.map PostedRecv.id)
  · by_contra same
    obtain ⟨_, other, there, _⟩ :=
      served.pending msg member post posted (Bool.not_eq_false _ ▸ same)
    simp [idle] at there

/-- Two messages are held. A receive that is not persistent activates the first one, but a third
message comes before it. -/
theorem receives_match_overtaken : ∃ rml, Reachable receives rml ∧
    rml.handed.map (fun entry => (entry.1.id, entry.2.id)) = [(3, 2)] ∧
    rml.unmatched_msgs.map Msg.id = [1, 0] ∧ (rml.handed.map fun entry => entry.1.id).Nodup := by
  obtain ⟨rml, reached, seen⟩ := reached_seen receives (fun _ _ => true) _
    [.arrive ⟨1, 5⟩ 7 (by decide), .arrive ⟨1, 6⟩ 7 (by decide), .run 0 false, .run 0 false,
      .recvNb ⟨1, wildcard⟩ 7 false, .run 0 false, .arrive ⟨1, 5⟩ 7 (by decide), .run 1 false,
        .run 0 false]
    (fun rml => (rml.handed.map fun entry => (entry.1.id, entry.2.id),
      rml.unmatched_msgs.map Msg.id)) ([(3, 2)], [1, 0]) rfl
    (by decide +kernel)
  have reachable := reachable_of_reached reached
  obtain ⟨handed, held⟩ := Prod.mk.inj seen
  exact ⟨rml, reachable, handed, held, (receives_match rml reachable).1⟩

end Orcm.ReceiveMatching
