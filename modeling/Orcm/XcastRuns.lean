import Mathlib.Algebra.Order.BigOperators.Group.List
import Mathlib.Data.List.Perm.Subperm
import Orcm.CentralViews
import Orcm.TreeBroadcast
import Orcm.Xcast

/-!
The runs of the broadcast. The channels down the tree carry what the parents have handed over and
their children have not. The order in which the head node takes the messages is the order
everywhere.
-/

namespace Orcm.XcastRuns

open CentralAllgather (Signature createDmns)
open TransitionSystem ParentTree TreeBroadcast Routed Xcast List Function

variable {Data : Type} (site : Site)

structure Entry (Data : Type) where
  sig : Signature
  tag : BitVec 32
  items : List (Item Data)

def Entry.frame (entry : Entry Data) : List (Item Data) :=
  .signature entry.sig :: .tag entry.tag :: entry.items

def Entry.delivery (entry : Entry Data) : Delivery Data := ⟨entry.tag, entry.items⟩

/-- A message to the daemons starts with a command, and nothing follows one that is about processes
to be added. -/
def commanded : List (Item Data) → Bool
  | .command command :: rest => command ≠ 4 || rest.isEmpty
  | _ => false

/-- The tags under which a message can be handed over as it is. -/
def plain (tag : BitVec 32) (items : List (Item Data)) : Bool :=
  tag ≠ 0 && tag ≠ 15 && (tag ≠ 1 || commanded items)

/-- A buffer of another type is not copied. -/
def copied : Option (Payload Data) → Bool
  | none => true
  | some payload => payload.type = .fullyDesc || payload.items.isEmpty

/-- The head node routes, every signature has a name or stands for all daemons, every payload can be
copied, and every message is handed over as it is. -/
def allowed (_ : Network Data) : Event Data → Bool
  | .xcast _ sig tag msg =>
    sig.names ≠ some [] && copied msg && plain tag ((msg.map Payload.items).getD [])
  | .deliver _ _ => true
  | .orderAbnormalTerm => false
  | .enableRouting enabled => enabled

theorem packXcast_copied (whole : copied msg = true) :
    packXcast sig tag msg = Entry.frame ⟨sig, tag, (msg.map Payload.items).getD []⟩ := by
  cases msg with
  | none => rfl
  | some payload =>
    rw [packXcast, copyPayload]
    by_cases described : payload.type = .fullyDesc
    · rw [if_pos described]
      rfl
    · have empty : payload.items = [] := by simpa [copied, described] using whole
      rw [if_neg described]
      simp only [Option.map_some, empty]
      rfl

def parent (vpid : Nat) : Nat := (site.plan vpid).parent

def children (vpid : Nat) : List Nat := (site.plan vpid).children.map Child.vpid

variable {site}

theorem tree : SpanningTree (· < site.num_procs) 0 (parent site) (children site) :=
  (RadixRoutes.exactPlans_of_computed site.some site.planned).tree

variable {source me target : Nat}

theorem recipients_children (member : me < site.num_procs) :
    aliveRecipients site me (xcastRouting site false me) = children site me := by
  have routed : xcastRouting site false me = children site me :=
    if_neg fun direct => Bool.noConfusion direct.2
  rw [routed]
  apply List.filter_eq_self.mpr
  intro daemon listed
  obtain ⟨state, running, found⟩ :=
    site.running me member daemon (tree.child me member daemon listed).1
  rw [found, Option.any_some, decide_eq_true_eq]
  omega

theorem xcastRecv_plain (member : me < site.num_procs) {entry : Entry Data}
    (handed : plain entry.tag entry.items = true) :
    xcastRecv site false me entry.frame = .ok ⟨children site me, entry.frame, entry.delivery⟩ := by
  obtain ⟨sig, tag, items⟩ := entry
  simp only [xcastRecv, Entry.frame, recipients_children member]
  by_cases daemons : tag = 1
  · rw [if_pos daemons]
    have starts : commanded items = true := by
      simpa [plain, daemons] using handed
    cases items with
    | nil => cases starts
    | cons first rest =>
      cases first with
      | command command =>
        by_cases adds : command = 4
        · have alone : rest = [] := by simpa [commanded, adds] using starts
          simp only [if_pos adds, alone]
          rfl
        · simp only [if_neg adds]
          rfl
      | signature | tag | byteObject | int8 | other => cases starts
  · rw [if_neg daemons]
    rfl

variable (site)

/-- The messages on the channels, and those that wait for the head node in the order of the
calls. -/
structure Sound (network : Network Data) (state : TreeBroadcast.State Nat (Entry Data))
    (waiting : List (Nat × Entry Data)) : Prop where
  calm : network.abnormal_term_ordered = false
  routed : network.routing_is_enabled = true
  ordered : Ordered (· < site.num_procs) 0 (parent site) state
  handed : ∀ me < site.num_procs, network.handed me = (state.log me).map Entry.delivery
  down : ∀ me < site.num_procs, me ≠ 0 →
    network.channel (parent site me) me = (state.queue me).map Entry.frame
  up : ∀ source, network.channel source 0 = ((waiting.filter (·.1 = source)).map Prod.snd).map
    Entry.frame
  idle : ∀ source target, network.channel source target ≠ [] → target ≠ 0 →
    target < site.num_procs ∧ parent site target = source
  issued : network.issued.Perm ((state.log 0 ++ waiting.map Prod.snd).map Entry.delivery)
  plain : ∀ entry ∈ state.log 0 ++ waiting.map Prod.snd, plain entry.tag entry.items = true

variable {site}

theorem children_filter (member : me < site.num_procs) :
    (children site me).filter (· = other) =
      if other < site.num_procs ∧ other ≠ 0 ∧ parent site other = me then [other] else [] := by
  rw [filter_eq]
  by_cases child : other < site.num_procs ∧ other ≠ 0 ∧ parent site other = me
  · rw [if_pos child, ← child.2.2, tree.listed other child.1 child.2.1]
    rfl
  · rw [if_neg child, List.count_eq_zero.mpr fun listed =>
      child (tree.child me member other listed)]
    rfl

theorem channel_relayed (member : target < site.num_procs) (rly : List (Item Data))
    (one other : Nat) :
    relay (update channel source (update (channel source) target rest)) target
      (children site target) rly
        one other =
      (if one = source ∧ other = target then rest else channel one other) ++
        if one = target ∧ other < site.num_procs ∧ other ≠ 0 ∧ parent site other = target then [rly]
          else [] := by
  have taken : update channel source (update (channel source) target rest) one other =
      if one = source ∧ other = target then rest else channel one other := by
    by_cases here : one = source
    · subst one
      rw [update_self]
      by_cases there : other = target
      · subst other
        rw [update_self, if_pos ⟨rfl, rfl⟩]
      · rw [update_of_ne there, if_neg fun both => there both.2]
    · rw [update_of_ne here, if_neg fun both => here both.1]
  rw [relay, children_filter member, taken]
  generalize (if one = source ∧ other = target then rest else channel one other) = before
  by_cases own : one = target
  · rw [if_pos own]
    by_cases child : other < site.num_procs ∧ other ≠ 0 ∧ parent site other = target
    · rw [if_pos child, if_pos ⟨own, child⟩]
      rfl
    · rw [if_neg child, if_neg fun both => child both.2]
      rfl
  · rw [if_neg own, if_neg fun both => own both.1, append_nil]

theorem start_sound : Sound site (.start : Network Data) ⟨fun _ => [], fun _ => []⟩ [] where
  calm := rfl
  routed := rfl
  ordered _ _ _ := rfl
  handed _ _ := rfl
  down _ _ _ := rfl
  up _ := rfl
  idle _ _ busy := absurd rfl busy
  issued := .refl _
  plain _ member := absurd member not_mem_nil

section Events

variable {network : Network Data} {state : TreeBroadcast.State Nat (Entry Data)}
    {waiting : List (Nat × Entry Data)}
  (sound : Sound site network state waiting)
include sound

theorem xcast_sound (named : sig.names ≠ some []) (whole : copied msg = true)
    (handed : plain tag ((msg.map Payload.items).getD []) = true) :
    ∃ next waiting, network.perform site (.xcast me sig tag msg) = .ok next ∧
      Sound site next state waiting := by
  rw [Network.perform, apiXcast]
  cases created : createDmns site.cluster (BitVec.ofNat 32 me) sig.names with
  | error fault =>
    cases fault with
    | undefined => exact absurd created (CentralViews.createDmns_defined site.cluster _ named)
    | error => exact ⟨network, waiting, rfl, sound⟩
  | ok _ =>
    rw [packXcast_copied whole]
    refine ⟨_, waiting ++ [(me, ⟨sig, tag, (msg.map Payload.items).getD []⟩)], rfl, ?_⟩
    exact
      { sound with
        down := fun other otherMember proper => by
          simp only [send]
          rw [if_neg fun both => proper both.2]
          exact sound.down other otherMember proper
        up := fun source => by
          simp only [send]
          by_cases same : source = me
          · simp [same, sound.up]
          · simp [same, Ne.symm same, sound.up]
        idle := fun source target busy proper => by
          simp only [send] at busy
          rw [if_neg fun both => proper both.2] at busy
          exact sound.idle source target busy proper
        issued := by
          have before :=
            sound.issued.append_right [(⟨tag, (msg.map Payload.items).getD []⟩ : Delivery Data)]
          rw [map_append] at before
          simp only [map_append, ← append_assoc]
          exact before
        plain := fun entry present => by
          rw [map_append, ← append_assoc] at present
          rcases List.mem_append.mp present with before | new
          · exact sound.plain entry before
          · rw [List.mem_singleton.mp new]
            exact handed }

theorem perform_deliver {target : Nat} (member : target < site.num_procs) {entry : Entry Data}
    (handed : XcastRuns.plain entry.tag entry.items = true)
    (next : network.channel source target = entry.frame :: rest) :
    network.perform site (.deliver source target) =
      .ok { network with
        channel := relay
          (update network.channel source (update (network.channel source) target rest))
          target (children site target) entry.frame
        handed := update network.handed target (network.handed target ++ [entry.delivery]) } := by
  have parts := handed
  simp only [XcastRuns.plain, Bool.and_eq_true, decide_eq_true_eq] at parts
  have valid : entry.delivery.tag ≠ 0 := parts.1.1
  have other : entry.delivery.tag ≠ 15 := parts.1.2
  simp only [Network.perform, next, sound.calm, sound.routed, Bool.not_true, Bool.or_false,
    xcastRecv_plain member handed, Result.ok_bind, handOver, if_neg valid, if_neg other]

theorem head_sound (busy : network.channel source 0 ≠ []) :
    ∃ entry : Entry Data, ∃ state waiting next,
      network.perform site (.deliver source 0) = .ok next ∧
      Sound site next state waiting ∧ next.issued = network.issued ∧
      next.handed = update network.handed 0 (network.handed 0 ++ [entry.delivery]) := by
  have queued := sound.up source
  cases first : waiting.filter (·.1 = source) with
  | nil =>
    rw [first] at queued
    exact absurd queued busy
  | cons pair =>
    rw [first] at queued
    obtain ⟨front, back, rfl, before, from_source, rest⟩ := List.filter_eq_cons_iff.mp first
    have moved : (front ++ pair :: back).Perm (pair :: (front ++ back)) := perm_middle
    have accepted : (state.log 0 ++ [pair.2] ++ (front ++ back).map Prod.snd).Perm
        (state.log 0 ++ (front ++ pair :: back).map Prod.snd) := by
      rw [append_assoc]
      exact ((moved.map Prod.snd).append_left _).symm
    have performs := perform_deliver sound site.some
      (sound.plain pair.2 (accepted.subset (by simp))) queued
    refine ⟨pair.2, state.relay (children site 0) 0 pair.2, front ++ back, _, performs,
      ?_, rfl, rfl⟩
    exact
      { calm := sound.calm
        routed := sound.routed
        ordered := send_ordered tree sound.ordered
        handed := fun me member => by
          simp only [State.relay]
          by_cases same : me = 0
          · subst me
            rw [update_self, update_self, map_append, sound.handed 0 member]
            rfl
          · rw [update_of_ne same, update_of_ne same, sound.handed me member]
        down := fun me member proper => by
          have listed := mem_children_iff tree site.some member proper
          change relay _ _ _ _ _ me = _
          simp only [State.relay]
          rw [channel_relayed site.some, if_neg fun both => proper both.2,
            sound.down me member proper]
          by_cases above : parent site me = 0
          · rw [if_pos ⟨above, member, proper, above⟩, if_pos (listed.mpr above), map_append]
            rfl
          · rw [if_neg fun both => above both.1, if_neg fun child => above (listed.mp child),
              append_nil]
        up := fun other => by
          change relay _ _ _ _ other 0 = _
          rw [channel_relayed site.some, if_neg (fun both : _ ∧ _ ∧ 0 ≠ 0 ∧ _ => both.2.2.1 rfl),
            append_nil, filter_append]
          by_cases same : other = source
          · rw [same, if_pos ⟨rfl, rfl⟩, List.filter_eq_nil_iff.mpr before, rest, nil_append]
          · have away : ¬ decide (pair.1 = other) = true := by
              rw [decide_eq_true_eq] at from_source ⊢
              exact fun equal => same (equal.symm.trans from_source)
            rw [if_neg fun both => same both.1, sound.up other, filter_append, filter_cons,
              if_neg away]
        idle := fun one other occupied proper => by
          change relay _ _ _ _ one other ≠ [] at occupied
          rw [channel_relayed site.some, if_neg fun both => proper both.2] at occupied
          by_cases child : one = 0 ∧ other < site.num_procs ∧ other ≠ 0 ∧ parent site other = 0
          · exact ⟨child.2.1, child.2.2.2.trans child.1.symm⟩
          · rw [if_neg child, append_nil] at occupied
            exact sound.idle one other occupied proper
        issued := by
          exact sound.issued.trans (accepted.symm.map _)
        plain := fun entry present => by
          exact sound.plain entry (accepted.subset present) }

theorem child_sound (proper : target ≠ 0) (busy : network.channel source target ≠ []) :
    ∃ entry : Entry Data, ∃ state next, network.perform site (.deliver source target) = .ok next ∧
      Sound site next state waiting ∧ next.issued = network.issued ∧ target < site.num_procs ∧
      next.handed = update network.handed target (network.handed target ++ [entry.delivery]) := by
  obtain ⟨member, rfl⟩ := sound.idle source target busy proper
  have queued := sound.down target member proper
  cases first : state.queue target with
  | nil =>
    rw [first] at queued
    exact absurd queued busy
  | cons entry rest =>
    rw [first] at queued
    have known : entry ∈ state.log 0 := by
      have above := log_prefix_root tree sound.ordered
        (tree.parent_member target member proper)
      rw [sound.ordered target member proper, first] at above
      exact above.subset (mem_append_right _ mem_cons_self)
    have performs := perform_deliver sound member
      (sound.plain entry (mem_append_left _ known)) queued
    refine ⟨entry, (state.take target rest).relay (children site target) target entry, _, performs,
      ?_, rfl, member, rfl⟩
    exact
      { calm := sound.calm
        routed := sound.routed
        ordered := receive_ordered tree sound.ordered member proper first
        handed := fun me inside => by
          simp only [State.relay, State.take]
          by_cases same : me = target
          · subst me
            rw [update_self, update_self, map_append, sound.handed target member]
            rfl
          · rw [update_of_ne same, update_of_ne same, sound.handed me inside]
        down := fun me inside below => by
          have listed := mem_children_iff tree member inside below
          change relay _ _ _ _ _ me = _
          simp only [State.relay, State.take]
          rw [channel_relayed member]
          by_cases same : me = target
          · subst me
            have away := parent_ne tree member proper
            rw [if_pos ⟨rfl, rfl⟩, if_neg fun both => away both.1, if_neg fun child =>
              away (listed.mp child), update_self, append_nil]
          · rw [if_neg fun both => same both.2, sound.down me inside below, update_of_ne same]
            by_cases above : parent site me = target
            · rw [if_pos ⟨above, inside, below, above⟩, if_pos (listed.mpr above), map_append]
              rfl
            · rw [if_neg fun both => above both.1, if_neg fun child => above (listed.mp child),
                append_nil]
        up := fun other => by
          change relay _ _ _ _ other 0 = _
          rw [channel_relayed member, if_neg fun both => proper both.2.symm,
            if_neg (fun both : _ ∧ _ ∧ 0 ≠ 0 ∧ _ => both.2.2.1 rfl), append_nil]
          exact sound.up other
        idle := fun one other occupied below => by
          change relay _ _ _ _ one other ≠ [] at occupied
          rw [channel_relayed member] at occupied
          by_cases child : one = target ∧ other < site.num_procs ∧ other ≠ 0 ∧
            parent site other = target
          · exact ⟨child.2.1, child.2.2.2.trans child.1.symm⟩
          · rw [if_neg child, append_nil] at occupied
            by_cases taken : one = parent site target ∧ other = target
            · rw [taken.1, taken.2]
              exact ⟨member, rfl⟩
            · rw [if_neg taken] at occupied
              exact sound.idle one other occupied below
        issued := by
          simp only [State.relay, update_of_ne (Ne.symm proper)]
          exact sound.issued
        plain := by
          simp only [State.relay, update_of_ne (Ne.symm proper)]
          exact sound.plain }

end Events

variable {state : TreeBroadcast.State Nat (Entry Data)} {waiting : List (Nat × Entry Data)}

theorem perform_sound {network : Network Data} (sound : Sound site network state waiting)
    (enabled : network.Enabled site event) (permitted : allowed network event = true) :
    ∃ next state waiting, network.perform site event = .ok next ∧
      Sound site next state waiting := by
  cases event with
  | xcast me =>
    simp only [allowed, Bool.and_eq_true, decide_eq_true_eq] at permitted
    obtain ⟨⟨named, whole⟩, handed⟩ := permitted
    obtain ⟨next, waiting, performs, after⟩ := xcast_sound sound named whole handed
    exact ⟨next, state, waiting, performs, after⟩
  | deliver source target =>
    by_cases head : target = 0
    · subst target
      obtain ⟨_, state, waiting, next, performs, after, -⟩ := head_sound sound enabled
      exact ⟨next, state, waiting, performs, after⟩
    · obtain ⟨_, state, next, performs, after, -⟩ := child_sound sound head enabled
      exact ⟨next, state, waiting, performs, after⟩
  | orderAbnormalTerm => cases permitted
  | enableRouting => exact ⟨_, state, waiting, rfl, { sound with routed := permitted }⟩

theorem reached_sound {final : Network Data}
    (reached : Reached (network site) (fun state event => allowed state event) final) :
    ∃ state waiting, Sound site final state waiting := by
  apply Reached.invariant (fun network => ∃ state waiting,
    Sound site network state waiting) _ _ final reached
  · intro network initially
    rw [show network = _ from initially]
    exact ⟨_, _, start_sound⟩
  · rintro before event next ⟨state, waiting, sound⟩ permitted steps
    rw [network] at steps
    by_cases enabled : before.Enabled site event
    · obtain ⟨after, state, waiting, performs, soundAfter⟩ := perform_sound sound enabled permitted
      simp only [if_pos enabled, performs] at steps
      cases steps
      exact ⟨state, waiting, soundAfter⟩
    · simp only [if_neg enabled] at steps
      cases steps

theorem sound_correct {network : Network Data} (sound : Sound site network state waiting) :
    network.Correct site where
  once me member := by
    rw [sound.handed me member]
    have first :=
      (log_prefix_root tree sound.ordered member).trans (prefix_append _ (waiting.map Prod.snd))
    exact (first.sublist.map _).subperm.trans sound.issued.symm.subperm
  same_order me member other otherMember := by
    rw [sound.handed me member, sound.handed other otherMember]
    rcases logs_comparable tree sound.ordered member otherMember with before | after
    · exact .inl (before.map _)
    · exact .inr (after.map _)
  complete quiet me member := by
    have queues : ∀ node < site.num_procs, node ≠ 0 → state.queue node = [] := by
      intro node inside proper
      have queued := sound.down node inside proper
      rw [quiet] at queued
      exact List.map_eq_nil_iff.mp queued.symm
    have nobody : waiting = [] := by
      apply List.eq_nil_iff_forall_not_mem.mpr
      intro pair present
      have queued := sound.up pair.1
      rw [quiet] at queued
      have none := List.map_eq_nil_iff.mp (List.map_eq_nil_iff.mp queued.symm)
      exact List.filter_eq_nil_iff.mp none pair present (decide_eq_true rfl)
    have issued := sound.issued
    rw [nobody, map_nil, append_nil] at issued
    rw [sound.handed me member, log_eq_root tree sound.ordered queues member]
    exact issued.symm

theorem work_decreases {before after : Network Data} (member : target < site.num_procs)
    (issued : after.issued = before.issued)
    (handed : after.handed = update before.handed target (before.handed target ++ [delivery]))
    (bound : (after.handed target).length ≤ after.issued.length) :
    after.work site < before.work site := by
  have here : (after.handed target).length = (before.handed target).length + 1 := by
    rw [handed, update_self, length_append, length_singleton]
  apply sum_lt_sum
  · intro me _
    rw [issued, handed]
    by_cases same : me = target
    · rw [same, update_self, length_append]
      omega
    · rw [update_of_ne same]
  · refine ⟨target, List.mem_range.mpr member, ?_⟩
    rw [issued] at bound ⊢
    omega

theorem deliver_works (sound : Sound site before state waiting)
    (busy : before.channel source target ≠ []) :
    ∃ next, before.perform site (.deliver source target) = .ok next ∧
      next.work site < before.work site := by
  by_cases head : target = 0
  · subst target
    obtain ⟨_, state, waiting, next, performs, after, issued, handed⟩ := head_sound sound busy
    have correct := sound_correct after
    exact ⟨next, performs, work_decreases site.some issued handed
      (correct.once 0 site.some).length_le⟩
  · obtain ⟨_, state, next, performs, after, issued, member, handed⟩ := child_sound sound head busy
    have correct := sound_correct after
    exact ⟨next, performs, work_decreases member issued handed
      (correct.once target member).length_le⟩

/-- While the head node routes and every message can be copied and handed over as it is, no event
goes wrong, all daemons hand over the same messages in the same order, and there is always less to
hand over. -/
theorem xcast_delivers (site : Site) (final : Network Data)
    (reached : Reached (network site) (fun state event => allowed state event) final) :
    (∀ event, final.Enabled site event → allowed final event →
      ∃ next, final.perform site event = .ok next) ∧
    final.Correct site ∧
    ∀ source target next, (network site).step final (.deliver source target) = some next →
      next.work site < final.work site := by
  obtain ⟨state, waiting, sound⟩ := reached_sound reached
  refine ⟨fun event enabled permitted => ?_, sound_correct sound,
    fun source target next steps => ?_⟩
  · obtain ⟨next, _, _, performs, -⟩ := perform_sound sound enabled permitted
    exact ⟨next, performs⟩
  · rw [network] at steps
    by_cases enabled : final.Enabled site (.deliver source target)
    · obtain ⟨after, performs, less⟩ := deliver_works sound enabled
      simp only [if_pos enabled, performs] at steps
      cases steps
      exact less
    · simp only [if_neg enabled] at steps
      cases steps

def jobless : CentralAllgather.Site where
  daemons := [0, 1, 2]
  hnp := 0
  jobs _ := none
  distinct := by decide
  hnp_mem := by decide
  map_mem _ _ _ known _ := absurd known (Option.some_ne_none _).symm
  procs_mem _ _ _ _ known _ := absurd known (Option.some_ne_none _).symm

def line : Site where
  radix := 1
  num_procs := 3
  fuel := 8
  plan vpid := (RadixTree.updateRoutingPlan 1 3 8 vpid).toOption.getD ⟨0, []⟩
  procs _ _ := some 4
  cluster := jobless
  decodeDaemonNodemap _ _ := true
  initRoutes _ _ := true
  some := by decide
  planned := by decide +kernel
  running _ _ _ _ := ⟨4, Nat.le_refl 4, rfl⟩

/-- Two daemons broadcast; the last one in the line has not heard of the first message. -/
theorem xcast_delivers_line : ∃ final : Network Nat,
    Reached (network line) (fun state event => allowed state event) final ∧
      final.handed 0 = [⟨5, [.other 2]⟩, ⟨1, [.command 7]⟩] ∧ final.handed 1 = [⟨5, [.other 2]⟩] ∧
        final.handed 2 = [] ∧
      ((∀ event, final.Enabled line event → allowed final event →
        ∃ next, final.perform line event = .ok next) ∧
        final.Correct line ∧
        ∀ source target next, (network line).step final (.deliver source target) = some next →
          next.work line < final.work line) := by
  obtain ⟨final, reached, seen⟩ := reached_seen (network line) allowed Network.start
    [.xcast 1 ⟨none, 0⟩ 1 (some ⟨.fullyDesc, [.command 7]⟩),
      .xcast 2 ⟨none, 0⟩ 5 (some ⟨.fullyDesc, [.other 2]⟩),
      .deliver 2 0, .deliver 1 0, .deliver 0 1]
    (fun network => (network.handed 0, network.handed 1, network.handed 2))
    ([⟨5, [.other 2]⟩, ⟨1, [.command 7]⟩], [⟨5, [.other 2]⟩], []) rfl (by decide +kernel)
  obtain ⟨first, rest⟩ := Prod.mk.inj seen
  obtain ⟨second, third⟩ := Prod.mk.inj rest
  exact ⟨final, reached, first, second, third, xcast_delivers line final reached⟩

/-- Once an abnormal termination is ordered, the head node sends to all daemons and these pass the
message on as well. A message to the daemons without a command is not passed on. A payload in a
buffer of another type is lost. -/
theorem xcast_goes_wrong :
    (∃ final : Network Nat, Reachable (network line) final ∧ final.issued = [⟨5, [.other 7]⟩] ∧
      final.handed 2 = [⟨5, [.other 7]⟩, ⟨5, [.other 7]⟩]) ∧
    (∃ final : Network Nat, Reachable (network line) final ∧ final.Enabled line (.deliver 0 0) ∧
      final.perform line (.deliver 0 0) = Result.undefined) ∧
    ∃ final : Network Nat, Reachable (network line) final ∧ final.issued = [⟨5, [.other 7]⟩] ∧
      final.handed 0 = [⟨5, []⟩] := by
  refine ⟨?_, ?_, ?_⟩
  · obtain ⟨final, reached, seen⟩ := reached_seen (network line) (fun _ _ => true) Network.start
      [.orderAbnormalTerm, .xcast 0 ⟨none, 0⟩ 5 (some ⟨.fullyDesc, [.other 7]⟩), .deliver 0 0,
        .deliver 0 1, .deliver 0 2, .deliver 1 2]
      (fun network => (network.issued, network.handed 2))
        ([⟨5, [.other 7]⟩], [⟨5, [.other 7]⟩, ⟨5, [.other 7]⟩]) rfl
      (by decide +kernel)
    obtain ⟨issued, handed⟩ := Prod.mk.inj seen
    exact ⟨final, reachable_of_reached reached, issued, handed⟩
  · exact ⟨_, .step _ (.xcast 0 ⟨none, 0⟩ 1 none) _ (.initial _ rfl) trivial rfl, by decide, rfl⟩
  · obtain ⟨final, reached, seen⟩ := reached_seen (network line) (fun _ _ => true) Network.start
      [.xcast 0 ⟨none, 0⟩ 5 (some ⟨.nonDesc, [.other 7]⟩), .deliver 0 0]
      (fun network => (network.issued, network.handed 0)) ([⟨5, [.other 7]⟩], [⟨5, []⟩]) rfl
        (by decide +kernel)
    obtain ⟨issued, handed⟩ := Prod.mk.inj seen
    exact ⟨final, reachable_of_reached reached, issued, handed⟩

end Orcm.XcastRuns
