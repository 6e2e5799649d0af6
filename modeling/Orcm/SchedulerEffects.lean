import Mathlib.Logic.Function.Basic
import Orcm.Scheduler

/-!
Everything that one step of the scheduler can do: one constructor of `Effect` for each outcome of a
handler.
-/

namespace Orcm.SchedulerEffects

open CLibrary NodePool Hierarchy NodeReport RegexExtract RegexCreate Scheduler

/-- The node list of an allocated session is readable and as long as asked for. -/
def usable (alloc : Alloc) : Bool :=
  match alloc.nodes with
  | none => false
  | some nodes =>
    nodes ≠ errorText && match orteRegexExtractNodeNames (some nodes) with
      | .ok nodenames => nodenames.length = alloc.min_nodes
      | .error _ => false

def chooseNodes (alloc : Alloc) (pool : Pool) : Result (Option CString) :=
  if (pickNodes alloc pool).length = alloc.min_nodes then
    match orteRegexCreate (joinWith ',' (pickNodes alloc pool)) with
    | .ok noderegex => .ok (some noderegex)
    | .error (.error _) => .ok (some errorText)
    | .error .undefined => Result.undefined
  else .ok alloc.nodes

def grantNodes (object : Ref → Session) (session : Ref) (nodes : Option CString) : Ref → Session :=
  Function.update object session ⟨(object session).id, { (object session).alloc with nodes }⟩

def hasId (s : State) (id : Nat) (ref : Ref) : Bool := (s.object ref).id = id

inductive Effect (clusters : List Cluster) (s : State) : Label → State → Prop where
  | hold (session : Ref) (rest : List ScdEvent) : s.scd = .init session :: rest → Intact s →
      Effect clusters s .scd { s with scd := rest ++ [.schedule], hold := s.hold ++ [session] }
  | enqueue (session : Ref) (rest : List ScdEvent) : s.scd = .init session :: rest → Intact s →
      Effect clusters s .scd
        { s with scd := rest ++ [.schedule], default := s.default ++ [session] }
  | wait (rest : List ScdEvent) : s.scd = .schedule :: rest → Intact s →
      (∀ session ∈ s.default.head?,
        (freeNodes s.nodes).length < (s.object session).alloc.min_nodes) →
      Effect clusters s .scd { s with scd := rest }
  | schedule (session : Ref) (rest : List ScdEvent) (waiting : List Ref) : s.scd = .schedule ::
      rest → Intact s →
      s.default = session :: waiting →
        (s.object session).alloc.min_nodes ≤ (freeNodes s.nodes).length →
      Effect clusters s .scd
        { s with scd := rest, default := waiting, rm := s.rm ++ [.req session] }
  | requeue (session : Ref) (rest : List ScdEvent) (rm : List RmEvent) : s.scd = .allocd session ::
      rest → Intact s →
      usable (s.object session).alloc = false → rm = s.rm ∨ rm = s.rm ++ [.active session] →
      Effect clusters s .scd { s with
        scd := rest ++ [.schedule], rm, running := (s.running ++ [session]).tail,
        default := session :: s.default }
  | run (session : Ref) (rest : List ScdEvent) (nodenames : List Name) : s.scd = .allocd session ::
      rest → Intact s →
      usable (s.object session).alloc = true →
      orteRegexExtractNodeNames (s.object session).alloc.nodes = .ok nodenames →
      Effect clusters s .scd { s with
        scd := rest, rm := s.rm ++ [.active session], running := s.running ++ [session],
        nodes := setScdState nodenames .alloc s.nodes }
  | linger (session : Session) (rest : List ScdEvent) : s.scd = .terminated session :: rest →
      Intact s →
      Effect clusters s .scd { s with scd := rest }
  | release (session : Session) (rest : List ScdEvent) (nodenames : List Name) :
      s.scd = .terminated session :: rest → Intact s →
        orteRegexExtractNodeNames session.alloc.nodes = .ok nodenames →
      Effect clusters s .scd { s with
        scd := rest ++ [.schedule], nodes := setScdState nodenames .unalloc s.nodes,
        running := s.running.filter fun ref => (s.object ref).id ≠ session.id }
  | cancel (id : Nat) (rest : List ScdEvent) : s.scd = .cancel id :: rest → Intact s →
      Effect clusters s .scd { s with
        scd := rest ++ ((if s.hold.any (hasId s id) then [.schedule] else []) ++
          (if s.default.any (hasId s id) then [.schedule] else [])),
        rm := s.rm ++ (s.running.find? (hasId s id)).toList.map .kill,
        hold := s.hold.eraseP (hasId s id), default := s.default.eraseP (hasId s id) }
  | lose (session : Ref) (rest : List RmEvent) : s.rm = .req session :: rest →
      (s.object session).alloc.min_nodes ≤ 0 → Effect clusters s .rm { s with rm := rest }
  | grant (session : Ref) (rest : List RmEvent) (nodes : Option CString) : s.rm =
      .req session :: rest →
      0 < (s.object session).alloc.min_nodes →
        chooseNodes (s.object session).alloc s.nodes = .ok nodes →
      Effect clusters s .rm { s with
        rm := rest, scd := s.scd ++ [.allocd session], object := grantNodes s.object session nodes }
  | launch (session : Ref) (rest : List RmEvent) (sent : List Alloc) : s.rm =
      .active session :: rest →
      (∀ alloc ∈ sent, alloc ∈ s.sent ∨ alloc = (s.object session).alloc) →
      Effect clusters s .rm { s with
        rm := rest, tracking := s.tracking ++ [⟨toInt (s.object session).id, 0⟩], sent }
  | stall (session : Ref) (rest : List RmEvent) : s.rm = .active session :: rest →
      Effect clusters s .rm { s with rm := rest }
  | kill (session : Ref) (rest : List RmEvent) (sent : List Alloc) : s.rm = .kill session :: rest →
      (∀ alloc ∈ sent, alloc ∈ s.sent ∨ alloc = (s.object session).alloc) →
      Effect clusters s .rm { s with rm := rest, sent }
  | refuse (alloc : Alloc) :
      Effect clusters s (.submit alloc false)
        { s with last_session_id := orcmScdBaseGetNextSessionId s }
  | submit (alloc : Alloc) :
      Effect clusters s (.submit alloc true) { s with
        object := Function.update s.object s.allocated
          ⟨orcmScdBaseGetNextSessionId s, { alloc with id := orcmScdBaseGetNextSessionId s }⟩,
        allocated := s.allocated + 1, scd := s.scd ++ [.init s.allocated],
        last_session_id := orcmScdBaseGetNextSessionId s }
  | askCancel (id : Nat) : Effect clusters s (.cancel id) { s with scd := s.scd ++ [.cancel id] }
  | checkIn (alloc : Alloc) : alloc ∈ s.sent → (checkIn alloc s.tracking).2 = false →
      Effect clusters s (.complete alloc) { s with tracking := (checkIn alloc s.tracking).1 }
  | complete (alloc : Alloc) : alloc ∈ s.sent → (Scheduler.checkIn alloc s.tracking).2 = true →
      Effect clusters s (.complete alloc) { s with
        tracking := (Scheduler.checkIn alloc s.tracking).1,
        scd := s.scd ++ [.terminated ⟨(alloc.id % 4294967296).toNat, alloc⟩] }
  | report (report : Report) :
      Effect clusters s (.report report)
        { s with nodes := (nodestateUpdate clusters report s.nodes).2 }

variable {s : State} {session : Ref}

theorem fifoAllocated_cases (returned : fifoAllocated session s = .ok next) :
    (∃ nodenames, usable (s.object session).alloc = true ∧
      orteRegexExtractNodeNames (s.object session).alloc.nodes = .ok nodenames ∧
      next = { s with
        rm := s.rm ++ [.active session], running := s.running ++ [session],
        nodes := setScdState nodenames .alloc s.nodes }) ∨
    (∃ rm, usable (s.object session).alloc = false ∧ (rm = s.rm ∨ rm = s.rm ++ [.active session]) ∧
      next = { s with
        scd := s.scd ++ [.schedule], rm, running := (s.running ++ [session]).tail,
        default := session :: s.default }) := by
  unfold fifoAllocated at returned
  cases listed : (s.object session).alloc.nodes with
  | none =>
    simp only [listed] at returned
    cases returned
  | some nodes =>
    simp only [listed] at returned
    by_cases failed : nodes = errorText
    · rw [if_pos failed] at returned
      cases returned
      exact .inr ⟨s.rm, by simp [usable, listed, failed], .inl rfl, rfl⟩
    · rw [if_neg failed] at returned
      cases extracted : orteRegexExtractNodeNames (some nodes) with
      | error fault =>
        cases fault with
        | undefined =>
          simp only [extracted] at returned
          cases returned
        | error =>
          simp only [extracted] at returned
          cases returned
          exact .inr ⟨_, by simp [usable, listed, extracted], .inr rfl, rfl⟩
      | ok nodenames =>
        simp only [extracted] at returned
        by_cases enough : (nodenames.length : Int) = (s.object session).alloc.min_nodes
        · rw [if_neg (not_not_intro enough)] at returned
          cases returned
          exact .inl ⟨nodenames, by simp [usable, listed, failed, extracted, enough], rfl, rfl⟩
        · rw [if_pos enough] at returned
          cases returned
          exact .inr ⟨_, by simp [usable, listed, extracted, enough], .inr rfl, rfl⟩

theorem fifoTerminated_cases {session : Session} (returned : fifoTerminated session s = .ok next) :
    next = s ∨ ∃ nodenames, orteRegexExtractNodeNames session.alloc.nodes = .ok nodenames ∧
      next = { s with
        scd := s.scd ++ [.schedule], nodes := setScdState nodenames .unalloc s.nodes,
        running := s.running.filter fun ref => (s.object ref).id ≠ session.id } := by
  unfold fifoTerminated at returned
  split at returned
  · cases returned
  · cases returned
    exact .inl rfl
  · rename_i nodenames extracted
    cases returned
    exact .inr ⟨nodenames, extracted, rfl⟩

theorem fifoCancel_eq {id : Nat} {s : State} :
    fifoCancel id s = { s with
      scd := s.scd ++ ((if s.hold.any (hasId s id) then [.schedule] else []) ++
        (if s.default.any (hasId s id) then [.schedule] else [])),
      rm := s.rm ++ (s.running.find? (hasId s id)).toList.map .kill,
      hold := s.hold.eraseP (hasId s id), default := s.default.eraseP (hasId s id) } := by
  have absent :
      ∀ queue : List Ref, queue.any (hasId s id) = false → queue.eraseP (hasId s id) = queue := by
    intro queue none
    exact List.eraseP_of_forall_not fun ref member => List.any_eq_false.mp none ref member
  have holdAbsent := absent s.hold
  have defaultAbsent := absent s.default
  unfold fifoCancel
  simp only [show (fun ref => decide ((s.object ref).id = id)) = hasId s id from rfl, activateScd,
    activateRm]
  cases s.running.find? (hasId s id) <;> cases inHold : s.hold.any (hasId s id) <;>
    cases inDefault : s.default.any (hasId s id) <;>
    simp only [inHold] at holdAbsent defaultAbsent <;>
    simp [inDefault, holdAbsent, defaultAbsent]

theorem scdBaseRmRequest_cases (returned : scdBaseRmRequest session s = .ok next) :
    ((s.object session).alloc.min_nodes ≤ 0 ∧ next = s) ∨
    (0 < (s.object session).alloc.min_nodes ∧
      ∃ nodes, chooseNodes (s.object session).alloc s.nodes = .ok nodes ∧
      next = { s with
        scd := s.scd ++ [.allocd session], object := grantNodes s.object session nodes }) := by
  unfold scdBaseRmRequest at returned
  by_cases asked : 0 < (s.object session).alloc.min_nodes
  · refine .inr ⟨asked, ?_⟩
    rw [if_pos asked] at returned
    unfold chooseNodes
    by_cases enough : ((pickNodes (s.object session).alloc s.nodes).length : Int) =
      (s.object session).alloc.min_nodes
    · rw [if_pos enough] at returned ⊢
      cases created : orteRegexCreate
        (joinWith ',' (pickNodes (s.object session).alloc s.nodes)) with
      | ok noderegex =>
        simp only [created] at returned
        cases returned
        exact ⟨some noderegex, rfl, rfl⟩
      | error fault =>
        cases fault with
        | undefined =>
          simp only [created] at returned
          cases returned
        | error =>
          simp only [created] at returned
          cases returned
          exact ⟨some errorText, rfl, rfl⟩
    · rw [if_neg enough] at returned ⊢
      cases returned
      -- too few free nodes: the object keeps whatever node list it has
      exact ⟨_, rfl, by simp [activateScd, grantNodes]⟩
  · rw [if_neg asked] at returned
    cases returned
    exact .inl ⟨by omega, rfl⟩

theorem sendAlloc_cases {next : State} (returned : sendAlloc alloc nodenames s = .ok next) :
    ∃ sent, (∀ other ∈ sent, other ∈ s.sent ∨ other = alloc) ∧ next = { s with sent } := by
  unfold sendAlloc at returned
  split at returned
  · cases returned
  · split at returned
    · cases returned
      exact ⟨s.sent ++ [alloc], fun other member => by simpa using member, rfl⟩
    · cases returned
      exact ⟨s.sent, fun other member => .inl member, rfl⟩

theorem scdBaseRmActive_cases {next : State} (returned : scdBaseRmActive session s = .ok next) :
    next = s ∨ ∃ sent, (∀ alloc ∈ sent, alloc ∈ s.sent ∨ alloc = (s.object session).alloc) ∧
      next = { s with tracking := s.tracking ++ [⟨toInt (s.object session).id, 0⟩], sent } := by
  simp only [scdBaseRmActive] at returned
  split at returned
  · cases returned
  · cases returned
    exact .inl rfl
  · cases returned
    exact .inl rfl
  · obtain ⟨sent, known, rfl⟩ := sendAlloc_cases returned
    exact .inr ⟨sent, known, rfl⟩

theorem scdBaseRmKill_cases (returned : scdBaseRmKill session s = .ok next) :
    ∃ sent, (∀ alloc ∈ sent, alloc ∈ s.sent ∨ alloc = (s.object session).alloc) ∧
      next = { s with sent } := by
  have unchanged : ∃ sent, (∀ alloc ∈ sent, alloc ∈ s.sent ∨ alloc = (s.object session).alloc) ∧
      s = { s with sent } :=
    ⟨s.sent, fun alloc member => .inl member, rfl⟩
  simp only [scdBaseRmKill] at returned
  split at returned
  · cases returned
  · cases returned
    exact unchanged
  · cases returned
    exact unchanged
  · exact sendAlloc_cases returned

theorem toOption_eq_some {result : Result Value} {value : Value} :
    result.toOption = some value ↔ result = .ok value := by
  cases result <;> simp [Except.toOption]

section Step

variable {clusters : List Cluster} (s : State) {next : State}

theorem handleScd_effect {event : ScdEvent} (pending : s.scd = event :: rest)
    (returned : handleScd event { s with scd := rest } = .ok next) :
    Effect clusters s .scd next := by
  unfold handleScd at returned
  split at returned
  · rename_i intact
    cases event with
    | init session =>
      simp only [fifoFindQueue] at returned
      split at returned
      · cases returned
        exact .hold session rest pending intact
      · cases returned
        exact .enqueue session rest pending intact
    | schedule =>
      simp only [fifoSchedule] at returned
      split at returned
      · rename_i empty
        cases returned
        exact .wait rest pending intact (by simp [show s.default = [] from empty])
      · rename_i session waiting queued
        split at returned
        · rename_i enough
          cases returned
          exact .schedule session rest waiting pending intact queued enough
        · rename_i short
          cases returned
          refine .wait rest pending intact ?_
          rw [show s.default = session :: waiting from queued]
          simpa using short
    | allocd session =>
      rcases fifoAllocated_cases returned with ⟨nodenames, ok, extracted, rfl⟩ | ⟨rm,
        bad, which, rfl⟩
      · exact .run session rest nodenames pending intact ok extracted
      · exact .requeue session rest rm pending intact bad which
    | terminated session =>
      rcases fifoTerminated_cases returned with rfl | ⟨nodenames, extracted, rfl⟩
      · exact .linger session rest pending intact
      · exact .release session rest nodenames pending intact extracted
    | cancel id =>
      cases returned
      rw [fifoCancel_eq]
      exact .cancel id rest pending intact
  · cases returned

theorem handleRm_effect (pending : s.rm = event :: rest)
    (returned : handleRm event { s with rm := rest } = .ok next) : Effect clusters s .rm next := by
  cases event with
  | req session =>
    rcases scdBaseRmRequest_cases returned with ⟨none, rfl⟩ | ⟨asked, nodes, chosen, rfl⟩
    · exact .lose session rest pending none
    · exact .grant session rest nodes pending asked chosen
  | active session =>
    rcases scdBaseRmActive_cases returned with rfl | ⟨sent, known, rfl⟩
    · exact .stall session rest pending
    · exact .launch session rest sent pending known
  | kill session =>
    obtain ⟨sent, known, rfl⟩ := scdBaseRmKill_cases returned
    exact .kill session rest sent pending known

theorem step_effect (steps : step clusters s label = some next) : Effect clusters s label next := by
  cases label with
  | scd =>
    simp only [step] at steps
    split at steps
    · cases steps
    · rename_i event rest pending
      exact handleScd_effect s pending ((toOption_eq_some ..).mp steps)
  | rm =>
    simp only [step] at steps
    split at steps
    · cases steps
    · rename_i event rest pending
      exact handleRm_effect s pending ((toOption_eq_some ..).mp steps)
  | submit alloc accepted =>
    cases accepted <;> cases steps
    · exact .refuse alloc
    · exact .submit alloc
  | cancel id =>
    cases steps
    exact .askCancel id
  | complete alloc =>
    simp only [step, Option.ite_none_right_eq_some, Option.some.injEq] at steps
    obtain ⟨known, rfl⟩ := steps
    unfold stepdComplete
    cases all : (checkIn alloc s.tracking).2 with
    | false => simpa [all] using Effect.checkIn alloc known all
    | true => simpa [all, activateScd] using Effect.complete alloc known all
  | report report =>
    simp only [step] at steps
    split at steps
    · cases steps
    · rename_i nodes _ _
      cases steps
      have same : nodes = (nodestateUpdate clusters report s.nodes).2 := by simp_all
      rw [same]
      exact .report report

end Step

end Orcm.SchedulerEffects
