import Orcm.RegexRoundTrip
import Orcm.SchedulerFlow

/-!
A request is sound if it finds enough free nodes, none of them is promised to a session whose
`ALLOCD` event is pending, and their names survive the node regex. In a run with sound requests
only, every session that comes back from the resource manager can be run, and no session is ever in
two places.
-/

namespace Orcm.SchedulerGrants

open CLibrary NodePool Hierarchy RegexExtract RegexCreate RegexRoundTrip Scheduler SchedulerEffects
    SchedulerFlow
open SessionFlow

instance (names : List Name) : Decidable (RoundTrips names) :=
  match read : (orteRegexCreate (joinWith ',' names) >>= fun regexp => orteRegexExtractNodeNames
    (some regexp)) with
  | .ok out =>
    decidable_of_iff (out.Perm names) <| by
      constructor
      · exact fun same => ⟨out, read, same⟩
      · rintro ⟨other, returned, same⟩
        rw [read] at returned
        cases returned
        exact same
  | .error fault =>
    isFalse <| by
      rintro ⟨other, returned, -⟩
      rw [read] at returned
      cases returned

/-- Node names are compared by their characters. -/
instance lawfulBEqName : LawfulBEq Name := inferInstance

def nodeList (alloc : Alloc) : List Name :=
  if usable alloc then (orteRegexExtractNodeNames alloc.nodes).toOption.getD [] else []

/-- The nodes that have been chosen but not yet marked. -/
def promised (s : State) : List Name :=
  (allocds s.scd).flatMap fun session => nodeList (s.object session).alloc

def soundRequest (s : State) : Label → Bool
  | .rm =>
    match s.rm with
    | .req session :: _ =>
      let alloc := (s.object session).alloc
      let names := pickNodes alloc s.nodes
      alloc.min_nodes ≤ 0 ||
        (names.length = alloc.min_nodes && RoundTrips names && names ≠ [errorText] &&
          names.all (· ∉ promised s))
    | _ => true
  | _ => true

variable {alloc : Alloc}

theorem usable_extract (good : usable alloc = true) :
    ∃ nodenames, orteRegexExtractNodeNames alloc.nodes = .ok nodenames ∧
      (nodenames.length : Int) = alloc.min_nodes ∧
      nodeList alloc = nodenames := by
  have listed := good
  unfold usable at listed
  cases nodes : alloc.nodes with
  | none => simp [nodes] at listed
  | some regexp =>
    rw [nodes] at listed
    cases extracted : orteRegexExtractNodeNames (some regexp) with
    | error => simp [extracted] at listed
    | ok nodenames =>
      simp only [extracted, Bool.and_eq_true, decide_eq_true_eq] at listed
      exact ⟨nodenames, rfl, listed.2, by simp [nodeList, good, nodes, extracted, Except.toOption]⟩

theorem nodeList_eq (good : usable alloc = true)
    (extracted : orteRegexExtractNodeNames alloc.nodes = .ok nodenames) :
    nodeList alloc = nodenames := by
  obtain ⟨names, listed, -, same⟩ := usable_extract good
  rw [extracted] at listed
  cases listed
  exact same

theorem chooseNodes_sound
    (enough : ((pickNodes alloc pool).length : Int) = alloc.min_nodes)
    (keeps : RoundTrips (pickNodes alloc pool))
    (plain : pickNodes alloc pool ≠ [errorText]) (chosen : chooseNodes alloc pool = .ok nodes) :
    usable { alloc with nodes } = true ∧ (nodeList { alloc with nodes }).Perm
      (pickNodes alloc pool) := by
  obtain ⟨out, read, same⟩ := keeps
  obtain ⟨regexp, created, extracted⟩ := (Result.bind_eq_ok ..).mp read
  rw [chooseNodes, if_pos enough, created] at chosen
  cases chosen
  have differs : regexp ≠ errorText := by
    rintro rfl
    cases extracted
    exact plain (List.singleton_perm.mp same).symm
  have good : usable { alloc with nodes := some regexp } = true := by
    have sized : (out.length : Int) = alloc.min_nodes := by rw [same.length_eq, enough]
    simp [usable, differs, extracted, sized]
  exact ⟨good, by simpa [nodeList, good, extracted, Except.toOption] using same⟩

variable {s : State}

theorem soundRequest_iff (pending : s.rm = .req session :: rest)
    (asked : 0 < (s.object session).alloc.min_nodes) :
    soundRequest s .rm = true ↔
      ((pickNodes (s.object session).alloc s.nodes).length : Int) =
        (s.object session).alloc.min_nodes ∧
      RoundTrips (pickNodes (s.object session).alloc s.nodes) ∧
      pickNodes (s.object session).alloc s.nodes ≠ [errorText] ∧
      ∀ name ∈ pickNodes (s.object session).alloc s.nodes, name ∉ promised s := by
  have positive : ¬ (s.object session).alloc.min_nodes ≤ 0 := by omega
  simp [soundRequest, pending, positive, and_assoc]

structure Sound (s : State) : Prop where
  distinct : Distinct (flow s noHistory)
  good : ∀ session ∈ allocds s.scd, usable (s.object session).alloc = true

theorem Sound.known (sound : Sound s) (member : ref ∈ all (flow s noHistory)) :
    ref < s.allocated := List.mem_range.mp (sound.distinct.known ref member)

theorem Sound.start {nodes : Pool} : Sound (start nodes) :=
  ⟨⟨fun _ => Nat.zero_le 1, fun _ member => by cases member⟩, fun _ member => by cases member⟩

variable (sound : Sound s)
include sound

theorem Sound.usable_next (pending : s.scd = .allocd session :: rest) :
    usable (s.object session).alloc = true :=
  sound.good session (by simp [pending, allocds])

theorem Sound.elsewhere (pending : s.rm = .req session :: rest) :
    ∀ ref ∈ s.running ++ allocds s.scd, ref ≠ session := by
  rintro ref member rfl
  -- it would be counted twice among all places
  have once := sound.distinct.once ref
  have given := List.count_pos_iff.mpr member
  have asked : 0 < (reqs s.rm).count ref := List.count_pos_iff.mpr (by simp [pending, reqs])
  simp only [all, places, flow, List.count_append] at once given
  omega

theorem Sound.tidy (explained : Explained s label move) :
    Tidy (flow s noHistory) move := by
  cases move with
  | putBack =>
    obtain ⟨-, pending, bad⟩ := explained
    obtain ⟨rest, pending⟩ := List.head?_eq_some_iff.mp pending
    rw [sound.usable_next pending] at bad
    cases bad
  | _ => trivial

theorem Sound.distinct_step (effect : Effect clusters s label next) :
    Distinct (flow next noHistory) := by
  obtain ⟨move, moves, explained⟩ := step_moves effect
  have distinct := sound.distinct.moves moves (sound.tidy explained)
  exact ⟨distinct.once, distinct.known⟩

theorem Sound.good_step (permitted : soundRequest s label = true)
    (effect : Effect clusters s label next) :
    ∀ session ∈ allocds next.scd, usable (next.object session).alloc = true := by
  intro ref member
  cases effect with
  | grant session rest nodes pending asked chosen =>
    obtain ⟨enough, keeps, plain, -⟩ := (soundRequest_iff pending asked).mp permitted
    by_cases same : ref = session
    · rw [same]
      simpa [grantNodes] using (chooseNodes_sound enough keeps plain chosen).1
    · have before : ref ∈ allocds s.scd := by simpa [allocds, same] using member
      simpa [grantNodes, Function.update_of_ne same] using sound.good ref before
  | submit =>
    have before : ref ∈ allocds s.scd := by simpa [allocds] using member
    have old : ref ≠ s.allocated :=
      Nat.ne_of_lt (sound.known (by simp [all, places, flow, before]))
    simpa [Function.update_of_ne old] using sound.good ref before
  | cancel id rest pending =>
    refine sound.good ref ?_
    rw [pending]
    cases inHold : s.hold.any (hasId s id) <;> cases inDefault : s.default.any (hasId s id) <;>
      simpa [-List.any_eq_true, inHold, inDefault, allocds] using member
  | _ => exact sound.good ref (by simp_all [allocds])

theorem Sound.step (permitted : soundRequest s label = true)
    (effect : Effect clusters s label next) : Sound next :=
  ⟨sound.distinct_step effect, sound.good_step permitted effect⟩

end Orcm.SchedulerGrants
