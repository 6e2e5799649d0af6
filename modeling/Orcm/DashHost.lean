import Orcm.ArgumentVector
import Orcm.ErrorCode
import Orcm.KeyedList

/-!
The host option: `orte_util_add_dash_host_nodes` counts the slots of each host that is named in a
list of its own, which is then merged into the list of nodes. Which names are local is a parameter.
-/

namespace Orcm.DashHost

open CLibrary KeyedList
open DssTypes (CText)

/-- `orte_node_state_t` -/
inductive NodeState where
  | undef | unknown | down | up | reboot | do_not_use | not_included | added

structure Node where
  name : CString
  state : NodeState
  slots : Int
  slots_given : Bool
  slots_inuse : Int
  slots_max : Int

/-- `opal_argv_split`: empty parts are left out. -/
def argvSplit (text : CString) (delimiter : Char) : List CString :=
  (text.splitOn delimiter).filter (· ≠ [])

section

open ArgumentVector

def chars (bytes : List UInt8) : CString := bytes.map fun byte => Char.ofNat byte.toNat

theorem comma_iff (byte : UInt8) : charValue byte = 44 ↔ Char.ofNat byte.toNat = ',' := by
  have codes : ∀ code : Nat, code < 256 → (Int.bmod code 256 = 44 ↔ Char.ofNat code = ',') := by
    decide +kernel
  exact codes byte.toNat byte.toNat_lt

theorem parts_chars (bytes : List UInt8) :
    (parts 44 bytes).map chars = (chars bytes).splitOn ',' := by
  induction bytes with
  | nil => rfl
  | cons byte rest ih =>
    change _ = (Char.ofNat byte.toNat :: chars rest).splitOnP (· == ',')
    change _ = (chars rest).splitOnP (· == ',') at ih
    rw [parts_cons, List.splitOnP_cons_eq_if_modifyHead, ← ih]
    by_cases comma : charValue byte = 44
    · simp [comma, (comma_iff byte).mp comma, chars]
    · have other := mt (comma_iff byte).mpr comma
      cases parts 44 rest <;> simp [comma, other, chars]

/-- The parts are those that `opal_argv_split` of the argument vectors finds. -/
theorem argvSplit_eq (text : CText) (argv : List CText) (done : opalArgvSplit text 44 = some argv) :
    argv.map (fun arg => chars arg.bytes) = argvSplit (chars text.bytes) ',' := by
  have split : opalArgvSplit text 44 = appended [] (kept false (parts 44 text.bytes)) :=
    splitLoop_eq 44 text.bytes (Nat.lt_succ_self _)
  rw [split, appended] at done
  split at done
  · cases done
    have clean : ∀ part ∈ parts 44 text.bytes, chars (CText.ofBlock part).bytes = chars part := by
      intro part member
      rw [ofBlock_bytes fun zero => text.noZero (parts_subset 44 _ part member 0 zero)]
    have filtered : (parts 44 text.bytes).filter (· ≠ []) =
        (parts 44 text.bytes).filter fun part => decide (chars part ≠ []) := by
      simp [chars]
    rw [argvSplit, ← parts_chars, List.filter_map, List.nil_append, List.map_map, kept, filtered]
    exact List.map_congr_left fun part member => clean part (List.mem_of_mem_filter member)
  · cases done

end

/-- Each part is split once more. -/
def mappedNodes (hosts : CString) : List CString := (argvSplit hosts ',').flatMap (argvSplit · ',')

def slotsGiven (entry : CString) : Option Int :=
  match entry.dropWhile (· ≠ ':') with
  | [] => none
  | _ :: '*' :: _ => some 0
  | _ :: count => some (toInt (strtol count).1)

def slotsOf (entry : CString) : Int := (slotsGiven entry).getD 1

section

variable (nodename : CString) (islocal : CString → Bool)

def ndname (entry : CString) : CString :=
  let name := entry.takeWhile (· ≠ ':')
  if islocal name then nodename else name

def addMention (adds : List Node) (entry : CString) : Result (List Node) :=
  if entry.head? = some '+' then .fail .silent
  else
    let name := ndname nodename islocal entry
    let slots := slotsOf entry
    match lookup Node.name name adds with
    | some node => do
      let total ← intAdd node.slots slots
      return replace Node.name name
        { node with slots := total, slots_given := node.slots_given || 0 < slots } adds
    | none => return adds ++ [⟨name, .up, slots, 0 < slots, 0, 0⟩]

/-- The slots are those that were given with the last entry, whichever host it names. -/
def Node.take (last : Option Int) (nd node : Node) : Node :=
  { node with slots := last.getD node.slots, slots_given := node.slots_given || nd.slots_given }

def transferNode (last : Option Int) (nodes : List Node) (nd : Node) : List Node :=
  match lookup Node.name nd.name nodes with
  | some node => replace Node.name nd.name (nd.take last node) nodes
  | none => nodes ++ [nd]

def addDashHostNodes (nodes : List Node) (hosts : CString) : Result (List Node) := do
  let adds ← (mappedNodes hosts).foldlM (addMention nodename islocal) []
  return adds.foldl (transferNode ((mappedNodes hosts).getLast?.bind slotsGiven)) nodes

def mentions (entries : List CString) (name : CString) : List CString :=
  entries.filter (ndname nodename islocal · = name)

def total (entries : List CString) (name : CString) : Int :=
  ((mentions nodename islocal entries name).map slotsOf).sum

/-- What the call should do to the nodes. -/
structure Added (entries : List CString) (nodes final : List Node) : Prop where
  once : Unique Node.name final ∧ ∀ entry ∈ entries,
    ndname nodename islocal entry ∈ final.map Node.name
  new : ∀ node ∈ final, node.name ∉ nodes.map Node.name →
    mentions nodename islocal entries node.name ≠ [] ∧
      node.slots = total nodename islocal entries node.name
  own : ∀ node ∈ nodes, ∀ after ∈ final, after.name = node.name → after.slots = node.slots ∨
    ∃ entry ∈ mentions nodename islocal entries node.name, slotsGiven entry = some after.slots
  others : ∀ node ∈ nodes, mentions nodename islocal entries node.name = [] → node ∈ final

end

variable {nodename : CString} {islocal : CString → Bool}

theorem addMention_spec (unique : Unique Node.name adds)
    (added : addMention nodename islocal adds entry = .ok next) :
    Unique Node.name next ∧ ∀ name, (lookup Node.name name next).map Node.slots =
      if name = ndname nodename islocal entry
      then some (((lookup Node.name name adds).map Node.slots).getD 0 + slotsOf entry)
      else (lookup Node.name name adds).map Node.slots := by
  simp only [addMention] at added
  split at added
  · cases added
  · split at added
    · rename_i node found
      obtain ⟨sum, summed, same⟩ := (Result.bind_eq_ok ..).mp added
      cases same
      have exact : node.slots + slotsOf entry = sum := by
        unfold intAdd at summed
        split at summed
        · exact Except.ok.inj summed
        · cases summed
      have key := lookup_key Node.name _ node adds found
      refine ⟨unique_replace Node.name _ _ adds key unique, fun name => ?_⟩
      rw [lookup_replace Node.name]
      · split
        · rename_i same
          simp [same, found, exact]
        · rfl
      · exact key
    · rename_i absent
      cases added
      refine ⟨unique_append Node.name _ adds unique absent, fun name => ?_⟩
      rw [lookup_append Node.name name _ absent]
      split
      · rename_i same
        simp [show name = ndname nodename islocal entry from same, absent]
      · rfl

theorem collect_spec (unique : Unique Node.name adds)
    (collected : entries.foldlM (addMention nodename islocal) adds = .ok final) :
    Unique Node.name final ∧ ∀ name, (lookup Node.name name final).map Node.slots =
      if mentions nodename islocal entries name = [] then
        (lookup Node.name name adds).map Node.slots
      else some (((lookup Node.name name adds).map Node.slots).getD 0 + total nodename islocal
        entries name) := by
  induction entries generalizing adds with
  | nil =>
    cases collected
    exact ⟨unique, fun name => rfl⟩
  | cons entry rest ih =>
    obtain ⟨next, first, later⟩ := (Result.bind_eq_ok ..).mp collected
    obtain ⟨uniqueNext, found⟩ := addMention_spec unique first
    obtain ⟨uniqueFinal, slots⟩ := ih uniqueNext later
    refine ⟨uniqueFinal, fun name => ?_⟩
    rw [slots name, found name]
    by_cases same : name = ndname nodename islocal entry
    · have more : mentions nodename islocal (entry :: rest) name = entry :: mentions nodename
          islocal rest name :=
        List.filter_cons_of_pos (by simpa using same.symm)
      rw [total, total, more]
      split
      · rename_i none
        simp [none]
      · simp [Int.add_assoc]
    · have skip :
          mentions nodename islocal (entry :: rest) name = mentions nodename islocal rest name :=
        List.filter_cons_of_neg (by simpa using Ne.symm same)
      rw [if_neg same, total, total, skip]

theorem transferNode_spec {last : Option Int} (unique : Unique Node.name nodes) :
    Unique Node.name (transferNode last nodes nd) ∧
      ∀ name, lookup Node.name name (transferNode last nodes nd) =
      if name = nd.name then some (((lookup Node.name name nodes).map (nd.take last)).getD nd)
      else lookup Node.name name nodes := by
  unfold transferNode
  split
  · rename_i node found
    have key : (nd.take last node).name = nd.name := lookup_key Node.name _ node nodes found
    refine ⟨unique_replace Node.name _ _ nodes key unique, fun name => ?_⟩
    rw [lookup_replace Node.name _ name _ nodes key]
    split
    · rename_i same
      simp [same, found]
    · rfl
  · rename_i absent
    refine ⟨unique_append Node.name nd nodes unique absent, fun name => ?_⟩
    rw [lookup_append Node.name name nd absent]
    split
    · rename_i same
      simp [same, absent]
    · rfl

theorem transfer_spec {last : Option Int} (uniqueAdds : Unique Node.name adds)
    (unique : Unique Node.name nodes) :
    Unique Node.name (adds.foldl (transferNode last) nodes) ∧ ∀ name,
      lookup Node.name name (adds.foldl (transferNode last) nodes) =
        ((lookup Node.name name adds).map fun nd =>
          ((lookup Node.name name nodes).map (nd.take last)).getD nd).or
          (lookup Node.name name nodes) := by
  induction adds generalizing nodes with
  | nil => exact ⟨unique, fun name => rfl⟩
  | cons nd rest ih =>
    obtain ⟨fresh, uniqueRest⟩ := List.nodup_cons.mp uniqueAdds
    obtain ⟨uniqueNext, found⟩ := transferNode_spec unique
    obtain ⟨uniqueFinal, merged⟩ := ih uniqueRest uniqueNext
    refine ⟨uniqueFinal, fun name => ?_⟩
    rw [List.foldl_cons, merged name, found name]
    by_cases same : name = nd.name
    · -- no later host has the name
      have absent := (lookup_eq_none nd.name).mpr fresh
      have first : lookup Node.name nd.name (nd :: rest) = some nd :=
        List.find?_cons_of_pos (by simp)
      rw [if_pos same, same, absent, first]
      rfl
    · have skip : lookup Node.name name (nd :: rest) = lookup Node.name name rest :=
        List.find?_cons_of_neg (by simpa using Ne.symm same)
      rw [if_neg same, skip]

theorem addDashHostNodes_spec (unique : Unique Node.name nodes)
    (done : addDashHostNodes nodename islocal nodes hosts = .ok final) :
    Unique Node.name final ∧ ∀ name,
      (mentions nodename islocal (mappedNodes hosts) name = [] →
        lookup Node.name name final = lookup Node.name name nodes) ∧
      (mentions nodename islocal (mappedNodes hosts) name ≠ [] → ∃ nd : Node, nd.name = name ∧
        nd.slots = total nodename islocal (mappedNodes hosts) name ∧ lookup Node.name name final =
          some (((lookup Node.name name nodes).map
            (nd.take ((mappedNodes hosts).getLast?.bind slotsGiven))).getD nd)) := by
  obtain ⟨adds, collected, same⟩ := (Result.bind_eq_ok ..).mp done
  cases same
  have start : Unique Node.name [] := List.nodup_nil
  obtain ⟨uniqueAdds, slots⟩ := collect_spec start collected
  obtain ⟨uniqueFinal, merged⟩ := transfer_spec uniqueAdds unique
  refine ⟨uniqueFinal, fun name => ⟨fun unnamed => ?_, fun named => ?_⟩⟩
  · have absent := slots name
    rw [if_pos unnamed] at absent
    rw [merged name, Option.map_eq_none_iff.mp absent]
    rfl
  · have counted := slots name
    rw [if_neg named] at counted
    obtain ⟨nd, found, sum⟩ := Option.map_eq_some_iff.mp counted
    refine ⟨nd, lookup_key Node.name name nd adds found, ?_, ?_⟩
    · simpa [lookup] using sum
    · rw [merged name, found]
      rfl

/-- An existing node takes the slots that were given with the last entry of the option, so the
call is right exactly when these are its own. -/
theorem hosts_added {nodes final : List Node} {hosts : CString} (unique : Unique Node.name nodes)
    (done : addDashHostNodes nodename islocal nodes hosts = .ok final) :
    Added nodename islocal (mappedNodes hosts) nodes final ↔
      ∀ slots, (mappedNodes hosts).getLast?.bind slotsGiven = some slots → ∀ node ∈ nodes,
        mentions nodename islocal (mappedNodes hosts) node.name ≠ [] → node.slots = slots ∨
          ∃ entry ∈ mentions nodename islocal (mappedNodes hosts) node.name,
            slotsGiven entry = some slots := by
  obtain ⟨uniqueFinal, after⟩ := addDashHostNodes_spec unique done
  constructor
  · intro added slots last node member named
    obtain ⟨nd, _, _, found⟩ := (after node.name).2 named
    rw [lookup_of_mem node unique member] at found
    have own := added.own node member _ (List.mem_of_find?_eq_some found) rfl
    simp only [last] at own
    exact own.imp_left Eq.symm
  · intro given
    refine ⟨⟨uniqueFinal, fun entry member => ?_⟩, fun node member absent => ?_,
      fun node member next nextMember same => ?_, fun node member unnamed => ?_⟩
    · have named :
          mentions nodename islocal (mappedNodes hosts) (ndname nodename islocal entry) ≠ [] :=
        List.ne_nil_of_mem (List.mem_filter.mpr ⟨member, by simp⟩)
      obtain ⟨nd, _, _, found⟩ := (after _).2 named
      by_contra missing
      rw [(lookup_eq_none ..).mpr missing] at found
      cases found
    · have before := (lookup_eq_none node.name).mpr absent
      have found := lookup_of_mem node uniqueFinal member
      have named : mentions nodename islocal (mappedNodes hosts) node.name ≠ [] := by
        intro unnamed
        rw [(after node.name).1 unnamed, before] at found
        cases found
      obtain ⟨nd, _, sum, place⟩ := (after node.name).2 named
      rw [found, before] at place
      cases place
      exact ⟨named, sum⟩
    · have before := lookup_of_mem node unique member
      have found := lookup_of_mem next uniqueFinal nextMember
      rw [same] at found
      by_cases named : mentions nodename islocal (mappedNodes hosts) node.name = []
      · rw [(after node.name).1 named, before] at found
        cases found
        exact .inl rfl
      · obtain ⟨nd, _, _, place⟩ := (after node.name).2 named
        rw [found, before] at place
        cases place
        cases last : (mappedNodes hosts).getLast?.bind slotsGiven with
        | none => exact .inl rfl
        | some slots => exact (given slots last node member named).imp_left Eq.symm
    · have kept := (after node.name).1 unnamed
      rw [lookup_of_mem node unique member] at kept
      exact List.mem_of_find?_eq_some kept

theorem hosts_added_counted :
    Added ['n'] (fun _ => false) (mappedNodes "b,a:3".toList) [⟨['a'], .up, 2, true, 0, 0⟩]
      [⟨['a'], .up, 3, true, 0, 0⟩, ⟨['b'], .up, 1, true, 0, 0⟩] := by
  have unique : Unique Node.name [⟨['a'], .up, 2, true, 0, 0⟩] := List.nodup_singleton _
  refine (hosts_added unique rfl).mpr ?_
  intro slots last node member _
  cases last
  cases List.mem_singleton.mp member
  exact .inr ⟨"a:3".toList, by decide, rfl⟩

/-- The count that is given for the second host goes to the first one. -/
theorem hosts_mixed :
    addDashHostNodes ['n'] (fun _ => false) [⟨['a'], .up, 2, true, 0, 0⟩] "a,b:5".toList =
        .ok [⟨['a'], .up, 5, true, 0, 0⟩, ⟨['b'], .up, 5, true, 0, 0⟩] ∧
      ¬ Added ['n'] (fun _ => false) (mappedNodes "a,b:5".toList) [⟨['a'], .up, 2, true, 0, 0⟩]
        [⟨['a'], .up, 5, true, 0, 0⟩, ⟨['b'], .up, 5, true, 0, 0⟩] := by
  refine ⟨rfl, fun added => ?_⟩
  have own := added.own _ List.mem_cons_self _ List.mem_cons_self rfl
  revert own
  decide

end Orcm.DashHost
