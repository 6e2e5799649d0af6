import Mathlib.Data.List.Chain
import Orcm.RegexCreate

/-!
The list that `orte_regex_create` builds, seen as groups of numbers. The first phase succeeds
exactly when every prefix fits its buffer and no group overflows `int`.
-/

namespace Orcm.RegexGroups

open CLibrary RegexExtract RegexCreate List Option Result

def numbers (range : RegexRange) : List Int :=
  (List.range range.cnt.toNat).map fun (offset : Nat) => range.start + offset

def rangeNumbers (ranges : List RegexRange) : List Int := ranges.flatMap numbers

structure RangeValid (range : RegexRange) : Prop where
  low : intMin ≤ range.start
  counted : 1 ≤ range.cnt
  high : range.start + range.cnt - 1 ≤ intMax

/-- The end of the range can be computed without overflow. -/
def Printable (range : RegexRange) : Prop := range.cnt = 1 ∨ range.start + range.cnt ≤ intMax

variable (number : Int)

theorem numbers_single : numbers ⟨number, 1⟩ = [number] := by simp [numbers]

theorem numbers_extend {start : Int} (counted : 1 ≤ cnt) :
    numbers ⟨start, cnt + 1⟩ = numbers ⟨start, cnt⟩ ++ [start + cnt] := by
  have size : (cnt + 1).toNat = cnt.toNat + 1 := by omega
  simp only [numbers, size, range_succ, map_append, map_cons]
  congr 2
  omega

variable {ranges : List RegexRange} {names : List Name} {ndreg : RegexNode}
    {nodeids : List RegexNode} {key : EntryKey}
    {name : Name}

theorem extendRanges_cases {number : Int} (extended : extendRanges ranges number = .ok result) :
    (ranges = [] ∧ result = [⟨number, 1⟩]) ∨
      ∃ front last, ranges = front ++ [last] ∧ last.start + last.cnt ≤ intMax ∧
        ((number ≠ last.start + last.cnt ∧ result = ranges ++ [⟨number, 1⟩]) ∨
          (number = last.start + last.cnt ∧ last.cnt + 1 ≤ intMax ∧
            result = front ++ [⟨last.start, last.cnt + 1⟩])) := by
  rcases ranges.eq_nil_or_concat with rfl | ⟨front, last, shape⟩
  · left
    cases extended
    exact ⟨rfl, rfl⟩
  · rw [concat_eq_append] at shape
    subst shape
    right
    refine ⟨front, last, rfl, ?_⟩
    simp only [extendRanges, getLast?_concat] at extended
    obtain ⟨next, sum, rest⟩ := (bind_eq_ok ..).mp extended
    obtain ⟨rfl, -, high⟩ := intAdd_eq_ok sum
    refine ⟨high, ?_⟩
    by_cases continues : number = last.start + last.cnt
    · right
      rw [if_neg (by simpa using continues)] at rest
      obtain ⟨cnt, sum', rest⟩ := (bind_eq_ok ..).mp rest
      obtain ⟨rfl, -, high'⟩ := intAdd_eq_ok sum'
      cases rest
      exact ⟨continues, high', by simp⟩
    · left
      rw [if_pos continues] at rest
      cases rest
      exact ⟨continues, rfl⟩

variable {number}

theorem extendRanges_ok (valid : RangeValid last) (next : last.start + last.cnt ≤ intMax)
    (room : number = last.start + last.cnt → last.cnt + 1 ≤ intMax) :
    extendRanges (front ++ [last]) number =
      .ok (if number = last.start + last.cnt then front ++ [⟨last.start, last.cnt + 1⟩]
        else front ++ [last] ++ [⟨number, 1⟩]) := by
  have low := valid.low
  have counted := valid.counted
  simp only [extendRanges, getLast?_concat]
  rw [intAdd_ok _ _ (by omega) next, ok_bind]
  by_cases continues : number = last.start + last.cnt
  · rw [if_neg (by simpa using continues), intAdd_ok _ _ (by simp only [intMin]; omega)
      (room continues), if_pos continues]
    simp
  · rw [if_pos continues, if_neg continues]
    simp

theorem extendRanges_valid (valid : ∀ range ∈ ranges, RangeValid range) (low : intMin ≤ number)
    (high : number ≤ intMax) (extended : extendRanges ranges number = .ok result) :
    result ≠ [] ∧ ∀ range ∈ result, RangeValid range := by
  have single : RangeValid ⟨number, 1⟩ := ⟨low, by simp, by simpa using high⟩
  rcases extendRanges_cases extended with
    ⟨rfl, rfl⟩ | ⟨front, last, rfl, next, ⟨-, rfl⟩ | ⟨rfl, room, rfl⟩⟩
  · exact ⟨by simp, by simpa using single⟩
  · refine ⟨by simp, fun range member => ?_⟩
    rcases List.mem_append.mp member with old | new
    · exact valid range old
    · rw [List.mem_singleton.mp new]
      exact single
  · have old := valid last (by simp)
    have longer : RangeValid ⟨last.start, last.cnt + 1⟩ :=
      ⟨old.low, by have := old.counted; simp only; omega, by simp only; omega⟩
    refine ⟨by simp, fun range member => ?_⟩
    rcases List.mem_append.mp member with old | new
    · exact valid range (mem_append_left _ old)
    · rw [List.mem_singleton.mp new]
      exact longer

theorem extendRanges_numbers (valid : ∀ range ∈ ranges, RangeValid range)
    (extended : extendRanges ranges number = .ok result) :
    rangeNumbers result = rangeNumbers ranges ++ [number] := by
  rcases extendRanges_cases extended with
    ⟨rfl, rfl⟩ | ⟨front, last, rfl, next, ⟨-, rfl⟩ | ⟨rfl, room, rfl⟩⟩
  · simp [rangeNumbers, numbers_single]
  · simp [rangeNumbers, numbers_single]
  · have counted := (valid last (by simp)).counted
    simp [rangeNumbers, numbers_extend counted]

def collect (group : List Int) : Result (List RegexRange) := group.foldlM extendRanges []

variable (number)

theorem collect_append :
    collect (group ++ [number]) = collect group >>= fun ranges => extendRanges ranges number := by
  simp only [collect, foldlM_append, foldlM_cons, foldlM_nil, bind_pure]

def InInt (number : Int) : Prop := intMin ≤ number ∧ number ≤ intMax

theorem collect_valid (bounded : ∀ number ∈ group, InInt number)
    (collected : collect group = .ok ranges) :
    rangeNumbers ranges = group ∧ ∀ range ∈ ranges, RangeValid range := by
  induction group using List.reverseRecOn generalizing ranges with
  | nil =>
    cases collected
    exact ⟨rfl, by simp⟩
  | append_singleton group number ih =>
    rw [collect_append, bind_eq_ok] at collected
    obtain ⟨before, earlier, extended⟩ := collected
    obtain ⟨same, valid⟩ := ih (fun other member => bounded other (by simp [member])) earlier
    have fits := bounded number (by simp)
    exact ⟨by rw [extendRanges_numbers valid extended, same],
      (extendRanges_valid valid fits.1 fits.2 extended).2⟩

theorem numbers_getLast {range : RegexRange} (counted : 1 ≤ range.cnt) :
    (numbers range).getLast? = some (range.start + range.cnt - 1) := by
  obtain ⟨start, cnt⟩ := range
  obtain ⟨fewer, rfl⟩ : ∃ fewer, cnt = fewer + 1 := ⟨cnt - 1, by omega⟩
  by_cases one : fewer = 0
  · subst one
    simp [numbers]
  · rw [numbers_extend (by simp only at counted; omega), getLast?_concat]
    congr 1
    simp only
    omega

theorem rangeNumbers_getLast {front : List RegexRange} {last : RegexRange}
    (counted : 1 ≤ last.cnt) :
    (rangeNumbers (front ++ [last])).getLast? = some (last.start + last.cnt - 1) := by
  rw [rangeNumbers, flatMap_append, flatMap_singleton, getLast?_append, numbers_getLast counted]
  rfl

/-- Two numbers that stand one after the other in a group: the `int` after the first exists, and a
second number that continues its range leaves room for the end of the range to be computed. -/
def RangeSafe (number next : Int) : Prop := number < intMax ∧ ¬ (next = number + 1 ∧ next = intMax)

theorem extendRanges_printable_iff {ranges : List RegexRange}
    (valid : ∀ range ∈ ranges, RangeValid range ∧ 0 ≤ range.start) :
    (∃ result, extendRanges ranges number = .ok result ∧ ∀ range ∈ result, Printable range) ↔
      (∀ range ∈ ranges, Printable range) ∧ ∀ last ∈ (rangeNumbers ranges).getLast?,
        RangeSafe last number := by
  rcases ranges.eq_nil_or_concat with rfl | ⟨front, last, shape⟩
  · constructor
    · simp [rangeNumbers]
    · exact fun _ => ⟨[⟨number, 1⟩], rfl, by simp [Printable]⟩
  · rw [concat_eq_append] at shape
    subst shape
    obtain ⟨old, start⟩ := valid last (by simp)
    have counted := old.counted
    rw [rangeNumbers_getLast counted]
    simp only [mem_def, Option.some.injEq, forall_eq', RangeSafe]
    constructor
    · rintro ⟨result, extended, printable⟩
      rcases extendRanges_cases extended with
        ⟨empty, -⟩ | ⟨front', last', shape, next, ⟨differs, rfl⟩ | ⟨continues, room, rfl⟩⟩
      · simp at empty
      · obtain ⟨rfl, same⟩ := append_inj' shape rfl
        cases same
        exact ⟨fun range member => printable range (mem_append_left _ member), by omega, by omega⟩
      · obtain ⟨rfl, same⟩ := append_inj' shape rfl
        cases same
        have longer := printable ⟨last.start, last.cnt + 1⟩ (by simp)
        simp only [Printable] at longer
        refine ⟨fun range member => ?_, by omega, by omega⟩
        rcases List.mem_append.mp member with earlier | final
        · exact printable range (mem_append_left _ earlier)
        · rw [List.mem_singleton.mp final]
          exact .inr next
    · rintro ⟨printable, low, high⟩
      refine ⟨_, extendRanges_ok old (by omega) (by omega), ?_⟩
      intro range member
      split at member
      · rcases List.mem_append.mp member with earlier | final
        · exact printable range (mem_append_left _ earlier)
        · rw [List.mem_singleton.mp final]
          right
          simp only
          omega
      · rcases List.mem_append.mp member with earlier | final
        · exact printable range earlier
        · rw [List.mem_singleton.mp final]
          exact .inl rfl

theorem start_mem_rangeNumbers (ranges : List RegexRange) {range : RegexRange}
    (member : range ∈ ranges) (counted : 1 ≤ range.cnt) : range.start ∈ rangeNumbers ranges := by
  refine List.mem_flatMap.mpr ⟨range, member, List.mem_map.mpr ⟨0, ?_, by simp⟩⟩
  rw [mem_range]
  omega

theorem collect_printable_iff (bounded : ∀ number ∈ group, 0 ≤ number ∧ number ≤ intMax) :
    (∃ ranges, collect group = .ok ranges ∧ ∀ range ∈ ranges, Printable range) ↔
      group.IsChain RangeSafe := by
  induction group using List.reverseRecOn with
  | nil => exact ⟨fun _ => .nil, fun _ => ⟨[], rfl, by simp⟩⟩
  | append_singleton group number ih =>
    have earlierBounded : ∀ other ∈ group, 0 ≤ other ∧ other ≤ intMax :=
      fun other member => bounded other (by simp [member])
    have step (ranges : List RegexRange) (collected : collect group = .ok ranges) :
        (∃ result, extendRanges ranges number = .ok result ∧ ∀ range ∈ result, Printable range) ↔
          (∀ range ∈ ranges, Printable range) ∧ ∀ last ∈ group.getLast?, RangeSafe last number := by
      have inInt : ∀ other ∈ group, InInt other := fun other member =>
        ⟨by have := (earlierBounded other member).1; simp only [intMin]; omega,
          (earlierBounded other member).2⟩
      obtain ⟨same, valid⟩ := collect_valid inInt collected
      have starts (range : RegexRange) (member : range ∈ ranges) : 0 ≤ range.start :=
        (earlierBounded _ (same ▸ start_mem_rangeNumbers ranges member
          (valid range member).counted)).1
      rw [extendRanges_printable_iff number fun range member =>
        ⟨valid range member, starts range member⟩, same]
    rw [isChain_append, ← ih earlierBounded]
    simp only [collect_append, bind_eq_ok, head?_cons, mem_def, Option.some.injEq, forall_eq']
    constructor
    · rintro ⟨result, ⟨ranges, collected, extended⟩, printable⟩
      obtain ⟨earlier, neighbours⟩ := (step ranges collected).mp ⟨result, extended, printable⟩
      exact ⟨⟨ranges, collected, earlier⟩, .singleton _, neighbours⟩
    · rintro ⟨⟨ranges, collected, earlier⟩, -, neighbours⟩
      obtain ⟨result, extended, printable⟩ := (step ranges collected).mpr ⟨earlier, neighbours⟩
      exact ⟨result, ⟨ranges, collected, extended⟩, printable⟩

structure EntryKey where
  pfx : CString
  suffix : CString
  digits : Nat
  deriving DecidableEq, Repr

def keyOf (name : Name) : EntryKey := ⟨leading name, trailing name, digitCount name⟩

def groupNumbers (key : EntryKey) (names : List Name) : List Int :=
  (names.filter fun name => Numbered name ∧ keyOf name = key).map nodenum

def entryKey (ndreg : RegexNode) : Option EntryKey :=
  ndreg.suffix.map fun suffix => ⟨ndreg.pfx.getD [], suffix, ndreg.num_digits⟩

def rangesOf (key : EntryKey) (nodeids : List RegexNode) : List RegexRange :=
  ((nodeids.find? fun ndreg => entryKey ndreg = some key).map RegexNode.ranges).getD []

def putRanges (key : EntryKey) (ranges : List RegexRange) : List RegexNode → List RegexNode
  | [] => [⟨optionalText key.pfx, some key.suffix, key.digits, ranges⟩]
  | ndreg :: rest =>
    if entryKey ndreg = some key then { ndreg with ranges } :: rest
      else ndreg :: putRanges key ranges rest

inductive Entry (names : List Name) : RegexNode → Prop where
  | plain (name : Name) (member : name ∈ names) (plain : ¬ Numbered name) : Entry names
      ⟨some name, none, 0, []⟩
  | numbered (name : Name) (member : name ∈ names) (numbered : Numbered name)
      (ranges : List RegexRange)
      (some : ranges ≠ []) (valid : ∀ range ∈ ranges, RangeValid range) :
      Entry names ⟨optionalText (leading name), .some (trailing name), digitCount name, ranges⟩

def entryNames (ndreg : RegexNode) : List Name :=
  match ndreg.suffix with
  | none => ndreg.pfx.toList
  | some suffix => (rangeNumbers ndreg.ranges).map fun number =>
    ndreg.pfx.getD [] ++ zeroPad ndreg.num_digits number.toNat ++ suffix

/-- What becomes of a name: all its digits are counted into the padding of its one number. -/
def storedName (name : Name) : Name :=
  if Numbered name then
    leading name ++ zeroPad (digitCount name) (nodenum name).toNat ++ trailing name else name

def ApartKeys (left right : RegexNode) : Prop :=
  ∀ key, entryKey left = some key → entryKey right ≠ some key

/-- The list of entries after the given names have been read. -/
structure Represents (names : List Name) (nodeids : List RegexNode) : Prop where
  entries : ∀ ndreg ∈ nodeids, Entry names ndreg
  distinct : nodeids.Pairwise ApartKeys
  groups : ∀ key, collect (groupNumbers key names) = .ok (rangesOf key nodeids)
  stored : (nodeids.flatMap entryNames).Perm (names.map storedName)

theorem nodenum_inInt (name : Name) : InInt (nodenum name) := toInt_bounds _

theorem entry_mono (entry : Entry names ndreg) :
    Entry (names ++ more) ndreg := by
  cases entry with
  | plain name member plain => exact .plain name (mem_append_left _ member) plain
  | numbered name member numbered ranges some valid =>
    exact .numbered name (mem_append_left _ member) numbered ranges some valid

theorem sameEntry_iff (entry : Entry names ndreg) (pfx suffix : CString) (digits : Nat) :
    sameEntry pfx suffix digits ndreg = true ↔ entryKey ndreg = some ⟨pfx, suffix, digits⟩ := by
  cases entry with
  | plain => simp [sameEntry, entryKey]
  | numbered name =>
    simp only [sameEntry, entryKey, map_some, optionalText_getD, Option.some.injEq,
      EntryKey.mk.injEq, Bool.and_eq_true, decide_eq_true_eq]
    by_cases empty : pfx = [] <;> by_cases empty' : leading name = [] <;>
      simp [empty, empty', optionalText, eq_comm, and_assoc]

theorem recordNumber_eq (entries : ∀ ndreg ∈ nodeids, Entry names ndreg) (key : EntryKey)
    (number : Int) :
    recordNumber key.pfx key.suffix key.digits number nodeids =
      (putRanges key · nodeids) <$> extendRanges (rangesOf key nodeids) number := by
  induction nodeids with
  | nil => rfl
  | cons ndreg rest ih =>
    have same := sameEntry_iff (entries ndreg (by simp)) key.pfx key.suffix key.digits
    by_cases found : entryKey ndreg = some key
    · simp only [recordNumber, same.mpr found, ↓reduceIte, rangesOf, find?_cons, found, decide_true,
        map_some, getD_some, putRanges]
      cases extendRanges ndreg.ranges number <;> rfl
    · have differs : sameEntry key.pfx key.suffix key.digits ndreg = false := by
        rw [← Bool.not_eq_true, same]
        exact found
      have skip : rangesOf key (ndreg :: rest) = rangesOf key rest := by simp [rangesOf, found]
      simp only [recordNumber, differs, Bool.false_eq_true, ↓reduceIte, skip, putRanges, found,
        ih fun other member => entries other (by simp [member])]
      cases extendRanges (rangesOf key rest) number <;> rfl

theorem rangesOf_putRanges {ranges : List RegexRange} :
    rangesOf key (putRanges key ranges nodeids) = ranges := by
  induction nodeids with
  | nil => simp [rangesOf, putRanges, entryKey]
  | cons ndreg rest ih =>
    by_cases found : entryKey ndreg = some key
    · have kept : entryKey { ndreg with ranges } = some key := found
      simp [rangesOf, putRanges, found, kept]
    · simp only [putRanges, found, ↓reduceIte]
      simpa [rangesOf, found] using ih

theorem rangesOf_putRanges_of_ne {ranges : List RegexRange} (differs : other ≠ key) :
    rangesOf other (putRanges key ranges nodeids) = rangesOf other nodeids := by
  induction nodeids with
  | nil => simp [rangesOf, putRanges, entryKey, differs.symm]
  | cons ndreg rest ih =>
    by_cases found : entryKey ndreg = some key
    · have kept : entryKey { ndreg with ranges } = some key := found
      simp [rangesOf, putRanges, found, kept, differs.symm]
    · simp only [putRanges, found, ↓reduceIte]
      by_cases hit : entryKey ndreg = some other
      · simp [rangesOf, hit]
      · simpa [rangesOf, hit] using ih

theorem mem_putRanges (member : ndreg ∈ putRanges key ranges nodeids) :
    ndreg ∈ nodeids ∨ ndreg = ⟨optionalText key.pfx, some key.suffix, key.digits, ranges⟩ ∨
      ∃ old ∈ nodeids, entryKey old = some key ∧ ndreg = { old with ranges } := by
  induction nodeids with
  | nil => exact .inr (.inl (by simpa [putRanges] using member))
  | cons head rest ih =>
    simp only [putRanges] at member
    split at member
    case isTrue found =>
        rcases List.mem_cons.mp member with rfl | later
        · exact .inr (.inr ⟨head, by simp, found, rfl⟩)
        · exact .inl (by simp [later])
    case isFalse =>
        rcases List.mem_cons.mp member with rfl | later
        · exact .inl (by simp)
        · rcases ih later with old | new | ⟨old, oldMember, rest⟩
          · exact .inl (by simp [old])
          · exact .inr (.inl new)
          · exact .inr (.inr ⟨old, by simp [oldMember], rest⟩)

theorem putRanges_keys (member : ndreg ∈ putRanges key ranges nodeids) :
    entryKey ndreg = some key ∨ ndreg ∈ nodeids := by
  rcases mem_putRanges member with old | rfl | ⟨old, -, found, rfl⟩
  · exact .inr old
  · exact .inl (by simp [entryKey])
  · exact .inl found

theorem putRanges_distinct {ranges : List RegexRange} (distinct : nodeids.Pairwise ApartKeys) :
    (putRanges key ranges nodeids).Pairwise ApartKeys := by
  induction nodeids with
  | nil => simp [putRanges]
  | cons ndreg rest ih =>
    obtain ⟨apart, later⟩ := List.pairwise_cons.mp distinct
    by_cases found : entryKey ndreg = some key
    · simp only [putRanges, found, ↓reduceIte]
      exact List.pairwise_cons.mpr ⟨apart, later⟩
    · simp only [putRanges, found, ↓reduceIte]
      refine List.pairwise_cons.mpr ⟨fun other member => ?_, ih later⟩
      rcases putRanges_keys member with new | old
      · intro own hit
        rw [new, ne_eq, Option.some.injEq]
        rintro rfl
        exact found hit
      · exact apart other old

theorem putRanges_names {number : Int}
    (grown : rangeNumbers ranges = rangeNumbers (rangesOf key nodeids) ++ [number]) :
    ((putRanges key ranges nodeids).flatMap entryNames).Perm
      (nodeids.flatMap entryNames ++ [key.pfx ++ zeroPad key.digits number.toNat ++
        key.suffix]) := by
  induction nodeids with
  | nil =>
    have first : rangeNumbers ranges = [number] := by simpa [rangesOf, rangeNumbers] using grown
    simp [putRanges, entryNames, first]
  | cons ndreg rest ih =>
    by_cases found : entryKey ndreg = some key
    · have here : rangesOf key (ndreg :: rest) = ndreg.ranges := by simp [rangesOf, found]
      rw [here] at grown
      obtain ⟨suffix, shape, rfl⟩ := Option.map_eq_some_iff.mp found
      simp only [putRanges, found, ↓reduceIte, flatMap_cons, entryNames, shape, grown, map_append,
        map_cons, map_nil, append_assoc]
      exact perm_append_comm.append_left _
    · have skip : rangesOf key (ndreg :: rest) = rangesOf key rest := by simp [rangesOf, found]
      rw [skip] at grown
      simp only [putRanges, found, ↓reduceIte, flatMap_cons]
      simpa only [append_assoc] using (ih grown).append_left _

theorem rangesOf_valid (entries : ∀ ndreg ∈ nodeids, Entry names ndreg)
    (key : EntryKey) : ∀ range ∈ rangesOf key nodeids, RangeValid range := by
  unfold rangesOf
  cases found : nodeids.find? fun ndreg => entryKey ndreg = some key with
  | none => simp
  | some ndreg =>
    have entry := entries ndreg (mem_of_find?_eq_some found)
    cases entry with
    | plain => simp
    | numbered name member numbered ranges nonempty valid => exact valid

theorem groupNumbers_append :
    groupNumbers key (names ++ [name]) =
      if Numbered name ∧ keyOf name = key then groupNumbers key names ++ [nodenum name]
        else groupNumbers key names := by
  rw [groupNumbers, filter_append, map_append]
  by_cases own : Numbered name ∧ keyOf name = key
  · simp [own, groupNumbers]
  · have none : [name].filter (fun name => Numbered name ∧ keyOf name = key) = [] := by
      simpa [filter_eq_nil_iff] using own
    rw [if_neg own, none, map_nil, append_nil, groupNumbers]

theorem represents_plain (rep : Represents names nodeids) (plain : ¬ Numbered name) :
    Represents (names ++ [name]) (nodeids ++ [⟨some name, none, 0, []⟩]) where
  entries := by
    intro ndreg member
    rcases List.mem_append.mp member with old | new
    · exact entry_mono (rep.entries ndreg old)
    · rw [List.mem_singleton.mp new]
      exact .plain name (by simp) plain
  distinct := by
    refine List.pairwise_append.mpr ⟨rep.distinct, pairwise_singleton _ _, ?_⟩
    intro left _ right member key _
    rw [List.mem_singleton.mp member]
    simp [entryKey]
  groups := by
    intro key
    have same : rangesOf key (nodeids ++ [⟨some name, none, 0, []⟩]) = rangesOf key nodeids := by
      simp [rangesOf, entryKey]
    rw [groupNumbers_append, if_neg fun both => plain both.1, rep.groups key, same]
  stored := by
    simp only [flatMap_append, map_append]
    refine rep.stored.append ?_
    simp [entryNames, storedName, plain]

theorem represents_numbered (rep : Represents names nodeids) (numbered : Numbered name)
    (extended : extendRanges (rangesOf (keyOf name) nodeids) (nodenum name) = .ok ranges) :
    Represents (names ++ [name]) (putRanges (keyOf name) ranges nodeids) where
  entries := by
    have old := rangesOf_valid rep.entries (keyOf name)
    have inInt := nodenum_inInt name
    obtain ⟨nonempty, valid⟩ := extendRanges_valid old inInt.1 inInt.2 extended
    have new : Entry (names ++ [name]) ⟨optionalText (leading name), some (trailing name),
        digitCount name, ranges⟩ :=
      .numbered name (by simp) numbered ranges nonempty valid
    intro ndreg member
    rcases mem_putRanges member with kept | rfl | ⟨before, present, found, rfl⟩
    · exact entry_mono (rep.entries ndreg kept)
    · exact new
    · cases rep.entries before present with
      | plain => simp [entryKey] at found
      | numbered other otherMember otherNumbered =>
        exact .numbered other (mem_append_left _ otherMember) otherNumbered ranges nonempty valid
  distinct := putRanges_distinct rep.distinct
  groups := by
    intro key
    by_cases own : keyOf name = key
    · subst own
      rw [groupNumbers_append, if_pos ⟨numbered, rfl⟩, collect_append, rep.groups,
        ok_bind, extended, rangesOf_putRanges]
    · rw [groupNumbers_append, if_neg fun both => own both.2, rep.groups key,
        rangesOf_putRanges_of_ne (Ne.symm own)]
  stored := by
    have grown := extendRanges_numbers
      (rangesOf_valid rep.entries (keyOf name)) extended
    refine (putRanges_names grown).trans ?_
    simp only [map_append, map_cons, map_nil]
    refine rep.stored.append ?_
    simp [storedName, numbered, keyOf]

theorem addNode_represents (rep : Represents names nodeids)
    (added : addNode nodeids name = .ok result) :
    PrefixFits name ∧ Represents (names ++ [name]) result := by
  rw [addNode_eq] at added
  split at added
  case isFalse => cases added
  case isTrue fits =>
    refine ⟨fits, ?_⟩
    split at added
    case isTrue numbered =>
      rw [show recordNumber (leading name) (trailing name) (digitCount name)
        (nodenum name) nodeids =
        recordNumber (keyOf name).pfx (keyOf name).suffix (keyOf name).digits
          (nodenum name) nodeids from rfl,
        recordNumber_eq rep.entries, map_eq_ok] at added
      obtain ⟨ranges, extended, rfl⟩ := added
      exact represents_numbered rep numbered extended
    case isFalse plain =>
      cases added
      exact represents_plain rep plain

theorem addNode_ok (rep : Represents names nodeids) (fits : PrefixFits name)
    (collects : ∀ key, ∃ ranges, collect (groupNumbers key (names ++ [name])) = .ok ranges) :
    ∃ result, addNode nodeids name = .ok result := by
  rw [addNode_eq, if_pos fits]
  split
  case isTrue numbered =>
    obtain ⟨ranges, collected⟩ := collects (keyOf name)
    rw [groupNumbers_append, if_pos ⟨numbered, rfl⟩, collect_append, rep.groups,
      ok_bind] at collected
    refine ⟨putRanges (keyOf name) ranges nodeids, ?_⟩
    have recorded := recordNumber_eq rep.entries (keyOf name) (nodenum name)
    rw [collected] at recorded
    exact recorded
  case isFalse => exact ⟨_, rfl⟩

theorem represents_nil : Represents [] [] :=
  ⟨by simp, List.Pairwise.nil, fun _ => rfl, by simp⟩

theorem foldlM_append_ok :
    (names ++ [name]).foldlM addNode [] = .ok result ↔
      ∃ nodeids, names.foldlM addNode [] = .ok nodeids ∧ addNode nodeids name = .ok result := by
  simp [foldlM_append, bind_eq_ok]

theorem nodeids_represent (read : names.foldlM addNode [] = .ok nodeids) :
    (∀ name ∈ names, PrefixFits name) ∧ Represents names nodeids := by
  induction names using List.reverseRecOn generalizing nodeids with
  | nil =>
    cases read
    exact ⟨by simp, represents_nil⟩
  | append_singleton names name ih =>
    obtain ⟨before, earlier, added⟩ := foldlM_append_ok.mp read
    obtain ⟨fits, rep⟩ := ih earlier
    obtain ⟨own, rep⟩ := addNode_represents rep added
    refine ⟨fun other member => ?_, rep⟩
    rcases List.mem_append.mp member with old | new
    · exact fits other old
    · rw [List.mem_singleton.mp new]
      exact own

theorem nodeids_ok (fits : ∀ name ∈ names, PrefixFits name)
    (collects : ∀ key, ∃ ranges, collect (groupNumbers key names) = .ok ranges) :
    ∃ nodeids, names.foldlM addNode [] = .ok nodeids := by
  induction names using List.reverseRecOn with
  | nil => exact ⟨[], rfl⟩
  | append_singleton names name ih =>
    have earlier (key : EntryKey) : ∃ ranges, collect (groupNumbers key names) = .ok ranges := by
      obtain ⟨ranges, collected⟩ := collects key
      rw [groupNumbers_append] at collected
      split at collected
      · rw [collect_append] at collected
        obtain ⟨before, collected, -⟩ := (bind_eq_ok ..).mp collected
        exact ⟨before, collected⟩
      · exact ⟨ranges, collected⟩
    obtain ⟨nodeids, read⟩ := ih (fun other member => fits other (by simp [member])) earlier
    have rep := (nodeids_represent read).2
    obtain ⟨result, added⟩ := addNode_ok rep (fits name (by simp)) collects
    exact ⟨result, foldlM_append_ok.mpr ⟨nodeids, read, added⟩⟩

end Orcm.RegexGroups
