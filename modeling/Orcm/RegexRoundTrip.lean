import Mathlib.Algebra.Order.BigOperators.Group.List
import Orcm.RegexGroups

/-!
Compressing a node list and expanding it again. A stored name differs from the name when its suffix
holds digits, because they were counted into the padding of the number; numbers beyond `int` never
come out at all.
-/

namespace Orcm.RegexRoundTrip

open CLibrary RegexExtract RegexCreate RegexGroups List Function Result

def rangeText (range : RegexRange) : CString :=
  if range.cnt = 1 then formatInt range.start
  else formatInt range.start ++ '-' :: formatInt (range.start + range.cnt - 1)

def entryItem (ndreg : RegexNode) : Item :=
  match ndreg.suffix with
  | none => .plain (ndreg.pfx.getD [])
  | some suffix =>
    .ranged (ndreg.pfx.getD []) (formatInt ndreg.num_digits) (ndreg.ranges.map rangeText) suffix

variable {range : RegexRange} {names : List Name} {ndreg : RegexNode} {name : Name}

theorem printRange_iff (valid : RangeValid range) (text : CString) :
    printRange range = .ok text ↔ Printable range ∧ text = rangeText range := by
  by_cases single : range.cnt = 1
  · simp only [printRange, single, ↓reduceIte, Except.ok.injEq, Printable, true_or,
      true_and, rangeText]
    exact eq_comm
  · have low := valid.low
    have counted := valid.counted
    by_cases fits : range.start + range.cnt ≤ intMax
    · simp only [printRange, single, ↓reduceIte, intAdd_ok range.start range.cnt (by omega) fits,
        ok_bind, pure_eq_ok, Except.ok.injEq, Printable, fits, or_true, true_and, rangeText]
      exact eq_comm
    · simp only [printRange, single, ↓reduceIte, bind_eq_ok, Printable, fits, or_self,
        false_and, iff_false]
      rintro ⟨sum, added, -⟩
      obtain ⟨rfl, -, high⟩ := intAdd_eq_ok added
      exact fits high

theorem printNode_iff (entry : Entry names ndreg) (text : Option CString) :
    printNode ndreg = .ok text ↔ (∀ range ∈ ndreg.ranges, Printable range) ∧
      text = some (entryItem ndreg).render := by
  cases entry with
  | plain =>
    simp only [printNode, ↓reduceIte, Except.ok.injEq, not_mem_nil, false_implies,
      implies_true, true_and, entryItem, Option.getD_some, Item.render]
    exact eq_comm
  | numbered name member numbered ranges nonempty valid =>
    have printed := mapM_guarded fun range member =>
      printRange_iff (valid range member)
    simp only [printNode, nonempty, ↓reduceIte, bind_eq_ok, printed, pure_eq_ok, Except.ok.injEq,
      entryItem, Item.render]
    constructor
    · rintro ⟨texts, ⟨each, rfl⟩, rfl⟩
      exact ⟨each, rfl⟩
    · rintro ⟨each, rfl⟩
      exact ⟨_, ⟨each, rfl⟩, rfl⟩

/-! The printed entries are items of the scanner's grammar. -/

def CleanName (name : Name) : Prop := ',' ∉ name ∧ '[' ∉ name ∧ ']' ∉ name

def sign (value : Int) : CString := if value < 0 then ['-'] else []

theorem formatInt_eq {value : Int} :
    formatInt value = sign value ++ Nat.toDigits 10 value.natAbs := by
  by_cases negative : value < 0 <;> simp [formatInt, sign, negative]

theorem sign_noDigits (value : Int) : NoDigits (sign value) := by
  by_cases negative : value < 0 <;> simp [sign, negative, NoDigits]

theorem formatInt_not_mem (value : Int) (char : Char) (punctuation : char.isDigit = false)
    (dash : char ≠ '-') :
    char ∉ formatInt value := by
  have digits : char ∉ Nat.toDigits 10 value.natAbs := by
    intro member
    have := Nat.isDigit_of_mem_toDigits (by decide) (by decide) member
    simp [punctuation] at this
  by_cases negative : value < 0 <;> simp [formatInt, negative, digits, dash]

theorem formatInt_ne_nil {value : Int} : formatInt value ≠ [] := by simp [formatInt_eq]

theorem rangeText_clean (range : RegexRange) :
    rangeText range ≠ [] ∧ ',' ∉ rangeText range ∧ ']' ∉ rangeText range := by
  have comma (value : Int) := formatInt_not_mem value ',' rfl (by decide)
  have closing (value : Int) := formatInt_not_mem value ']' rfl (by decide)
  unfold rangeText
  split
  · exact ⟨formatInt_ne_nil, comma _, closing _⟩
  · simp [comma, closing]

theorem leading_not_mem (punctuation : char.isAlpha = false) : char ∉ leading name := by
  intro member
  have := List.all_eq_true.mp (leading_all_isAlpha name) char member
  simp [punctuation] at this

theorem trailing_subset : trailing name ⊆ name := by
  intro char member
  rw [← name_parts name]
  simp [member]

theorem entryItem_wellFormed (clean : ∀ name ∈ names, name ≠ [] ∧ CleanName name)
    (entry : Entry names ndreg) : (entryItem ndreg).WellFormed := by
  cases entry with
  | plain name member =>
    obtain ⟨some, comma, bracket, -⟩ := clean name member
    exact ⟨some, bracket, comma⟩
  | numbered name member =>
    obtain ⟨-, comma, -⟩ := clean name member
    simp only [entryItem, optionalText_getD]
    refine ⟨⟨leading_not_mem rfl, leading_not_mem rfl⟩, formatInt_not_mem _ ':' rfl (by decide), ?_,
      fun inside => comma (trailing_subset inside)⟩
    intro text printed
    obtain ⟨range, -, rfl⟩ := List.mem_map.mp printed
    exact rangeText_clean range

/-! Reading the printed ranges back. A minus sign is skipped, so what is read is the magnitude. -/

theorem parse_rangeText (valid : RangeValid range) :
    regexParseNodeRange base (rangeText range) num_digits suffix =
      if (range.start.natAbs : Int) ≤ intMax then
        nodeNames base num_digits suffix range.start.natAbs (range.start + range.cnt - 1).natAbs
      else undefined := by
  have digits (value : Int) := toDigits_all_isDigit value.natAbs
  have nonempty (value : Int) : Nat.toDigits 10 value.natAbs ≠ [] := Nat.toDigits_ne_nil
  have low := valid.low
  have counted := valid.counted
  have high := valid.high
  simp only [intMin, intMax] at low high
  by_cases small : (range.start.natAbs : Int) ≤ intMax
  · rw [if_pos small]
    by_cases single : range.cnt = 1
    · rw [rangeText, if_pos single, formatInt_eq, parseNodeRange_single base _ suffix
        (sign_noDigits _)
        (digits _) (nonempty _) (by rwa [decimalValue_toDigits]), decimalValue_toDigits, single,
          Int.add_sub_cancel]
    · have last :
          ((decimalValue (Nat.toDigits 10 (range.start + range.cnt - 1).natAbs) : Nat) : Int) ≤
            longMax := by
        rw [decimalValue_toDigits, longMax]
        omega
      have dash : NoDigits ('-' :: sign (range.start + range.cnt - 1)) := by
        have := sign_noDigits (range.start + range.cnt - 1)
        simpa [NoDigits] using this
      rw [rangeText, if_neg single, formatInt_eq, formatInt_eq, append_assoc, ← cons_append,
        parseNodeRange_pair base _ _ suffix (sign_noDigits _) (digits _) (nonempty _) dash (by simp)
          (digits _) (nonempty _) (by rwa [decimalValue_toDigits]) last, decimalValue_toDigits,
            decimalValue_toDigits]
  · rw [if_neg small]
    have large : intMax < ((decimalValue (Nat.toDigits 10 range.start.natAbs) : Nat) : Int) := by
      rw [decimalValue_toDigits]
      omega
    by_cases single : range.cnt = 1
    · rw [rangeText, if_pos single, formatInt_eq, ← append_nil (Nat.toDigits 10 _)]
      exact parseNodeRange_large (sign_noDigits _) (digits _) (nonempty _)
        (by simp [StartsWithDigit]) large
    · rw [rangeText, if_neg single, formatInt_eq, append_assoc]
      refine parseNodeRange_large (sign_noDigits _) (digits _) (nonempty _) ?_ large
      rintro ⟨char, head, digit⟩
      simp only [head?_cons, Option.some.injEq] at head
      subst char
      exact absurd digit (by decide)

theorem digits_read {digits : Nat} (fits : (digits : Int) ≤ intMax) :
    toInt (strtol (formatInt digits)).1 = digits := by
  have read :=
    strtol_digits (Nat.toDigits 10 digits) [] (toDigits_all_isDigit _) Nat.toDigits_ne_nil
    (by simp [StartsWithDigit])
  have text : formatInt digits = Nat.toDigits 10 digits ++ [] := by simp [formatInt]
  rw [text, read, decimalValue_toDigits]
  have long : min longMax (digits : Int) = digits := by
    simp only [intMax, longMax] at fits ⊢
    omega
  rw [long, toInt_of_nonneg (by omega) fits]

theorem entryItem_names {ranges : List RegexRange} (valid : ∀ range ∈ ranges, RangeValid range)
    (short : (digitCount name : Int) ≤ intMax) :
    (entryItem ⟨optionalText (leading name), some (trailing name), digitCount name, ranges⟩).names =
      List.flatten <$> ranges.mapM fun range =>
        if (range.start.natAbs : Int) ≤ intMax then
          nodeNames (leading name) (digitCount name) (optionalText (trailing name))
            range.start.natAbs
            (range.start + range.cnt - 1).natAbs
        else undefined := by
  simp only [entryItem, Item.names, optionalText_getD, digits_read short, mapM_map, comp_def]
  congr 1
  apply mapM_congr
  intro range member
  exact parse_rangeText (valid range member)

/-! Every number that comes out fits `int`. -/

theorem dropWhile_letters (alpha : letters.all Char.isAlpha) (numeric : digits.all Char.isDigit)
    (some : digits ≠ []) :
    (letters ++ (digits ++ rest)).dropWhile Char.isAlpha = digits ++ rest := by
  rw [dropWhile_append_of_pos (by simpa using alpha)]
  cases digits with
  | nil => exact absurd rfl some
  | cons char =>
    have digit : char.isDigit := by simp at numeric; exact numeric.1
    have letter : ¬ char.isAlpha = true := fun alpha => by simp [isAlpha_ne_isDigit alpha] at digit
    simp [letter]

theorem number_append (alpha : letters.all Char.isAlpha)
    (numeric : digits.all Char.isDigit) (some : digits ≠ []) (stop : ¬ StartsWithDigit rest) :
    number (letters ++ (digits ++ rest)) = decimalValue digits := by
  rw [number, numberDigits, dropWhile_letters alpha numeric some,
    takeWhile_isDigit_append numeric stop]

theorem nodeName_number {digits : Nat}
    (made : nodeName (leading name) digits (optionalText (trailing name)) value = .ok out) :
    number out = value := by
  have letters := leading_all_isAlpha name
  have stop := trailing_not_startsWithDigit name
  by_cases room : (Nat.toDigits 10 value).length ≤ digits
  · rw [nodeName_padded _ room, optionalText_getD, Except.ok.injEq] at made
    rw [← made, append_assoc, number_append letters (zeroPad_all_isDigit _)
      (by simp [zeroPad]) stop, decimalValue_zeroPad]
  · -- the digits reach into the base, which only loses letters at its end
    by_cases fits : (Nat.toDigits 10 value).length ≤ (leading name).length + digits
    · have cut : (leading name ++ List.replicate digits '0').take
          ((leading name).length + digits - (Nat.toDigits 10 value).length) =
          (leading name).take ((leading name).length + digits - (Nat.toDigits 10 value).length) :=
        take_append_of_le_length (by omega)
      have front :
          ((leading name).take
            ((leading name).length + digits - (Nat.toDigits 10 value).length)).all
          Char.isAlpha := by
        rw [all_eq_true]
        intro char member
        exact List.all_eq_true.mp letters char (mem_of_mem_take member)
      rw [nodeName_ok fits, cut, optionalText_getD, Except.ok.injEq] at made
      rw [← made, append_assoc, number_append front (toDigits_all_isDigit value)
        Nat.toDigits_ne_nil stop, decimalValue_toDigits]
    · rw [nodeName_undefined (by omega)] at made
      cases made

theorem entry_names_bounded (short : ∀ name ∈ names, (digitCount name : Int) ≤ intMax)
    (entry : Entry names ndreg) (out : List Name) (read : (entryItem ndreg).names = .ok out) :
    ∀ name ∈ out, Numbered name → (number name : Int) ≤ intMax := by
  cases entry with
  | plain name member plain =>
    cases read
    intro other inside numbered
    rw [List.mem_singleton.mp inside] at numbered
    exact absurd numbered plain
  | numbered name member numbered ranges nonempty valid =>
    rw [entryItem_names valid (short name member), map_eq_ok] at read
    obtain ⟨parts, each, rfl⟩ := read
    intro other inside _
    obtain ⟨part, present, inside⟩ := List.mem_flatten.mp inside
    refine mapM_forall (∀ other ∈ ·, (number other : Int) ≤ intMax) each ?_ part
      present other inside
    intro range listed part made
    have counted := (valid range listed).counted
    have high := (valid range listed).high
    split at made
    case isFalse => cases made
    case isTrue small =>
      refine mapM_forall (fun other => (number other : Int) ≤ intMax) made ?_
      intro value between other made
      rw [nodeName_number made]
      rw [mem_range'_1] at between
      simp only [intMax] at small high ⊢
      omega

/-! In range, every entry is read back as the names it stands for. -/

theorem numbers_toNat (valid : RangeValid range) (start : 0 ≤ range.start) :
    (numbers range).map Int.toNat =
      List.range' range.start.natAbs
        ((range.start + range.cnt - 1).natAbs + 1 - range.start.natAbs) := by
  have counted := valid.counted
  have size : (range.start + range.cnt - 1).natAbs + 1 - range.start.natAbs = range.cnt.toNat := by
    omega
  rw [size, numbers, map_map, range'_eq_map_range]
  apply map_congr_left
  intro offset _
  simp only [comp_apply]
  omega

theorem entry_names_ok (short : ∀ name ∈ names, (digitCount name : Int) ≤ intMax)
    (entry : Entry names ndreg)
    (fits : ∀ value ∈ rangeNumbers ndreg.ranges, 0 ≤ value ∧ value ≤ intMax ∧
      (Nat.toDigits 10 value.toNat).length ≤ ndreg.num_digits) :
    (entryItem ndreg).names = .ok (entryNames ndreg) := by
  cases entry with
  | plain => rfl
  | numbered name member numbered ranges nonempty valid =>
    rw [entryItem_names valid (short name member)]
    simp only [entryNames, optionalText_getD, rangeNumbers, map_flatMap]
    simp only [rangeNumbers, mem_flatMap] at fits
    rw [mapM_ok fun range => (numbers range).map fun value =>
      leading name ++ zeroPad (digitCount name) value.toNat ++ trailing name]
    · rw [map_ok, flatMap_def]
    · intro range listed
      have starts := fits range.start ⟨range, listed, by
        simpa [rangeNumbers] using start_mem_rangeNumbers [range] (by simp)
          (valid range listed).counted⟩
      have small : (range.start.natAbs : Int) ≤ intMax := by omega
      rw [if_pos small, nodeNames, ← numbers_toNat (valid range listed) starts.1, mapM_map, mapM_ok]
      intro value between
      simp only [comp_apply]
      rw [nodeName_padded _ (fits value ⟨range, listed, between⟩).2.2, optionalText_getD]

/-! The whole of `orte_regex_create` on a list of at least two names. -/

theorem rangesOf_of_mem (distinct : nodeids.Pairwise ApartKeys) (member : ndreg ∈ nodeids)
    (found : entryKey ndreg = some key) :
    rangesOf key nodeids = ndreg.ranges := by
  induction nodeids with
  | nil => simp at member
  | cons head rest ih =>
    obtain ⟨apart, later⟩ := List.pairwise_cons.mp distinct
    rcases List.mem_cons.mp member with rfl | inside
    · simp [rangesOf, found]
    · have other : entryKey head ≠ some key := fun hit => apart ndreg inside key hit found
      simpa [rangesOf, other] using ih later inside

theorem printable_iff (rep : Represents names nodeids) :
    (∀ ndreg ∈ nodeids, ∀ range ∈ ndreg.ranges, Printable range) ↔
      ∀ key, ∀ range ∈ rangesOf key nodeids, Printable range := by
  constructor
  · intro each key range member
    unfold rangesOf at member
    cases found : nodeids.find? fun ndreg => entryKey ndreg = some key with
    | none => simp [found] at member
    | some ndreg =>
      rw [found] at member
      exact each ndreg (mem_of_find?_eq_some found) range member
  · intro each ndreg member range inside
    cases shape : entryKey ndreg with
    | some key =>
      rw [← rangesOf_of_mem rep.distinct member shape] at inside
      exact each key range inside
    | none =>
      cases rep.entries ndreg member with
      | plain => simp at inside
      | numbered => simp [entryKey] at shape

theorem nodeids_printable_iff (small : ∀ name ∈ names, Numbered name → 0 ≤ nodenum name) :
    (∃ nodeids, names.foldlM addNode [] = .ok nodeids ∧ ∀ ndreg ∈ nodeids, ∀ range ∈ ndreg.ranges,
      Printable range) ↔
      (∀ name ∈ names, PrefixFits name) ∧ ∀ key, (groupNumbers key names).IsChain RangeSafe := by
  have bounded (key : EntryKey) : ∀ value ∈ groupNumbers key names, 0 ≤ value ∧ value ≤ intMax := by
    intro value member
    obtain ⟨name, listed, rfl⟩ := List.mem_map.mp member
    simp only [mem_filter, decide_eq_true_eq] at listed
    exact ⟨small name listed.1 listed.2.1, (nodenum_inInt name).2⟩
  constructor
  · rintro ⟨nodeids, read, printable⟩
    obtain ⟨fits, rep⟩ := nodeids_represent read
    refine ⟨fits, fun key => ?_⟩
    exact (collect_printable_iff (bounded key)).mp
      ⟨_, rep.groups key, (printable_iff rep).mp printable key⟩
  · rintro ⟨fits, chains⟩
    have collects (key : EntryKey) := (collect_printable_iff (bounded key)).mpr (chains key)
    obtain ⟨nodeids, read⟩ := nodeids_ok fits fun key => (collects key).imp fun _ both => both.1
    have rep := (nodeids_represent read).2
    refine ⟨nodeids, read, (printable_iff rep).mpr fun key => ?_⟩
    obtain ⟨ranges, collected, printable⟩ := collects key
    rw [rep.groups key, Except.ok.injEq] at collected
    rwa [collected]

theorem create_iff (several : 2 ≤ names.length)
    (clean : ∀ name ∈ names, name ≠ [] ∧ CleanName name) :
    orteRegexCreate (joinWith ',' names) = .ok regexp ↔
      ∃ nodeids, names.foldlM addNode [] = .ok nodeids ∧
        (∀ ndreg ∈ nodeids, ∀ range ∈ ndreg.ranges, Printable range) ∧
        regexp = joinWith ',' ((nodeids.map entryItem).map Item.render) := by
  have comma : ',' ∈ joinWith ',' names := by
    obtain ⟨first, second, rest, rfl⟩ : ∃ first second rest, names = first :: second :: rest := by
      match names, several with
      | first :: second :: rest, _ => exact ⟨first, second, rest, rfl⟩
    simp [joinWith, intercalate_cons_cons]
  have fields :=
    commaFields_join fun name member => ⟨(clean name member).1, (clean name member).2.1⟩
  rw [orteRegexCreate, if_neg (by simpa using comma), fields, bind_eq_ok]
  refine exists_congr fun nodeids => and_congr_right fun read => ?_
  have rep := (nodeids_represent read).2
  have printed := mapM_guarded
    fun ndreg member => printNode_iff (rep.entries ndreg member)
  rw [bind_eq_ok]
  constructor
  · rintro ⟨regexargs, texts, joined⟩
    obtain ⟨printable, rfl⟩ := (printed regexargs).mp texts
    refine ⟨printable, ?_⟩
    cases joined
    simp [filterMap_map, comp_def]
  · rintro ⟨printable, rfl⟩
    refine ⟨_, (printed _).mpr ⟨printable, rfl⟩, ?_⟩
    simp [filterMap_map, comp_def]

theorem nodeids_ne_nil (rep : Represents names nodeids) (some : names ≠ []) : nodeids ≠ [] := by
  rintro rfl
  exact some (by simpa using rep.stored.symm)

theorem extract_entries (clean : ∀ name ∈ names, name ≠ [] ∧ CleanName name) (some : names ≠ [])
    (rep : Represents names nodeids) :
    orteRegexExtractNodeNames (.some (joinWith ',' ((nodeids.map entryItem).map Item.render))) =
      List.flatten <$> nodeids.mapM fun ndreg => (entryItem ndreg).names := by
  rw [extract_items (nodeids.map entryItem) (by simpa using nodeids_ne_nil rep some), mapM_map]
  · rfl
  · intro item member
    obtain ⟨ndreg, listed, rfl⟩ := List.mem_map.mp member
    exact entryItem_wellFormed clean (rep.entries ndreg listed)

theorem digitCount_eq :
    digitCount name = (numberDigits name).length + (trailing name).countP Char.isDigit := by
  have all : (numberDigits name).countP Char.isDigit = (numberDigits name).length := by
    simpa using numberDigits_all_isDigit
  rw [digitCount]
  conv_lhs => rw [← name_parts name]
  rw [countP_append, countP_append, leading_countP, all, Nat.zero_add]

theorem nodenum_of_small (small : (number name : Int) ≤ intMax) : nodenum name = number name := by
  have long : min longMax (number name : Int) = number name := by
    simp only [intMax, longMax] at small ⊢
    omega
  rw [nodenum, long, toInt_of_nonneg (by omega) small]

theorem number_digits_le (numbered : Numbered name) :
    (Nat.toDigits 10 (number name)).length ≤ digitCount name := by
  have := toDigits_decimalValue_length numberDigits_all_isDigit
    (numberDigits_ne_nil numbered)
  rw [digitCount_eq, number]
  omega

theorem storedName_length (small : Numbered name → (number name : Int) ≤ intMax) :
    (storedName name).length =
      name.length + if Numbered name then (trailing name).countP Char.isDigit else 0 := by
  unfold storedName
  split
  case isFalse => rfl
  case isTrue numbered =>
    have room := number_digits_le numbered
    have parts := congrArg List.length (name_parts name)
    simp only [length_append] at parts
    rw [nodenum_of_small (small numbered), Int.toNat_natCast]
    simp only [length_append, zeroPad_length, max_eq_left room]
    rw [digitCount_eq]
    omega

theorem storedName_eq (small : Numbered name → (number name : Int) ≤ intMax)
    (single : Numbered name → (trailing name).countP Char.isDigit = 0) :
    storedName name = name := by
  unfold storedName
  split
  case isFalse => rfl
  case isTrue numbered =>
    rw [nodenum_of_small (small numbered), Int.toNat_natCast, digitCount_eq, single numbered,
      Nat.add_zero, number,
      zeroPad_decimalValue numberDigits_all_isDigit (numberDigits_ne_nil numbered), append_assoc,
      name_parts]

theorem length_eq_of_perm (grows : ∀ name ∈ names, name.length ≤ (convert name).length)
    (same : (names.map convert).Perm names) :
    ∀ name ∈ names, (convert name).length = name.length := by
  have total : (names.map fun name => (convert name).length).sum = (names.map List.length).sum := by
    have := (same.map List.length).sum_nat
    rwa [map_map] at this
  clear same
  induction names with
  | nil => simp
  | cons name rest ih =>
    rw [forall_mem_cons] at grows ⊢
    simp only [map_cons, sum_cons] at total
    have later : (rest.map List.length).sum ≤ (rest.map fun name => (convert name).length).sum :=
      sum_le_sum grows.2
    refine ⟨by omega, ih grows.2 (by omega)⟩

/-- A host name without commas or brackets, of a length that an `int` can hold. -/
structure HostName where
  text : Name
  clean : CleanName text
  short : (text.length : Int) ≤ intMax

/-- Creating a regex and extracting from it gives back the same names with the same multiplicity. -/
def RoundTrips (names : List Name) : Prop :=
  ∃ out, (orteRegexCreate (joinWith ',' names) >>= fun regexp => orteRegexExtractNodeNames
    (some regexp)) = .ok out ∧
    out.Perm names

/-- A compressed name has one run of digits, whose value fits `int`. -/
def Compressible (name : Name) : Prop :=
  Numbered name → (number name : Int) ≤ intMax ∧ (trailing name).countP Char.isDigit = 0

/-- One name is copied as it is; several names must compress. -/
def RoundTripSafe : List Name → Prop
  | [name] => name ≠ []
  | names => (∀ name ∈ names, name ≠ [] ∧ PrefixFits name ∧ Compressible name) ∧
      ∀ key, (groupNumbers key names).IsChain RangeSafe

theorem entries_read_back (short : ∀ name ∈ names, (digitCount name : Int) ≤ intMax)
    (small : ∀ name ∈ names, Numbered name → (number name : Int) ≤ intMax)
    (rep : Represents names nodeids) :
    (List.flatten <$> nodeids.mapM fun ndreg => (entryItem ndreg).names) = .ok
      (nodeids.flatMap entryNames) := by
  rw [mapM_ok entryNames, map_ok, flatMap_def]
  intro ndreg member
  refine entry_names_ok short (rep.entries ndreg member) ?_
  intro value inside
  cases shape : entryKey ndreg with
  | none =>
    cases rep.entries ndreg member with
    | plain => simp [rangeNumbers] at inside
    | numbered => simp [entryKey] at shape
  | some key =>
    have grouped := (collect_valid (fun value member => by
      obtain ⟨name, -, rfl⟩ := List.mem_map.mp member
      exact nodenum_inInt name) (rep.groups key)).1
    rw [← rangesOf_of_mem rep.distinct member shape, grouped] at inside
    obtain ⟨name, listed, rfl⟩ := List.mem_map.mp inside
    simp only [mem_filter, decide_eq_true_eq] at listed
    obtain ⟨listed, numbered, rfl⟩ := listed
    have digits : ndreg.num_digits = digitCount name := by
      obtain ⟨suffix, -, same⟩ := Option.map_eq_some_iff.mp shape
      exact congrArg EntryKey.digits same
    rw [nodenum_of_small (small name listed numbered), Int.toNat_natCast, digits]
    exact ⟨by omega, small name listed numbered, number_digits_le numbered⟩

theorem roundTrips_several_iff (several : 2 ≤ names.length) (clean : ∀ name ∈ names, CleanName name)
    (short : ∀ name ∈ names, (digitCount name : Int) ≤ intMax) :
    RoundTrips names ↔ (∀ name ∈ names, name ≠ [] ∧ PrefixFits name ∧ Compressible name) ∧
      ∀ key, (groupNumbers key names).IsChain RangeSafe := by
  have some : names ≠ [] := ne_nil_of_length_pos (by omega)
  have nonneg (small : ∀ name ∈ names, Numbered name → (number name : Int) ≤ intMax) :
      ∀ name ∈ names, Numbered name → 0 ≤ nodenum name := by
    intro name member numbered
    rw [nodenum_of_small (small name member numbered)]
    omega
  constructor
  · rintro ⟨out, returned, same⟩
    obtain ⟨regexp, created, extracted⟩ := (bind_eq_ok ..).mp returned
    have nonempty : ∀ name ∈ names, name ≠ [] := by
      rintro _ member rfl
      exact extractLoop_ne_nil extracted (same.mem_iff.mpr member)
    have full : ∀ name ∈ names, name ≠ [] ∧ CleanName name :=
      fun name member => ⟨nonempty name member, clean name member⟩
    obtain ⟨nodeids, read, printable, rfl⟩ := (create_iff several full).mp created
    obtain ⟨fits, rep⟩ := nodeids_represent read
    rw [extract_entries full some rep] at extracted
    -- no number beyond `int` comes out, so none went in
    have small : ∀ name ∈ names, Numbered name → (number name : Int) ≤ intMax := by
      intro name member numbered
      obtain ⟨parts, each, rfl⟩ := (map_eq_ok ..).mp extracted
      obtain ⟨part, present, inside⟩ := List.mem_flatten.mp (same.mem_iff.mpr member)
      exact mapM_forall (∀ name ∈ ·, Numbered name → (number name : Int) ≤ intMax) each
        (fun ndreg listed => entry_names_bounded short (rep.entries ndreg listed))
        part present name inside numbered
    rw [entries_read_back short small rep, Except.ok.injEq] at extracted
    subst out
    -- a suffix with digits makes the stored name longer, which a permutation of the names cannot be
    have lengths := length_eq_of_perm
      (fun name member => by rw [storedName_length (small name member)]; omega)
        (rep.stored.symm.trans same)
    refine ⟨fun name member => ⟨nonempty name member, fits name member, fun numbered =>
      ⟨small name member numbered, ?_⟩⟩,
      ((nodeids_printable_iff (nonneg small)).mp ⟨nodeids, read, printable⟩).2⟩
    have := lengths name member
    rw [storedName_length (small name member), if_pos numbered] at this
    omega
  · rintro ⟨each, chains⟩
    have full : ∀ name ∈ names, name ≠ [] ∧ CleanName name :=
      fun name member => ⟨(each name member).1, clean name member⟩
    have small : ∀ name ∈ names, Numbered name → (number name : Int) ≤ intMax :=
      fun name member numbered => ((each name member).2.2 numbered).1
    obtain ⟨nodeids, read, printable⟩ := (nodeids_printable_iff (nonneg small)).mpr
      ⟨fun name member => (each name member).2.1, chains⟩
    have rep := (nodeids_represent read).2
    refine ⟨nodeids.flatMap entryNames, ?_, ?_⟩
    · rw [(create_iff several full).mpr ⟨nodeids, read, printable, rfl⟩, ok_bind,
        extract_entries full some rep, entries_read_back short small rep]
    · have unchanged : names.map storedName = names := by
        rw [map_congr_left fun name member => storedName_eq (small name member) fun numbered =>
          ((each name member).2.2 numbered).2, map_id']
      simpa [unchanged] using rep.stored

theorem roundTrips_single_iff (clean : CleanName name) : RoundTrips [name] ↔ name ≠ [] := by
  have created : orteRegexCreate (joinWith ',' [name]) = .ok name := by
    simp [orteRegexCreate, joinWith, clean.1]
  constructor
  · rintro ⟨out, returned, same⟩ rfl
    obtain ⟨regexp, -, extracted⟩ := (bind_eq_ok ..).mp returned
    exact extractLoop_ne_nil extracted (same.mem_iff.mpr (by simp))
  · intro some
    have extracted :=
      extract_items [.plain name] (by simp)
        (by simpa [Item.WellFormed] using ⟨some, clean.2.1, clean.1⟩)
    have text : joinWith ',' ([Item.plain name].map Item.render) = name := by
      simp [joinWith, Item.render]
    rw [text] at extracted
    exact ⟨[name], by rw [created, ok_bind, extracted]; rfl, .refl _⟩

/-- A list of host names survives compression and extraction exactly when it is a single name, or
every prefix fits its buffer, every compressed name has one run of digits with an `int` value, and
no range runs into the end of `int`. -/
theorem create_extract_iff (first : HostName) (rest : List HostName) :
    RoundTrips ((first :: rest).map HostName.text) ↔
      RoundTripSafe ((first :: rest).map HostName.text) := by
  cases rest with
  | nil => exact roundTrips_single_iff first.clean
  | cons =>
    refine roundTrips_several_iff (by simp) ?_ ?_
    · intro name member
      obtain ⟨host, -, rfl⟩ := List.mem_map.mp member
      exact host.clean
    · intro name member
      obtain ⟨host, -, rfl⟩ := List.mem_map.mp member
      have := List.countP_le_length (p := Char.isDigit) (l := host.text)
      have := host.short
      rw [digitCount]
      omega

/-- `n08,x,n09` comes back as `n08,n09,x`. -/
theorem create_extract_range : RoundTripSafe ["n08".toList, "x".toList, "n09".toList] := by
  have safe := create_extract_iff ⟨"n08".toList, ⟨by decide, by decide⟩, by decide⟩
    [⟨"x".toList, ⟨by decide, by decide⟩, by decide⟩,
      ⟨"n09".toList, ⟨by decide, by decide⟩, by decide⟩]
  exact safe.mp ⟨["n08".toList, "n09".toList, "x".toList], by decide, by decide⟩

/-- `a1b2` has two digits in two runs: its one is padded to both, and `a01b2` comes back. -/
theorem create_extract_two_runs :
    (orteRegexCreate (joinWith ',' ["a1b2".toList, "x".toList]) >>= fun regexp =>
        orteRegexExtractNodeNames (some regexp)) = .ok ["a01b2".toList, "x".toList] ∧
      ¬ ["a01b2".toList, "x".toList].Perm ["a1b2".toList, "x".toList] := by
  decide

end Orcm.RegexRoundTrip
