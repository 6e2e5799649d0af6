import Orcm.ErrorCode

/-!
`orte_regex_extract_node_names` of `orte/util/regex.c`. The scanner cuts the text in place; here
each cut is a split of the character list. Writing outside the buffer of a name, and a number that
`atoi` cannot represent, are undefined. The lengths of texts are kept in an `int`; texts of 2^31
characters and more are left out.
-/

namespace Orcm.RegexExtract

open CLibrary List Result

abbrev Name := CString

/-- Copies the last characters of `tmp` over the text that ends at `position`, right to left. -/
def patchDigits : Name → Int → CString → Result Name
  | text, _, [] => .ok text
  | text, position, char :: rest =>
    if position - 1 < 0 then Result.undefined
    else patchDigits (text.set (position - 1).toNat char) (position - 1) rest

/-- One pass of the loop that makes the strings of `regex_parse_node_range`. -/
def nodeName (base : CString) (num_digits : Int) (suffix : Option CString) (number : Nat) :
    Result Name :=
  -- a negative count becomes a huge `size_t`, and the padding loop leaves the buffer
  if num_digits < 0 then Result.undefined
  else do
    let padded := base ++ List.replicate num_digits.toNat '0'
    let text ← patchDigits padded (base.length + num_digits) (Nat.toDigits 10 number).reverse
    pure (text ++ suffix.getD [])

def nodeNames (base : CString) (num_digits : Int) (suffix : Option CString) (first last : Nat) :
    Result (List Name) :=
  (List.range' first (last + 1 - first)).mapM (nodeName base num_digits suffix)

def regexParseNodeRange (base range : CString) (num_digits : Int) (suffix : Option CString) :
    Result (List Name) :=
  let fromFirst := range.dropWhile (!Char.isDigit ·)
  if fromFirst = [] then Result.fail .notFound
  else do
    let start ← atoi fromFirst
    let afterFirst := fromFirst.dropWhile Char.isDigit
    if afterFirst = [] then nodeNames base num_digits suffix start.toNat start.toNat
    else
      let fromSecond := afterFirst.dropWhile (!Char.isDigit ·)
      if fromSecond = [] then Result.fail .notFound
      else nodeNames base num_digits suffix start.toNat (strtol fromSecond).1.toNat

/-- The pieces between commas; what follows the last comma counts only if there is any text. -/
def commaFields (text : CString) : List CString :=
  let fields := text.splitOn ','
  if fields.getLast? = some [] then fields.dropLast else fields

def regexParseNodeRanges (base ranges : CString) (num_digits : Int) (suffix : Option CString) :
    Result (List Name) :=
  List.flatten <$> (commaFields ranges).mapM (regexParseNodeRange base · num_digits suffix)

def cutAt (char : Char) (text : CString) : Option (CString × CString) :=
  if char ∈ text then some (text.takeWhile (· ≠ char), (text.dropWhile (· ≠ char)).tail) else none

def moreToCome : CString → Option CString
  | ',' :: rest => some rest
  | _ => none

/-- An item after its `[`: the names of its ranges, and the text still to come. -/
def extractRange (base text : CString) : Result (List Name × Option CString) :=
  match cutAt ':' text with
  | none => Result.fail .badParam
  | some (digits, afterDigits) =>
    match cutAt ']' afterDigits with
    | none => Result.fail .badParam
    | some (ranges, afterRanges) => do
        let suffix := afterRanges.takeWhile (· ≠ ',')
        let names ← regexParseNodeRanges base ranges (toInt (strtol digits).1)
          (if suffix = [] then none else some suffix)
        pure (names, moreToCome (afterRanges.dropWhile (· ≠ ',')))

/-- One pass of the `do` loop: the names it adds, and the text still to come. -/
def extractItem (text : CString) : Result (List Name × Option CString) :=
  let base := text.takeWhile fun char => char ≠ '[' && char ≠ ','
  match text.dropWhile fun char => char ≠ '[' && char ≠ ',' with
  | '[' :: rest => extractRange base rest
  | rest => if base = [] then Result.fail .badParam else pure ([base], moreToCome rest)

/-- The `do` loop. Each pass consumes a comma, so the length of the text bounds the passes. -/
def extractLoop : Nat → CString → Result (List Name)
  | 0, _ => Result.undefined
  | budget + 1, text => do
      let (names, more) ← extractItem text
      match more with
      | none => pure names
      | some rest => do
          let others ← extractLoop budget rest
          pure (names ++ others)

def orteRegexExtractNodeNames : Option CString → Result (List Name)
  | none => pure []
  | some regexp => extractLoop (regexp.length + 1) regexp

theorem patchDigits_ok {digits : CString} (fits : digits.length ≤ position)
    (inside : position ≤ text.length) :
    patchDigits text position digits =
      .ok (text.take (position - digits.length) ++ digits.reverse ++ text.drop position) := by
  induction digits generalizing text position with
  | nil => simp [patchDigits]
  | cons char rest ih =>
    obtain ⟨before, rfl⟩ : ∃ before, position = before + 1 := ⟨position - 1, by simp at fits; omega⟩
    simp only [length_cons, Nat.add_le_add_iff_right] at fits
    have index : ((before + 1 : Nat) : Int) - 1 = before := by omega
    have front :
        (text.set before char).take (before - rest.length) = text.take (before - rest.length) :=
      take_set_of_le (by omega)
    have back : (text.set before char).drop before = char :: text.drop (before + 1) := by
      rw [drop_set, if_neg (by omega), Nat.sub_self, drop_eq_getElem_cons (by omega), set_cons_zero]
    rw [patchDigits, index, if_neg (by omega), Int.toNat_natCast,
      ih fits (by rw [length_set]; omega), front, back]
    simp

theorem patchDigits_undefined {digits : CString} (exceeds : position < digits.length) :
    patchDigits text position digits = undefined := by
  induction digits generalizing text position with
  | nil => simp at exceeds
  | cons char rest ih =>
    rw [patchDigits]
    by_cases start : position = 0
    · simp [start]
    · have index : (position : Int) - 1 = (position - 1 : Nat) := by omega
      rw [index]
      exact ih (by simp at exceeds; omega)

variable {number : Nat}

theorem nodeName_ok {base : CString}
    (fits : (Nat.toDigits 10 number).length ≤ base.length + digits) :
    nodeName base digits suffix number =
      .ok ((base ++ List.replicate digits '0').take
        (base.length + digits - (Nat.toDigits 10 number).length) ++
        Nat.toDigits 10 number ++ suffix.getD []) := by
  have position : (base.length : Int) + digits = (base.length + digits : Nat) := by omega
  rw [nodeName, position]
  dsimp only
  rw [patchDigits_ok (by simpa using fits) (by simp)]
  simp [drop_eq_nil_of_le]

theorem nodeName_undefined {base : CString}
    (exceeds : base.length + digits < (Nat.toDigits 10 number).length) :
    nodeName base digits suffix number = undefined := by
  have position : (base.length : Int) + digits = (base.length + digits : Nat) := by omega
  rw [nodeName, position]
  dsimp only
  rw [patchDigits_undefined (by simpa using exceeds)]
  rfl

theorem nodeName_padded (base : CString) (room : (Nat.toDigits 10 number).length ≤ digits) :
    nodeName base digits suffix number = .ok (base ++ zeroPad digits number ++ suffix.getD []) := by
  rw [nodeName_ok (by omega), Nat.add_sub_assoc room, take_length_add_append,
    take_replicate, Nat.min_eq_left (Nat.sub_le ..)]
  simp [zeroPad]

variable {base digits text tail : CString} {suffix : Option CString}

theorem nodeName_length {digits : Nat} (made : nodeName base digits suffix number = .ok name) :
    name.length = base.length + digits + (suffix.getD []).length := by
  by_cases fits : (Nat.toDigits 10 number).length ≤ base.length + digits
  · rw [nodeName_ok fits] at made
    cases made
    simp
    omega
  · rw [nodeName_undefined (by omega)] at made
    cases made

/-! The text of a range: its numbers are the first two runs of digits, whatever stands around
them. -/

def NoDigits (text : CString) : Prop := text.all (!Char.isDigit ·)

theorem dropWhile_noDigits (rest : CString) (plain : NoDigits text)
    (numeric : digits.all Char.isDigit) (some : digits ≠ []) :
    (text ++ (digits ++ rest)).dropWhile (!Char.isDigit ·) = digits ++ rest := by
  rw [dropWhile_append_of_pos (by simpa [NoDigits] using plain)]
  cases digits with
  | nil => exact absurd rfl some
  | cons char =>
    have digit : char.isDigit := by simp at numeric; exact numeric.1
    simp [digit]

theorem not_startsWithDigit_of_noDigits (rest : CString) (plain : NoDigits text)
    (some : text ≠ []) :
    ¬ StartsWithDigit (text ++ rest) := by
  cases text with
  | nil => exact absurd rfl some
  | cons =>
    rintro ⟨first, head, digit⟩
    simp only [cons_append, head?_cons, Option.some.injEq] at head
    subst first
    simp [NoDigits, digit] at plain

variable {num_digits : Int}

theorem parseNodeRange_single (base : CString) (lead : CString) (suffix : Option CString)
    (plain : NoDigits lead) (numeric : digits.all Char.isDigit) (some : digits ≠ [])
    (small : (decimalValue digits : Int) ≤ intMax) :
    regexParseNodeRange base (lead ++ digits) num_digits suffix =
      nodeNames base num_digits suffix (decimalValue digits) (decimalValue digits) := by
  have stop : ¬ StartsWithDigit [] := by simp [StartsWithDigit]
  have first := dropWhile_noDigits [] plain numeric some
  have after := dropWhile_isDigit_append numeric stop
  have value := @atoi_digits ErrorCode digits [] numeric some stop small
  rw [append_nil] at first after value
  simp [regexParseNodeRange, first, some, value, after, ok_bind]

theorem parseNodeRange_pair (base lead : CString) (between : CString) (suffix : Option CString)
    (plain : NoDigits lead) (numeric : digits.all Char.isDigit) (some : digits ≠ [])
    (gap : NoDigits between)
    (apart : between ≠ []) (numeric' : others.all Char.isDigit) (some' : others ≠ [])
    (small : (decimalValue digits : Int) ≤ intMax)
    (small' : (decimalValue others : Int) ≤ longMax) :
    regexParseNodeRange base (lead ++ (digits ++ (between ++ others))) num_digits suffix =
      nodeNames base num_digits suffix (decimalValue digits) (decimalValue others) := by
  have stop : ¬ StartsWithDigit (between ++ others) :=
    not_startsWithDigit_of_noDigits others gap apart
  have stop' : ¬ StartsWithDigit [] := by simp [StartsWithDigit]
  have first := dropWhile_noDigits (between ++ others) plain numeric some
  have after := dropWhile_isDigit_append numeric stop
  have second := dropWhile_noDigits [] gap numeric' some'
  have value := @atoi_digits ErrorCode digits (between ++ others) numeric some stop small
  have value' := strtol_digits others [] numeric' some' stop'
  rw [append_nil] at second value'
  simp [regexParseNodeRange, first, append_eq_nil_iff, some, ↓reduceIte, value, after,
    apart, second, some', value', ok_bind, Int.toNat_natCast, min_eq_right small']

/-- A first number beyond `int` is never expanded. -/
theorem parseNodeRange_large
    (plain : NoDigits lead) (numeric : digits.all Char.isDigit) (some : digits ≠ [])
    (stop : ¬ StartsWithDigit rest) (large : intMax < (decimalValue digits : Int)) :
    regexParseNodeRange base (lead ++ (digits ++ rest)) num_digits suffix = undefined := by
  have first := dropWhile_noDigits rest plain numeric some
  have value := @atoi_digits_undefined ErrorCode digits rest numeric some stop large
  simp [regexParseNodeRange, first, some, value, error_bind, undefined]

/-! The scanner on a sequence of items with arbitrary range texts. -/

inductive Item where
  | plain (name : Name)
  | ranged (base digits : CString) (ranges : List CString) (suffix : CString)
  deriving DecidableEq, Repr

def Item.render : Item → CString
  | .plain name => name
  | .ranged base digits ranges suffix =>
    base ++ '[' :: (digits ++ ':' :: (joinWith ',' ranges ++ ']' :: suffix))

/-- The punctuation of an item stands only where the scanner looks for it. -/
def Item.WellFormed : Item → Prop
  | .plain name => name ≠ [] ∧ '[' ∉ name ∧ ',' ∉ name
  | .ranged base digits ranges suffix =>
    ('[' ∉ base ∧ ',' ∉ base) ∧ ':' ∉ digits ∧
      (∀ range ∈ ranges, range ≠ [] ∧ ',' ∉ range ∧ ']' ∉ range) ∧
      ',' ∉ suffix

def optionalText (text : CString) : Option CString := if text = [] then none else some text

def Item.names : Item → Result (List Name)
  | .plain name => .ok [name]
  | .ranged base digits ranges suffix =>
    List.flatten <$> ranges.mapM
      (regexParseNodeRange base · (toInt (strtol digits).1) (optionalText suffix))

@[simp] theorem optionalText_getD (text : CString) : (optionalText text).getD [] = text := by
  by_cases empty : text = [] <;> simp [optionalText, empty]

def Boundary (tail : CString) : Prop := tail = [] ∨ ∃ rest, tail = ',' :: rest

theorem cutAt_append (absent : char ∉ front) :
    cutAt char (front ++ char :: back) = some (front, back) := by
  have keeps : ∀ other ∈ front, decide (other ≠ char) = true := by
    intro other member
    simp only [decide_eq_true_eq]
    rintro rfl
    exact absent member
  rw [cutAt, takeWhile_append_of_pos keeps, dropWhile_append_of_pos keeps]
  simp

theorem takeWhile_boundary (inside : ∀ char ∈ text, keeps char)
    (stop : keeps ',' = false) (boundary : Boundary tail) :
    (text ++ tail).takeWhile keeps = text := by
  rw [takeWhile_append_of_pos inside]
  rcases boundary with rfl | ⟨rest, rfl⟩ <;> simp [stop]

theorem dropWhile_boundary (inside : ∀ char ∈ text, keeps char)
    (stop : keeps ',' = false) (boundary : Boundary tail) :
    (text ++ tail).dropWhile keeps = tail := by
  rw [dropWhile_append_of_pos inside]
  rcases boundary with rfl | ⟨rest, rfl⟩ <;> simp [stop]

theorem commaFields_join (valid : ∀ field ∈ fields, field ≠ [] ∧ ',' ∉ field) :
    commaFields (joinWith ',' fields) = fields := by
  cases fields with
  | nil => rfl
  | cons first rest =>
    have fields : (joinWith ',' (first :: rest)).splitOn ',' = first :: rest :=
      splitOn_intercalate ',' (fun field member => (valid field member).2) (by simp)
    have last : (first :: rest).getLast? ≠ some [] := by
      intro empty
      exact (valid [] (mem_of_getLast? empty)).1 rfl
    rw [commaFields, fields, if_neg last]

theorem joinWith_not_mem {ranges : List CString} (differs : char ≠ ',')
    (absent : ∀ range ∈ ranges, char ∉ range) : char ∉ joinWith ',' ranges := by
  induction ranges with
  | nil => simp [joinWith]
  | cons first rest ih =>
    have later : char ∉ joinWith ',' rest := ih fun range member => absent range (by simp [member])
    have here : char ∉ first := absent first (by simp)
    cases rest with
    | nil => simpa [joinWith] using here
    | cons =>
      rw [joinWith, intercalate_cons_cons]
      simp only [mem_append, not_or]
      exact ⟨⟨here, by simpa using differs⟩, later⟩

theorem extractItem_plain (valid : (Item.plain name).WellFormed) (boundary : Boundary tail) :
    extractItem (name ++ tail) = .ok ([name], moreToCome tail) := by
  obtain ⟨some, bracket, comma⟩ := valid
  have inside : ∀ char ∈ name, (char ≠ '[' && char ≠ ',') = true := by
    intro char member
    simp only [Bool.and_eq_true, decide_eq_true_eq]
    exact ⟨fun same => bracket (same ▸ member), fun same => comma (same ▸ member)⟩
  rw [extractItem, takeWhile_boundary inside rfl boundary, dropWhile_boundary inside rfl boundary]
  rcases boundary with rfl | ⟨rest, rfl⟩ <;> simp [some]

theorem extractItem_ranged {ranges : List CString} {suffix : CString}
    (valid : (Item.ranged base digits ranges suffix).WellFormed) (boundary : Boundary tail) :
    extractItem ((Item.ranged base digits ranges suffix).render ++ tail) =
      (·, moreToCome tail) <$> (Item.ranged base digits ranges suffix).names := by
  obtain ⟨⟨bracket, comma⟩, colon, fields, suffixComma⟩ := valid
  have inside : ∀ char ∈ base, (char ≠ '[' && char ≠ ',') = true := by
    intro char member
    simp only [Bool.and_eq_true, decide_eq_true_eq]
    exact ⟨fun same => bracket (same ▸ member), fun same => comma (same ▸ member)⟩
  have insideSuffix : ∀ char ∈ suffix, decide (char ≠ ',') = true := by
    intro char member
    simpa using fun same : char = ',' => suffixComma (same ▸ member)
  have closing : ']' ∉ joinWith ',' ranges :=
    joinWith_not_mem (by decide) fun range member => (fields range member).2.2
  have text : (Item.ranged base digits ranges suffix).render ++ tail =
      base ++ '[' :: (digits ++ ':' :: (joinWith ',' ranges ++ ']' :: (suffix ++ tail))) := by
    simp [Item.render]
  rw [text, extractItem, takeWhile_append_of_pos inside, dropWhile_append_of_pos inside]
  simp only [ne_eq, decide_not, takeWhile_cons, dropWhile_cons, decide_true, Bool.not_true,
    Bool.false_and, Bool.false_eq_true, ↓reduceIte, append_nil]
  rw [extractRange, cutAt_append colon]
  dsimp only
  rw [cutAt_append closing]
  dsimp only
  rw [takeWhile_boundary insideSuffix rfl boundary,
    dropWhile_boundary insideSuffix rfl boundary, regexParseNodeRanges,
    commaFields_join fun range member => ⟨(fields range member).1, (fields range member).2.1⟩]
  rfl

theorem extractItem_render {item : Item} (tail : CString) (valid : item.WellFormed)
    (boundary : Boundary tail) :
    extractItem (item.render ++ tail) = (·, moreToCome tail) <$> item.names := by
  cases item with
  | plain => exact extractItem_plain valid boundary
  | ranged => exact extractItem_ranged valid boundary

theorem extractLoop_items {items : List Item} (budget : Nat) (some : items ≠ [])
    (enough : items.length ≤ budget) (valid : ∀ item ∈ items, item.WellFormed) :
    extractLoop budget (joinWith ',' (items.map Item.render)) = List.flatten <$> items.mapM
      Item.names := by
  induction items generalizing budget with
  | nil => exact absurd rfl some
  | cons item rest ih =>
    obtain ⟨budget, rfl⟩ : ∃ less, budget = less + 1 := ⟨budget - 1, by simp at enough; omega⟩
    cases rest with
    | nil =>
      have scanned := extractItem_render [] (valid item (by simp)) (.inl rfl)
      rw [append_nil] at scanned
      simp only [map_cons, map_nil, joinWith, intercalate_singleton, extractLoop, scanned,
        mapM_cons, mapM_nil]
      cases item.names <;> simp [moreToCome]
    | cons second rest =>
      have scanned := extractItem_render (',' :: joinWith ',' ((second :: rest).map Item.render))
        (valid item (by simp)) (.inr ⟨_, rfl⟩)
      have later :=
        ih budget (by simp) (by simpa using enough) fun other member =>
          valid other (by simp [member])
      have text : joinWith ',' ((item :: second :: rest).map Item.render) =
          item.render ++ ',' :: joinWith ',' ((second :: rest).map Item.render) := by
        simp [joinWith]
      rw [text, extractLoop, scanned, mapM_cons]
      cases item.names with
      | error => rfl
      | ok names =>
        simp only [map_ok, ok_bind, moreToCome, later]
        cases (second :: rest).mapM Item.names <;> simp

theorem joinWith_length (fields : List CString) :
    fields.length ≤ (joinWith ',' fields).length + 1 := by
  induction fields with
  | nil => simp [joinWith]
  | cons first rest ih =>
    cases rest with
    | nil => simp
    | cons =>
      rw [joinWith, intercalate_cons_cons]
      simp only [length_append, length_cons] at ih ⊢
      rw [joinWith] at ih
      omega

theorem extract_items (items : List Item) (some : items ≠ [])
    (valid : ∀ item ∈ items, item.WellFormed) :
    orteRegexExtractNodeNames (.some (joinWith ',' (items.map Item.render))) =
      List.flatten <$> items.mapM Item.names := by
  apply extractLoop_items _ some _ valid
  have := joinWith_length (items.map Item.render)
  rwa [length_map] at this

theorem nodeName_ne_nil (made : nodeName base num_digits suffix number = .ok name) : name ≠ [] := by
  by_cases negative : num_digits < 0
  · simp [nodeName, negative, undefined] at made
  · obtain ⟨digits, rfl⟩ := Int.eq_ofNat_of_zero_le (by omega : 0 ≤ num_digits)
    by_cases fits : (Nat.toDigits 10 number).length ≤ base.length + digits
    · rw [nodeName_ok fits] at made
      cases made
      simp
    · rw [nodeName_undefined (by omega)] at made
      cases made

theorem nodeNames_ne_nil {num_digits : Int}
    (made : nodeNames base num_digits suffix first last = .ok names) : [] ∉ names := by
  intro empty
  exact mapM_forall (· ≠ []) made
    (fun number _ name => nodeName_ne_nil) [] empty rfl

theorem parseNodeRange_ne_nil {range : CString}
    (parsed : regexParseNodeRange base range num_digits suffix = .ok names) : [] ∉ names := by
  unfold regexParseNodeRange at parsed
  dsimp only at parsed
  split at parsed
  · cases parsed
  · obtain ⟨start, -, rest⟩ := (bind_eq_ok ..).mp parsed
    split at rest
    · exact nodeNames_ne_nil rest
    · split at rest
      · cases rest
      · exact nodeNames_ne_nil rest

theorem parseNodeRanges_ne_nil {ranges : CString} {num_digits : Int}
    (parsed : regexParseNodeRanges base ranges num_digits suffix = .ok names) : [] ∉ names := by
  obtain ⟨parts, each, rfl⟩ := (map_eq_ok ..).mp parsed
  intro empty
  obtain ⟨part, member, inside⟩ := List.mem_flatten.mp empty
  exact mapM_forall ([] ∉ ·) each
    (fun range _ names => parseNodeRange_ne_nil) part member inside

theorem extractItem_ne_nil (scanned : extractItem text = .ok (names, more)) : [] ∉ names := by
  unfold extractItem at scanned
  dsimp only at scanned
  split at scanned
  · unfold extractRange at scanned
    split at scanned
    · cases scanned
    · split at scanned
      · cases scanned
      · obtain ⟨parsed, each, rest⟩ := (bind_eq_ok ..).mp scanned
        cases rest
        exact parseNodeRanges_ne_nil each
  · split at scanned
    · cases scanned
    case isFalse some =>
      cases scanned
      rw [mem_singleton]
      exact Ne.symm some

theorem extractLoop_ne_nil (extracted : extractLoop budget text = .ok names) : [] ∉ names := by
  induction budget generalizing text names with
  | zero => cases extracted
  | succ budget ih =>
    rw [extractLoop, bind_eq_ok] at extracted
    obtain ⟨⟨found, more⟩, scanned, rest⟩ := extracted
    have here := extractItem_ne_nil scanned
    cases more with
    | none =>
      cases rest
      exact here
    | some later =>
      obtain ⟨others, later, rest⟩ := (bind_eq_ok ..).mp rest
      cases rest
      simp only [mem_append, not_or]
      exact ⟨here, ih later⟩

end Orcm.RegexExtract
