import Orcm.RegexExtract

/-!
The meaning of a node regex as its authors write it, and where extraction agrees with it: as long as
no number has more digits than the entry announces. Further digits overwrite the end of the base.
The length of the rendered text is taken to fit into an `int`.
-/

namespace Orcm.RegexExpansion

open CLibrary RegexExtract Result

/-- A text free of the punctuation of the grammar. -/
structure Word where
  text : CString
  clean : ',' ∉ text ∧ '[' ∉ text ∧ ']' ∉ text

structure Numeral where
  text : CString
  numeric : text.all Char.isDigit
  nonempty : text ≠ []

def Numeral.value (numeral : Numeral) : Nat := decimalValue numeral.text

/-- `a` or `a-b`: the first number is read into an `int`, the second into a `long`. -/
structure NumberRange where
  first : Numeral
  last : Option Numeral
  firstFits : (first.value : Int) ≤ intMax
  lastFits : ∀ numeral ∈ last, (numeral.value : Int) ≤ longMax

inductive Entry where
  | plain (name : Word) (nonempty : name.text ≠ [])
  | ranged (base : Word) (digits : Numeral) (digitsFit : (digits.value : Int) ≤ intMax)
      (ranges : List NumberRange) (suffix : Word)

def NumberRange.render (range : NumberRange) : CString :=
  match range.last with
  | none => range.first.text
  | some last => range.first.text ++ '-' :: last.text

def NumberRange.numbers (range : NumberRange) : List Nat :=
  let last := (range.last.getD range.first).value
  List.range' range.first.value (last + 1 - range.first.value)

def Entry.item : Entry → Item
  | .plain name _ => .plain name.text
  | .ranged base digits _ ranges suffix =>
    .ranged base.text digits.text (ranges.map NumberRange.render) suffix.text

def render (entries : List Entry) : CString :=
  joinWith ',' (entries.map fun entry => entry.item.render)

def Entry.expansion : Entry → List Name
  | .plain name _ => [name.text]
  | .ranged base digits _ ranges suffix => ranges.flatMap fun range =>
    range.numbers.map fun number => base.text ++ zeroPad digits.value number ++ suffix.text

def Entry.DigitsFit : Entry → Prop
  | .plain _ _ => True
  | .ranged _ digits _ ranges _ =>
    ∀ range ∈ ranges, ∀ number ∈ range.numbers, (Nat.toDigits 10 number).length ≤ digits.value

theorem numeral_comma (numeral : Numeral) (char : Char) (punctuation : char.isDigit = false) :
    char ∉ numeral.text := by
  intro member
  have digit := List.all_eq_true.mp numeral.numeric char member
  simp [punctuation] at digit

theorem range_render_clean (range : NumberRange) :
    range.render ≠ [] ∧ ',' ∉ range.render ∧ ']' ∉ range.render := by
  have comma := numeral_comma range.first ',' rfl
  have closing := numeral_comma range.first ']' rfl
  unfold NumberRange.render
  cases range.last with
  | none => exact ⟨range.first.nonempty, comma, closing⟩
  | some last =>
    have comma' := numeral_comma last ',' rfl
    have closing' := numeral_comma last ']' rfl
    simp [comma, closing, comma', closing']

theorem item_wellFormed {entry : Entry} : entry.item.WellFormed := by
  cases entry with
  | plain name nonempty => exact ⟨nonempty, name.clean.2.1, name.clean.1⟩
  | ranged base digits digitsFit ranges suffix =>
    refine ⟨⟨base.clean.2.1, base.clean.1⟩, numeral_comma digits ':' rfl, ?_, suffix.clean.1⟩
    intro text member
    obtain ⟨range, -, rfl⟩ := List.mem_map.mp member
    exact range_render_clean range

theorem parse_range {range : NumberRange} :
    regexParseNodeRange base range.render num_digits suffix =
      range.numbers.mapM (nodeName base num_digits suffix) := by
  obtain ⟨first, last, firstFits, lastFits⟩ := range
  cases last with
  | none => exact parseNodeRange_single base [] suffix rfl first.numeric first.nonempty firstFits
  | some last =>
    exact parseNodeRange_pair base [] ['-'] suffix rfl first.numeric
      first.nonempty rfl (by simp) last.numeric last.nonempty firstFits (lastFits last rfl)

theorem digits_read {digits : Numeral} (digitsFit : (digits.value : Int) ≤ intMax) :
    toInt (strtol digits.text).1 = digits.value := by
  have read :=
    strtol_digits digits.text [] digits.numeric digits.nonempty (by simp [StartsWithDigit])
  rw [List.append_nil] at read
  have long : min longMax (decimalValue digits.text : Int) = digits.value := by
    simp only [Numeral.value, intMax, longMax] at digitsFit ⊢
    omega
  rw [read, long, toInt_of_nonneg (by omega) digitsFit]

theorem nodeName_eq_padded_iff {digits : Nat} :
    nodeName base digits (optionalText suffix) number = .ok
      (base ++ zeroPad digits number ++ suffix) ↔
      (Nat.toDigits 10 number).length ≤ digits := by
  constructor
  · intro made
    have length := nodeName_length made
    simp only [List.length_append, zeroPad_length, optionalText_getD] at length
    omega
  · intro room
    rw [nodeName_padded base room, optionalText_getD]

theorem mapM_length {inputs : List Nat} {call : Nat → Result Name}
    (returned : inputs.mapM call = .ok results) : results.length = inputs.length :=
  ((mapM_eq_ok inputs).mp returned).length_eq.symm

theorem range_names_iff {digits : Nat} {range : NumberRange} :
    range.numbers.mapM (nodeName base digits (optionalText suffix)) =
        .ok (range.numbers.map fun number => base ++ zeroPad digits number ++ suffix) ↔
      ∀ number ∈ range.numbers, (Nat.toDigits 10 number).length ≤ digits := by
  rw [mapM_eq_ok, List.forall₂_map_right_iff, List.forall₂_same]
  simp only [nodeName_eq_padded_iff]

theorem ranged_names {base : Word} {digits : Numeral} (digitsFit : (digits.value : Int) ≤ intMax)
    {ranges : List NumberRange} :
    (Entry.ranged base digits digitsFit ranges suffix).item.names =
      List.flatten <$> ranges.mapM fun range =>
        range.numbers.mapM (nodeName base.text digits.value (optionalText suffix.text)) := by
  simp [Entry.item, Item.names, digits_read digitsFit, List.mapM_map, Function.comp_def,
    parse_range]

theorem item_names_iff (entry : Entry) :
    entry.item.names = .ok entry.expansion ↔ entry.DigitsFit := by
  cases entry with
  | plain => simp [Entry.item, Item.names, Entry.expansion, Entry.DigitsFit]
  | ranged =>
    rw [ranged_names, Entry.expansion, flatten_mapM_eq_iff]
    · simp only [range_names_iff, Entry.DigitsFit]
    · intro range results returned
      rw [mapM_length returned, List.length_map]

theorem item_names_length (entry : Entry) (results : List Name)
    (returned : entry.item.names = .ok results) :
    results.length = entry.expansion.length := by
  cases entry with
  | plain =>
    cases returned
    rfl
  | ranged =>
    rw [ranged_names] at returned
    obtain ⟨parts, each, rfl⟩ := (map_eq_ok ..).mp returned
    have pointwise := (mapM_eq_ok ..).mp each
    clear each returned
    simp only [Entry.expansion, List.length_flatten, List.length_flatMap, List.length_map]
    induction pointwise with
    | nil => rfl
    | cons first _ ih => simp [ih, mapM_length first]

/-- Extraction returns what the regex stands for exactly when no number has more digits than its
entry announces. -/
theorem extract_eq_expansion_iff (first : Entry) (rest : List Entry) :
    orteRegexExtractNodeNames (some (render (first :: rest))) = .ok
      ((first :: rest).flatMap Entry.expansion) ↔
      ∀ entry ∈ first :: rest, entry.DigitsFit := by
  have scanned := extract_items ((first :: rest).map Entry.item) (by simp) (by
    intro item member
    obtain ⟨entry, -, rfl⟩ := List.mem_map.mp member
    exact item_wellFormed)
  rw [List.map_map] at scanned
  rw [render, show (fun entry : Entry => entry.item.render) = Item.render ∘ Entry.item from rfl,
    scanned, List.mapM_map, Function.comp_def, Result.flatten_mapM_eq_iff item_names_length]
  simp [item_names_iff]

def nineToTen : Entry :=
  .ranged ⟨['n'], by decide⟩ ⟨['1'], by decide, by decide⟩ (by decide)
    [⟨⟨['9'], by decide, by decide⟩, some ⟨['1', '0'], by decide, by decide⟩, by decide, by
      simp only [Option.mem_def, Option.some.injEq, forall_eq']
      decide⟩] ⟨[], by decide⟩

/-- `n[1:9-10]` stands for `n9` and `n10`, but the two digits of ten leave no room for the base. -/
theorem extract_overwrites_base :
    render [nineToTen] = "n[1:9-10]".toList ∧
      [nineToTen].flatMap Entry.expansion = ["n9".toList, "n10".toList] ∧
      orteRegexExtractNodeNames (some (render [nineToTen])) = .ok ["n9".toList, "10".toList] := by
  decide

end Orcm.RegexExpansion
