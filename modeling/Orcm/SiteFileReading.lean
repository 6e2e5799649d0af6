import Orcm.SiteFile

/-!
How a site file is read, line by line, with one equation for every action. Reading ends with as much
fuel as there are characters, and more fuel changes nothing.
-/

namespace Orcm.SiteFile

open CLibrary List

variable {text : CString}

theorem fgets_line (plain : '\n' ∉ line) (short : line.length < room) (rest : CString) :
    fgets room (line ++ '\n' :: rest) = (line ++ ['\n'], rest) := by
  induction line generalizing room with
  | nil =>
    obtain ⟨room, rfl⟩ := Nat.exists_eq_succ_of_ne_zero (Nat.ne_of_gt short)
    rfl
  | cons char line ih =>
    rw [mem_cons, not_or] at plain
    obtain ⟨room, rfl⟩ := Nat.exists_eq_succ_of_ne_zero (Nat.ne_zero_of_lt short)
    rw [cons_append, fgets, if_neg (Ne.symm plain.1), ih plain.2 (Nat.lt_of_succ_lt_succ short)]
    rfl

theorem fgets_full (plain : '\n' ∉ front) (full : front.length = room) (rest : CString) :
    fgets room (front ++ rest) = (front, rest) := by
  induction front generalizing room with
  | nil =>
    subst full
    cases rest <;> rfl
  | cons char front ih =>
    rw [mem_cons, not_or] at plain
    subst full
    rw [length_cons, cons_append, fgets, if_neg (Ne.symm plain.1), ih plain.2 rfl]

theorem fgets_length (room : ℕ) (text : CString) :
    (fgets room text).1.length + (fgets room text).2.length = text.length := by
  induction room generalizing text with
  | zero => exact Nat.zero_add _
  | succ room ih =>
    cases text with
    | nil => rfl
    | cons char rest =>
      rw [fgets]
      split
      · exact Nat.add_comm 1 _
      · have inner := ih rest
        simp only [length_cons]
        omega

theorem getline_shorter (read : orcmGetline text = some (line, rest)) :
    rest.length < text.length := by
  rw [orcmGetline] at read
  split at read
  · cases read
  · rename_i nonempty
    cases read
    obtain ⟨char, others, rfl⟩ := exists_cons_of_ne_nil nonempty
    have whole := fgets_length 511 (char :: others)
    have some_read : 0 < (fgets 511 (char :: others)).1.length := by
      rw [fgets]
      split
      · exact Nat.one_pos
      · exact Nat.succ_pos _
    omega

theorem length_fgets_le (room : ℕ) (text : CString) : (fgets room text).1.length ≤ room := by
  induction room generalizing text with
  | zero => exact Nat.le_refl 0
  | succ room ih =>
    cases text with
    | nil => exact Nat.zero_le _
    | cons char rest =>
      rw [fgets]
      split
      · exact Nat.succ_le_succ (Nat.zero_le room)
      · exact Nat.succ_le_succ (ih rest)

theorem length_stripSpaces_le : (stripSpaces line).length ≤ line.length := by
  rw [stripSpaces]
  split
  · exact Nat.le_refl _
  · exact (dropWhile_sublist _).length_le

theorem getline_bound (read : orcmGetline text = some (line, rest)) : line.length ≤ 510 := by
  rw [orcmGetline] at read
  split at read
  · cases read
  · cases read
    apply length_stripSpaces_le.trans
    rw [length_dropLast]
    have bound := length_fgets_le 511 text
    omega

theorem getline_line (plain : '\n' ∉ line) (short : line.length ≤ 510) (rest : CString) :
    orcmGetline (printLine line rest) = some (stripSpaces line, rest) := by
  rw [orcmGetline, printLine, if_neg (by simp), fgets_line plain (by omega), dropLast_concat]

theorem getline_full (plain : '\n' ∉ front) (full : front.length = 511) :
    orcmGetline (front ++ rest) = some (stripSpaces front.dropLast, rest) := by
  have nonempty : front ++ rest ≠ [] := by
    intro empty
    rw [(List.append_eq_nil_iff.mp empty).1] at full
    cases full
  rw [orcmGetline, if_neg nonempty, fgets_full plain full]

@[simp] theorem stripSpaces_tag : stripSpaces ('<' :: line) = '<' :: line := by
  rw [stripSpaces]
  split
  · rfl
  · exact dropWhile_cons_of_neg (by decide)

theorem isSkipped_comment (comment : IsComment line) : isSkipped (stripSpaces line) = true := by
  rw [stripSpaces]
  split
  · rename_i blank
    cases line with
    | nil => rfl
    | cons first line =>
      cases line with
      | nil => rfl
      | cons =>
        -- the first of several characters is a space
        have space : first = ' ' := by simpa using List.all_eq_true.mp blank first (by simp)
        simp [isSkipped, space]
  · rcases comment with empty | other | remark | directive
    · rw [empty]
      rfl
    · simp [isSkipped, other]
    · simp [isSkipped, remark]
    · simp [isSkipped, directive]

theorem upTo_append (plain : char ∉ text) (rest : CString) :
    upTo char (text ++ char :: rest) = text := by
  have others : ∀ other ∈ text, decide (other ≠ char) = true := by
    intro other inside
    exact decide_eq_true fun same => plain (same ▸ inside)
  rw [upTo, takeWhile_append_of_pos others, takeWhile_cons_of_neg (by simp), append_nil]

theorem strchr_append (plain : char ∉ text) {rest : CString} :
    strchr char (text ++ char :: rest) = some (char :: rest) := by
  have others : ∀ other ∈ text, decide (other ≠ char) = true := by
    intro other inside
    exact decide_eq_true fun same => plain (same ▸ inside)
  rw [strchr, dropWhile_append_of_pos others, dropWhile_cons_of_neg (by simp)]
  rfl

theorem extractTag_eq :
    extractTag ('<' :: line) = if '>' ∈ skipSlash line then some (upTo '>' (skipSlash line))
      else none := by
  rfl

theorem skipSlash_other (other : char ≠ '/') (line : CString) :
    skipSlash (char :: line) = char :: line := by
  rw [skipSlash]
  rintro rest same
  exact other (List.cons.inj same).1

theorem extractTag_text (plain : '>' ∉ text) :
    extractTag ('<' :: '/' :: (text ++ '>' :: rest)) = some text := by
  change (if '>' ∈ text ++ '>' :: rest then some (upTo '>' (text ++ '>' :: rest)) else none) =
    some text
  rw [if_pos (by simp), upTo_append plain]

theorem extractTag_open (other : char ≠ '/') (plain : '>' ∉ char :: text) :
    extractTag ('<' :: (char :: text ++ '>' :: rest)) = some (char :: text) := by
  rw [extractTag_eq, cons_append, skipSlash_other other, ← cons_append, if_pos (by simp),
    upTo_append plain]

theorem extractTag_cut (plain : '>' ∉ text) : extractTag ('<' :: '/' :: text) = none := by
  exact if_neg plain

section Steps
variable {text : CString} {xml_in : Option CString} {value : List CString} {items : Forest Entry}
  {parsed : Parsed} {fuel : ℕ}

theorem parse_end (read : orcmGetline text = none) :
    parseConfig (fuel + 1) text xml_in value items = some ⟨value, items, []⟩ := by
  simp [parseConfig, read]

section

variable (read : orcmGetline text = some (line, rest))
include read

theorem parse_skips (skips : action xml_in line = .skips) :
    parseConfig (fuel + 1) text xml_in value items = parseConfig fuel rest xml_in value items := by
  simp [parseConfig, read, skips]

theorem parse_returns (returns : action xml_in line = .returns) :
    parseConfig (fuel + 1) text xml_in value items = some ⟨value, items, rest⟩ := by
  simp [parseConfig, read, returns]

theorem parse_adds (adds : action xml_in line = .adds found) :
    parseConfig (fuel + 1) text xml_in value items = parseConfig fuel rest xml_in
      (value ++ [found]) items := by
  simp [parseConfig, read, adds]

theorem parse_opens (opens : action xml_in line = .opens tag) :
    parseConfig (fuel + 1) text xml_in value items =
      (parseConfig fuel rest (some tag) [] .nil).bind fun parsed =>
        parseConfig fuel parsed.rest xml_in value (parsed.close tag items) := by
  simp [parseConfig, read, opens]

end

theorem parse_succ (parses : parseConfig fuel text xml_in value items = some parsed) :
    parseConfig (fuel + 1) text xml_in value items = some parsed := by
  induction fuel generalizing text xml_in value items parsed with
  | zero => cases parses
  | succ fuel ih =>
    cases read : orcmGetline text with
    | none =>
      rw [parse_end read] at parses ⊢
      exact parses
    | some piece =>
      obtain ⟨line, rest⟩ := piece
      cases does : action xml_in line with
      | skips =>
        rw [parse_skips read does] at parses ⊢
        exact ih parses
      | returns =>
        rw [parse_returns read does] at parses ⊢
        exact parses
      | adds =>
        rw [parse_adds read does] at parses ⊢
        exact ih parses
      | opens =>
        rw [parse_opens read does] at parses ⊢
        obtain ⟨inner, opened, closed⟩ := Option.bind_eq_some_iff.mp parses
        rw [ih opened, Option.bind_some, ih closed]

theorem parse_mono (enough : fuel ≤ more)
    (parses : parseConfig fuel text xml_in value items = some parsed) :
    parseConfig more text xml_in value items = some parsed := by
  induction enough with
  | refl => exact parses
  | step _ ih => exact parse_succ ih

theorem parse_total (enough : text.length < fuel) :
    ∃ parsed, parseConfig fuel text xml_in value items = some parsed ∧
      parsed.rest.length ≤ text.length := by
  induction fuel generalizing text xml_in value items with
  | zero => exact absurd enough (Nat.not_lt_zero _)
  | succ fuel ih =>
    cases read : orcmGetline text with
    | none => exact ⟨_, parse_end read, Nat.zero_le _⟩
    | some piece =>
      obtain ⟨line, rest⟩ := piece
      have shorter := getline_shorter read
      cases does : action xml_in line with
      | skips =>
        rw [parse_skips read does]
        obtain ⟨parsed, parses, bound⟩ :=
          (ih (by omega) : ∃ parsed, parseConfig fuel rest xml_in value items = some parsed ∧ _)
        exact ⟨parsed, parses, by omega⟩
      | returns => exact ⟨_, parse_returns read does, Nat.le_of_lt shorter⟩
      | adds found =>
        rw [parse_adds read does]
        obtain ⟨parsed, parses, bound⟩ :=
          (ih (by omega) : ∃ parsed, parseConfig fuel rest xml_in (value ++ [found]) items =
            some parsed ∧ _)
        exact ⟨parsed, parses, by omega⟩
      | opens tag =>
        obtain ⟨inner, opened, innerBound⟩ :=
          (ih (by omega) : ∃ parsed, parseConfig fuel rest (some tag) [] .nil = some parsed ∧ _)
        obtain ⟨parsed, closed, bound⟩ :=
          (ih (by omega) : ∃ parsed,
            parseConfig fuel inner.rest xml_in value (inner.close tag items) = some parsed ∧ _)
        rw [parse_opens read does, opened]
        exact ⟨parsed, closed, by omega⟩

def Reads (text : CString) (xml_in : Option CString) (value : List CString) (items : Forest Entry)
    (parsed : Parsed) : Prop :=
  ∃ fuel, parseConfig fuel text xml_in value items = some parsed

theorem readConfig_iff :
    readConfig text = some forest ↔ ∃ parsed, Reads text none [] .nil parsed ∧
      parsed.items = forest := by
  rw [readConfig, Option.map_eq_some_iff]
  constructor
  · rintro ⟨parsed, parses, rfl⟩
    exact ⟨parsed, ⟨_, parses⟩, rfl⟩
  · rintro ⟨parsed, ⟨fuel, parses⟩, rfl⟩
    obtain ⟨total, again, -⟩ :=
      (parse_total (Nat.lt_succ_self _) : ∃ parsed,
        parseConfig (text.length + 1) text none [] .nil = some parsed ∧ _)
    have same : total = parsed := by
      have left := parse_mono (Nat.le_max_left (text.length + 1) fuel) again
      have right := parse_mono (Nat.le_max_right (text.length + 1) fuel) parses
      exact Option.some.inj (left.symm.trans right)
    exact ⟨parsed, same ▸ again, rfl⟩

theorem not_parse_zero : parseConfig 0 text xml_in value items ≠ some parsed := by
  intro parses
  cases parses

theorem reads_end : Reads [] xml_in value items parsed ↔ parsed = ⟨value, items, []⟩ := by
  constructor
  · rintro ⟨fuel | fuel, parses⟩
    · exact absurd parses not_parse_zero
    · rw [parse_end rfl] at parses
      exact (Option.some.inj parses).symm
  · rintro rfl
    exact ⟨1, parse_end rfl⟩

variable (read : orcmGetline text = some (line, rest))
include read

theorem reads_skips (skips : action xml_in line = .skips) :
    Reads text xml_in value items parsed ↔ Reads rest xml_in value items parsed := by
  constructor
  · rintro ⟨fuel | fuel, parses⟩
    · exact absurd parses not_parse_zero
    · rw [parse_skips read skips] at parses
      exact ⟨fuel, parses⟩
  · rintro ⟨fuel, parses⟩
    exact ⟨fuel + 1, (parse_skips read skips).trans parses⟩

theorem reads_returns (returns : action xml_in line = .returns) :
    Reads text xml_in value items parsed ↔ parsed = ⟨value, items, rest⟩ := by
  constructor
  · rintro ⟨fuel | fuel, parses⟩
    · exact absurd parses not_parse_zero
    · rw [parse_returns read returns] at parses
      exact (Option.some.inj parses).symm
  · rintro rfl
    exact ⟨1, parse_returns read returns⟩

theorem reads_adds (adds : action xml_in line = .adds found) :
    Reads text xml_in value items parsed ↔ Reads rest xml_in (value ++ [found]) items parsed := by
  constructor
  · rintro ⟨fuel | fuel, parses⟩
    · exact absurd parses not_parse_zero
    · rw [parse_adds read adds] at parses
      exact ⟨fuel, parses⟩
  · rintro ⟨fuel, parses⟩
    exact ⟨fuel + 1, (parse_adds read adds).trans parses⟩

theorem reads_opens (opens : action xml_in line = .opens tag) :
    Reads text xml_in value items parsed ↔
      ∃ inner, Reads rest (some tag) [] .nil inner ∧
        Reads inner.rest xml_in value (inner.close tag items) parsed := by
  constructor
  · rintro ⟨fuel | fuel, parses⟩
    · exact absurd parses not_parse_zero
    · rw [parse_opens read opens] at parses
      obtain ⟨inner, opened, closed⟩ := Option.bind_eq_some_iff.mp parses
      exact ⟨inner, ⟨fuel, opened⟩, ⟨fuel, closed⟩⟩
  · rintro ⟨inner, ⟨first, opened⟩, ⟨second, closed⟩⟩
    refine ⟨max first second + 1, ?_⟩
    rw [parse_opens read opens, parse_mono (Nat.le_max_left first second) opened, Option.bind_some]
    exact parse_mono (Nat.le_max_right first second) closed

end Steps

end Orcm.SiteFile
