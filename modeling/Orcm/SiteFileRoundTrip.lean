import Orcm.SiteFileReading

/-! Which printed site files are read as what they were printed from. -/

namespace Orcm.SiteFile

open CLibrary List

variable {parsed : Parsed} {items inside others : Forest Entry} {xml_in : Option CString}
    {tag : CString}

section Lines
variable {value : List CString} (rest : CString)

theorem reads_comment (plain : '\n' ∉ line) (short : line.length ≤ 510) (comment : IsComment line)
    (rest : CString) :
    Reads (printLine line rest) xml_in value items parsed ↔ Reads rest xml_in value items parsed :=
  reads_skips (getline_line plain short rest) (if_pos (isSkipped_comment comment))

theorem isSkipped_tag (long : line ≠ []) (remark : char ≠ '!') (directive : char ≠ '?') :
    isSkipped ('<' :: char :: line) = false := by
  have length := length_pos_of_ne_nil long
  simp only [isSkipped, length_cons, getElem?_cons_zero, getElem?_cons_succ,
    Option.some.injEq, remark,
    directive, ne_eq, not_true_eq_false, decide_false, Bool.or_false, decide_eq_false_iff_not]
  omega

section

variable (seen : isSkipped line = false)
include seen

theorem action_own (tagged : extractTag line = some tag) :
    action (some tag) line = .returns := by
  simp [action, seen, tagged]

theorem action_cut (untagged : extractTag line = none) :
    action xml_in line = .returns := by
  simp [action, seen, untagged]

theorem action_outside (tagged : extractTag line = some tag) :
    action none line = .opens tag := by
  simp [action, seen, tagged]

theorem action_section (tagged : extractTag line = some tag)
    (section_name : tag ≠ descriptionTag ∧ tag ≠ valueTag) (other : xml_in ≠ some tag) :
    action xml_in line = .opens tag := by
  simp [action, seen, tagged, section_name, other]

end

theorem Description.line_eq (description : Description) :
    ∃ char start, description.line = '<' :: char :: start ∧
    start ≠ [] ∧ char ≠ '!' ∧ char ≠ '?' ∧ extractTag description.line = some descriptionTag := by
  rw [Description.line]
  split
  · exact ⟨'/', _, rfl, by simp, by decide, by decide, extractTag_text (by decide)⟩
  · exact ⟨'d', _, rfl, by simp, by decide, by decide, extractTag_open (by decide) (by decide)⟩

theorem Description.line_plain (description : Description) : '\n' ∉ description.line := by
  have tag : '\n' ∉ descriptionTag := by decide
  rw [Description.line]
  split <;> simp [tag, description.plain]

theorem Description.read (description : Description) (short : description.line.length ≤ 510)
    {rest : CString} :
    orcmGetline (printLine description.line rest) = some (description.line, rest) ∧
      isSkipped description.line = false ∧ extractTag description.line = some descriptionTag := by
  obtain ⟨char, start, line, long, remark, directive, tagged⟩ := description.line_eq
  refine ⟨?_, ?_, tagged⟩
  · rw [getline_line description.line_plain short, line, stripSpaces_tag]
  · rw [line]
    exact isSkipped_tag long remark directive

variable {name : Name}

theorem reads_description {description : Description} (short : description.line.length ≤ 510)
    (rest : CString) :
    Reads (printLine description.line rest) (some name.text) value items parsed ↔
      Reads rest (some name.text) value items parsed := by
  obtain ⟨read, seen, tagged⟩ := description.read short
  apply reads_skips read
  simp [action, seen, tagged, name.section_name]

theorem Name.closed (name : Name) : '>' ∉ name.text := fun inside => (name.plain '>' inside).2.1 rfl

theorem Name.one_line (name : Name) : '\n' ∉ name.text :=
  fun inside => (name.plain '\n' inside).2.2 rfl

theorem reads_opening (short : name.text.length ≤ 508) (other : xml_in ≠ some name.text)
    (rest : CString) :
    Reads (printLine name.opening rest) xml_in value items parsed ↔
      ∃ inner, Reads rest (some name.text) [] .nil inner ∧
        Reads inner.rest xml_in value (inner.close name.text items) parsed := by
  obtain ⟨first, head, slash, directive, remark⟩ := name.first
  obtain ⟨others, text⟩ : ∃ others, name.text = first :: others := List.head?_eq_some_iff.mp head
  have closed := name.closed
  have plain : '\n' ∉ name.opening := by
    simp [Name.opening, name.one_line]
  have length : name.opening.length ≤ 510 := by
    simp only [Name.opening, length_cons, length_append, length_nil]
    omega
  apply reads_opens (getline_line plain length rest)
  rw [Name.opening, stripSpaces_tag]
  apply action_section _ _ name.section_name other
  · rw [text]
    exact isSkipped_tag (by simp) remark directive
  · rw [text] at closed ⊢
    exact extractTag_open slash closed

/-- What is left behind the closing tag: where the line fills the buffer, its end is still to be
read. -/
def Name.left (name : Name) (rest : CString) : CString :=
  if name.text.length = 508 then '\n' :: rest else rest

theorem reads_left :
    Reads (name.left rest) xml_in value items parsed ↔ Reads rest xml_in value items parsed := by
  rw [Name.left]
  split
  · exact reads_comment not_mem_nil (Nat.zero_le _) (Or.inl rfl) rest
  · exact Iff.rfl

theorem reads_closing (short : name.text.length ≤ 508) (rest : CString) :
    Reads (printLine name.closing rest) (some name.text) value items parsed ↔
      parsed = ⟨value, items, name.left rest⟩ := by
  have plain : '\n' ∉ name.closing := by
    simp [Name.closing, name.one_line]
  have nonempty : name.text ≠ [] := by
    obtain ⟨first, head, -⟩ := name.first
    intro empty
    rw [empty] at head
    cases head
  rw [Name.left]
  split
  · rename_i full
    -- the bracket at the end is lost, and the section is left because there is no tag
    have length : name.closing.length = 511 := by
      simp only [Name.closing, length_cons, length_append, length_nil]
      omega
    have cut : name.closing.dropLast = '<' :: '/' :: name.text := by
      rw [Name.closing, ← cons_append, ← cons_append, dropLast_concat]
    apply reads_returns (getline_full plain length)
    rw [cut, stripSpaces_tag]
    exact action_cut (isSkipped_tag nonempty (by decide) (by decide)) (extractTag_cut name.closed)
  · have length : name.closing.length ≤ 510 := by
      simp only [Name.closing, length_cons, length_append, length_nil]
      omega
    apply reads_returns (getline_line plain length rest)
    rw [Name.closing, stripSpaces_tag]
    exact action_own (isSkipped_tag (by simp) (by decide) (by decide)) (extractTag_text name.closed)

/-- A line that begins with a value, as far as it is seen. -/
def valueLine (text rest : CString) : CString := '<' :: (valueTag ++ '>' :: (text ++ '<' :: rest))

theorem action_value {text : Text} :
    action (some name.text) (valueLine text.text rest) = .adds text.text := by
  have seen : isSkipped (valueLine text.text rest) = false :=
    isSkipped_tag (by simp) (by decide) (by decide)
  have tagged : extractTag (valueLine text.text rest) = some valueTag :=
    extractTag_open (by decide) (by decide)
  have opened : '<' ∉ text.text := fun inside => (text.plain '<' inside).1 rfl
  have start :
      strchr '>' (valueLine text.text rest) = some ('>' :: (text.text ++ '<' :: rest)) := by
    have bracket : '>' ∉ '<' :: valueTag := by decide
    exact strchr_append bracket
  have found : extractValue (valueLine text.text rest) = some text.text := by
    rw [extractValue, start, Option.bind_some, tail_cons, if_pos (by simp), upTo_append opened]
  have reserved : valueTag ≠ descriptionTag := by decide
  simp [action, seen, tagged, found, reserved, name.section_name]

theorem valueEnd_cut : ∀ kept < 9, 2 ≤ kept →
    IsComment (valueEnd.drop kept) ∧ (valueEnd.take kept).dropLast.head? = some '<' := by
  simp only [IsComment]
  decide

theorem Text.one_line (text : Text) : '\n' ∉ text.text :=
  fun inside => (text.plain '\n' inside).2 rfl

theorem valueEnd_plain : '\n' ∉ valueEnd := by decide

theorem reads_value_at_once {text : Text} (short : text.text.length ≤ 495) :
    Reads (printLine text.line rest) (some name.text) value items parsed ↔
      Reads rest (some name.text) (value ++ [text.text]) items parsed := by
  have plain : '\n' ∉ text.line := by
    have tag : '\n' ∉ valueTag := by decide
    simp [Text.line, tag, text.one_line, valueEnd_plain]
  have length : text.line.length ≤ 510 := by
    simp only [Text.line, length_cons, length_append]
    change 5 + (text.text.length + 8 + 1) + 1 ≤ 510
    omega
  apply reads_adds (getline_line plain length rest)
  exact action_value _

theorem reads_value {text : Text} (short : text.text.length ≤ 502) (rest : CString) :
    Reads (printLine text.line rest) (some name.text) value items parsed ↔
      Reads rest (some name.text) (value ++ [text.text]) items parsed := by
  by_cases fits : text.text.length ≤ 495
  · exact reads_value_at_once rest fits
  obtain ⟨kept, keeps⟩ : ∃ kept, kept + text.text.length = 504 := ⟨504 - text.text.length, by omega⟩
  obtain ⟨comment, head⟩ := valueEnd_cut kept (by omega) (by omega)
  obtain ⟨seen, frontLast⟩ := List.head?_eq_some_iff.mp head
  have nonempty : valueEnd.take kept ≠ [] := by
    intro empty
    rw [empty] at head
    cases head
  have line : printLine text.line rest =
      ('<' :: (valueTag ++ '>' :: (text.text ++ valueEnd.take kept))) ++ printLine
        (valueEnd.drop kept) rest := by
    have whole := take_append_drop kept valueEnd
    simp only [printLine, Text.line, append_assoc, cons_append]
    rw [← append_assoc (valueEnd.take kept), whole]
  have plain : '\n' ∉ '<' :: (valueTag ++ '>' :: (text.text ++ valueEnd.take kept)) := by
    have tag : '\n' ∉ valueTag := by decide
    have front : '\n' ∉ valueEnd.take kept := fun inside => valueEnd_plain (mem_of_mem_take inside)
    simp [tag, text.one_line, front]
  have full : ('<' :: (valueTag ++ '>' :: (text.text ++ valueEnd.take kept))).length = 511 := by
    simp only [length_cons, length_append, length_take]
    change 5 + (text.text.length + min kept 8 + 1) + 1 = 511
    omega
  have last : ('<' :: (valueTag ++ '>' :: (text.text ++ valueEnd.take kept))).dropLast =
      valueLine text.text seen := by
    have ends : text.text ++ valueEnd.take kept ≠ [] := by simp [nonempty]
    have regrouped : '<' :: (valueTag ++ '>' :: (text.text ++ valueEnd.take kept)) =
        ('<' :: (valueTag ++ ['>'])) ++ (text.text ++ valueEnd.take kept) := by simp
    rw [regrouped, dropLast_append_of_ne_nil ends, dropLast_append_of_ne_nil nonempty,
      frontLast, valueLine]
    simp
  have cut : '\n' ∉ valueEnd.drop kept := fun inside => valueEnd_plain (mem_of_mem_drop inside)
  have short_cut : (valueEnd.drop kept).length ≤ 510 := by
    rw [length_drop]
    change 8 - kept ≤ 510
    omega
  rw [line, reads_adds (getline_full plain full) (by
    rw [last, valueLine, stripSpaces_tag]
    exact action_value seen)]
  exact reads_comment cut short_cut comment rest

end Lines

theorem fits_cons :
    Fits (.cons entry inside others) ↔ entry.Fits ∧ Fits inside ∧ Fits others := by
  rw [Fits, Forest.nodes, forall_mem_cons, forall_mem_append]
  exact Iff.rfl

theorem reads_body {name : Name} {body : Body} (comments : body.CommentsFit)
    (unlike : Unlike (some name.text) body.trees)
    (values : ∀ text ∈ body.values, text.length ≤ 502) (fits : Fits body.trees) (after : CString) :
    Reads (body.print after) (some name.text) value items parsed ↔
      Reads after (some name.text) (value ++ body.values) (items.append body.trees) parsed := by
  induction body generalizing name value items parsed after with
  | nil => rw [Body.print, Body.values, Body.trees, append_nil, Forest.append_nil]
  | comment remark others ih =>
    rw [Body.print, reads_comment remark.plain comments.1 remark.comment,
      ih comments.2 unlike values fits]
    rfl
  | description remark others ih =>
    rw [Body.print, reads_description comments.1, ih comments.2 unlike values fits]
    rfl
  | value text others ih =>
    rw [Body.values, forall_mem_cons] at values
    rw [Body.print, reads_value values.1, ih comments unlike values.2 fits, append_assoc]
    rfl
  | tree inner inside others inside_ih ih =>
    obtain ⟨entry, insideFits, othersFit⟩ := fits_cons.mp fits
    obtain ⟨apart, insideUnlike, othersUnlike⟩ := unlike
    rw [Body.print, reads_opening entry.1 apart]
    have inner_iff (done : Parsed) :
        Reads (inside.print (printLine inner.closing (others.print after)))
          (some inner.text) [] .nil done ↔
          done = ⟨inside.values, inside.trees, inner.left (others.print after)⟩ := by
      rw [inside_ih comments.1 insideUnlike entry.2 insideFits, reads_closing entry.1]
      rfl
    simp only [inner_iff, exists_eq_left]
    rw [reads_left, ih comments.2 othersUnlike values othersFit, Parsed.close, Forest.append_assoc]
    rfl

theorem reads_tree {name : Name} {inside : Body} (comments : inside.CommentsFit)
    (other : xml_in ≠ some name.text)
    (unlike : Unlike (some name.text) inside.trees) (entry : Entry.Fits ⟨name.text, inside.values⟩)
    (fits : Fits inside.trees) (after : CString) :
    Reads (printLine name.opening (inside.print (printLine name.closing after))) xml_in value
      items parsed ↔
      Reads after xml_in value (items.append (.cons ⟨name.text, inside.values⟩ inside.trees .nil))
        parsed := by
  have inner_iff (done : Parsed) :
      Reads (inside.print (printLine name.closing after)) (some name.text) [] .nil done ↔
      done = ⟨inside.values, inside.trees, name.left after⟩ := by
    rw [reads_body comments unlike entry.2 fits, reads_closing entry.1]
    rfl
  rw [reads_opening entry.1 other]
  simp only [inner_iff, exists_eq_left]
  exact reads_left after

section Limits
variable {text : CString} {value : List CString}

theorem reads_extends (reads : Reads text xml_in value items parsed) :
    ∃ more, parsed.items = items.append more := by
  obtain ⟨fuel, parses⟩ := reads
  induction fuel generalizing text xml_in value items parsed with
  | zero => cases parses
  | succ fuel ih =>
    cases read : orcmGetline text with
    | none =>
      rw [parse_end read] at parses
      cases parses
      exact ⟨.nil, (Forest.append_nil items).symm⟩
    | some piece =>
      obtain ⟨line, rest⟩ := piece
      cases does : action xml_in line with
      | skips =>
        rw [parse_skips read does] at parses
        exact ih parses
      | returns =>
        rw [parse_returns read does] at parses
        cases parses
        exact ⟨.nil, (Forest.append_nil items).symm⟩
      | adds =>
        rw [parse_adds read does] at parses
        exact ih parses
      | opens =>
        rw [parse_opens read does] at parses
        obtain ⟨inner, -, closed⟩ := Option.bind_eq_some_iff.mp parses
        obtain ⟨more, extended⟩ := ih closed
        rw [Parsed.close, Forest.append_assoc] at extended
        exact ⟨_, extended⟩

theorem length_upTo (inside : char ∈ line) : (upTo char line).length < line.length := by
  induction line with
  | nil => cases inside
  | cons first line ih =>
    rw [upTo]
    by_cases same : first = char
    · rw [takeWhile_cons_of_neg (by simp [same])]
      exact Nat.succ_pos _
    · rw [takeWhile_cons_of_pos (by simp [same]), length_cons, length_cons]
      exact Nat.succ_lt_succ (ih ((List.mem_cons.mp inside).resolve_left (Ne.symm same)))

theorem skipSlash_cases : skipSlash line = line ∨ line = '/' :: skipSlash line := by
  cases line with
  | nil => exact Or.inl rfl
  | cons first rest =>
    by_cases slash : first = '/'
    · subst slash
      exact Or.inr rfl
    · exact Or.inl (skipSlash_other slash rest)

theorem seen_eq (seen : isSkipped line = false) : ∃ start, line = '<' :: start := by
  cases line with
  | nil => exact absurd seen (by decide)
  | cons first start =>
    refine ⟨start, ?_⟩
    simp only [isSkipped, Bool.or_eq_false_iff, getElem?_cons_zero, ne_eq, Option.some.injEq,
      decide_eq_false_iff_not, not_not] at seen
    rw [seen.1.1.2]

theorem tag_length (tagged : extractTag ('<' :: start) = some tag) :
    tag = upTo '>' (skipSlash start) ∧ tag.length < start.length := by
  rw [extractTag_eq] at tagged
  split at tagged
  · rename_i inside
    cases tagged
    refine ⟨rfl, (length_upTo inside).trans_le ?_⟩
    rcases skipSlash_cases with same | slash
    · rw [same]
    · have longer := congrArg List.length slash
      rw [length_cons] at longer
      omega
  · cases tagged

theorem value_length {value : CString} (tagged : extractTag ('<' :: start) = some valueTag)
    (valued : extractValue ('<' :: start) = some value) : value.length + 7 ≤ start.length := by
  have tag : valueTag = upTo '>' (skipSlash start) := (tag_length tagged).1
  have front : 5 ≤ (start.takeWhile (· ≠ '>')).length := by
    have length : (upTo '>' (skipSlash start)).length = 5 := by rw [← tag]; rfl
    rcases skipSlash_cases with same | slash
    · rw [same] at length
      exact length.ge
    · rw [slash, takeWhile_cons_of_pos (by decide), length_cons]
      exact length.symm.le.trans (Nat.le_succ _)
  have parts :=
    congrArg List.length (takeWhile_append_dropWhile : start.takeWhile (· ≠ '>') ++ _ = start)
  rw [length_append] at parts
  rw [extractValue, strchr, dropWhile_cons_of_pos (by decide)] at valued
  split at valued
  · cases valued
  · rw [Option.bind_some] at valued
    split at valued
    · rename_i inside
      cases valued
      have shorter := length_upTo inside
      rw [length_tail] at shorter
      omega
    · cases valued

theorem opens_bound (bound : line.length ≤ 510) (opens : action xml_in line = .opens tag) :
    tag.length ≤ 508 := by
  cases seen : isSkipped line with
  | true => simp [action, seen] at opens
  | false =>
    obtain ⟨start, rfl⟩ := seen_eq seen
    cases tagged : extractTag ('<' :: start) with
    | none => simp [action, seen, tagged] at opens
    | some found =>
      have same : found = tag := by
        simp only [action, seen, tagged, Bool.false_eq_true] at opens
        split_ifs at opens
        · split at opens <;> cases opens
        · exact Action.opens.inj opens
      have shorter := (tag_length tagged).2
      rw [length_cons] at bound
      rw [← same]
      omega

theorem adds_bound (bound : line.length ≤ 510) (adds : action xml_in line = .adds found) :
    found.length ≤ 502 := by
  cases seen : isSkipped line with
  | true => simp [action, seen] at adds
  | false =>
    obtain ⟨start, rfl⟩ := seen_eq seen
    cases tagged : extractTag ('<' :: start) with
    | none => simp [action, seen, tagged] at adds
    | some =>
      simp only [action, seen, tagged, Bool.false_eq_true, if_false] at adds
      split_ifs at adds with own described valued
      cases value : extractValue ('<' :: start) with
      | none => simp [value] at adds
      | some =>
        simp only [value, Action.adds.injEq] at adds
        rw [valued.2] at tagged
        have shorter := value_length tagged value
        rw [length_cons] at bound
        rw [← adds]
        omega

theorem fits_append : Fits (front.append back) ↔ Fits front ∧ Fits back := by
  rw [Fits, Forest.nodes_append, forall_mem_append]
  exact Iff.rfl

theorem fits_nil : Fits .nil := by
  intro tree inside
  cases inside

theorem reads_fits (reads : Reads text xml_in value items parsed)
    (values : ∀ text ∈ value, text.length ≤ 502)
    (fits : Fits items) : (∀ text ∈ parsed.value, text.length ≤ 502) ∧ Fits parsed.items := by
  obtain ⟨fuel, parses⟩ := reads
  induction fuel generalizing text xml_in value items parsed with
  | zero => cases parses
  | succ fuel ih =>
    cases read : orcmGetline text with
    | none =>
      rw [parse_end read] at parses
      cases parses
      exact ⟨values, fits⟩
    | some piece =>
      obtain ⟨line, rest⟩ := piece
      cases does : action xml_in line with
      | skips =>
        rw [parse_skips read does] at parses
        exact ih values fits parses
      | returns =>
        rw [parse_returns read does] at parses
        cases parses
        exact ⟨values, fits⟩
      | adds =>
        rw [parse_adds read does] at parses
        refine ih ?_ fits parses
        rw [forall_mem_append, forall_mem_singleton]
        exact ⟨values, adds_bound (getline_bound read) does⟩
      | opens =>
        rw [parse_opens read does] at parses
        obtain ⟨inner, opened, closed⟩ := Option.bind_eq_some_iff.mp parses
        have nothing : ∀ text ∈ ([] : List CString), text.length ≤ 502 :=
          fun _ inside => by cases inside
        obtain ⟨innerValues, innerFits⟩ := ih nothing fits_nil opened
        refine ih values ?_ closed
        rw [Parsed.close, fits_append, fits_cons]
        exact ⟨fits, ⟨opens_bound (getline_bound read) does, innerValues⟩, innerFits, fits_nil⟩

end Limits

section Files
variable {value : List CString} {document : Document}

theorem reads_document (comments : document.CommentsFit) (unlike : Unlike none document.trees)
    (fits : Fits document.trees) (undescribed : document.Undescribed) :
    Reads document.print none value items parsed ↔
      parsed = ⟨value, items.append document.trees, []⟩ := by
  induction document generalizing items with
  | nil => rw [Document.print, reads_end, Document.trees, Forest.append_nil]
  | comment remark others ih =>
    rw [Document.print, reads_comment remark.plain comments.1 remark.comment]
    exact ih comments.2 unlike fits undescribed
  | description => exact undescribed.elim
  | tree name inside others ih =>
    obtain ⟨entry, insideFits, othersFit⟩ := fits_cons.mp fits
    obtain ⟨-, insideUnlike, othersUnlike⟩ := unlike
    rw [Document.print, reads_tree comments.1 (Option.some_ne_none name.text).symm insideUnlike
      entry insideFits, ih comments.2 othersUnlike othersFit undescribed, Forest.append_assoc]
    rfl

theorem trees_not_described :
    document.trees ≠ .cons ⟨descriptionTag, values⟩ inside others := by
  induction document with
  | nil => exact fun same => by cases same
  | comment remark others ih => exact ih
  | description remark others ih => exact ih
  | tree name =>
    intro same
    have named : name.text = descriptionTag := congrArg Entry.name (Forest.cons.inj same).1
    exact name.section_name.1 named

theorem described_differs (comments : document.CommentsFit) (unlike : Unlike none document.trees)
    (fits : Fits document.trees) (described : ¬ document.Undescribed)
    (reads : Reads document.print none value items parsed) :
    parsed.items ≠ items.append document.trees := by
  induction document generalizing items with
  | nil => exact absurd trivial described
  | comment remark others ih =>
    rw [Document.print, reads_comment remark.plain comments.1 remark.comment] at reads
    exact ih comments.2 unlike fits described reads
  | description remark others =>
    obtain ⟨read, seen, tagged⟩ := remark.read comments.1
    rw [Document.print, reads_opens read (action_outside seen tagged)] at reads
    obtain ⟨inner, -, closed⟩ := reads
    obtain ⟨more, extended⟩ := reads_extends closed
    rw [extended, Parsed.close, Forest.append_assoc]
    intro same
    exact trees_not_described (Forest.append_left_cancel same).symm
  | tree name inside others ih =>
    obtain ⟨entry, insideFits, othersFit⟩ := fits_cons.mp fits
    obtain ⟨-, insideUnlike, othersUnlike⟩ := unlike
    rw [Document.print, reads_tree comments.1 (Option.some_ne_none name.text).symm insideUnlike
      entry insideFits] at reads
    have differs := ih comments.2 othersUnlike othersFit described reads
    rwa [Forest.append_assoc] at differs

theorem undescribed_of_read (comments : document.CommentsFit) (unlike : Unlike none document.trees)
    (same : readConfig document.print = some document.trees) :
    Fits document.trees ∧ document.Undescribed := by
  obtain ⟨parsed, reads, same⟩ := readConfig_iff.mp same
  have fits : Fits document.trees := by
    rw [← same]
    exact (reads_fits reads (fun _ inside => by cases inside) fits_nil).2
  refine ⟨fits, ?_⟩
  by_contra described
  exact described_differs comments unlike fits described reads same

theorem config_round_trip_iff (document : Document) (comments : document.CommentsFit)
    (unlike : Unlike none document.trees) :
    readConfig document.print = some document.trees ↔ Fits document.trees ∧
      document.Undescribed := by
  constructor
  · exact undescribed_of_read comments unlike
  · rintro ⟨fits, undescribed⟩
    exact readConfig_iff.mpr ⟨_, (reads_document comments unlike fits undescribed).mpr rfl, rfl⟩

def logName : Name where
  text := ['l', 'o', 'g']
  plain := by simp
  first := ⟨'l', rfl, by decide, by decide, by decide⟩
  section_name := by decide

def logText : Text where
  text := ['o', 'n']
  plain := by simp

def logRemark : Description where
  closing := false
  text := []
  plain := List.not_mem_nil

def logFile : Document := .tree logName (.value logText (.description logRemark .nil)) .nil

theorem log_file_round_trip :
    readConfig logFile.print = some logFile.trees ↔ Fits logFile.trees ∧ logFile.Undescribed :=
  config_round_trip_iff logFile ⟨⟨by decide, trivial⟩, trivial⟩ ⟨by decide, trivial, trivial⟩

/-- A description in front of the section becomes a section around it. -/
theorem described_file_misread :
    readConfig (Document.description logRemark logFile).print ≠
      some (Document.description logRemark logFile).trees := by
  intro same
  have fits : (Document.description logRemark logFile).CommentsFit :=
    ⟨by decide, ⟨by decide, trivial⟩, trivial⟩
  exact (undescribed_of_read fits ⟨by decide, trivial, trivial⟩ same).2

end Files

end Orcm.SiteFile
