import Orcm.ArgumentVector

/-!
How splitting and joining argument vectors undo each other. The joiner writes the delimiter as one
`char`, and the splitter compares it as an `int`.
-/

namespace Orcm.ArgumentLaws

open CLibrary ArgumentVector List
open DssTypes (CText)

section Laws

variable (delimiter : Int)

def IsChar : Prop := -128 ≤ delimiter ∧ delimiter ≤ 127 ∧ delimiter ≠ 0

variable {delimiter}

theorem charValue_toChar :
    charValue (toChar delimiter) = delimiter ↔ -128 ≤ delimiter ∧ delimiter ≤ 127 := by
  have small : (delimiter % 256).toNat < 256 := by omega
  unfold charValue toChar
  rw [UInt8.toNat_ofNat_of_lt' small, Int.bmod]
  split <;> omega

theorem toChar_charValue : toChar (charValue byte) = byte := by
  have bound := byte.toNat_lt
  have same : (charValue byte % 256).toNat = byte.toNat := by
    unfold charValue
    rw [Int.bmod]
    split <;> omega
  rw [toChar, same, UInt8.ofNat_toNat]

theorem isChar_iff :
    IsChar delimiter ↔ charValue (toChar delimiter) = delimiter ∧ toChar delimiter ≠ 0 := by
  rw [charValue_toChar, and_assoc]
  refine and_congr_right fun low => and_congr_right fun high => not_congr ?_
  constructor
  · rintro rfl
    rfl
  · intro zero
    have value := charValue_toChar.mpr ⟨low, high⟩
    have ends : charValue 0 = 0 := by decide
    rw [zero, ends] at value
    exact value.symm

/-- A delimiter that is a `char` is the character that the joiner writes. -/
theorem parts_isChar (isChar : charValue (toChar delimiter) = delimiter) (text : List UInt8) :
    parts delimiter text = text.splitOn (toChar delimiter) := by
  have same : ∀ byte, decide (charValue byte = delimiter) = (byte == toChar delimiter) := by
    intro byte
    by_cases equal : byte = toChar delimiter
    · rw [equal, isChar, beq_self_eq_true, decide_eq_true rfl]
    · have differs : charValue byte ≠ delimiter :=
        fun value => equal (by rw [← value, toChar_charValue])
      rw [beq_false_of_ne equal, decide_eq_false differs]
  rw [parts, funext same]
  rfl

variable (delimiter)

def DelimiterFree (strings : List (List UInt8)) : Prop :=
  ∀ text ∈ strings, ∀ byte ∈ text, charValue byte ≠ delimiter

variable {delimiter}

theorem parts_free (free : ∀ byte ∈ text, charValue byte ≠ delimiter) :
    parts delimiter text = [text] :=
  splitOnP_eq_singleton fun byte member => decide_eq_false (free byte member)

theorem joined_singleton : joined delimiter [text] = text := by
  simp [joined]

variable {strings : List (List UInt8)}

theorem parts_joined (some_given : strings ≠ []) (free : DelimiterFree delimiter strings)
    (isChar : strings.length ≤ 1 ∨ charValue (toChar delimiter) = delimiter) :
    parts delimiter (joined delimiter strings) = strings := by
  by_cases isChar' : charValue (toChar delimiter) = delimiter
  · rw [parts_isChar isChar', joined]
    apply splitOn_intercalate (toChar delimiter) _ some_given
    intro text member inside
    exact free text member _ inside isChar'
  · obtain ⟨text, rfl⟩ : ∃ text, strings = [text] := by
      have positive := List.length_pos_iff.mpr some_given
      exact List.length_eq_one_iff.mp
        (by rcases isChar with short | char; omega; exact absurd char isChar')
    rw [joined_singleton]
    exact parts_free (free text mem_cons_self)

theorem mem_joined (member : byte ∈ joined delimiter strings) :
    byte = toChar delimiter ∨ ∃ text ∈ strings, byte ∈ text := by
  induction strings with
  | nil => simp [joined] at member
  | cons first rest ih =>
    cases rest with
    | nil =>
      rw [joined_singleton] at member
      exact .inr ⟨first, mem_cons_self, member⟩
    | cons =>
      rw [joined, intercalate_cons_cons, mem_append, mem_append, mem_singleton] at member
      rcases member with (inside | same) | later
      · exact .inr ⟨first, mem_cons_self, inside⟩
      · exact .inl same
      · rcases ih later with same | ⟨text, present, inside⟩
        · exact .inl same
        · exact .inr ⟨text, mem_cons_of_mem first present, inside⟩

/-- Where the delimiter is not a `char`, the splitter does not find what the joiner wrote. -/
theorem parts_joined_lost (free : DelimiterFree delimiter strings)
    (lost : charValue (toChar delimiter) ≠ delimiter) :
    parts delimiter (joined delimiter strings) = [joined delimiter strings] := by
  apply parts_free
  intro byte member
  rcases mem_joined member with rfl | ⟨text, present, inside⟩
  · exact lost
  · exact free text present byte inside

theorem kept_eq (ends : found.getLast? ≠ some []) : kept true found = found := by
  simp [kept, ends]

theorem kept_spread (ends : found.getLast? = some []) :
    spread (kept true found) + 1 = spread found := by
  have whole := dropLast_append_getLast? [] ends
  have same : kept true found = found.dropLast := by simp [kept, ends]
  conv_rhs => rw [← whole]
  simp [same, spread]

theorem ofBlock_total : total (found.map CText.ofBlock) ≤ spread found := by
  induction found with
  | nil => exact Nat.le_refl _
  | cons first rest ih =>
    have shorter : (CText.ofBlock first).bytes.length ≤ first.length :=
      (takeWhile_sublist _).length_le
    simp only [total, spread, map_cons, sum_cons] at ih ⊢
    omega

theorem split_spec (done : opalArgvSplitWithEmpty text delimiter = some argv) :
    argv = (kept true (parts delimiter text.bytes)).map CText.ofBlock ∧ argv.length ≤ 2147483646 ∧
      total argv ≤ spread (kept true (parts delimiter text.bytes)) := by
  rw [splitWithEmpty_eq, appended] at done
  split at done
  · rename_i fits
    obtain rfl := Option.some.inj done
    refine ⟨rfl, ?_, ?_⟩
    · rcases fits with empty | fits
      · simp [empty]
      · simpa using fits
    · exact ofBlock_total
  · cases done

theorem ofBlock_text (same : text.bytes = block) : CText.ofBlock block = text := by
  have bytes := ofBlock_bytes text.noZero
  rw [same] at bytes
  cases text with
  | mk =>
    cases built : CText.ofBlock block with
    | mk =>
      rw [built] at bytes
      simp only at bytes same
      simp [bytes, same]

theorem ofBlock_texts {strings : List CText} :
    (strings.map CText.bytes).map CText.ofBlock = strings := by
  rw [map_map]
  exact map_id'' (fun text => ofBlock_text rfl) strings

theorem toChar_mem_joined (several : 1 < strings.length) :
    toChar delimiter ∈ joined delimiter strings := by
  cases strings with
  | nil => simp at several
  | cons first rest =>
    cases rest with
    | nil => simp at several
    | cons => simp [joined, intercalate_cons_cons]

theorem split_join_whole {strings : List CText} (some_given : strings ≠ [])
    (joining : opalArgvJoin strings delimiter = some text)
    (splitting : opalArgvSplitWithEmpty text delimiter = some strings) :
    text.bytes = joined delimiter (strings.map CText.bytes) ∧ total strings < 18446744073709551616 ∧
      (parts delimiter text.bytes).getLast? ≠ some [] := by
  obtain ⟨short, whole⟩ := join_length delimiter some_given joining
  obtain ⟨_, _, found⟩ := split_spec splitting
  have held := parts_spread delimiter text.bytes
  have ends : (parts delimiter text.bytes).getLast? ≠ some [] := by
    intro ends
    have lost := kept_spread ends
    omega
  rw [kept_eq ends] at found
  exact ⟨whole (by omega), by omega, ends⟩

theorem joined_clean {strings : List CText} (isChar : strings.length ≤ 1 ∨ IsChar delimiter) :
    0 ∉ joined delimiter (strings.map CText.bytes) := by
  rcases isChar with short | isChar
  · cases strings with
    | nil => simp [joined]
    | cons text rest =>
      obtain rfl : rest = [] :=
        List.length_eq_zero_iff.mp (by simp only [length_cons] at short; omega)
      rw [map_singleton, joined_singleton]
      exact text.noZero
  · intro member
    rcases mem_joined member with zero | ⟨bytes, present, inside⟩
    · exact (isChar_iff.mp isChar).2 zero.symm
    · obtain ⟨text, _, rfl⟩ := List.mem_map.mp present
      exact text.noZero inside

theorem split_join_iff (strings : List CText)
    (free : DelimiterFree delimiter (strings.map CText.bytes)) :
    ((opalArgvJoin strings delimiter).bind fun text => opalArgvSplitWithEmpty text delimiter) =
      some strings ↔
      strings = [] ∨ (∀ last ∈ strings.getLast?, last.bytes ≠ []) ∧
        (strings.length ≤ 1 ∨ IsChar delimiter) ∧
        strings.length ≤ 2147483646 ∧ total strings < 18446744073709551616 := by
  by_cases empty : strings = []
  · subst strings
    exact ⟨fun _ => .inl rfl, fun _ => rfl⟩
  have given : strings.map CText.bytes ≠ [] := mt List.map_eq_nil_iff.mp empty
  constructor
  · intro done
    right
    obtain ⟨text, joining, splitting⟩ := Option.bind_eq_some_iff.mp done
    obtain ⟨whole, fits, ends⟩ := split_join_whole empty joining splitting
    obtain ⟨found, countable, _⟩ := split_spec splitting
    rw [kept_eq ends] at found
    rw [whole] at found ends
    by_cases isChar : charValue (toChar delimiter) = delimiter
    · have same := parts_joined given free (.inr isChar)
      rw [same, getLast?_map] at ends
      refine ⟨?_, ?_, countable, fits⟩
      · intro last member nothing
        rw [Option.mem_def.mp member, Option.map_some, nothing] at ends
        exact ends rfl
      · by_cases several : 1 < (strings.map CText.bytes).length
        · right
          refine isChar_iff.mpr ⟨isChar, fun zero => text.noZero ?_⟩
          rw [whole, ← zero]
          exact toChar_mem_joined several
        · left
          rw [length_map] at several
          omega
    · have lost := parts_joined_lost free isChar
      rw [lost] at found ends
      have single : strings.length = 1 := by rw [found]; rfl
      refine ⟨?_, .inl (by omega), countable, fits⟩
      obtain ⟨text, rfl⟩ := List.length_eq_one_iff.mp single
      intro last member nothing
      obtain rfl : text = last := by simpa using member
      simp [joined_singleton, nothing] at ends
  · rintro (nothing | ⟨ends, isChar, countable, fits⟩)
    · exact absurd nothing empty
    · have clean := joined_clean isChar
      have same := parts_joined given free (by
        rw [length_map]
        exact isChar.imp_right fun char => (isChar_iff.mp char).1)
      have last : (strings.map CText.bytes).getLast? ≠ some [] := by
        rw [getLast?_map]
        intro found
        obtain ⟨last, member, nothing⟩ := Option.map_eq_some_iff.mp found
        exact ends last member nothing
      rw [join_whole delimiter empty fits, Option.bind_some, splitWithEmpty_eq,
        ofBlock_bytes clean, same,
        kept_eq last, appended, if_pos (.inr (by simpa using countable)), ofBlock_texts, nil_append]

variable (delimiter)

theorem joined_parts : joined delimiter (parts delimiter text) = text := by
  by_cases isChar : charValue (toChar delimiter) = delimiter
  · rw [parts_isChar isChar, joined, intercalate_splitOn]
  · have free : ∀ byte ∈ text, charValue byte ≠ delimiter := fun byte _ same =>
      isChar (by rw [← same, toChar_charValue])
    rw [parts_free free, joined_singleton]

theorem parts_texts (text : CText) :
    ((parts delimiter text.bytes).map CText.ofBlock).map CText.bytes = parts delimiter
      text.bytes := by
  rw [map_map]
  conv_rhs => rw [← map_id (parts delimiter text.bytes)]
  apply map_congr_left
  intro part member
  exact ofBlock_bytes fun inside =>
    text.noZero (parts_subset delimiter text.bytes part member 0 inside)

theorem join_split_iff (text : CText) :
    ((opalArgvSplitWithEmpty text delimiter).bind fun argv => opalArgvJoin argv delimiter) =
      some text ↔
      (∀ last ∈ text.bytes.getLast?, charValue last ≠ delimiter) ∧
        text.bytes.countP (fun byte => charValue byte = delimiter) < 2147483646 ∧
        text.bytes.length + 1 < 18446744073709551616 := by
  have held := parts_spread delimiter text.bytes
  have count := parts_length delimiter text.bytes
  have ends_iff := parts_last delimiter text.bytes
  by_cases empty : text.bytes = []
  · have nothing : kept true (parts delimiter []) = [] := rfl
    rw [splitWithEmpty_eq, empty, nothing, appended_nil, Option.bind_some, opalArgvJoin, if_pos rfl,
      ofBlock_text empty]
    simp
  constructor
  · intro done
    obtain ⟨argv, splitting, joining⟩ := Option.bind_eq_some_iff.mp done
    obtain ⟨found, countable, bounded⟩ := split_spec splitting
    have some_found : argv ≠ [] := by
      rintro rfl
      have nothing := congrArg CText.bytes (Option.some.inj joining)
      exact empty nothing.symm
    obtain ⟨short, _⟩ := join_length delimiter some_found joining
    have ends : (parts delimiter text.bytes).getLast? ≠ some [] := by
      intro ends
      have lost := kept_spread ends
      omega
    rw [kept_eq ends] at found
    rw [found, length_map] at countable
    refine ⟨?_, by omega, by omega⟩
    intro last member same
    exact ends (ends_iff.mpr (.inr ⟨last, member, same⟩))
  · rintro ⟨differs, countable, fits⟩
    have ends : (parts delimiter text.bytes).getLast? ≠ some [] := by
      intro ends
      rcases ends_iff.mp ends with nothing | ⟨last, member, same⟩
      · exact empty nothing
      · exact differs last member same
    have texts := parts_texts delimiter text
    have whole :
        total ((parts delimiter text.bytes).map CText.ofBlock) = text.bytes.length + 1 := by
      rw [total_eq, texts, held]
    rw [splitWithEmpty_eq, kept_eq ends, appended, if_pos (.inr (by rw [length_nil]; omega)),
      Option.bind_some,
      nil_append, join_whole delimiter (by simp [parts_ne_nil]) (by omega), texts, joined_parts,
      ofBlock_text rfl]

theorem join_range_iff (argv : List CText) (start «end» : Nat) :
    (∃ text, opalArgvJoinRange argv start «end» delimiter = some text ∧
      opalArgvJoin ((argv.drop start).take («end» - start)) delimiter = some text) ↔
      argv = [] ∨ (argv.length : Int) ≤ intMax ∧
        ((argv.length : Int) < toInt start ∨ start < «end» ∧ start < argv.length ∧
          total ((argv.drop start).take («end» - start)) % 18446744073709551616 ≠ 0) := by
  by_cases empty : argv = []
  · subst argv
    exact ⟨fun _ => .inl rfl, fun _ => ⟨CText.ofBlock [], rfl, by simp [opalArgvJoin]⟩⟩
  rw [opalArgvJoinRange, if_neg empty, opalArgvCount]
  by_cases countable : (argv.length : Int) ≤ intMax
  · rw [if_pos countable, Option.bind_some]
    by_cases beyond : (argv.length : Int) < toInt start
    · have behind : argv.length < start := by
        rw [toInt, Int.bmod] at beyond
        split at beyond <;> omega
      rw [if_pos beyond, drop_eq_nil_of_le (Nat.le_of_lt behind), take_nil]
      exact ⟨fun _ => .inr ⟨countable, .inl beyond⟩, fun _ => ⟨_, rfl, rfl⟩⟩
    · have bounded :
          (argv.length : Int) ≤ intMax ∧ ((argv.length : Int) < toInt start ∨ start < «end» ∧
          start < argv.length ∧
            total ((argv.drop start).take («end» - start)) % 18446744073709551616 ≠ 0) ↔
          start < «end» ∧ start < argv.length ∧
            total ((argv.drop start).take («end» - start)) % 18446744073709551616 ≠ 0 := by
        simp [countable, beyond]
      rw [if_neg beyond, bounded, or_iff_right empty]
      by_cases outside : argv.length < start
      · rw [if_pos outside]
        constructor
        · rintro ⟨_, none_joined, _⟩
          cases none_joined
        · omega
      · rw [if_neg outside]
        have front := take_append_drop («end» - start) (argv.drop start)
        have length : ((argv.drop start).take («end» - start)).length = min («end» - start)
            (argv.length - start) := by
          rw [length_take, length_drop]
        generalize (argv.drop start).take («end» - start) = counted at *
        rw [← front]
        by_cases nothing : counted = []
        · subst counted
          constructor
          · rintro ⟨_, none_joined, _⟩
            cases none_joined
          · simp only [length_nil] at length
            omega
        · have some_counted := List.length_pos_iff.mpr nothing
          rw [joinInto_eq delimiter _ nothing, opalArgvJoin_eq delimiter nothing]
          by_cases wraps : total counted % 18446744073709551616 = 0
          · simp [wraps]
          · rw [if_neg wraps]
            exact ⟨fun _ => ⟨by omega, by omega, wraps⟩, fun _ => ⟨_, rfl, rfl⟩⟩
  · rw [if_neg countable]
    simp [empty, countable]

end Laws

/-- The three laws of argument vectors, each with what it takes. -/
theorem argument_vector_laws (delimiter : Int) :
    (∀ strings : List CText, DelimiterFree delimiter (strings.map CText.bytes) →
      (((opalArgvJoin strings delimiter).bind fun text => opalArgvSplitWithEmpty text delimiter) =
        some strings ↔
        strings = [] ∨ (∀ last ∈ strings.getLast?, last.bytes ≠ []) ∧
          (strings.length ≤ 1 ∨ IsChar delimiter) ∧
          strings.length ≤ 2147483646 ∧ total strings < 18446744073709551616)) ∧
    (∀ text : CText,
      ((opalArgvSplitWithEmpty text delimiter).bind fun argv => opalArgvJoin argv delimiter) =
        some text ↔
        (∀ last ∈ text.bytes.getLast?, charValue last ≠ delimiter) ∧
          text.bytes.countP (fun byte => charValue byte = delimiter) < 2147483646 ∧
          text.bytes.length + 1 < 18446744073709551616) ∧
    (∀ (argv : List CText) (start «end» : Nat),
      (∃ text, opalArgvJoinRange argv start «end» delimiter = some text ∧
        opalArgvJoin ((argv.drop start).take («end» - start)) delimiter = some text) ↔
        argv = [] ∨ (argv.length : Int) ≤ intMax ∧
          ((argv.length : Int) < toInt start ∨ start < «end» ∧ start < argv.length ∧
            total ((argv.drop start).take («end» - start)) % 18446744073709551616 ≠ 0)) :=
  ⟨split_join_iff, join_split_iff delimiter, join_range_iff delimiter⟩

/-- An empty string at the end of a vector is lost, and so is a delimiter at the end of a string; an
empty range at the end of a vector writes in front of the block that is allocated for it. -/
theorem argument_vector_losses :
    ((opalArgvJoin [CText.ofBlock [97], CText.ofBlock []] 44).bind fun text =>
      opalArgvSplitWithEmpty text 44) =
      some [CText.ofBlock [97]] ∧
    ((opalArgvSplitWithEmpty (CText.ofBlock [97, 44]) 44).bind fun argv => opalArgvJoin argv 44) =
      some (CText.ofBlock [97]) ∧
    opalArgvJoinRange [CText.ofBlock [97]] 1 1 44 = none := by
  decide +kernel

/-- The laws at the strings `a` and `b`. -/
theorem argument_vector_laws_two :
    ((opalArgvJoin [CText.ofBlock [97], CText.ofBlock [98]] 44).bind fun text =>
      opalArgvSplitWithEmpty text 44) =
      some [CText.ofBlock [97], CText.ofBlock [98]] :=
  ((argument_vector_laws 44).1 [CText.ofBlock [97], CText.ofBlock [98]]
    (by unfold DelimiterFree; decide +kernel)).mpr
    (.inr ⟨by decide +kernel, .inr (by unfold IsChar; decide), by decide +kernel, by
        decide +kernel⟩)

end Orcm.ArgumentLaws
