import Orcm.RegexExtract

/-!
`orte_regex_create` of `orte/util/regex.c`. Names that agree on prefix, suffix and digit count share
one entry whose numbers are merged into ranges; names with other characters, or without a digit,
stand for themselves. The fixed prefix buffer and the `int` sums of the source can overflow; both
are undefined here.
-/

namespace Orcm.RegexCreate

open CLibrary RegexExtract List Result

structure RegexRange where
  start : Int
  cnt : Int
  deriving DecidableEq, Repr

structure RegexNode where
  pfx : Option CString
  suffix : Option CString
  num_digits : Nat
  ranges : List RegexRange
  deriving DecidableEq, Repr

def orteMaxNodePrefix : Nat := 50

structure NameScan where
  fullname : Bool
  startnum : Option Nat
  numdigits : Nat
  pfx : CString
  deriving DecidableEq, Repr

/-- The loop over a name's characters from index `i` on; writing past the prefix buffer is
undefined. -/
def scanName : CString → Nat → NameScan → Result NameScan
  | [], _, scan => .ok scan
  | char :: rest, i, scan =>
    if char.isAlpha then
      if scan.startnum.isNone then
        if scan.pfx.length < orteMaxNodePrefix then
          scanName rest (i + 1) { scan with pfx := scan.pfx ++ [char] }
        else Result.undefined
      else scanName rest (i + 1) scan
    else if char.isDigit then
      scanName rest (i + 1)
        { scan with numdigits := scan.numdigits + 1, startnum := some (scan.startnum.getD i) }
    else .ok { scan with fullname := true }

def sameEntry (pfx suffix : CString) (numdigits : Nat) (ndreg : RegexNode) : Bool :=
  (if pfx = [] then ndreg.pfx.isNone else ndreg.pfx = some pfx) &&
    ndreg.suffix = some suffix && numdigits = ndreg.num_digits

/-- Adds a number after the last range of an entry, or extends that range by it. -/
def extendRanges (ranges : List RegexRange) (nodenum : Int) : Result (List RegexRange) :=
  match ranges.getLast? with
  | none => .ok [⟨nodenum, 1⟩]
  | some range => do
      let next ← intAdd range.start range.cnt
      if nodenum ≠ next then pure (ranges ++ [⟨nodenum, 1⟩])
      else do
        let cnt ← intAdd range.cnt 1
        pure (ranges.dropLast ++ [{ range with cnt }])

/-- Puts a number on the first entry it belongs to, or on a new one at the end. -/
def recordNumber (pfx suffix : CString) (numdigits : Nat) (nodenum : Int) :
    List RegexNode → Result (List RegexNode)
  | [] => .ok [⟨if pfx = [] then none else some pfx, some suffix, numdigits, [⟨nodenum, 1⟩]⟩]
  | ndreg :: rest =>
    if sameEntry pfx suffix numdigits ndreg then do
      let ranges ← extendRanges ndreg.ranges nodenum
      pure ({ ndreg with ranges } :: rest)
    else do
      let others ← recordNumber pfx suffix numdigits nodenum rest
      pure (ndreg :: others)

def addNode (nodeids : List RegexNode) (node : Name) : Result (List RegexNode) := do
  let scan ← scanName node 0 ⟨false, none, 0, []⟩
  match scan.fullname, scan.startnum with
  | false, some startnum =>
    let (number, sfx) := strtol (node.drop startnum)
    -- a full prefix buffer has no terminating zero for `strlen` to find
    if scan.pfx.length < orteMaxNodePrefix then
      recordNumber scan.pfx sfx scan.numdigits (toInt number) nodeids
    else Result.undefined
  | _, _ => pure (nodeids ++ [⟨some node, none, 0, []⟩])

def printRange (range : RegexRange) : Result CString :=
  if range.cnt = 1 then .ok (formatInt range.start)
  else do
    let next ← intAdd range.start range.cnt
    pure (formatInt range.start ++ '-' :: formatInt (next - 1))

def printNode (ndreg : RegexNode) : Result (Option CString) :=
  if ndreg.ranges = [] then .ok ndreg.pfx
  else do
    let ranges ← ndreg.ranges.mapM printRange
    pure (some (ndreg.pfx.getD [] ++ '[' :: (formatInt ndreg.num_digits ++ ':' ::
      (joinWith ',' ranges ++ ']' :: ndreg.suffix.getD []))))

def orteRegexCreate (nodelist : CString) : Result CString :=
  if ',' ∉ nodelist then .ok nodelist
  else do
    let nodeids ← (commaFields nodelist).foldlM addNode []
    let regexargs ← nodeids.mapM printNode
    pure (joinWith ',' (regexargs.filterMap id))

/-! How a name is read. These parts are functions of the name alone. -/

def leading (name : Name) : CString := name.takeWhile Char.isAlpha

def numberDigits (name : Name) : CString := (name.dropWhile Char.isAlpha).takeWhile Char.isDigit

def trailing (name : Name) : CString := (name.dropWhile Char.isAlpha).dropWhile Char.isDigit

/-- Letters and digits only, at least one of them a digit: the names that are compressed. -/
def Numbered (name : Name) : Prop := name.all Char.isAlphanum ∧ name.any Char.isDigit

instance (name : Name) : Decidable (Numbered name) := inferInstanceAs (Decidable (_ ∧ _))

def digitCount (name : Name) : Nat := name.countP Char.isDigit

def number (name : Name) : Nat := decimalValue (numberDigits name)

/-- The number as the `int` that the source keeps. -/
def nodenum (name : Name) : Int := toInt (min longMax (number name))

/-- The letters in front fit the prefix buffer, with room for a terminating zero where it is
needed. -/
def PrefixFits (name : Name) : Prop :=
  (leading name).length ≤ orteMaxNodePrefix ∧
    (Numbered name → (leading name).length < orteMaxNodePrefix)

instance (name : Name) : Decidable (PrefixFits name) := inferInstanceAs (Decidable (_ ∧ _))

theorem isAlpha_ne_isDigit {char : Char} (alpha : char.isAlpha) : char.isDigit = false := by
  have letter : (65 ≤ char.toNat ∧ char.toNat ≤ 90) ∨ (97 ≤ char.toNat ∧ char.toNat ≤ 122) := by
    delta Char.isAlpha Char.isUpper Char.isLower at alpha
    simpa [UInt32.le_iff_toNat_le] using alpha
  rw [← Bool.not_eq_true, Char.isDigit_iff_toNat]
  change ¬ (48 ≤ char.toNat ∧ char.toNat ≤ 57)
  omega

theorem name_parts (name : Name) : leading name ++ (numberDigits name ++ trailing name) = name := by
  rw [numberDigits, trailing, takeWhile_append_dropWhile, leading, takeWhile_append_dropWhile]

theorem scanName_after_digit (text : CString) (i start count : Nat) (pfx : CString) :
    ∃ counted, scanName text i ⟨false, some start, count, pfx⟩ =
      .ok ⟨!text.all Char.isAlphanum, some start, counted, pfx⟩ ∧
      (text.all Char.isAlphanum → counted = count + text.countP Char.isDigit) := by
  induction text generalizing i count with
  | nil => exact ⟨count, by simp [scanName]⟩
  | cons char rest ih =>
    by_cases alpha : char.isAlpha
    · obtain ⟨counted, scanned, total⟩ := ih (i + 1) count
      refine ⟨counted, ?_, ?_⟩
      · simp [scanName, alpha, scanned, Char.isAlphanum]
      · simpa [countP_cons, isAlpha_ne_isDigit alpha, Char.isAlphanum, alpha] using total
    · by_cases digit : char.isDigit
      · obtain ⟨counted, scanned, total⟩ := ih (i + 1) (count + 1)
        refine ⟨counted, ?_, ?_⟩
        · simp [scanName, alpha, digit, scanned, Char.isAlphanum]
        · intro valid
          rw [total (by simpa [Char.isAlphanum, alpha, digit] using valid), countP_cons, digit]
          simp
          omega
      · exact ⟨count, by simp [scanName, alpha, digit, Char.isAlphanum]⟩

theorem scanName_letters (rest : CString) (i : Nat) (pfx : CString)
    (alpha : letters.all Char.isAlpha) :
    scanName (letters ++ rest) i ⟨false, none, 0, pfx⟩ =
      if letters = [] ∨ pfx.length + letters.length ≤ orteMaxNodePrefix then
        scanName rest (i + letters.length) ⟨false, none, 0, pfx ++ letters⟩
      else undefined := by
  induction letters generalizing i pfx with
  | nil => simp
  | cons char letters ih =>
    simp only [all_cons, Bool.and_eq_true] at alpha
    simp only [cons_append, scanName, alpha.1, ↓reduceIte, Option.isNone_none,
      reduceCtorEq, false_or, length_cons]
    by_cases room : pfx.length < orteMaxNodePrefix
    · rw [if_pos room, ih (i + 1) (pfx ++ [char]) alpha.2]
      simp only [length_append, length_singleton, append_assoc, singleton_append]
      by_cases last : letters = []
      · subst last
        simp [Nat.succ_le_of_lt room]
      · simp [last, false_or, Nat.add_assoc, Nat.add_comm 1]
    · rw [if_neg room, if_neg (by omega)]

theorem leading_all_isAlpha (name : Name) : (leading name).all Char.isAlpha := all_takeWhile

theorem numberDigits_all_isDigit : (numberDigits name).all Char.isDigit := all_takeWhile

theorem dropWhile_head {text : CString} (shape : text.dropWhile keeps = char :: rest) :
    keeps char = false := by
  have := head_dropWhile_not keeps (l := text) (by simp [shape])
  simpa [shape] using this

theorem trailing_not_startsWithDigit (name : Name) : ¬ StartsWithDigit (trailing name) := by
  rintro ⟨char, head, digit⟩
  cases shape : trailing name with
  | nil => simp [shape] at head
  | cons first =>
    rw [shape, head?_cons, Option.some.injEq] at head
    subst first
    simp [dropWhile_head shape] at digit

theorem leading_countP (name : Name) : (leading name).countP Char.isDigit = 0 := by
  rw [countP_eq_zero]
  intro char member
  simp [isAlpha_ne_isDigit (List.all_eq_true.mp (leading_all_isAlpha name) char member)]

theorem any_isDigit_iff {name : Name} :
    name.any Char.isDigit = (name.dropWhile Char.isAlpha).any Char.isDigit := by
  have front : (leading name).any Char.isDigit = false := by
    rw [any_eq_false]
    intro char member
    simp [isAlpha_ne_isDigit (List.all_eq_true.mp (leading_all_isAlpha name) char member)]
  conv_lhs => rw [← takeWhile_append_dropWhile (p := Char.isAlpha) (l := name)]
  rw [any_append, show List.takeWhile Char.isAlpha name = leading name from rfl, front,
    Bool.false_or]

theorem all_isAlphanum_iff {name : Name} :
    name.all Char.isAlphanum = (name.dropWhile Char.isAlpha).all Char.isAlphanum := by
  have front : (leading name).all Char.isAlphanum := by
    rw [all_eq_true]
    intro char member
    simp [Char.isAlphanum, List.all_eq_true.mp (leading_all_isAlpha name) char member]
  conv_lhs => rw [← takeWhile_append_dropWhile (p := Char.isAlpha) (l := name)]
  rw [all_append, show List.takeWhile Char.isAlpha name = leading name from rfl, front,
    Bool.true_and]

/-- The three ways a name can go on after its leading letters. -/
inductive NameShape (name : Name) : Prop where
  | letters (rest : name.dropWhile Char.isAlpha = []) (plain : ¬ Numbered name)
  | special (char : Char) (rest : CString) (shape : name.dropWhile Char.isAlpha = char :: rest)
      (alpha : char.isAlpha = false) (digit : char.isDigit = false) (plain : ¬ Numbered name)
  | digit (char : Char) (rest : CString) (shape : name.dropWhile Char.isAlpha = char :: rest)
      (alpha : char.isAlpha = false) (digit : char.isDigit) (numbered : Numbered name ↔
        rest.all Char.isAlphanum)

theorem nameShape {name : Name} : NameShape name := by
  cases shape : name.dropWhile Char.isAlpha with
  | nil =>
    refine .letters shape ?_
    rw [Numbered, any_isDigit_iff, shape]
    simp
  | cons char rest =>
    have alpha := dropWhile_head shape
    by_cases digit : char.isDigit
    · refine .digit char rest shape alpha digit ?_
      rw [Numbered, all_isAlphanum_iff, any_isDigit_iff, shape]
      simp [digit, Char.isAlphanum]
    · refine .special char rest shape alpha (by simpa using digit) ?_
      rw [Numbered, all_isAlphanum_iff, shape]
      simp [Char.isAlphanum, alpha, digit]

variable {name : Name}

theorem scanName_leading (fits : (leading name).length ≤ orteMaxNodePrefix) :
    scanName name 0 ⟨false, none, 0, []⟩ =
      scanName (name.dropWhile Char.isAlpha) (leading name).length
        ⟨false, none, 0, leading name⟩ := by
  have scanned := scanName_letters (name.dropWhile Char.isAlpha) 0 [] (leading_all_isAlpha name)
  rw [leading, takeWhile_append_dropWhile, ← leading,
    if_pos (.inr (by simpa using fits))] at scanned
  simpa using scanned

theorem scanName_overflow (name : Name) (long : orteMaxNodePrefix < (leading name).length) :
    scanName name 0 ⟨false, none, 0, []⟩ = undefined := by
  have scanned := scanName_letters (name.dropWhile Char.isAlpha) 0 [] (leading_all_isAlpha name)
  have some : leading name ≠ [] := ne_nil_of_length_pos (by omega)
  rw [leading, takeWhile_append_dropWhile, ← leading, if_neg (by simp [some]; omega)] at scanned
  exact scanned

theorem scanName_numbered (fits : (leading name).length ≤ orteMaxNodePrefix)
    (numbered : Numbered name) :
    scanName name 0 ⟨false, none, 0, []⟩ =
      .ok ⟨false, some (leading name).length, digitCount name, leading name⟩ := by
  rw [scanName_leading fits]
  rcases nameShape with ⟨-, plain⟩ | ⟨_, _, -, -, -, plain⟩ | ⟨char, rest, shape, alpha, digit, iff⟩
  · exact absurd numbered plain
  · exact absurd numbered plain
  · obtain ⟨counted, scanned, total⟩ :=
      scanName_after_digit rest ((leading name).length + 1) (leading name).length 1
      (leading name)
    have valid := iff.mp numbered
    have count : counted = digitCount name := by
      rw [total valid, digitCount]
      conv_rhs => rw [← takeWhile_append_dropWhile (p := Char.isAlpha) (l := name)]
      rw [countP_append, show List.takeWhile Char.isAlpha name = leading name from rfl,
        leading_countP, shape, countP_cons, digit]
      simp
      omega
    rw [shape]
    simp [scanName, alpha, digit, scanned, valid, count]

theorem scanName_plain (fits : (leading name).length ≤ orteMaxNodePrefix)
    (plain : ¬ Numbered name) :
    ∃ scan, scanName name 0 ⟨false, none, 0, []⟩ = .ok scan ∧
      (scan.fullname = true ∨ scan.startnum = none) := by
  rw [scanName_leading fits]
  rcases nameShape with ⟨shape, -⟩ | ⟨char, rest, shape, alpha, digit, -⟩ | ⟨char, rest, shape,
    alpha, digit, iff⟩
  · rw [shape]
    exact ⟨_, rfl, .inr rfl⟩
  · rw [shape]
    refine ⟨⟨true, none, 0, leading name⟩, ?_, .inl rfl⟩
    simp [scanName, alpha, digit]
  · obtain ⟨counted, scanned, -⟩ :=
      scanName_after_digit rest ((leading name).length + 1) (leading name).length 1
      (leading name)
    have special : rest.all Char.isAlphanum = false := by
      rw [← Bool.not_eq_true]
      exact fun valid => plain (iff.mpr valid)
    rw [shape]
    refine ⟨⟨true, some (leading name).length, counted, leading name⟩, ?_, .inl rfl⟩
    simp [scanName, alpha, digit, scanned, special]

theorem numberDigits_ne_nil (numbered : Numbered name) : numberDigits name ≠ [] := by
  rcases nameShape with ⟨-, plain⟩ | ⟨_, _, -, -, -, plain⟩ | ⟨char, rest, shape, alpha, digit, -⟩
  · exact absurd numbered plain
  · exact absurd numbered plain
  · simp [numberDigits, shape, digit]

theorem addNode_eq :
    addNode nodeids name =
      if PrefixFits name then
        if Numbered name then
          recordNumber (leading name) (trailing name) (digitCount name) (nodenum name) nodeids
        else .ok (nodeids ++ [⟨some name, none, 0, []⟩])
      else undefined := by
  by_cases fits : (leading name).length ≤ orteMaxNodePrefix
  · by_cases numbered : Numbered name
    · have read := strtol_digits (numberDigits name) (trailing name) numberDigits_all_isDigit
        (numberDigits_ne_nil numbered) (trailing_not_startsWithDigit name)
      have rest : name.drop (leading name).length = numberDigits name ++ trailing name := by
        have parts := congrArg (List.drop (leading name).length) (name_parts name)
        rw [drop_left] at parts
        exact parts.symm
      simp only [addNode, scanName_numbered fits numbered, ok_bind, rest, read, PrefixFits, fits,
        numbered, true_and, forall_const, ↓reduceIte]
      rfl
    · obtain ⟨scan, scanned, unread⟩ := scanName_plain fits numbered
      have keeps : PrefixFits name := ⟨fits, fun h => absurd h numbered⟩
      rw [if_pos keeps, if_neg numbered, addNode, scanned, ok_bind]
      rcases unread with full | none
      · simp [full]
      · rw [none]
        cases scan.fullname <;> rfl
  · rw [if_neg fun keeps => fits keeps.1, addNode, scanName_overflow name (by omega)]
    rfl

end Orcm.RegexCreate
