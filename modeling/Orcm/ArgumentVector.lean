import Mathlib.Data.List.Basic
import Mathlib.Algebra.BigOperators.Group.List.Basic
import Orcm.DssTypes

/-!
Argument vectors, `opal/util/argv.c`. A vector is the list of its strings; `NULL` and a vector
without strings are the empty list. A call without a result has undefined behaviour. Allocation
failure is not modelled.
-/

namespace Orcm.ArgumentVector

open CLibrary List
open DssTypes (CText)

/-- A `char` is compared with the delimiter as an `int`. -/
def charValue (byte : UInt8) : Int := Int.bmod byte.toNat 256

/-- The conversion of an `int` to `char`. -/
def toChar (value : Int) : UInt8 := UInt8.ofNat (value % 256).toNat

/-- The strings are counted in an `int`. -/
def opalArgvCount (argv : List CText) : Option Int :=
  if (argv.length : Int) ≤ intMax then some argv.length else none

/-- Room for the new string and the `NULL` behind it is counted in an `int`. -/
def opalArgvAppend (argv : List CText) (arg : CText) : Option (List CText) :=
  if (argv.length : Int) + 2 ≤ intMax then some (argv ++ [arg]) else none

def ARGSIZE : Nat := 128

/-- `strncpy` into a block of this size, and a zero behind the copy. -/
def copyArgument (size : Nat) (src_string : List UInt8) (arglen : Nat) : Option CText :=
  if arglen < size then some (CText.ofBlock (src_string.take arglen ++ [0])) else none

/-- The loop of `opal_argv_split_inter`. Each round takes at least one character. -/
def splitLoop (delimiter : Int) (include_empty : Bool) :
    Nat → List UInt8 → List CText → Option (List CText)
  | 0, _, _ => none
  | rounds + 1, src_string, argv =>
    if src_string = [] then some argv
    else
      let arglen := (src_string.takeWhile fun byte => charValue byte ≠ delimiter).length
      let p := src_string.drop arglen
      if arglen = 0 then
        (if include_empty then opalArgvAppend argv (CText.ofBlock []) else some argv).bind
          (splitLoop delimiter include_empty rounds (p.drop 1))
      else if p = [] then opalArgvAppend argv (CText.ofBlock src_string)
      else
        -- a long argument is copied to a block of its own, a short one to the buffer
        (copyArgument (if ARGSIZE - 1 < arglen then arglen + 1 else ARGSIZE) src_string arglen).bind
          fun arg =>
          (opalArgvAppend argv arg).bind (splitLoop delimiter include_empty rounds (p.drop 1))

def opalArgvSplitInter (src_string : CText) (delimiter : Int) (include_empty : Bool) :
    Option (List CText) :=
  splitLoop delimiter include_empty (src_string.bytes.length + 1) src_string.bytes []

def opalArgvSplit (src_string : CText) (delimiter : Int) : Option (List CText) :=
  opalArgvSplitInter src_string delimiter false

def opalArgvSplitWithEmpty (src_string : CText) (delimiter : Int) : Option (List CText) :=
  opalArgvSplitInter src_string delimiter true

def total (argv : List CText) : Nat := (argv.map fun arg => arg.bytes.length + 1).sum

/-- The loops that fill the joined string: so many characters, starting in one string and going on
in the next ones. -/
def fill (delimiter : UInt8) : Nat → List UInt8 → List CText → Option (List UInt8)
  | 0, _, _ => some []
  | count + 1, char :: pp, p => (fill delimiter count pp p).map (char :: ·)
  | count + 1, [], next :: p => (fill delimiter count next.bytes p).map (delimiter :: ·)
  -- the pointer behind the last string is `NULL`
  | count + 1, [], [] => if count = 0 then some [delimiter] else none

/-- Both joiners: the strings that are counted, and the strings from which characters are taken. -/
def joinInto (counted taken : List CText) (delimiter : Int) : Option CText :=
  -- the sum is a `size_t`
  let str_len := total counted % 18446744073709551616
  if str_len = 0 then none
  else match taken with
    | [] => none
    | first :: rest =>
      (fill (toChar delimiter) (str_len - 1) first.bytes rest).map fun str =>
        CText.ofBlock (str ++ [0])

def opalArgvJoin (argv : List CText) (delimiter : Int) : Option CText :=
  if argv = [] then some (CText.ofBlock []) else joinInto argv argv delimiter

def opalArgvJoinRange (argv : List CText) (start «end» : Nat) (delimiter : Int) : Option CText :=
  if argv = [] then some (CText.ofBlock [])
  else (opalArgvCount argv).bind fun count =>
    if count < toInt start then some (CText.ofBlock [])
    -- the pointer is taken behind the vector
    else if argv.length < start then none
    else joinInto ((argv.drop start).take («end» - start)) (argv.drop start) delimiter

section Split

variable (delimiter : Int)

def parts (src_string : List UInt8) : List (List UInt8) :=
  src_string.splitOnP fun byte => charValue byte = delimiter

/-- The parts that the splitter keeps: an empty one at the end is lost. -/
def kept (include_empty : Bool) (found : List (List UInt8)) : List (List UInt8) :=
  if include_empty then if found.getLast? = some [] then found.dropLast else found
  else found.filter (· ≠ [])

theorem kept_cons (more : rest ≠ []) :
    kept include_empty (first :: rest) =
      (if include_empty = false ∧ first = [] then [] else [first]) ++ kept include_empty rest := by
  cases include_empty with
  | false => by_cases empty : first = [] <;> simp [kept, empty]
  | true =>
    simp only [kept, ↓reduceIte]
    rw [getLast?_cons_of_ne_nil more, dropLast_cons_of_ne_nil more]
    split <;> rfl

theorem ofBlock_bytes (clean : 0 ∉ block) : (CText.ofBlock block).bytes = block := by
  have nonzero : ∀ byte ∈ block, decide (byte ≠ 0) = true := by
    intro byte member
    have : byte ≠ 0 := fun zero => clean (zero ▸ member)
    simpa using this
  have whole : (block ++ []).takeWhile (fun byte : UInt8 => decide (byte ≠ 0)) =
      block ++ [].takeWhile (fun byte : UInt8 => decide (byte ≠ 0)) :=
        takeWhile_append_of_pos nonzero
  rwa [append_nil, takeWhile_nil, append_nil] at whole

theorem ofBlock_zero : CText.ofBlock (block ++ [0]) = CText.ofBlock block := by
  have same : (block ++ [0]).takeWhile (· ≠ 0) = block.takeWhile (· ≠ 0) := by
    induction block with
    | nil => rfl
    | cons byte rest ih =>
      rw [cons_append, takeWhile_cons, takeWhile_cons, ih]
  simp only [CText.ofBlock, same]

variable (src_string : List UInt8)

theorem copyArgument_eq :
    copyArgument (if ARGSIZE - 1 < arglen then arglen + 1 else ARGSIZE) src_string arglen =
      some (CText.ofBlock (src_string.take arglen)) := by
  have room : arglen < if ARGSIZE - 1 < arglen then arglen + 1 else ARGSIZE := by
    unfold ARGSIZE
    split <;> omega
  rw [copyArgument, if_pos room, ofBlock_zero]

def appended (argv : List CText) (tokens : List (List UInt8)) : Option (List CText) :=
  if tokens = [] ∨ argv.length + tokens.length ≤ 2147483646 then
    some (argv ++ tokens.map CText.ofBlock) else none

theorem appended_nil (argv : List CText) : appended argv [] = some argv := by
  simp [appended]

theorem append_appended (argv : List CText) (token : List UInt8) (tokens : List (List UInt8)) :
    ((opalArgvAppend argv (CText.ofBlock token)).bind fun argv => appended argv tokens) =
      appended argv (token :: tokens) := by
  unfold opalArgvAppend appended intMax
  by_cases fits : argv.length + (tokens.length + 1) ≤ 2147483646
  · have first : (argv.length : Int) + 2 ≤ 2147483647 := by omega
    have rest : argv.length + 1 + tokens.length ≤ 2147483646 := by omega
    simp [fits, first, rest]
  · by_cases first : (argv.length : Int) + 2 ≤ 2147483647
    · have more : tokens ≠ [] := by
        rintro rfl
        simp only [length_nil] at fits
        omega
      have rest : ¬ argv.length + 1 + tokens.length ≤ 2147483646 := by omega
      simp [fits, first, rest, more]
    · simp [fits, first]

theorem parts_ne_nil : parts delimiter src_string ≠ [] :=
  splitOnP_ne_nil _ _

theorem token_free :
    ∀ byte ∈ src_string.takeWhile (fun byte => charValue byte ≠ delimiter),
      decide (charValue byte = delimiter) = false := by
  intro byte member
  simpa using List.all_eq_true.mp all_takeWhile byte member

theorem parts_single (single : src_string.dropWhile (fun byte => charValue byte ≠ delimiter) = []) :
    parts delimiter src_string = [src_string] := by
  have whole :=
    takeWhile_append_dropWhile (p := fun byte => decide (charValue byte ≠ delimiter))
      (l := src_string)
  rw [single, append_nil] at whole
  have free := token_free delimiter src_string
  rw [whole] at free
  exact splitOnP_eq_singleton free

theorem parts_more (char : UInt8) (rest : List UInt8)
    (found : src_string.dropWhile (fun byte => charValue byte ≠ delimiter) = char :: rest) :
    parts delimiter src_string =
      src_string.takeWhile (fun byte => charValue byte ≠ delimiter) :: parts delimiter rest := by
  have whole :=
    takeWhile_append_dropWhile (p := fun byte => decide (charValue byte ≠ delimiter))
      (l := src_string)
  have stops := head?_dropWhile_not (fun byte => decide (charValue byte ≠ delimiter)) src_string
  rw [found] at whole stops
  conv_lhs => rw [← whole]
  exact splitOnP_append_cons_of_forall_mem (token_free delimiter src_string) char
    (by simpa using stops) rest

theorem splitLoop_eq (enough : src_string.length < rounds) :
    splitLoop delimiter include_empty rounds src_string argv =
      appended argv (kept include_empty (parts delimiter src_string)) := by
  induction rounds generalizing src_string argv with
  | zero => omega
  | succ rounds ih =>
    have whole := takeWhile_append_dropWhile (p := fun byte => decide (charValue byte ≠ delimiter))
      (l := src_string)
    have single := parts_single delimiter src_string
    have more := parts_more delimiter src_string
    rw [splitLoop]
    by_cases empty : src_string = []
    · have none_kept : kept include_empty (parts delimiter []) = [] := by
        cases include_empty <;> rfl
      rw [if_pos empty, empty, none_kept, appended_nil]
    · rw [if_neg empty]
      generalize src_string.takeWhile (fun byte => decide (charValue byte ≠ delimiter)) = token at *
      generalize src_string.dropWhile (fun byte => decide (charValue byte ≠ delimiter)) = p at *
      subst src_string
      dsimp only
      rw [drop_left, copyArgument_eq, take_left, Option.bind_some]
      cases p with
      | nil =>
        rw [append_nil] at empty single
        have one_kept : kept include_empty [token] = [token] := by
          cases include_empty <;> simp [kept, empty]
        have last := append_appended argv token []
        rw [funext appended_nil, Option.bind_fun_some] at last
        rw [if_neg (mt List.length_eq_zero_iff.mp empty), if_pos rfl, append_nil, single rfl,
          one_kept, ← last]
      | cons char rest =>
        have later : ∀ argv, splitLoop delimiter include_empty rounds rest argv =
            appended argv (kept include_empty (parts delimiter rest)) := fun argv =>
          ih rest (by simp only [length_append, length_cons] at enough; omega)
        rw [more char rest rfl, kept_cons (parts_ne_nil delimiter rest)]
        by_cases none_taken : token = []
        · subst token
          rw [if_pos length_nil, drop_one, tail_cons, funext later]
          cases include_empty with
          | false => simp
          | true =>
            simp only [↓reduceIte, Bool.true_eq_false, false_and, singleton_append]
            rw [append_appended]
        · rw [if_neg (mt List.length_eq_zero_iff.mp none_taken), if_neg (by simp),
            if_neg (by simp [none_taken]),
            drop_one, tail_cons, funext later, append_appended, singleton_append]

theorem splitWithEmpty_eq {src_string : CText} :
    opalArgvSplitWithEmpty src_string delimiter = appended []
      (kept true (parts delimiter src_string.bytes)) :=
  splitLoop_eq delimiter _ (Nat.lt_succ_self _)

def spread (found : List (List UInt8)) : Nat := (found.map fun part => part.length + 1).sum

theorem parts_cons :
    parts delimiter (char :: rest) =
      if charValue char = delimiter then [] :: parts delimiter rest
      else (parts delimiter rest).modifyHead (char :: ·) := by
  simp [parts, splitOnP_cons_eq_if_modifyHead, decide_eq_true_eq]

theorem parts_spread : spread (parts delimiter src_string) = src_string.length + 1 := by
  induction src_string with
  | nil => rfl
  | cons char rest ih =>
    rw [parts_cons]
    split
    · simp only [spread, map_cons, sum_cons, length_nil, length_cons] at ih ⊢
      omega
    · cases found : parts delimiter rest with
      | nil => exact absurd found (parts_ne_nil delimiter rest)
      | cons =>
        rw [found] at ih
        simp only [spread, modifyHead_cons, map_cons, sum_cons, length_cons] at ih ⊢
        omega

theorem parts_length :
    (parts delimiter src_string).length = src_string.countP
      (fun byte => charValue byte = delimiter) + 1 := by
  induction src_string with
  | nil => rfl
  | cons =>
    rw [parts_cons]
    split <;> simp_all

theorem parts_subset :
    ∀ part ∈ parts delimiter src_string, ∀ byte ∈ part, byte ∈ src_string := by
  induction src_string with
  | nil =>
    intro part member byte inside
    obtain rfl : part = [] := by simpa [parts] using member
    exact absurd inside not_mem_nil
  | cons char rest ih =>
    rw [parts_cons]
    split
    · intro part member byte inside
      rcases List.mem_cons.mp member with rfl | later
      · exact absurd inside not_mem_nil
      · exact mem_cons_of_mem char (ih part later byte inside)
    · cases found : parts delimiter rest with
      | nil => exact absurd found (parts_ne_nil delimiter rest)
      | cons first =>
        rw [found] at ih
        intro part member byte inside
        rcases List.mem_cons.mp member with rfl | later
        · rcases List.mem_cons.mp inside with rfl | old
          · exact mem_cons_self
          · exact mem_cons_of_mem char (ih first mem_cons_self byte old)
        · exact mem_cons_of_mem char (ih part (mem_cons_of_mem first later) byte inside)

theorem parts_last :
    (parts delimiter src_string).getLast? = some [] ↔
      src_string = [] ∨ ∃ char, src_string.getLast? = some char ∧ charValue char = delimiter := by
  induction src_string with
  | nil => simp [parts]
  | cons char rest ih =>
    have length := parts_length delimiter rest
    rw [parts_cons]
    split
    · rename_i here
      rw [getLast?_cons_of_ne_nil (parts_ne_nil delimiter rest), ih]
      cases rest with
      | nil => simp [here]
      | cons => simp
    · rename_i differs
      cases found : parts delimiter rest with
      | nil => exact absurd found (parts_ne_nil delimiter rest)
      | cons first others =>
        rw [found] at ih length
        cases others with
        | nil =>
          have none_found : rest.countP (fun byte => charValue byte = delimiter) = 0 := by
            simp only [length_singleton] at length
            omega
          rw [countP_eq_zero] at none_found
          simp only [modifyHead_cons, getLast?_singleton, Option.some.injEq, reduceCtorEq, false_or,
            false_iff, not_exists, not_and]
          intro last ends
          rcases List.mem_cons.mp (mem_of_getLast? ends) with rfl | later
          · exact differs
          · simpa using none_found last later
        | cons second others =>
          rw [modifyHead_cons, getLast?_cons_cons]
          rw [getLast?_cons_cons] at ih
          rw [ih]
          cases rest with
          | nil => simp [parts] at found
          | cons => simp

end Split

section Join

variable (delimiter : Int)

def joined (found : List (List UInt8)) : List UInt8 := [toChar delimiter].intercalate found

theorem joined_length (first : List UInt8) (rest : List (List UInt8)) :
    (joined delimiter (first :: rest)).length = first.length + spread rest := by
  induction rest generalizing first with
  | nil => simp [joined, spread]
  | cons second rest ih =>
    have later := ih second
    simp only [joined, intercalate_cons_cons, length_append, length_singleton, spread, map_cons,
      sum_cons] at later ⊢
    omega

variable {argv : List CText}

theorem total_eq : total argv = spread (argv.map CText.bytes) := by
  simp only [spread, map_map]
  rfl

theorem joined_total (some_given : argv ≠ []) :
    (joined delimiter (argv.map CText.bytes)).length + 1 = total argv := by
  cases argv with
  | nil => exact absurd rfl some_given
  | cons =>
    rw [map_cons, joined_length, total_eq]
    simp only [spread, map_cons, sum_cons]
    omega

theorem fill_eq (count : Nat) (pp : List UInt8) (p more : List CText)
    (enough : count ≤ pp.length + total p) :
    fill (toChar delimiter) count pp (p ++ more) =
      some ((joined delimiter (pp :: p.map CText.bytes)).take count) := by
  induction count generalizing pp p with
  | zero => simp [fill]
  | succ count ih =>
    cases pp with
    | cons char pp =>
      have step := ih pp p (by simp only [length_cons] at enough; omega)
      have front : joined delimiter ((char :: pp) :: p.map CText.bytes) =
          char :: joined delimiter (pp :: p.map CText.bytes) := by
        cases p <;> simp [joined, intercalate_cons_cons]
      rw [fill, step, front]
      rfl
    | nil =>
      cases p with
      | nil => simp [total] at enough
      | cons next p =>
        have step := ih next.bytes p (by
          simp only [total, map_cons, sum_cons, length_nil] at enough ⊢
          omega)
        rw [cons_append, fill, step]
        rfl

theorem joinInto_eq (more : List CText) (some_counted : counted ≠ []) :
    joinInto counted (counted ++ more) delimiter =
      if total counted % 18446744073709551616 = 0 then none
      else some (CText.ofBlock ((joined delimiter (counted.map CText.bytes)).take
        (total counted % 18446744073709551616 - 1))) := by
  cases counted with
  | nil => exact absurd rfl some_counted
  | cons first rest =>
    have bound := Nat.mod_le (total (first :: rest)) 18446744073709551616
    have enough :
        total (first :: rest) % 18446744073709551616 - 1 ≤ first.bytes.length + total rest := by
      simp only [total, map_cons, sum_cons] at bound ⊢
      omega
    simp [joinInto, fill_eq delimiter _ first.bytes rest more enough, ofBlock_zero]

theorem opalArgvJoin_eq (some_given : argv ≠ []) :
    opalArgvJoin argv delimiter =
      if total argv % 18446744073709551616 = 0 then none
      else some (CText.ofBlock ((joined delimiter (argv.map CText.bytes)).take
        (total argv % 18446744073709551616 - 1))) := by
  have whole := joinInto_eq delimiter [] some_given
  rw [append_nil] at whole
  rw [opalArgvJoin, if_neg some_given, whole]

theorem join_length (some_given : argv ≠ []) (done : opalArgvJoin argv delimiter = some text) :
    text.bytes.length + 1 ≤ total argv % 18446744073709551616 ∧
      (total argv ≤ text.bytes.length + 1 →
        text.bytes = joined delimiter (argv.map CText.bytes)) := by
  rw [opalArgvJoin_eq delimiter some_given] at done
  split at done
  · cases done
  · obtain rfl := Option.some.inj done
    have cut : ∀ block : List UInt8, (CText.ofBlock block).bytes.length ≤ block.length :=
      fun block => (takeWhile_sublist _).length_le
    have short :=
      cut ((joined delimiter (argv.map CText.bytes)).take (total argv % 18446744073709551616 - 1))
    have full := joined_total delimiter some_given
    rw [length_take] at short
    refine ⟨by omega, fun whole => ?_⟩
    have uncut :
        (joined delimiter (argv.map CText.bytes)).take (total argv % 18446744073709551616 - 1) =
        joined delimiter (argv.map CText.bytes) := take_of_length_le (by omega)
    rw [uncut] at whole ⊢
    have same := cut (joined delimiter (argv.map CText.bytes))
    have front : (CText.ofBlock (joined delimiter (argv.map CText.bytes))).bytes <+:
        joined delimiter (argv.map CText.bytes) := List.takeWhile_prefix _
    exact front.eq_of_length (by omega)

theorem join_whole (some_given : argv ≠ []) (fits : total argv < 18446744073709551616) :
    opalArgvJoin argv delimiter =
      some (CText.ofBlock (joined delimiter (argv.map CText.bytes))) := by
  have full := joined_total delimiter some_given
  rw [opalArgvJoin_eq delimiter some_given, Nat.mod_eq_of_lt fits, if_neg (by omega),
    take_of_length_le (by omega)]

end Join

end Orcm.ArgumentVector
