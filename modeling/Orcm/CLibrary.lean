import Mathlib.Data.List.Induction
import Mathlib.Data.Nat.Digits.Defs

/-!
A call that may return an error code or run into undefined behaviour, `int` arithmetic, the decimal
conversions `strtol`, `atoi` and `%d`, and zero padding. A C string is the list of its characters
without the terminating zero. `int` has 32 bits and `long` has 64. None of these allocates memory; a
module in which memory can be refused says so.
-/

namespace Orcm.CLibrary

open List

inductive Fault (Code : Type) where
  | error (code : Code)
  | undefined
  deriving DecidableEq, Repr

abbrev CString := List Char

def intMin : Int := -2147483648

def intMax : Int := 2147483647

def longMin : Int := -9223372036854775808

def longMax : Int := 9223372036854775807

/-- The conversion of a `long` to `int` keeps the low 32 bits. -/
def toInt (value : Int) : Int := Int.bmod value 4294967296

/-- `int` addition; overflow is undefined. -/
def intAdd {Code : Type} (left right : Int) : Except (Fault Code) Int :=
  if intMin ≤ left + right ∧ left + right ≤ intMax then .ok (left + right) else .error .undefined

def isSpace (char : Char) : Bool :=
  char = ' ' || char = '\t' || char = '\n' || char = '\x0b' || char = '\x0c' || char = '\r'

def decimalValue (digits : CString) : Nat := Nat.ofDigitChars 10 digits 0

def skipSign : CString → Bool × CString
  | '-' :: rest => (true, rest)
  | '+' :: rest => (false, rest)
  | text => (false, text)

/-- The integer at the front of the text before any range check, and the text after it. -/
def scanInteger (text : CString) : Int × CString :=
  let signed := skipSign (text.dropWhile isSpace)
  let digits := signed.2.takeWhile Char.isDigit
  if digits = [] then (0, text)
  else (if signed.1 then -(decimalValue digits : Int) else decimalValue digits,
    signed.2.dropWhile Char.isDigit)

/-- `strtol` in base ten: the value clamped to `long`, and the end pointer. -/
def strtol (text : CString) : Int × CString :=
  let scanned := scanInteger text
  (max longMin (min longMax scanned.1), scanned.2)

/-- `atoi`; a value that does not fit `int` is undefined. -/
def atoi {Code : Type} (text : CString) : Except (Fault Code) Int :=
  let value := (scanInteger text).1
  if intMin ≤ value ∧ value ≤ intMax then .ok value else .error .undefined

/-- The text printed by `%d`. -/
def formatInt (value : Int) : CString :=
  if value < 0 then '-' :: Nat.toDigits 10 value.natAbs else Nat.toDigits 10 value.natAbs

def joinWith (delimiter : Char) (fields : List CString) : CString := [delimiter].intercalate fields

/-- The number in decimal, with zeros in front up to the given number of digits. -/
def zeroPad (width number : Nat) : CString :=
  List.replicate (width - (Nat.toDigits 10 number).length) '0' ++ Nat.toDigits 10 number

variable {Code : Type}

theorem intAdd_ok (left right : Int) (low : intMin ≤ left + right) (high : left + right ≤ intMax) :
    intAdd left right = (.ok (left + right) : Except (Fault Code) Int) := by
  simp [intAdd, low, high]

theorem intAdd_eq_ok {sum : Int}
    (result : intAdd left right = (.ok sum : Except (Fault Code) Int)) :
    sum = left + right ∧ intMin ≤ sum ∧ sum ≤ intMax := by
  unfold intAdd at result
  split at result
  · cases result
    exact ⟨rfl, ‹_›⟩
  · cases result

theorem toInt_of_nonneg {value : Int} (low : 0 ≤ value) (high : value ≤ intMax) :
    toInt value = value := by
  apply Int.bmod_eq_of_le <;> simp only [intMax] at high <;> omega

theorem toInt_bounds (value : Int) : intMin ≤ toInt value ∧ toInt value ≤ intMax := by
  have low := Int.le_bmod (x := value) (m := 4294967296) (by decide)
  have high := Int.bmod_lt (x := value) (m := 4294967296) (by decide)
  simp only [toInt, intMin, intMax]
  omega

variable (number : Nat)

theorem decimalValue_toDigits : decimalValue (Nat.toDigits 10 number) = number :=
  Nat.ofDigitChars_ten_toDigits

theorem toDigits_all_isDigit : (Nat.toDigits 10 number).all Char.isDigit := by
  rw [all_eq_true]
  intro char member
  exact Nat.isDigit_of_mem_toDigits (by decide) (by decide) member

theorem decimalValue_zeros_append {count : Nat} :
    decimalValue (List.replicate count '0' ++ digits) = decimalValue digits := by
  simp [decimalValue, Nat.ofDigitChars_append]

variable {width : Nat}

theorem zeroPad_all_isDigit : (zeroPad width number).all Char.isDigit := by
  simp only [zeroPad, all_append, Bool.and_eq_true]
  refine ⟨?_, toDigits_all_isDigit number⟩
  rw [all_eq_true]
  intro char member
  rw [eq_of_mem_replicate member]
  rfl

theorem decimalValue_zeroPad : decimalValue (zeroPad width number) = number := by
  rw [zeroPad, decimalValue_zeros_append, decimalValue_toDigits]

theorem zeroPad_length :
    (zeroPad width number).length = max width (Nat.toDigits 10 number).length := by
  simp only [zeroPad, length_append, length_replicate]
  omega

theorem zeroPad_append_digit (small : digit < 10) (positive : 0 < number) :
    zeroPad (width + 1) (10 * number + digit) = zeroPad width number ++ [digit.digitChar] := by
  have split :
      Nat.toDigits 10 (10 * number + digit) = Nat.toDigits 10 number ++ [digit.digitChar] := by
    rw [← Nat.toDigits_append_toDigits (by decide) positive small, Nat.toDigits_of_lt_base small]
  rw [zeroPad, zeroPad, split, length_append, length_singleton, Nat.add_sub_add_right, append_assoc]

variable {char : Char} {digits rest : CString}

theorem digitChar_of_isDigit (digit : char.isDigit) :
    (char.toNat - '0'.toNat).digitChar = char := by
  obtain ⟨low, high⟩ := Char.isDigit_iff_toNat.mp digit
  have bound : char.toNat - 48 < 10 := by
    change char.toNat ≤ 57 at high
    omega
  apply Char.toNat_inj.mp
  rw [show '0'.toNat = 48 from rfl, Nat.toNat_digitChar_of_lt_ten bound]
  change 48 ≤ char.toNat at low
  omega

theorem zeroPad_decimalValue (numeric : digits.all Char.isDigit) (some : digits ≠ []) :
    zeroPad digits.length (decimalValue digits) = digits := by
  induction digits using List.reverseRecOn with
  | nil => exact absurd rfl some
  | append_singleton front last ih =>
    simp only [all_append, all_cons, all_nil, Bool.and_true, Bool.and_eq_true] at numeric
    have small : last.toNat - '0'.toNat < 10 := by
      have := (Char.isDigit_iff_toNat.mp numeric.2).2
      change last.toNat ≤ 57 at this
      change last.toNat - 48 < 10
      omega
    have value :
        decimalValue (front ++ [last]) = 10 * decimalValue front + (last.toNat - '0'.toNat) := by
      simp [decimalValue, Nat.ofDigitChars_append, Nat.ofDigitChars_cons]
    rw [value, length_append, length_singleton]
    by_cases zero : decimalValue front = 0
    · -- every leading digit is a zero, so the padding rebuilds them
      have front_zeros : front = List.replicate front.length '0' := by
        rcases front.eq_nil_or_concat with none | ⟨_, _, shape⟩
        · simp [none]
        · have := ih numeric.1 (by simp [shape])
          rw [zero] at this
          conv_lhs => rw [← this]
          simp only [zeroPad, Nat.toDigits_zero, length_singleton, ← replicate_succ']
          congr 1
          have : 0 < front.length := by simp [shape]
          omega
      rw [zero, Nat.mul_zero, Nat.zero_add, zeroPad, Nat.toDigits_of_lt_base small,
        length_singleton, Nat.add_sub_cancel, ← front_zeros, digitChar_of_isDigit numeric.2]
    · have nonempty : front ≠ [] := by
        rintro rfl
        exact zero rfl
      rw [zeroPad_append_digit _ small (Nat.pos_of_ne_zero zero), ih numeric.1 nonempty,
        digitChar_of_isDigit numeric.2]

theorem toDigits_decimalValue_length (numeric : digits.all Char.isDigit) (some : digits ≠ []) :
    (Nat.toDigits 10 (decimalValue digits)).length ≤ digits.length := by
  have padded := congrArg List.length (zeroPad_decimalValue numeric some)
  rw [zeroPad_length] at padded
  omega

def StartsWithDigit (text : CString) : Prop := ∃ char, text.head? = some char ∧ char.isDigit

instance (text : CString) : Decidable (StartsWithDigit text) :=
  match text with
  | [] => isFalse (by simp [StartsWithDigit])
  | char :: _ => decidable_of_iff (char.isDigit = true) (by simp [StartsWithDigit])

theorem takeWhile_isDigit_append (numeric : digits.all Char.isDigit)
    (stop : ¬ StartsWithDigit rest) : (digits ++ rest).takeWhile Char.isDigit = digits := by
  rw [takeWhile_append_of_pos (by simpa using numeric)]
  cases rest with
  | nil => simp
  | cons char =>
    have : ¬ char.isDigit = true := fun digit => stop ⟨char, rfl, digit⟩
    simp [this]

theorem dropWhile_isDigit_append (numeric : digits.all Char.isDigit)
    (stop : ¬ StartsWithDigit rest) : (digits ++ rest).dropWhile Char.isDigit = rest := by
  rw [dropWhile_append_of_pos (by simpa using numeric)]
  cases rest with
  | nil => simp
  | cons char =>
    have : ¬ char.isDigit = true := fun digit => stop ⟨char, rfl, digit⟩
    simp [this]

theorem isDigit_ne (other : Char) (digit : char.isDigit) (nonDigit : other.isDigit = false) :
    char ≠ other := by
  rintro rfl
  simp [digit] at nonDigit

theorem isSpace_of_isDigit (digit : char.isDigit) : isSpace char = false := by
  have differs (other : Char) := isDigit_ne other digit
  simp only [isSpace, Bool.or_eq_false_iff, decide_eq_false_iff_not]
  exact ⟨⟨⟨⟨⟨differs _ rfl, differs _ rfl⟩, differs _ rfl⟩, differs _ rfl⟩, differs _ rfl⟩,
    differs _ rfl⟩

theorem skipSign_of_isDigit (digit : char.isDigit) :
    skipSign (char :: rest) = (false, char :: rest) := by
  unfold skipSign
  split <;> simp_all

theorem scanInteger_digits (numeric : digits.all Char.isDigit) (some : digits ≠ [])
    (stop : ¬ StartsWithDigit rest) :
    scanInteger (digits ++ rest) = ((decimalValue digits : Int), rest) := by
  cases digits with
  | nil => exact absurd rfl some
  | cons char digits =>
    have digit : char.isDigit := by simp at numeric; exact numeric.1
    have front : (char :: digits ++ rest).dropWhile isSpace = char :: digits ++ rest := by
      simp [isSpace_of_isDigit digit]
    have sign : skipSign (char :: digits ++ rest) = (false, char :: digits ++ rest) :=
      skipSign_of_isDigit digit
    simp only [scanInteger, front, sign, takeWhile_isDigit_append numeric stop,
      dropWhile_isDigit_append numeric stop]
    simp

variable (digits rest) (numeric : digits.all Char.isDigit) (some : digits ≠ [])
    (stop : ¬ StartsWithDigit rest)
include numeric some stop

theorem strtol_digits :
    strtol (digits ++ rest) = (min longMax (decimalValue digits : Int), rest) := by
  have low : longMin ≤ min longMax (decimalValue digits : Int) := by
    simp only [longMin, longMax]
    omega
  simp [strtol, scanInteger_digits numeric some stop, max_eq_right low]

theorem atoi_digits (small : (decimalValue digits : Int) ≤ intMax) :
    atoi (digits ++ rest) = (.ok (decimalValue digits : Int) : Except (Fault Code) Int) := by
  have low : intMin ≤ (decimalValue digits : Int) := by
    simp only [intMin]
    omega
  simp [atoi, scanInteger_digits numeric some stop, low, small]

theorem atoi_digits_undefined (large : intMax < (decimalValue digits : Int)) :
    atoi (digits ++ rest) = (.error .undefined : Except (Fault Code) Int) := by
  have : ¬ ((decimalValue digits : Int) ≤ intMax) := by omega
  simp [atoi, scanInteger_digits numeric some stop, this]

end Orcm.CLibrary
