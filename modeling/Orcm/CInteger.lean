import Orcm.CLibrary

/-!
`int` arithmetic and loops of the routing components. Results that an `int` cannot hold are
undefined, as are a division by zero and a shift that moves a bit out of the value. A loop is given
fuel; it terminates when some amount suffices.
-/

namespace Orcm.CInteger

open CLibrary

inductive Stop where
  | outOfFuel
  deriving DecidableEq, Repr

abbrev Run := Except (CLibrary.Fault Stop)

def Run.outOfFuel {Value : Type} : Run Value := .error (.error .outOfFuel)

/-- A result of `int` arithmetic. -/
def intResult (value : Int) : Run Int :=
  if intMin ≤ value ∧ value ≤ intMax then .ok value else .error .undefined

def intSub (left right : Int) : Run Int := intResult (left - right)

def intMul (left right : Int) : Run Int := intResult (left * right)

def intDiv (left right : Int) : Run Int :=
  if right = 0 then .error .undefined else intResult (left.tdiv right)

def intMod (left right : Int) : Run Int :=
  if right = 0 then .error .undefined else intResult (left.tmod right)

/-- `value << count` for a value that is not negative. -/
def intShiftLeft (value count : Nat) : Run Nat :=
  if count < 32 ∧ value * 2 ^ count ≤ 2147483647 then .ok (value * 2 ^ count) else .error .undefined

def toVpid (value : Int) : Nat := (value % 4294967296).toNat

variable {Value : Type}

theorem Run.bind_eq_ok {next : Value → Run Next} :
    action >>= next = .ok result ↔ ∃ value, action = .ok value ∧ next value = .ok result := by
  cases action with
  | error => simp [bind, Except.bind]
  | ok => simp [bind, Except.bind]

@[simp] theorem Run.ok_bind (value : Value) (next : Value → Run Next) :
    (Except.ok value : Run Value) >>= next = next value := rfl

@[simp] theorem Run.error_bind (fault : CLibrary.Fault Stop) (next : Value → Run Next) :
    (Except.error fault : Run Value) >>= next = .error fault := rfl

@[simp] theorem Run.pure_eq_ok (value : Value) : (pure value : Run Value) = .ok value := rfl

theorem intResult_eq_ok {value : Int} :
    intResult value = .ok result ↔ result = value ∧ intMin ≤ value ∧ value ≤ intMax := by
  unfold intResult
  split
  · rename_i fits
    simp [Except.ok.injEq, fits, and_true, eq_comm]
  · rename_i fits
    simp [reduceCtorEq, fits, and_false]

theorem intAdd_natCast {right : Nat} (small : left + right ≤ 2147483647) :
    (intAdd left right : Run Int) = .ok ((left + right : Nat) : Int) := by
  rw [intAdd_ok left right (by simp only [intMin]; omega) (by simp only [intMax]; omega),
    Int.natCast_add]

theorem intResult_natCast {value : Nat} (small : value ≤ 2147483647) :
    intResult value = .ok (value : Int) :=
  (intResult_eq_ok ..).mpr ⟨rfl, by simp only [intMin]; omega, by simp only [intMax]; omega⟩

variable {right : Nat}

theorem intMul_natCast (small : left * right ≤ 2147483647) :
    intMul left right = .ok ((left * right : Nat) : Int) := by
  rw [intMul, ← Int.natCast_mul, intResult_natCast small]

theorem intSub_natCast (less : right ≤ left) (small : left ≤ 2147483647) :
    intSub left right = .ok ((left - right : Nat) : Int) := by
  rw [intSub, ← Int.natCast_sub less, intResult_natCast (by omega)]

theorem intDiv_natCast {left : Nat} (positive : 0 < right) (small : left ≤ 2147483647) :
    intDiv left right = .ok ((left / right : Nat) : Int) := by
  rw [intDiv, if_neg (by omega), ← Int.ofNat_tdiv,
    intResult_natCast (Nat.le_trans (Nat.div_le_self ..) small)]

theorem intMod_natCast {left : Nat} (positive : 0 < right) (small : left ≤ 2147483647) :
    intMod left right = .ok ((left % right : Nat) : Int) := by
  rw [intMod, if_neg (by omega), ← Int.ofNat_tmod,
    intResult_natCast (Nat.le_trans (Nat.mod_le ..) small)]

theorem toInt_natCast {value : Nat} (small : value ≤ 2147483647) : toInt value = value :=
  toInt_of_nonneg (by omega) (by simp only [intMax]; omega)

theorem toVpid_natCast {value : Nat} (small : value ≤ 2147483647) : toVpid value = value := by
  unfold toVpid
  omega

end Orcm.CInteger
