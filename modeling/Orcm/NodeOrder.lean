import Orcm.ArgumentVector
import Orcm.ClusterRecord

/-!
`orcm_compare_node` of `cfgi_dt_fns.c`. `NULL` comes before every string and every vector. The
joiner of vectors writes zeros between the strings, where `strcmp` stops.
-/

namespace Orcm.NodeOrder

open CLibrary DssTypes DssTransfer ClusterRecord ArgumentVector

/-- `OPAL_VALUE1_GREATER` is `gt` and `OPAL_VALUE2_GREATER` is `lt`. -/
def compareArgv (argv : Node → Argv) : Node → Node → Ordering :=
  compareLex (compareOn fun node => (argv node).map opalArgvCount)
    (compareOn fun node => (argv node).map fun strings => (opalArgvJoin strings 0).map CText.bytes)

def compareNode : Node → Node → Ordering :=
  compareLex (compareOn fun node => node.name.map CText.bytes) <|
  compareLex (compareOn fun node => node.daemon.jobid.toNat) <|
  compareLex (compareOn fun node => node.daemon.vpid.toNat) <|
  compareLex (compareArgv fun node => node.config.mca_params) <|
  compareLex (compareArgv fun node => node.config.env) <|
  compareLex (compareOn fun node => node.config.port.map CText.bytes) <|
  compareLex (compareOn fun node => node.config.aggregator) <|
  compareLex (compareOn fun node => node.state.toInt) (compareOn fun node => node.scd_state.toInt)

instance (argv : Node → Argv) : Std.TransCmp (compareArgv argv) :=
  inferInstanceAs (Std.TransCmp (compareLex _ _))

instance : Std.TransCmp compareNode := inferInstanceAs (Std.TransCmp (compareLex _ _))

/-- A vector that is counted in an `int` and whose strings can be joined in memory. -/
def Held (argv : Argv) : Prop :=
  ∀ strings ∈ argv, (strings.length : Int) ≤ intMax ∧ total strings < 18446744073709551616

def shown (argv : Argv) : Option (Nat × Option CText) :=
  argv.map fun strings => (strings.length, strings.head?)

theorem bytes_injective : Function.Injective CText.bytes := by
  rintro ⟨left, _⟩ ⟨right, _⟩ same
  cases same
  rfl

theorem join_zero (fits : total strings < 18446744073709551616) :
    (opalArgvJoin strings 0).map CText.bytes = some ((strings.head?.map CText.bytes).getD []) := by
  cases strings with
  | nil => rfl
  | cons first rest =>
    have clean : ∀ byte ∈ first.bytes, decide (byte ≠ 0) = true := by
      intro byte member
      simpa using fun zero : byte = 0 => first.noZero (zero ▸ member)
    have block : ∃ behind, joined 0 ((first :: rest).map CText.bytes) = first.bytes ++ behind ∧
        behind.head?.getD 0 = 0 := by
      cases rest with
      | nil => exact ⟨[], by simp [joined], rfl⟩
      | cons => exact ⟨_, by rw [joined, List.map_cons, List.map_cons, List.intercalate_cons_cons,
          List.append_assoc], rfl⟩
    obtain ⟨behind, whole, stop⟩ := block
    rw [join_whole 0 (List.cons_ne_nil _ _) fits, whole]
    simp only [CText.ofBlock, Option.map_some]
    rw [List.takeWhile_append_of_pos clean]
    cases behind <;> simp_all

theorem compareArgv_eq (argv : Node → Argv) (left right : Node) (heldLeft : Held (argv left))
    (heldRight : Held (argv right)) :
    compareArgv argv left right = .eq ↔ shown (argv left) = shown (argv right) := by
  rw [compareArgv, compareLex_eq_eq, compareOn, compareOn, Std.compare_eq_iff_eq, shown, shown]
  cases first : argv left with
  | none => cases argv right <;> simp
  | some strings =>
    cases second : argv right with
    | none => simp
    | some others =>
      obtain ⟨count, fits⟩ := heldLeft strings first
      obtain ⟨count', fits'⟩ := heldRight others second
      simp only [Option.map_some, join_zero fits, join_zero fits', opalArgvCount, if_pos count,
        if_pos count', Option.some.injEq, Prod.mk.injEq, Int.natCast_inj]
      refine and_congr_right fun length => ?_
      cases strings <;> cases others <;> simp_all [bytes_injective.eq_iff]

def seen (node : Node) :=
  (node.name, node.daemon, shown node.config.mca_params, shown node.config.env, node.config.port,
    node.config.aggregator, node.state, node.scd_state)

def HeldNode (node : Node) : Prop := Held node.config.mca_params ∧ Held node.config.env

theorem compareNode_eq (heldLeft : HeldNode left) (heldRight : HeldNode right) :
    compareNode left right = .eq ↔ seen left = seen right := by
  have texts : Function.Injective (Option.map CText.bytes) := Option.map_injective bytes_injective
  have params :=
    compareArgv_eq (fun node => node.config.mca_params) left right heldLeft.1 heldRight.1
  have env := compareArgv_eq (fun node => node.config.env) left right heldLeft.2 heldRight.2
  have daemon : left.daemon = right.daemon ↔
      left.daemon.jobid = right.daemon.jobid ∧ left.daemon.vpid = right.daemon.vpid := by
    rw [← ProcessName.mk.injEq]
  -- field by field on both sides, then each key is injective
  simp only [compareNode, compareLex_eq_eq, compareOn, params, env, seen, Prod.mk.injEq, daemon,
    and_assoc]
  simp [texts.eq_iff, BitVec.toNat_inj, BitVec.toInt_inj]

/-- An order on nodes; nodes it takes for equal can differ behind the first string of a vector, and
only there. -/
theorem compareNode_order (left middle right : Node) :
    compareNode right left = (compareNode left right).swap ∧
      ((compareNode left middle).isLE → (compareNode middle right).isLE →
        (compareNode left right).isLE) ∧
      (HeldNode left → HeldNode right →
        ((compareNode left right = .eq ↔ left = right) ↔
          ¬(left ≠ right ∧ seen left = seen right))) := by
  refine ⟨Std.OrientedCmp.eq_swap, Std.TransCmp.isLE_trans, ?_⟩
  intro heldLeft heldRight
  rw [compareNode_eq heldLeft heldRight]
  grind

def nodeWith (env : List CText) : Node := ⟨none, ⟨0, 0⟩, ⟨none, some env, none, false⟩, 0, 0⟩

theorem later_entry_is_ignored :
    let left := nodeWith [CText.ofBlock [65], CText.ofBlock [66]]
    let right := nodeWith [CText.ofBlock [65], CText.ofBlock [67]]
    compareNode left right = .eq ∧ left ≠ right := by
  decide

end Orcm.NodeOrder
