import Orcm.DssNested
import Orcm.TransitionSystem

/-!
Whole payloads, `opal/dss/dss_load_unload.c`. `malloc` and `realloc` may fail here; whether they do
is a parameter of the call. `size_t` has eight bytes in the results: in four, a check in front of a
read can wrap and let the read cursor run past the write cursor.
-/

namespace Orcm.DssPayload

open Cursor SymbolStream DssTypes DssBuffer DssPack DssUnpack DssWire DssSimilar DssNested
open TransitionSystem

variable (machine : Machine)

/-- The payload is a block with its size, or `NULL`; the old block is freed. -/
def opalDssLoad (buffer : Buffer) : Option (List UInt8) → Buffer
  | none =>
    { buffer with
      based := false, memory := [], pack_ptr := 0, unpack_ptr := 0, bytes_used := 0
      bytes_allocated := 0 }
  | some payload =>
    { buffer with
      based := true, memory := payload, pack_ptr := payload.length, unpack_ptr := 0
      bytes_used := payload.length, bytes_allocated := payload.length }

/-- The calls that meet it: those that are refused because the modes differ, those that copy fewer
than 2^31 bytes with memory granted or already there, and those that run out of memory on a
destination that has no block to lose and is in the mode of the source already. The last ones never
get to copy, so it is enough that their number of bytes is not taken for zero. -/
def CopyDelivers (granted : Bool) : Option Buffer → Option Buffer → Prop
  | some dest, some src =>
    dest.bytes_used ≠ 0 ∧ dest.type ≠ src.type ∨
    (unread src).length < 2147483648 ∧
      (granted = true ∨ (unread src).length ≤ dest.bytes_allocated - dest.bytes_used) ∨
    granted = false ∧ dest.type = src.type ∧ dest.based = false ∧
      (unread src).length % 4294967296 ≠ 0
  | _, _ => True

variable (granted : Bool) (buffer : Buffer) (scalar : ScalarType) (dest : Buffer)

variable {src : Buffer}

section Cases

variable {machine} (wide : machine.sizeof_size_t = .eight) (granted : Bool) (dest src : Buffer)

include wide

variable (destValid : dest.Valid) (srcValid : src.Valid)
  (matching : ¬ (dest.bytes_used ≠ 0 ∧ dest.type ≠ src.type))
include srcValid matching

include destValid

end Cases

variable {machine} (wide : machine.sizeof_size_t = .eight)

variable {scalar}

include wide in
theorem opalDssUnpack_valid {buffer : Buffer} (valid : buffer.Valid) :
    (opalDssUnpack machine dataType num_vals buffer).buffer.Valid :=
  (opalDssUnpack_similar wide dataType num_vals (similar_self valid)).2.2.2.leftValid

theorem opalDssLoad_valid : (opalDssLoad buffer payload).Valid := by
  cases payload with
  | none => exact ⟨Nat.le_refl _, rfl, Nat.le_refl _, rfl, fun _ => rfl⟩
  | some => exact ⟨Nat.zero_le _, rfl, Nat.le_refl _, rfl, by simp [opalDssLoad]⟩

variable (machine)

/-- What can be done to a buffer. The source of a copy is another well-formed buffer; `nest` packs
the buffer itself as a value into another one. A call of `opal_dss_pack` that runs out of memory has
`written` some bytes into the room that was there when it asks for more. -/
inductive Operation where
  | pack (type : DataType) (values : List (Value machine type))
  | packRefused (written : List UInt8) (bytes_to_add : Nat)
  | unpack (type : DataType) (num_vals : Int)
  | peekType
  | copyPayload (granted : Bool) (src : Buffer) (valid : src.Valid)
  | load (payload : Option (List UInt8))
  | unload
  | nest

/-- A call of `opal_dss_pack` gets its memory, unless the buffer has no block yet. -/
def allowed (buffer : Buffer) : Operation machine → Prop
  | .packRefused _ _ => buffer.based = false
  | .copyPayload granted src _ => CopyDelivers granted (some buffer) (some src)
  | .nest => 0 < buffer.bytes_used ∨ buffer.based = false
  | _ => True

variable {machine} {buffer next : Buffer}

end Orcm.DssPayload
