import Orcm.DssWire

/-!
How many values `opal_dss_unpack` returns. Functions that check the bounds of the whole group refuse
a negative number, because it becomes a huge `size_t`; functions that only loop over their values do
nothing and report success. Buffers are well formed and smaller than half the address space, and
`size_t` has eight bytes: in four bytes a negative number times the size of an element can become
small again.
-/

namespace Orcm.DssUnpackCount

open Cursor SymbolStream DssTypes DssBuffer DssUnpack DssWire

variable (machine : Machine)

def Counted {Element : Type} (unpack : Int → Dss (List Element)) : Prop :=
  ∀ num buffer dest after, exec (unpack num) buffer = (.ok dest, after) → dest.length = num.toNat

variable {Element : Type} {after buffer : Buffer}

variable {machine} {scalar : ScalarType} {width : Width} (dataType : DataType)

section Wide

variable (wide : machine.sizeof_size_t = .eight)
include wide

end Wide

def Consumed (buffer : Buffer) (bytes : List UInt8) (after : Buffer) : Prop :=
  (∃ rest, unread buffer = bytes ++ rest) ∧ after = advance bytes.length buffer

theorem consumed_valid (valid : buffer.Valid) (consumed : Consumed buffer bytes after) :
    after.Valid := by
  obtain ⟨⟨rest, stream⟩, rfl⟩ := consumed
  have inside := unread_length_le buffer
  rw [stream, List.length_append] at inside
  have := valid.ordered
  exact ⟨(by change buffer.unpack_ptr + bytes.length ≤ buffer.pack_ptr; omega), valid.used,
    valid.fits, valid.block, valid.null⟩

variable (machine)

end Orcm.DssUnpackCount
