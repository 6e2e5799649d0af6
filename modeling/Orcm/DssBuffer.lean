import Orcm.BigEndian
import Orcm.Cursor
import Orcm.DssTypes
import Orcm.ErrorCode

/-!
`opal_buffer_t` of `opal/dss/dss_types.h`, with `opal_dss_buffer_extend` and `opal_dss_too_small`.
Pointers into the block are offsets from its start. `realloc` and `malloc` succeed, and the bytes
they add are zero here; nothing reads a byte before it is written.
-/

namespace Orcm.DssBuffer

open Cursor DssTypes List

structure Buffer where
  type : BufferType
  /-- whether `base_ptr` differs from `NULL` -/
  based : Bool
  /-- the allocated block -/
  memory : List UInt8
  pack_ptr : Nat
  unpack_ptr : Nat
  bytes_allocated : Nat
  bytes_used : Nat
  deriving DecidableEq, Repr

def Buffer.empty (type : BufferType) : Buffer := ⟨type, false, [], 0, 0, 0, 0⟩

/-- The loop `while (to_alloc < required) to_alloc <<= 1`. -/
def doubleUntil : Nat → Nat → Nat → Nat
  | 0, to_alloc, _ => to_alloc
  | budget + 1, to_alloc, required =>
    if to_alloc < required then doubleUntil budget (2 * to_alloc) required else to_alloc

def allocationFor (machine : Machine) (bytes_allocated required : Nat) : Nat :=
  if machine.threshold_size ≤ required then
    (required + machine.threshold_size - 1) / machine.threshold_size * machine.threshold_size
  else
    let to_alloc := if bytes_allocated = 0 then machine.initial_size else bytes_allocated
    doubleUntil required to_alloc required

def opalDssBufferExtend (machine : Machine) (buffer : Buffer) (bytes_to_add : Nat) : Buffer :=
  if bytes_to_add ≤ buffer.bytes_allocated - buffer.bytes_used then buffer
  else
    let to_alloc := allocationFor machine buffer.bytes_allocated (buffer.bytes_used + bytes_to_add)
    let block := (buffer.memory ++ List.replicate to_alloc 0).take to_alloc
    if buffer.based then { buffer with memory := block, bytes_allocated := to_alloc }
    else { buffer with based := true, memory := List.replicate to_alloc 0, pack_ptr := 0,
                       unpack_ptr := 0, bytes_used := 0, bytes_allocated := to_alloc }

def opalDssTooSmall (buffer : Buffer) (bytes_reqd : Nat) : Bool :=
  buffer.pack_ptr < buffer.unpack_ptr || buffer.pack_ptr - buffer.unpack_ptr < bytes_reqd

abbrev Dss := Program Buffer Fault

/-- `int32_t` counts become `size_t` where they are multiplied with an element size. -/
def sizeT (machine : Machine) (value : Int) : Nat := (value % 2 ^ machine.sizeof_size_t.bits).toNat

/-- What every packing function does with its bytes: extend, copy to `pack_ptr`, move on. -/
def appendBytes (machine : Machine) (bytes : List UInt8) : Dss Unit := modify fun buffer =>
  let extended := opalDssBufferExtend machine buffer bytes.length
  { extended with
    memory := extended.memory.take extended.pack_ptr ++ bytes ++ extended.memory.drop
      (extended.pack_ptr + bytes.length)
    pack_ptr := extended.pack_ptr + bytes.length
    bytes_used := extended.bytes_used + bytes.length }

/-- Copies bytes from `unpack_ptr` and moves on. -/
def takeBytes (count : Nat) : Dss (List UInt8) := do
  let buffer ← get
  set { buffer with unpack_ptr := buffer.unpack_ptr + count }
  pure ((buffer.memory.drop buffer.unpack_ptr).take count)

/-- The check in front of every read of fixed-size elements. -/
def requireBytes (machine : Machine) (count : Int) (size : Nat) : Dss Unit := do
  if opalDssTooSmall (← get) (sizeT machine (count * size)) then
    throw (.error .unpackReadPastEndOfBuffer)

def encodeWord (width : Width) (word : Word width) : List UInt8 :=
  BigEndian.encode width.bytes word.toNat

def decodeWord (width : Width) (bytes : List UInt8) : Word width :=
  BitVec.ofNat width.bits (BigEndian.decode bytes)

/-- The cursors stand in the block in order, and `bytes_used` is the distance to the write
cursor. -/
structure Buffer.Valid (buffer : Buffer) : Prop where
  ordered : buffer.unpack_ptr ≤ buffer.pack_ptr
  used : buffer.bytes_used = buffer.pack_ptr
  fits : buffer.bytes_used ≤ buffer.bytes_allocated
  block : buffer.memory.length = buffer.bytes_allocated
  null : buffer.based = false → buffer.bytes_allocated = 0

def Buffer.contents (buffer : Buffer) : List UInt8 := buffer.memory.take buffer.pack_ptr

theorem empty_valid : (Buffer.empty type).Valid :=
  ⟨Nat.le_refl _, rfl, Nat.le_refl _, rfl, fun _ => rfl⟩

theorem doubleUntil_enough (positive : 0 < to_alloc)
    (reach : required ≤ to_alloc + budget) : required ≤ doubleUntil budget to_alloc required := by
  induction budget generalizing to_alloc with
  | zero => simpa [doubleUntil] using reach
  | succ budget ih =>
    rw [doubleUntil]
    split
    · exact ih (by omega) (by omega)
    · omega

theorem allocationFor_enough (machine : Machine) (bytes_allocated required : Nat) :
    required ≤ allocationFor machine bytes_allocated required := by
  have positive := machine.threshold_pos
  unfold allocationFor
  split
  · have := Nat.div_add_mod (required + machine.threshold_size - 1) machine.threshold_size
    have := Nat.mod_lt (required + machine.threshold_size - 1) positive
    rw [Nat.mul_comm]
    omega
  · refine doubleUntil_enough ?_ (by omega)
    split
    · exact machine.initial_pos
    · omega

variable {buffer : Buffer}

theorem extend_spec (valid : buffer.Valid) :
    let extended := opalDssBufferExtend machine buffer bytes_to_add
    extended.Valid ∧ extended.type = buffer.type ∧ extended.contents = buffer.contents ∧
      extended.pack_ptr = buffer.pack_ptr ∧ extended.unpack_ptr = buffer.unpack_ptr ∧
      extended.bytes_used + bytes_to_add ≤ extended.bytes_allocated := by
  obtain ⟨ordered, used, fits, block, null⟩ := valid
  intro extended
  by_cases room : bytes_to_add ≤ buffer.bytes_allocated - buffer.bytes_used
  · have same : extended = buffer := by simp [extended, opalDssBufferExtend, room]
    rw [same]
    exact ⟨⟨ordered, used, fits, block, null⟩, rfl, rfl, rfl, rfl, by omega⟩
  · have enough :=
      allocationFor_enough machine buffer.bytes_allocated (buffer.bytes_used + bytes_to_add)
    cases based : buffer.based with
    | true =>
      have shape : extended = { buffer with
          memory := (buffer.memory ++ List.replicate
            (allocationFor machine buffer.bytes_allocated (buffer.bytes_used + bytes_to_add))
              0).take
            (allocationFor machine buffer.bytes_allocated (buffer.bytes_used + bytes_to_add))
          bytes_allocated := allocationFor machine buffer.bytes_allocated
            (buffer.bytes_used + bytes_to_add) } := by
        simp [extended, opalDssBufferExtend, room, based]
      rw [shape]
      refine ⟨⟨ordered, used, ?_, ?_, ?_⟩, rfl, ?_, rfl, rfl, enough⟩
      · simp only
        omega
      · simp
      · simp [based]
      · simp only [Buffer.contents, take_take]
        rw [Nat.min_eq_left (by omega), take_append_of_le_length (by omega)]
    | false =>
      -- an unallocated buffer is empty, so starting over loses nothing
      have empty := null based
      have shape : extended = { buffer with
          based := true
          memory := List.replicate (allocationFor machine buffer.bytes_allocated
            (buffer.bytes_used + bytes_to_add)) 0
          pack_ptr := 0
          unpack_ptr := 0
          bytes_used := 0
          bytes_allocated := allocationFor machine buffer.bytes_allocated
            (buffer.bytes_used + bytes_to_add) } := by
        simp [extended, opalDssBufferExtend, room, based]
      rw [shape]
      refine ⟨⟨Nat.le_refl _, rfl, Nat.zero_le _, by simp, by simp⟩, rfl, ?_, ?_, ?_, ?_⟩
      · have : buffer.pack_ptr = 0 := by omega
        simp [Buffer.contents, this]
      · simp only
        omega
      · simp only
        omega
      · simp only
        omega

def Ready (type : BufferType) (buffer : Buffer) : Prop := buffer.Valid ∧ buffer.type = type

/-- The bytes go behind the contents; the read cursor and the mode stay. -/
def appended : Growth Buffer UInt8 where
  grows before bytes after :=
    after.contents = before.contents ++ bytes ∧ after.unpack_ptr = before.unpack_ptr ∧
      after.type = before.type
  nil buffer := by simp
  append before front middle back after := by
    rintro ⟨contents, cursor, type⟩ ⟨contents', cursor', type'⟩
    exact ⟨by rw [contents', contents, List.append_assoc], cursor'.trans cursor, type'.trans type⟩

theorem appendBytes_writes :
    Writes appended (Ready type) (appendBytes machine bytes) bytes := by
  rintro buffer ⟨valid, typed⟩
  obtain ⟨extendedValid, sameType, sameContents, samePack, sameCursor, room⟩ :=
    extend_spec valid
  generalize shape : opalDssBufferExtend machine buffer bytes.length = extended at *
  obtain ⟨ordered, used, fits, block, null⟩ := extendedValid
  have front : (extended.memory.take extended.pack_ptr).length = extended.pack_ptr := by
    rw [length_take]
    omega
  refine ⟨_, rfl, ⟨⟨?_, ?_, ?_, ?_, ?_⟩, ?_⟩, ?_, ?_, ?_⟩ <;> simp only [shape]
  · omega
  · omega
  · omega
  · simp only [length_append, length_take, length_drop]
    omega
  · exact null
  · rw [sameType, typed]
  · rw [← sameContents]
    exact take_left' (by rw [length_append, front])
  · exact sameCursor
  · exact sameType

instance : SymbolStream Buffer UInt8 where
  unread buffer := buffer.contents.drop buffer.unpack_ptr
  advance count buffer := { buffer with unpack_ptr := buffer.unpack_ptr + count }
  unread_advance count buffer := by simp [Buffer.contents, List.drop_drop]
  advance_zero buffer := rfl
  advance_add first second buffer := by simp [Nat.add_assoc]

open SymbolStream

/-- What a reader relies on besides the unread bytes. -/
def Typed (type : BufferType) (buffer : Buffer) : Prop :=
  buffer.type = type ∧ buffer.bytes_used = buffer.pack_ptr

theorem typed_stable (type : BufferType) : Stable (Typed type) := fun _ _ typed => typed

theorem ready_typed (ready : Ready type buffer) : Typed type buffer :=
  ⟨ready.2, ready.1.used⟩

theorem unread_eq :
    unread buffer = (buffer.memory.drop buffer.unpack_ptr).take
      (buffer.pack_ptr - buffer.unpack_ptr) := by
  change (buffer.memory.take buffer.pack_ptr).drop buffer.unpack_ptr = _
  rw [drop_take]

theorem unread_length_le (buffer : Buffer) :
    (unread buffer).length ≤ buffer.pack_ptr - buffer.unpack_ptr := by
  rw [unread_eq, length_take]
  omega

theorem unread_length (valid : buffer.Valid) :
    (unread buffer).length = buffer.pack_ptr - buffer.unpack_ptr := by
  have := valid.used
  have := valid.fits
  have := valid.block
  rw [unread_eq, length_take, length_drop]
  omega

theorem takeBytes_reads (type : BufferType) (bytes : List UInt8) :
    Reads (Typed type) (takeBytes bytes.length) bytes bytes := by
  intro buffer rest _ stream
  have inside : bytes.length ≤ buffer.pack_ptr - buffer.unpack_ptr := by
    have := unread_length_le buffer
    rw [stream, length_append] at this
    omega
  have taken : (buffer.memory.drop buffer.unpack_ptr).take bytes.length = bytes := by
    have := congrArg (List.take bytes.length) stream
    rwa [unread_eq, take_take, Nat.min_eq_left inside, take_left] at this
  change (Except.ok ((buffer.memory.drop buffer.unpack_ptr).take bytes.length), _) = _
  rw [taken]
  rfl

theorem sizeT_le (machine : Machine) (value : Nat) : sizeT machine value ≤ value := by
  have := Nat.mod_le value (2 ^ machine.sizeof_size_t.bits)
  have cast : (value : Int) % 2 ^ machine.sizeof_size_t.bits =
      ((value % 2 ^ machine.sizeof_size_t.bits : Nat) : Int) := by
    push_cast
    rfl
  rw [sizeT, cast]
  omega

theorem sizeT_of_small (machine : Machine) {value : Nat} (small : value < 256) :
    sizeT machine value = value := by
  rw [sizeT]
  cases machine.sizeof_size_t <;> simp only [Width.bits] <;> omega

/-- No wrap makes a check fail that should pass. -/
theorem requireBytes_reads {type : BufferType} {machine : Machine} {Value : Type} {count size : Nat}
    {bytes : List UInt8} {next : Dss Value} {value : Value} (some : 0 < count * size)
    (present : count * size ≤ bytes.length) (reads : Reads (Typed type) next bytes value) :
    Reads (Typed type) (do requireBytes machine count size; next) bytes value := by
  intro buffer rest typed stream
  have enough : opalDssTooSmall buffer (sizeT machine ((count : Int) * size)) = false := by
    have cast : ((count : Int) * size) = ((count * size : Nat) : Int) := by push_cast; rfl
    have asked := sizeT_le machine (count * size)
    have := unread_length_le buffer
    rw [stream, length_append] at this
    rw [cast]
    simp only [opalDssTooSmall, Bool.or_eq_false_iff, decide_eq_false_iff_not]
    omega
  have checked : exec (requireBytes machine count size) buffer = (.ok (), buffer) := by
    change exec (if opalDssTooSmall buffer (sizeT machine (count * size)) then throw _ else pure ())
      buffer = _
    rw [enough]
    rfl
  rw [exec_bind_ok checked, reads buffer rest typed stream]

end Orcm.DssBuffer
