import Orcm.DssTypes
import Orcm.ErrorCode

/-!
Attributes of `orte/util/attr.c`. A float is kept as its four bytes. What `load` is given is the
object behind the pointer `data`, or nothing when the pointer is `NULL`.
-/

namespace Orcm.Attributes

open DssTypes

variable (machine : Machine)

/-- The scalar types with a field in the union that is copied as it is; floats are kept apart
because the data support service sends their texts. -/
def held : ScalarType → Bool
  | .float | .double | .name => false
  | _ => true

/-- The codes that `load` or `unload` has a case for. -/
def knownCode (code : Word .one) : Bool :=
  (1 ≤ code && code ≤ 16) || code = 18 || code = 20 || code = 27 || code = 28 ||
    code = 51 || code = 52

inductive AttrType where
  | scalar (type : ScalarType) (isHeld : held type = true)
  | float
  | ptr
  | vpid
  | jobid
  | buffer
  | other (code : Word .one) (unknown : knownCode code = false)
  deriving DecidableEq, Repr

def AttrType.code : AttrType → Word .one
  | .scalar type _ => type.code
  | .float => 16 | .ptr => 28 | .vpid => 52 | .jobid => 51 | .buffer => 27
  | .other code _ => code

/-- The union. Under a type that `load` does not know only `NULL` can be stored, which leaves it
zero. -/
abbrev AttrData : AttrType → Type
  | .scalar type _ => ScalarValue machine type
  | .float | .vpid | .jobid => Word .four
  | .ptr => Word .eight
  | .buffer | .other _ _ => Unit

structure AttrValue where
  type : AttrType
  data : AttrData machine type

structure Attribute where
  key : Word .two
  /-- the field `local` -/
  is_local : Bool
  value : AttrValue machine

/-- A byte object that is handed in: the pointer to its bytes may be `NULL`. -/
structure ByteSource where
  size : Word .four
  bytes : Option (List UInt8)

abbrev ScalarSource : ScalarType → Type
  | .string => CText
  | .byteObject => ByteSource
  | type => ScalarValue machine type

/-- The object behind a pointer `data` that is not `NULL`. For `OPAL_PTR` it is the pointer
itself. -/
abbrev Source : AttrType → Type
  | .scalar type _ => ScalarSource machine type
  | .float | .vpid | .jobid => Word .four
  | .ptr => { address : Word .eight // address ≠ 0 }
  | .buffer | .other _ _ => Unit

def zeroScalar : (type : ScalarType) → ScalarValue machine type
  | .byte | .int8 | .uint8 => (0 : Word .one)
  | .int16 | .uint16 => (0 : Word .two)
  | .int32 | .uint32 => (0 : Word .four)
  | .int64 | .uint64 => (0 : Word .eight)
  | .bool => false
  | .string => none
  | .size => (0 : Word machine.sizeof_size_t)
  | .pid => (0 : Word machine.sizeof_pid_t)
  | .int | .uint => (0 : Word machine.sizeof_int)
  | .float | .double => ⟨[], by simp⟩
  | .timeval => ⟨0, 0⟩
  | .byteObject => ⟨0, []⟩
  | .name => ⟨0, 0⟩

/-- Strings and byte objects are copied; a byte object without bytes becomes an empty one. -/
def copyScalar : (type : ScalarType) → ScalarSource machine type → ScalarValue machine type
  | .string, text => some text
  | .byteObject, ⟨size, bytes⟩ =>
    if bytes.isSome ∧ 0 < size.toInt then ⟨size, (bytes.getD []).take size.toInt.toNat⟩ else ⟨0, []⟩
  | .byte, word => word
  | .bool, flag => flag
  | .size, word => word
  | .pid, word => word
  | .int, word => word
  | .int8, word => word
  | .int16, word => word
  | .int32, word => word
  | .int64, word => word
  | .uint, word => word
  | .uint8, word => word
  | .uint16, word => word
  | .uint32, word => word
  | .uint64, word => word
  | .float, text => text
  | .double, text => text
  | .timeval, time => time
  | .name, name => name

/-- What the caller of `load` passes, as a value: zero for `NULL`. -/
def passed : (type : AttrType) → Option (Source machine type) → AttrData machine type
  | .scalar type _, some source => copyScalar machine type source
  | .scalar type _, none => zeroScalar machine type
  | .float, word => word.getD 0
  | .vpid, word => word.getD 0
  | .jobid, word => word.getD 0
  | .ptr, address => (address.map Subtype.val).getD 0
  | .buffer, _ => ()
  | .other _ _, _ => ()

/-- A byte object has as many bytes as it says. -/
def readable : (type : AttrType) → Option (Source machine type) → Bool
  | .scalar .byteObject _, some source =>
    source.bytes.all fun bytes => source.size.toInt ≤ bytes.length
  | _, _ => true

/-- The types with a case in `load`. -/
def loadable : AttrType → Bool
  | .buffer | .other _ _ => false
  | _ => true

/-- `NULL` is accepted under every type. -/
def orteAttrLoad (type : AttrType) (data : Option (Source machine type)) :
    Result (AttrData machine type) :=
  if data.isSome ∧ loadable type = false then .error (.error .notSupported)
  else if readable machine type data then .ok (passed machine type data)
  else .error .undefined

/-- Types whose value is copied to storage of the caller; for the others `unload` allocates or hands
out a pointer. -/
def needsStorage : AttrType → Bool
  | .scalar .string _ | .scalar .byteObject _ | .buffer | .ptr => false
  | _ => true

/-- The types with a case in `unload`. -/
def unloadable : AttrType → Bool
  | .other _ _ => false
  | _ => true

/-- The pointer `data` of the caller: `NULL`, or a pointer to a pointer that is `NULL` or has
storage behind it. -/
inductive Destination where
  | absent
  | null
  | storage
  deriving DecidableEq, Repr

/-- The assertion in front of the switch is compiled out. -/
def orteAttrUnload (value : AttrValue machine) (data : Destination) : Result (AttrValue machine) :=
  if data = .absent ∨ (data = .null ∧ needsStorage value.type = true) then .error (.error .badParam)
  else if unloadable value.type then .ok value
  else .error (.error .notSupported)

end Orcm.Attributes
