import Mathlib.Data.List.Basic
import Orcm.CLibrary

/-!
Data types of the OPAL data support service, `opal/dss/dss_types.h` and `opal/dss/dss_internal.h`.
Native integers have the width of the machine that packs or unpacks them. A float is represented by
the text that `%f` prints for it, since only that text travels. `strtof` is not modelled. The types
that other layers register (`OPAL_HWLOC_TOPO`, and the codes from `OPAL_DSS_ID_DYNAMIC` on) are not
among the data types here.
-/

namespace Orcm.DssTypes

inductive Width where
  | one | two | four | eight
  deriving DecidableEq, Repr

def Width.bytes : Width → Nat
  | .one => 1 | .two => 2 | .four => 4 | .eight => 8

def Width.bits : Width → Nat
  | .one => 8 | .two => 16 | .four => 32 | .eight => 64

abbrev Word (width : Width) := BitVec width.bits

inductive BufferType where
  | nonDesc
  | fullyDesc
  deriving DecidableEq, Repr

/-- The widths of the native types, and the parameters that govern new buffers and their growth. -/
structure Machine where
  sizeof_int : Width
  sizeof_size_t : Width
  sizeof_pid_t : Width
  sizeof_bool : Width
  default_buf_type : BufferType
  initial_size : Nat
  threshold_size : Nat
  initial_pos : 0 < initial_size
  threshold_pos : 0 < threshold_size

/-- The usual 64-bit machine with the default parameters of `opal_dss_register_vars`. -/
def Machine.lp64 : Machine where
  sizeof_int := .four
  sizeof_size_t := .eight
  sizeof_pid_t := .four
  sizeof_bool := .one
  default_buf_type := .nonDesc
  initial_size := 128
  threshold_size := 1024
  initial_pos := by decide
  threshold_pos := by decide

def Machine.ilp32 : Machine := { Machine.lp64 with sizeof_size_t := .four }

/-- The types a nested value can hold; most are packed by the function registered for them. -/
inductive ScalarType where
  | byte | bool | string | size | pid
  | int | int8 | int16 | int32 | int64
  | uint | uint8 | uint16 | uint32 | uint64
  | float | double | timeval | byteObject | name
  deriving DecidableEq, Repr

def ScalarType.code : ScalarType → Word .one
  | .byte => 1 | .bool => 2 | .string => 3 | .size => 4 | .pid => 5
  | .int => 6 | .int8 => 7 | .int16 => 8 | .int32 => 9 | .int64 => 10
  | .uint => 11 | .uint8 => 12 | .uint16 => 13 | .uint32 => 14 | .uint64 => 15
  | .float => 16 | .double => 17 | .timeval => 18 | .byteObject => 20 | .name => 50

/-- The codes of the other types that `opal_dss_open` registers. -/
inductive ObjectType where
  | time | dataType | null | pstat | nodeStat | value | buffer | jobid | vpid
  deriving DecidableEq, Repr

def ObjectType.code : ObjectType → Word .one
  | .time => 19 | .dataType => 21 | .null => 22 | .pstat => 23 | .nodeStat => 24
  | .value => 26 | .buffer => 27 | .jobid => 51 | .vpid => 52

/-- The codes that some layer registers a type for, or may do so. -/
def registered (code : Word .one) : Bool :=
  (1 ≤ code && code ≤ 27) || (50 ≤ code && code ≤ 52) || 100 ≤ code

/-- The types of this layer, and the codes that no layer registers. -/
inductive DataType where
  | scalar (type : ScalarType)
  | object (type : ObjectType)
  | unregistered (code : Word .one) (absent : registered code = false)
  deriving DecidableEq, Repr

def DataType.code : DataType → Word .one
  | .scalar type => type.code
  | .object type => type.code
  | .unregistered code _ => code

/-- `DSS_TYPE_INT` and its signed relatives. -/
def signedType : Width → ScalarType
  | .one => .int8 | .two => .int16 | .four => .int32 | .eight => .int64

/-- `DSS_TYPE_SIZE_T`, `DSS_TYPE_PID_T` and `DSS_TYPE_BOOL`. -/
def unsignedType : Width → ScalarType
  | .one => .uint8 | .two => .uint16 | .four => .uint32 | .eight => .uint64

/-- A C string; it ends at its first zero byte. -/
structure CText where
  bytes : List UInt8
  noZero : 0 ∉ bytes
  deriving DecidableEq, Repr

def CText.ofBlock (block : List UInt8) : CText where
  bytes := block.takeWhile (· ≠ 0)
  noZero := by
    intro member
    simpa using List.all_eq_true.mp List.all_takeWhile 0 member

structure Timeval where
  tv_sec : Word .eight
  tv_usec : Word .eight
  deriving DecidableEq, Repr

structure ByteObject where
  size : Word .four
  bytes : List UInt8
  deriving DecidableEq, Repr

structure ProcessName where
  jobid : Word .four
  vpid : Word .four
  deriving DecidableEq, Repr

abbrev ScalarValue (machine : Machine) : ScalarType → Type
  | .byte | .int8 | .uint8 => Word .one
  | .int16 | .uint16 => Word .two
  | .int32 | .uint32 => Word .four
  | .int64 | .uint64 => Word .eight
  | .bool => Bool
  | .string => Option CText
  | .size => Word machine.sizeof_size_t
  | .pid => Word machine.sizeof_pid_t
  | .int | .uint => Word machine.sizeof_int
  | .float | .double => CText
  | .timeval => Timeval
  | .byteObject => ByteObject
  | .name => ProcessName

/-- Element types that have an array type, with its code. -/
def ScalarType.arrayCode : ScalarType → Option (Word .one)
  | .float =>
    some 31 | .double => some 32 | .string => some 33 | .bool => some 34 | .size => some 35
  | .byte => some 36 | .int => some 37 | .int8 => some 38 | .int16 => some 39 | .int32 => some 40
  | .int64 =>
    some 41 | .uint => some 42 | .uint8 => some 43 | .uint16 => some 44 | .uint32 => some 45
  | .uint64 => some 46 | .pid => some 48 | .timeval => some 49
  | .byteObject | .name => none

/-- The tagged union of `opal_value_t`. -/
inductive ValueData (machine : Machine) where
  | scalar (type : ScalarType) (value : ScalarValue machine type)
  | ptr
  | array (type : ScalarType) (hasArray : type.arrayCode.isSome) (size : Word .four)
      (values : List (ScalarValue machine type))
  | unsupported (code : Word .one)

structure OpalValue (machine : Machine) where
  key : Option CText
  data : ValueData machine

structure Pstats (machine : Machine) where
  node : CText
  rank : Word .four
  pid : Word machine.sizeof_pid_t
  cmd : CText
  state : Word .one
  time : Timeval
  priority : Word .four
  num_threads : Word .two
  vsize : CText
  rss : CText
  peak_vsize : CText
  processor : Word .two
  sample_time : Timeval
  deriving DecidableEq, Repr

structure Diskstats where
  disk : Option CText
  num_reads_completed : Word .eight
  num_reads_merged : Word .eight
  num_sectors_read : Word .eight
  milliseconds_reading : Word .eight
  num_writes_completed : Word .eight
  num_writes_merged : Word .eight
  num_sectors_written : Word .eight
  milliseconds_writing : Word .eight
  num_ios_in_progress : Word .eight
  milliseconds_io : Word .eight
  weighted_milliseconds_io : Word .eight
  deriving DecidableEq, Repr

structure Netstats where
  net_interface : Option CText
  num_bytes_recvd : Word .eight
  num_packets_recvd : Word .eight
  num_recv_errs : Word .eight
  num_bytes_sent : Word .eight
  num_packets_sent : Word .eight
  num_send_errs : Word .eight
  deriving DecidableEq, Repr

structure NodeStats where
  la : CText
  la5 : CText
  la15 : CText
  total_mem : CText
  free_mem : CText
  buffers : CText
  cached : CText
  swap_cached : CText
  swap_total : CText
  swap_free : CText
  mapped : CText
  sample_time : Timeval
  diskstats : List Diskstats
  netstats : List Netstats
  deriving DecidableEq, Repr

end Orcm.DssTypes
