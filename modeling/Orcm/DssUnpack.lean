import Orcm.DssPack

/-!
Unpacking, `opal/dss/dss_unpack.c` and `opal/dss/dss_peek.c`. A count is an `int32_t`, so it can be
negative. What a failed call leaves in its destination is not modelled. Pointers handed in are not
`NULL`, and `malloc` fails exactly when its size comes from a negative count.
-/

namespace Orcm.DssUnpack

open Cursor DssTypes DssBuffer DssPack

variable (machine : Machine)

def takeWord (width : Width) : Dss (Word width) := do
  let bytes ← takeBytes width.bytes
  pure (decodeWord width bytes)

def unpackWords (width : Width) (num : Int) : Dss (List (Word width)) := do
  requireBytes machine num width.bytes
  repeated (takeWord width) num.toNat

def opalDssUnpackByte (num : Int) : Dss (List (Word .one)) := unpackWords machine .one num

def opalDssUnpackInt16 (num : Int) : Dss (List (Word .two)) := unpackWords machine .two num

def opalDssUnpackInt32 (num : Int) : Dss (List (Word .four)) := unpackWords machine .four num

def opalDssUnpackInt64 (num : Int) : Dss (List (Word .eight)) := unpackWords machine .eight num

def single {Element : Type} (unpack : Int → Dss (List Element)) : Dss Element := do
  match ← unpack 1 with
  | value :: _ => pure value
  | [] => throw .undefined

/-- `opal_dss_unpack_byte` into a block of characters. -/
def unpackBlock (len : Int) : Dss (List UInt8) := do
  requireBytes machine len 1
  takeBytes len.toNat

def opalDssGetDataType : Dss (Word .one) := single (opalDssUnpackByte machine)

/-- Reads a tag from a copy of the buffer. -/
def opalDssPeekType : Dss (Word .one) := do
  let buffer ← get
  if buffer.type ≠ .fullyDesc then throw (.error .unknownDataType)
  else if buffer.bytes_used ≤ buffer.unpack_ptr then throw (.error .unpackReadPastEndOfBuffer)
  else
    let code ← opalDssGetDataType machine
    set buffer
    pure code

/-- The tag that must come next in a described buffer. -/
def expectType (code : Word .one) (mismatch : ErrorCode) : Dss Unit := do
  if (← get).type = .fullyDesc then
    if (← opalDssGetDataType machine) ≠ code then throw (.error mismatch)

def checkType (code : Word .one) : Dss Unit := expectType machine code .packMismatch

/-- `opal_dss_unpack_buffer` for a fixed-width integer type. -/
def unpackWordsBuffer (type : ScalarType) (width : Width) (num : Int) :
    Dss (List (Word width)) := do
  checkType machine type.code
  unpackWords machine width num

/-- The types that `UNPACK_SIZE_MISMATCH` can convert from. -/
inductive Remote where
  | unsigned (width : Width)
  | signed (width : Width)
  deriving DecidableEq, Repr

def Remote.width : Remote → Width
  | .unsigned width => width
  | .signed width => width

def Remote.type : Remote → ScalarType
  | .unsigned width => unsignedType width
  | .signed width => signedType width

def Remote.value : (remote : Remote) → Word remote.width → Int
  | .unsigned _, word => word.toNat
  | .signed _, word => word.toInt

def Remote.ofCode (code : Word .one) : Option Remote :=
  if code = 12 then some (.unsigned .one) else if code = 7 then some (.signed .one)
  else if code = 13 then some (.unsigned .two) else if code = 8 then some (.signed .two)
  else if code = 14 then some (.unsigned .four) else if code = 9 then some (.signed .four)
  else if code = 15 then some (.unsigned .eight) else if code = 10 then some (.signed .eight)
  else none

/-- The tag that says what was packed stands in the buffer in both modes. -/
def remoteType : Dss (Word .one) := do
  if (← get).type = .fullyDesc then opalDssPeekType machine else opalDssGetDataType machine

/-- The native types: the fast path copies words of the local type, the slow path casts every
element from the type the sender used. -/
def unpackNative {Element : Type} (local_type : ScalarType) (width : Width)
    (store : Word width → Element) (cast : Int → Element) (num : Int) : Dss (List Element) := do
  let remote_type ← remoteType machine
  if remote_type = local_type.code then
    let words ← unpackWordsBuffer machine local_type width num
    pure (words.map store)
  else
    match Remote.ofCode remote_type with
    | some remote => do
        let tmpbuf ← unpackWordsBuffer machine remote.type remote.width num
        pure (tmpbuf.map fun word => cast (remote.value word))
    | none => throw (.error .notFound)

def opalDssUnpackBool (num : Int) : Dss (List Bool) :=
  unpackNative machine (unsignedType machine.sizeof_bool) machine.sizeof_bool (· ≠ 0) (· ≠ 0) num

/-- Registered for `OPAL_INT` and for `OPAL_UINT`. -/
def opalDssUnpackInt (num : Int) : Dss (List (Word machine.sizeof_int)) :=
  unpackNative machine (signedType machine.sizeof_int) machine.sizeof_int id (BitVec.ofInt _) num

def opalDssUnpackSizet (num : Int) : Dss (List (Word machine.sizeof_size_t)) :=
  unpackNative machine (unsignedType machine.sizeof_size_t) machine.sizeof_size_t id
    (BitVec.ofInt _) num

def opalDssUnpackPid (num : Int) : Dss (List (Word machine.sizeof_pid_t)) :=
  unpackNative machine (unsignedType machine.sizeof_pid_t) machine.sizeof_pid_t id
    (BitVec.ofInt _) num

def unpackString : Dss (Option CText) := do
  let len ← single (opalDssUnpackInt32 machine)
  if len = 0 then pure none
  else if len.toInt < 0 then throw (.error .outOfResource)
  else
    let block ← unpackBlock machine len.toInt
    pure (some (CText.ofBlock block))

def opalDssUnpackString (num : Int) : Dss (List (Option CText)) :=
  repeated (unpackString machine) num.toNat

def unpackFloat : Dss CText := do
  match ← unpackString machine with
  | some text => pure text
  | none => throw (.error .unpackFailure)

/-- The bounds check counts the floats themselves, not the texts that are read. -/
def opalDssUnpackFloat (num : Int) : Dss (List CText) := do
  requireBytes machine num 4
  repeated (unpackFloat machine) num.toNat

def opalDssUnpackDouble (num : Int) : Dss (List CText) := do
  requireBytes machine num 8
  repeated (unpackFloat machine) num.toNat

def unpackTimeval : Dss Timeval := do
  requireBytes machine 2 8
  let tv_sec ← takeWord .eight
  let tv_usec ← takeWord .eight
  pure ⟨tv_sec, tv_usec⟩

def opalDssUnpackTimeval (num : Int) : Dss (List Timeval) := do
  requireBytes machine num 16
  repeated (unpackTimeval machine) num.toNat

def opalDssUnpackTime (num : Int) : Dss (List (Word .eight)) := do
  requireBytes machine num 8
  repeated (single (opalDssUnpackInt64 machine)) num.toNat

def unpackByteObject : Dss ByteObject := do
  let size ← single (opalDssUnpackInt32 machine)
  if 0 < size.toInt then
    let bytes ← unpackBlock machine size.toInt
    pure ⟨size, bytes⟩
  else pure ⟨size, []⟩

def opalDssUnpackByteObject (num : Int) : Dss (List ByteObject) :=
  repeated (unpackByteObject machine) num.toNat

def opalDssUnpackJobid (num : Int) : Dss (List (Word .four)) :=
  unpackWordsBuffer machine .uint32 .four num

def opalDssUnpackVpid (num : Int) : Dss (List (Word .four)) :=
  unpackWordsBuffer machine .uint32 .four num

def opalDssUnpackName (num : Int) : Dss (List ProcessName) := do
  if num < 0 then throw (.error .outOfResource)
  else
    let jobids ← opalDssUnpackJobid machine num
    let vpids ← opalDssUnpackVpid machine num
    pure (List.zipWith ProcessName.mk jobids vpids)

def unpackScalar : (type : ScalarType) → Int → Dss (List (ScalarValue machine type))
  | .byte, num => opalDssUnpackByte machine num
  | .int8, num => opalDssUnpackByte machine num
  | .uint8, num => opalDssUnpackByte machine num
  | .int16, num => opalDssUnpackInt16 machine num
  | .uint16, num => opalDssUnpackInt16 machine num
  | .int32, num => opalDssUnpackInt32 machine num
  | .uint32, num => opalDssUnpackInt32 machine num
  | .int64, num => opalDssUnpackInt64 machine num
  | .uint64, num => opalDssUnpackInt64 machine num
  | .bool, num => opalDssUnpackBool machine num
  | .int, num => opalDssUnpackInt machine num
  | .uint, num => opalDssUnpackInt machine num
  | .size, num => opalDssUnpackSizet machine num
  | .pid, num => opalDssUnpackPid machine num
  | .string, num => opalDssUnpackString machine num
  | .float, num => opalDssUnpackFloat machine num
  | .double, num => opalDssUnpackDouble machine num
  | .timeval, num => opalDssUnpackTimeval machine num
  | .byteObject, num => opalDssUnpackByteObject machine num
  | .name, num => opalDssUnpackName machine num

/-- `opal_dss_unpack_buffer` for a scalar type. -/
def unpackScalarBuffer (type : ScalarType) (num : Int) : Dss (List (ScalarValue machine type)) := do
  checkType machine type.code
  unpackScalar machine type num

def opalDssUnpackDataType (num : Int) : Dss (List (Word .one)) :=
  unpackWordsBuffer machine .uint8 .one num

/-- The cases of the switch over the type of a nested value. -/
inductive ValueKind where
  | scalar (type : ScalarType)
  | array (type : ScalarType) (hasArray : type.arrayCode.isSome)
  | unsupported

def scalarTypes : List ScalarType :=
  [.byte, .bool, .string, .size, .pid, .int, .int8, .int16, .int32, .int64, .uint, .uint8, .uint16,
    .uint32, .uint64, .float, .double, .timeval, .byteObject, .name]

def ValueKind.ofCode (code : Word .one) : ValueKind :=
  match scalarTypes.find? (fun type => type.code = code) with
  | some type => .scalar type
  | none =>
    match scalarTypes.find? (fun type => type.arrayCode = some code) with
    | some type => if hasArray : type.arrayCode.isSome then .array type hasArray else .unsupported
    | none => .unsupported

/-- Words whose destination is `NULL`: the first is read before it is stored. -/
def unpackNullWords (width : Width) (size : Int) : Dss Unit := do
  requireBytes machine size width.bytes
  discard (takeWord width)

/-- A converting call writes to its destination even when it could not read. -/
def unpackNullNative (local_type : ScalarType) (width : Width) (size : Int) : Dss Unit := do
  let remote_type ← remoteType machine
  if remote_type = local_type.code then
    checkType machine local_type.code
    unpackNullWords machine width size
  else if (Remote.ofCode remote_type).isNone then throw (.error .notFound)

/-- What is read for a positive number of elements before the first of them is stored. A string is
stored once its length is known. -/
def unpackNullData (type : ScalarType) (size : Int) : Dss Unit :=
  match type with
  | .byte | .int8 | .uint8 => unpackNullWords machine .one size
  | .int16 | .uint16 => unpackNullWords machine .two size
  | .int32 | .uint32 => unpackNullWords machine .four size
  | .int64 | .uint64 => unpackNullWords machine .eight size
  | .bool => unpackNullNative machine (unsignedType machine.sizeof_bool) machine.sizeof_bool size
  | .int | .uint => unpackNullNative machine (signedType machine.sizeof_int) machine.sizeof_int size
  | .size =>
    unpackNullNative machine (unsignedType machine.sizeof_size_t) machine.sizeof_size_t size
  | .pid => unpackNullNative machine (unsignedType machine.sizeof_pid_t) machine.sizeof_pid_t size
  | .string => discard (single (opalDssUnpackInt32 machine))
  | .float => do
      requireBytes machine size 4
      discard (unpackFloat machine)
  | .double => do
      requireBytes machine size 8
      discard (unpackFloat machine)
  | .timeval => do
      requireBytes machine size 16
      discard (unpackTimeval machine)
  | .byteObject | .name => pure ()

/-- The field of a nested value. The elements of an array go through the `data` pointer of the new
object, which is `NULL`. -/
def unpackValueData (code : Word .one) : Dss (ValueData machine) :=
  match ValueKind.ofCode code with
  | .scalar .byteObject => do
      let object ← unpackByteObject machine
      pure (.scalar .byteObject object)
  | .scalar type => do
      let value ← single (unpackScalarBuffer machine type)
      pure (.scalar type value)
  | .array type hasArray => do
      let size : Word .four ← single (unpackScalarBuffer machine .int32)
      checkType machine type.code
      if size.toInt ≤ 0 then
        let values ← unpackScalar machine type size.toInt
        pure (.array type hasArray size values)
      else
        unpackNullData machine type size.toInt
        throw .undefined
  | .unsupported => throw (.error .error)

def unpackValue : Dss (OpalValue machine) := do
  let key ← unpackString machine
  let code ← single (opalDssUnpackDataType machine)
  let data ← unpackValueData machine code
  pure ⟨key, data⟩

def opalDssUnpackValue (num : Int) : Dss (List (OpalValue machine)) :=
  repeated (unpackValue machine) num.toNat

/-- A string copied into a field of `OPAL_PSTAT_MAX_STRING_LEN` characters. -/
def unpackField : Dss CText := do
  match ← single (unpackScalarBuffer machine .string) with
  | some text => if text.bytes.length ≤ 32 then pure text else throw .undefined
  | none => throw .undefined

def unpackPstat : Dss (Pstats machine) := do
  let node ← unpackField machine
  let rank ← single (unpackScalarBuffer machine .int32)
  let pid ← single (unpackScalarBuffer machine .pid)
  let cmd ← unpackField machine
  let state ← single (unpackScalarBuffer machine .byte)
  let time ← single (unpackScalarBuffer machine .timeval)
  let priority ← single (unpackScalarBuffer machine .int32)
  let num_threads ← single (unpackScalarBuffer machine .int16)
  let vsize ← single (opalDssUnpackFloat machine)
  let rss ← single (opalDssUnpackFloat machine)
  let peak_vsize ← single (opalDssUnpackFloat machine)
  let processor ← single (unpackScalarBuffer machine .int16)
  let sample_time ← single (unpackScalarBuffer machine .timeval)
  pure { node, rank, pid, cmd, state, time, priority, num_threads, vsize, rss, peak_vsize,
         processor, sample_time }

def opalDssUnpackPstat (num : Int) : Dss (List (Pstats machine)) :=
  repeated (unpackPstat machine) num.toNat

def unpackDiskStats : Dss Diskstats := do
  let disk ← single (unpackScalarBuffer machine .string)
  let num_reads_completed ← single (unpackScalarBuffer machine .uint64)
  let num_reads_merged ← single (unpackScalarBuffer machine .uint64)
  let num_sectors_read ← single (unpackScalarBuffer machine .uint64)
  let milliseconds_reading ← single (unpackScalarBuffer machine .uint64)
  let num_writes_completed ← single (unpackScalarBuffer machine .uint64)
  let num_writes_merged ← single (unpackScalarBuffer machine .uint64)
  let num_sectors_written ← single (unpackScalarBuffer machine .uint64)
  let milliseconds_writing ← single (unpackScalarBuffer machine .uint64)
  let num_ios_in_progress ← single (unpackScalarBuffer machine .uint64)
  let milliseconds_io ← single (unpackScalarBuffer machine .uint64)
  let weighted_milliseconds_io ← single (unpackScalarBuffer machine .uint64)
  pure { disk, num_reads_completed, num_reads_merged, num_sectors_read, milliseconds_reading,
         num_writes_completed,
         num_writes_merged, num_sectors_written, milliseconds_writing, num_ios_in_progress,
         milliseconds_io, weighted_milliseconds_io }

def unpackNetStats : Dss Netstats := do
  let net_interface ← single (unpackScalarBuffer machine .string)
  let num_bytes_recvd ← single (unpackScalarBuffer machine .uint64)
  let num_packets_recvd ← single (unpackScalarBuffer machine .uint64)
  let num_recv_errs ← single (unpackScalarBuffer machine .uint64)
  let num_bytes_sent ← single (unpackScalarBuffer machine .uint64)
  let num_packets_sent ← single (unpackScalarBuffer machine .uint64)
  let num_send_errs ← single (unpackScalarBuffer machine .uint64)
  pure { net_interface, num_bytes_recvd, num_packets_recvd, num_recv_errs, num_bytes_sent,
         num_packets_sent, num_send_errs }

def unpackNodeStat : Dss NodeStats := do
  let la ← single (opalDssUnpackFloat machine)
  let la5 ← single (opalDssUnpackFloat machine)
  let la15 ← single (opalDssUnpackFloat machine)
  let total_mem ← single (opalDssUnpackFloat machine)
  let free_mem ← single (opalDssUnpackFloat machine)
  let buffers ← single (opalDssUnpackFloat machine)
  let cached ← single (opalDssUnpackFloat machine)
  let swap_cached ← single (opalDssUnpackFloat machine)
  let swap_total ← single (opalDssUnpackFloat machine)
  let swap_free ← single (opalDssUnpackFloat machine)
  let mapped ← single (opalDssUnpackFloat machine)
  let sample_time ← single (unpackScalarBuffer machine .timeval)
  let disks : Word .four ← single (unpackScalarBuffer machine .int32)
  let diskstats ← repeated (unpackDiskStats machine) disks.toInt.toNat
  let nets : Word .four ← single (unpackScalarBuffer machine .int32)
  let netstats ← repeated (unpackNetStats machine) nets.toInt.toNat
  pure { la, la5, la15, total_mem, free_mem, buffers, cached, swap_cached, swap_total, swap_free,
         mapped, sample_time, diskstats, netstats }

def opalDssUnpackNodeStat (num : Int) : Dss (List NodeStats) :=
  repeated (unpackNodeStat machine) num.toNat

/-- The size is unpacked as `size_t` and cut to the `int32_t` that counts the bytes. -/
def unpackBufferContents : Dss Buffer := do
  let nbytes ← single (opalDssUnpackSizet machine)
  let m := CLibrary.toInt nbytes.toNat
  if 0 < nbytes.toNat then
    let bytes ← unpackBlock machine m
    pure { type := machine.default_buf_type, based := true
           memory := bytes ++ List.replicate (nbytes.toNat - bytes.length) 0
           pack_ptr := m.toNat, unpack_ptr := 0, bytes_allocated := nbytes.toNat,
           bytes_used := m.toNat }
  else pure (Buffer.empty machine.default_buf_type)

def opalDssUnpackBufferContents (num : Int) : Dss (List Buffer) :=
  repeated (unpackBufferContents machine) num.toNat

def unpackObject : (type : ObjectType) → Int → Dss (List (ObjectValue machine type))
  | .time, num => opalDssUnpackTime machine num
  | .dataType, num => opalDssUnpackDataType machine num
  | .null, num => opalDssUnpackByte machine num
  | .pstat, num => opalDssUnpackPstat machine num
  | .nodeStat, num => opalDssUnpackNodeStat machine num
  | .value, num => opalDssUnpackValue machine num
  | .buffer, num => opalDssUnpackBufferContents machine num
  | .jobid, num => opalDssUnpackJobid machine num
  | .vpid, num => opalDssUnpackVpid machine num

def unpackFunction : (type : DataType) → Int → Dss (List (Value machine type))
  | .scalar type, num => unpackScalar machine type num
  | .object type, num => unpackObject machine type num
  | .unregistered _ _, _ => throw (.error .unpackFailure)

def opalDssUnpackBuffer (type : DataType) (num : Int) : Dss (List (Value machine type)) := do
  checkType machine type.code
  unpackFunction machine type num

def unpackCount : Dss Int := do
  expectType machine ScalarType.int32.code .unpackFailure
  let local_num ← single (opalDssUnpackInt32 machine)
  pure local_num.toInt

/-- What a call of `opal_dss_unpack` leaves behind. -/
structure Unpacked (type : DataType) where
  result : Except Fault Unit
  num_vals : Int
  dest : List (Value machine type)
  buffer : Buffer

def opalDssUnpack (type : DataType) (num_vals : Int) (buffer : Buffer) : Unpacked machine type :=
  if num_vals = 0 then ⟨.error (.error .unpackInadequateSpace), 0, [], buffer⟩
  else
    match exec (unpackCount machine) buffer with
    | (.error fault, after) => ⟨.error fault, 0, [], after⟩
    | (.ok local_num, after) =>
      match exec (opalDssUnpackBuffer machine type (min local_num num_vals)) after with
      | (.error fault, final) => ⟨.error fault, 0, [], final⟩
      | (.ok dest, final) =>
        -- with too little storage as much as fits is unpacked, and the call fails
        if num_vals < local_num then ⟨.error (.error .unpackInadequateSpace), num_vals, dest, final⟩
        else ⟨.ok (), local_num, dest, final⟩

end Orcm.DssUnpack
