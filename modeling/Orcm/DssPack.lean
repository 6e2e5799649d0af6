import Orcm.DssBuffer

/-!
Packing, `opal/dss/dss_pack.c`. A fully described buffer carries a type tag in front of each group
of values; the native types are tagged with their real width in both modes. `opal_dss_pack_buffer`
looks its function up in a table of types, here in two steps, because nested values only hold scalar
types.
-/

namespace Orcm.DssPack

open DssTypes DssBuffer

variable (machine : Machine)

def packWords (width : Width) (words : List (Word width)) : Dss Unit :=
  appendBytes machine (words.flatMap (encodeWord width))

def opalDssPackByte (words : List (Word .one)) : Dss Unit := packWords machine .one words

def opalDssPackInt16 (words : List (Word .two)) : Dss Unit := packWords machine .two words

def opalDssPackInt32 (words : List (Word .four)) : Dss Unit := packWords machine .four words

def opalDssPackInt64 (words : List (Word .eight)) : Dss Unit := packWords machine .eight words

/-- Type tags are packed as `OPAL_UINT8` without a tag of their own. -/
def opalDssStoreDataType (code : Word .one) : Dss Unit := opalDssPackByte machine [code]

def storeIfDescribed (code : Word .one) : Dss Unit := do
  if (← get).type = .fullyDesc then opalDssStoreDataType machine code

def storeUnlessDescribed (code : Word .one) : Dss Unit := do
  if (← get).type ≠ .fullyDesc then opalDssStoreDataType machine code

/-- `opal_dss_pack_buffer` for a fixed-width integer type. -/
def packWordsBuffer (type : ScalarType) (width : Width) (words : List (Word width)) : Dss Unit := do
  storeIfDescribed machine type.code
  packWords machine width words

/-- System types are always described with the type that stands for their width. -/
def packNative (type : ScalarType) (width : Width) (words : List (Word width)) : Dss Unit := do
  storeUnlessDescribed machine type.code
  packWordsBuffer machine type width words

def opalDssPackBool (flags : List Bool) : Dss Unit :=
  packNative machine (unsignedType machine.sizeof_bool) machine.sizeof_bool
    (flags.map fun flag => if flag then 1 else 0)

/-- Registered for `OPAL_INT` and for `OPAL_UINT`. -/
def opalDssPackInt (words : List (Word machine.sizeof_int)) : Dss Unit :=
  packNative machine (signedType machine.sizeof_int) machine.sizeof_int words

def opalDssPackSizet (words : List (Word machine.sizeof_size_t)) : Dss Unit :=
  packNative machine (unsignedType machine.sizeof_size_t) machine.sizeof_size_t words

def opalDssPackPid (words : List (Word machine.sizeof_pid_t)) : Dss Unit :=
  packNative machine (unsignedType machine.sizeof_pid_t) machine.sizeof_pid_t words

/-- The length counts the terminating zero; a `NULL` pointer has length zero. -/
def packString : Option CText → Dss Unit
  | none => opalDssPackInt32 machine [0]
  | some text =>
    -- beyond `INT32_MAX` the length wraps to a negative number of bytes to copy
    if text.bytes.length + 1 < 2147483648 then do
      opalDssPackInt32 machine [BitVec.ofNat 32 (text.bytes.length + 1)]
      appendBytes machine (text.bytes ++ [0])
    else throw .undefined

def opalDssPackString (strings : List (Option CText)) : Dss Unit :=
  strings.forM (packString machine)

def opalDssPackFloat (texts : List CText) : Dss Unit :=
  texts.forM fun text => packString machine (some text)

def opalDssPackTimeval (times : List Timeval) : Dss Unit :=
  times.forM fun time => opalDssPackInt64 machine [time.tv_sec, time.tv_usec]

def opalDssPackTime (times : List (Word .eight)) : Dss Unit :=
  times.forM fun time => opalDssPackInt64 machine [time]

def packByteObject (object : ByteObject) : Dss Unit := do
  opalDssPackInt32 machine [object.size]
  if 0 < object.size.toInt then
    if object.size.toInt ≤ object.bytes.length then
      appendBytes machine (object.bytes.take object.size.toInt.toNat)
    else throw .undefined

def opalDssPackByteObject (objects : List ByteObject) : Dss Unit :=
  objects.forM (packByteObject machine)

def opalDssPackJobid (jobids : List (Word .four)) : Dss Unit :=
  packWordsBuffer machine .uint32 .four jobids

def opalDssPackVpid (vpids : List (Word .four)) : Dss Unit :=
  packWordsBuffer machine .uint32 .four vpids

def opalDssPackName (names : List ProcessName) : Dss Unit := do
  opalDssPackJobid machine (names.map ProcessName.jobid)
  opalDssPackVpid machine (names.map ProcessName.vpid)

def packScalar : (type : ScalarType) → List (ScalarValue machine type) → Dss Unit
  | .byte, words => opalDssPackByte machine words
  | .int8, words => opalDssPackByte machine words
  | .uint8, words => opalDssPackByte machine words
  | .int16, words => opalDssPackInt16 machine words
  | .uint16, words => opalDssPackInt16 machine words
  | .int32, words => opalDssPackInt32 machine words
  | .uint32, words => opalDssPackInt32 machine words
  | .int64, words => opalDssPackInt64 machine words
  | .uint64, words => opalDssPackInt64 machine words
  | .bool, flags => opalDssPackBool machine flags
  | .int, words => opalDssPackInt machine words
  | .uint, words => opalDssPackInt machine words
  | .size, words => opalDssPackSizet machine words
  | .pid, words => opalDssPackPid machine words
  | .string, strings => opalDssPackString machine strings
  | .float, texts => opalDssPackFloat machine texts
  | .double, texts => opalDssPackFloat machine texts
  | .timeval, times => opalDssPackTimeval machine times
  | .byteObject, objects => opalDssPackByteObject machine objects
  | .name, names => opalDssPackName machine names

/-- `opal_dss_pack_buffer` for a scalar type. -/
def packScalarBuffer (type : ScalarType) (values : List (ScalarValue machine type)) : Dss Unit := do
  storeIfDescribed machine type.code
  packScalar machine type values

def opalDssPackDataType (codes : List (Word .one)) : Dss Unit :=
  packWordsBuffer machine .uint8 .one codes

def valueCode {machine : Machine} : ValueData machine → Word .one
  | .scalar type _ => type.code
  | .ptr => 28
  | .array type hasArray _ _ => type.arrayCode.get hasArray
  | .unsupported code => code

/-- The field of a nested value. A byte object is packed by hand, without a tag. -/
def packValueData : ValueData machine → Dss Unit
  | .scalar .byteObject object => packByteObject machine object
  | .scalar type value => packScalarBuffer machine type [value]
  | .ptr => pure ()
  | .array type _ size values =>
    if size.toInt = values.length then do
      packScalarBuffer machine .int32 [size]
      packScalarBuffer machine type values
    else throw .undefined
  | .unsupported _ => throw (.error .error)

def packValue (value : OpalValue machine) : Dss Unit := do
  packString machine value.key
  opalDssPackDataType machine [valueCode value.data]
  packValueData machine value.data

def opalDssPackValue (values : List (OpalValue machine)) : Dss Unit :=
  values.forM (packValue machine)

def packPstat (stats : Pstats machine) : Dss Unit := do
  packScalarBuffer machine .string [some stats.node]
  packScalarBuffer machine .int32 [stats.rank]
  packScalarBuffer machine .pid [stats.pid]
  packScalarBuffer machine .string [some stats.cmd]
  packScalarBuffer machine .byte [stats.state]
  packScalarBuffer machine .timeval [stats.time]
  packScalarBuffer machine .int32 [stats.priority]
  packScalarBuffer machine .int16 [stats.num_threads]
  opalDssPackFloat machine [stats.vsize]
  opalDssPackFloat machine [stats.rss]
  opalDssPackFloat machine [stats.peak_vsize]
  packScalarBuffer machine .int16 [stats.processor]
  packScalarBuffer machine .timeval [stats.sample_time]

def opalDssPackPstat (stats : List (Pstats machine)) : Dss Unit := stats.forM (packPstat machine)

def packDiskStats (stats : Diskstats) : Dss Unit := do
  packScalarBuffer machine .string [stats.disk]
  packScalarBuffer machine .uint64 [stats.num_reads_completed]
  packScalarBuffer machine .uint64 [stats.num_reads_merged]
  packScalarBuffer machine .uint64 [stats.num_sectors_read]
  packScalarBuffer machine .uint64 [stats.milliseconds_reading]
  packScalarBuffer machine .uint64 [stats.num_writes_completed]
  packScalarBuffer machine .uint64 [stats.num_writes_merged]
  packScalarBuffer machine .uint64 [stats.num_sectors_written]
  packScalarBuffer machine .uint64 [stats.milliseconds_writing]
  packScalarBuffer machine .uint64 [stats.num_ios_in_progress]
  packScalarBuffer machine .uint64 [stats.milliseconds_io]
  packScalarBuffer machine .uint64 [stats.weighted_milliseconds_io]

def packNetStats (stats : Netstats) : Dss Unit := do
  packScalarBuffer machine .string [stats.net_interface]
  packScalarBuffer machine .uint64 [stats.num_bytes_recvd]
  packScalarBuffer machine .uint64 [stats.num_packets_recvd]
  packScalarBuffer machine .uint64 [stats.num_recv_errs]
  packScalarBuffer machine .uint64 [stats.num_bytes_sent]
  packScalarBuffer machine .uint64 [stats.num_packets_sent]
  packScalarBuffer machine .uint64 [stats.num_send_errs]

def packNodeStat (stats : NodeStats) : Dss Unit := do
  opalDssPackFloat machine [stats.la]
  opalDssPackFloat machine [stats.la5]
  opalDssPackFloat machine [stats.la15]
  opalDssPackFloat machine [stats.total_mem]
  opalDssPackFloat machine [stats.free_mem]
  opalDssPackFloat machine [stats.buffers]
  opalDssPackFloat machine [stats.cached]
  opalDssPackFloat machine [stats.swap_cached]
  opalDssPackFloat machine [stats.swap_total]
  opalDssPackFloat machine [stats.swap_free]
  opalDssPackFloat machine [stats.mapped]
  packScalarBuffer machine .timeval [stats.sample_time]
  packScalarBuffer machine .int32 [BitVec.ofNat 32 stats.diskstats.length]
  stats.diskstats.forM (packDiskStats machine)
  packScalarBuffer machine .int32 [BitVec.ofNat 32 stats.netstats.length]
  stats.netstats.forM (packNetStats machine)

def opalDssPackNodeStat (stats : List NodeStats) : Dss Unit := stats.forM (packNodeStat machine)

/-- The whole block of a nested buffer, whatever part of it has been read. -/
def packBufferContents (source : Buffer) : Dss Unit := do
  opalDssPackSizet machine [BitVec.ofNat _ source.bytes_used]
  if 0 < source.bytes_used then
    -- the size becomes an `int32_t` count of bytes to copy
    if source.bytes_used < 2147483648 then
      appendBytes machine (source.memory.take source.bytes_used)
    else throw .undefined

def opalDssPackBufferContents (sources : List Buffer) : Dss Unit :=
  sources.forM (packBufferContents machine)

abbrev ObjectValue : ObjectType → Type
  | .time => Word .eight
  | .dataType | .null => Word .one
  | .pstat => Pstats machine
  | .nodeStat => NodeStats
  | .value => OpalValue machine
  | .buffer => Buffer
  | .jobid | .vpid => Word .four

abbrev Value : DataType → Type
  | .scalar type => ScalarValue machine type
  | .object type => ObjectValue machine type
  | .unregistered _ _ => Unit

/-- The pack functions registered for the other types. `OPAL_NULL` stores a zero for every value. -/
def packObject : (type : ObjectType) → List (ObjectValue machine type) → Dss Unit
  | .time, times => opalDssPackTime machine times
  | .dataType, codes => opalDssPackDataType machine codes
  | .null, values => appendBytes machine (List.replicate values.length 0)
  | .pstat, stats => opalDssPackPstat machine stats
  | .nodeStat, stats => opalDssPackNodeStat machine stats
  | .value, values => opalDssPackValue machine values
  | .buffer, sources => opalDssPackBufferContents machine sources
  | .jobid, jobids => opalDssPackJobid machine jobids
  | .vpid, vpids => opalDssPackVpid machine vpids

def packFunction : (type : DataType) → List (Value machine type) → Dss Unit
  | .scalar type, values => packScalar machine type values
  | .object type, values => packObject machine type values
  | .unregistered _ _, _ => throw (.error .packFailure)

def opalDssPackBuffer (type : DataType) (values : List (Value machine type)) : Dss Unit := do
  storeIfDescribed machine type.code
  packFunction machine type values

def opalDssPack (type : DataType) (values : List (Value machine type)) : Dss Unit := do
  storeIfDescribed machine ScalarType.int32.code
  opalDssPackInt32 machine [BitVec.ofNat 32 values.length]
  opalDssPackBuffer machine type values

end Orcm.DssPack
