import Orcm.DssUnpack

/-!
The wire format of the data support service: the bytes that stand in a buffer for a group of values
of one type. Values that the format cannot carry are excluded by `ScalarFits` and `ValueFits`.
-/

namespace Orcm.DssWire

open Cursor SymbolStream DssTypes DssBuffer DssPack DssUnpack List

variable (machine : Machine)

def tag (type : BufferType) (code : Word .one) : List UInt8 :=
  match type with
  | .fullyDesc => encodeWord .one code
  | .nonDesc => []

def wireWords (width : Width) (words : List (Word width)) : List UInt8 :=
  words.flatMap (encodeWord width)

/-- Exactly one tag tells the width, in either mode. -/
def wireNative (type : ScalarType) (width : Width) (words : List (Word width)) : List UInt8 :=
  encodeWord .one type.code ++ wireWords width words

def wireString : Option CText → List UInt8
  | none => encodeWord .four 0
  | some text => encodeWord .four (BitVec.ofNat 32 (text.bytes.length + 1)) ++ (text.bytes ++ [0])

def wireTimeval (time : Timeval) : List UInt8 := wireWords .eight [time.tv_sec, time.tv_usec]

def wireByteObject (object : ByteObject) : List UInt8 :=
  encodeWord .four object.size ++ object.bytes

def wireScalar (type : BufferType) :
    (scalar : ScalarType) → List (ScalarValue machine scalar) → List UInt8
  | .byte, words => wireWords .one words
  | .int8, words => wireWords .one words
  | .uint8, words => wireWords .one words
  | .int16, words => wireWords .two words
  | .uint16, words => wireWords .two words
  | .int32, words => wireWords .four words
  | .uint32, words => wireWords .four words
  | .int64, words => wireWords .eight words
  | .uint64, words => wireWords .eight words
  | .bool, flags => wireNative (unsignedType machine.sizeof_bool) machine.sizeof_bool
      (flags.map fun flag => if flag then 1 else 0)
  | .int, words => wireNative (signedType machine.sizeof_int) machine.sizeof_int words
  | .uint, words => wireNative (signedType machine.sizeof_int) machine.sizeof_int words
  | .size, words => wireNative (unsignedType machine.sizeof_size_t) machine.sizeof_size_t words
  | .pid, words => wireNative (unsignedType machine.sizeof_pid_t) machine.sizeof_pid_t words
  | .string, strings => strings.flatMap wireString
  | .float, texts => texts.flatMap fun text => wireString (some text)
  | .double, texts => texts.flatMap fun text => wireString (some text)
  | .timeval, times => times.flatMap wireTimeval
  | .byteObject, objects => objects.flatMap wireByteObject
  | .name, names =>
    (tag type ScalarType.uint32.code ++ wireWords .four (names.map ProcessName.jobid)) ++
      (tag type ScalarType.uint32.code ++ wireWords .four (names.map ProcessName.vpid))

def wireScalarBuffer (type : BufferType) (scalar : ScalarType)
    (values : List (ScalarValue machine scalar)) : List UInt8 :=
  tag type scalar.code ++ wireScalar machine type scalar values

def TextFits (text : CText) : Prop := text.bytes.length + 1 < 2147483648

/-- Strings have a length that an `int32_t` can count, and byte objects as many bytes as they
say. -/
def ScalarFits : (scalar : ScalarType) → ScalarValue machine scalar → Prop
  | .string, string => ∀ text ∈ string, TextFits text
  | .float, text => TextFits text
  | .double, text => TextFits text
  | .byteObject, object => object.size.toInt = object.bytes.length
  | _, _ => True

theorem byteObject_counted (fits : ScalarFits machine .byteObject object) :
    object.size.toInt.toNat = object.bytes.length := by
  have size : object.size.toInt = object.bytes.length := fits
  omega

/-- Texts of floats are not the floats, so they are left out here. -/
def RoundTripScalar (scalar : ScalarType) : Prop := scalar ≠ .float ∧ scalar ≠ .double

instance (scalar : ScalarType) : Decidable (RoundTripScalar scalar) :=
  inferInstanceAs (Decidable (_ ∧ _))

section Packing

variable (type : BufferType)

theorem packWords_writes (width : Width) (words : List (Word width)) :
    Writes appended (Ready type) (packWords machine width words) (wireWords width words) :=
  appendBytes_writes

theorem packWord_writes (width : Width) (word : Word width) :
    Writes appended (Ready type) (packWords machine width [word]) (encodeWord width word) := by
  have written := packWords_writes machine type width [word]
  rwa [wireWords, flatMap_singleton] at written

theorem storeWhen_writes (stored : BufferType → Prop) [DecidablePred stored] (code : Word .one) :
    Writes appended (Ready type)
      (do if stored (← get).type then opalDssStoreDataType machine code : Dss Unit)
      (if stored type then encodeWord .one code else []) := by
  rintro buffer ⟨valid, rfl⟩
  change ∃ after, exec (if stored buffer.type then opalDssStoreDataType machine code else pure ())
    buffer = _ ∧ _
  split
  · exact packWord_writes machine buffer.type .one code buffer ⟨valid, rfl⟩
  · exact writes_pure buffer ⟨valid, rfl⟩

theorem storeIfDescribed_writes (code : Word .one) :
    Writes appended (Ready type) (storeIfDescribed machine code) (tag type code) := by
  have written := storeWhen_writes machine type (· = .fullyDesc) code
  cases type <;> exact written

variable (scalar : ScalarType)

theorem packWordsBuffer_writes (width : Width) (words : List (Word width)) :
    Writes appended (Ready type) (packWordsBuffer machine scalar width words)
      (tag type scalar.code ++ wireWords width words) :=
  writes_bind (storeIfDescribed_writes machine type _) (packWords_writes machine type width words)

theorem packNative_writes {width : Width} {words : List (Word width)} :
    Writes appended (Ready type) (packNative machine scalar width words)
      (wireNative scalar width words) := by
  have written := writes_bind (storeWhen_writes machine type (· ≠ .fullyDesc) scalar.code)
    (packWordsBuffer_writes machine type scalar width words)
  cases type <;> exact written

theorem packString_writes (fits : ∀ text ∈ string, TextFits text) :
    Writes appended (Ready type) (packString machine string) (wireString string) := by
  cases string with
  | none => exact packWord_writes machine type .four 0
  | some text =>
    have short : text.bytes.length + 1 < 2147483648 := fits text rfl
    rw [packString, if_pos short]
    exact writes_bind (packWord_writes machine type .four _) appendBytes_writes

theorem packByteObject_writes (fits : object.size.toInt.toNat = object.bytes.length) :
    Writes appended (Ready type) (packByteObject machine object) (wireByteObject object) := by
  refine writes_bind (packWord_writes machine type .four object.size) ?_
  rcases Nat.eq_zero_or_pos object.bytes.length with none | some
  · rw [if_neg (by omega), eq_nil_of_length_eq_zero none]
    exact writes_pure
  · rw [if_pos (by omega), if_pos (by omega), take_of_length_le (by omega)]
    exact appendBytes_writes

theorem packScalar_writes (fits : ∀ value ∈ values, ScalarFits machine scalar value) :
    Writes appended (Ready type) (packScalar machine scalar values)
      (wireScalar machine type scalar values) := by
  cases scalar with
  | byte | int8 | uint8 => exact packWords_writes machine type .one values
  | int16 | uint16 => exact packWords_writes machine type .two values
  | int32 | uint32 => exact packWords_writes machine type .four values
  | int64 | uint64 => exact packWords_writes machine type .eight values
  | bool | int | uint | size | pid => exact packNative_writes machine type _
  | string =>
    exact writes_forM fun string member => packString_writes machine type (fits string member)
  | float | double =>
    refine writes_forM fun text member => ?_
    exact packString_writes machine type (by rintro _ ⟨⟩; exact fits text member)
  | timeval => exact writes_forM fun time _ => packWords_writes machine type .eight _
  | byteObject =>
    exact writes_forM fun object member =>
      packByteObject_writes machine type (byteObject_counted machine (fits object member))
  | name =>
    exact writes_bind (packWordsBuffer_writes machine type .uint32 .four _)
      (packWordsBuffer_writes machine type .uint32 .four _)

theorem packScalarBuffer_writes (values : List (ScalarValue machine scalar))
    (fits : ∀ value ∈ values, ScalarFits machine scalar value) :
    Writes appended (Ready type) (packScalarBuffer machine scalar values)
      (wireScalarBuffer machine type scalar values) :=
  writes_bind (storeIfDescribed_writes machine type _) (packScalar_writes machine type scalar fits)

end Packing

section Unpacking

variable (type : BufferType) (scalar : ScalarType) (width : Width) (word : Word width)

theorem decodeWord_encodeWord : decodeWord width (encodeWord width word) = word := by
  have bound : 256 ^ width.bytes = 2 ^ width.bits := by cases width <;> rfl
  rw [decodeWord, encodeWord, BigEndian.decode_encode, bound, Nat.mod_eq_of_lt word.isLt,
    BitVec.ofNat_toNat, BitVec.setWidth_eq]

variable (words : List (Word width)) (bytes : List UInt8)

theorem encodeWord_decodeWord (exact_length : bytes.length = width.bytes) :
    encodeWord width (decodeWord width bytes) = bytes := by
  have bound : 256 ^ bytes.length = 2 ^ width.bits := by
    rw [exact_length]
    cases width <;> rfl
  have small := BigEndian.decode_lt bytes
  rw [encodeWord, decodeWord, BitVec.toNat_ofNat, Nat.mod_eq_of_lt (bound ▸ small), ← exact_length,
    BigEndian.encode_decode]

theorem encodeWord_length : (encodeWord width word).length = width.bytes :=
  BigEndian.encode_length ..

theorem wireWords_length : (wireWords width words).length = words.length * width.bytes := by
  simp [wireWords, encodeWord_length]

theorem takeWord_reads :
    Reads (Typed type) (takeWord width) (encodeWord width word) word := by
  have taken :=
    reads_map (typed_stable type) (decodeWord width) (takeBytes_reads type (encodeWord width word))
  rwa [encodeWord_length, decodeWord_encodeWord] at taken

/-- The number of values of one call. -/
structure Countable (count : Nat) : Prop where
  some : 0 < count
  small : count < 2147483648

theorem one_countable : Countable 1 := ⟨Nat.one_pos, by decide⟩

theorem width_bytes_bounds : 0 < width.bytes ∧ width.bytes ≤ 8 := by
  cases width <;> decide

theorem requireBytes_countable {Value : Type} {count : Nat} {size : Nat} {next : Dss Value}
    {value : Value}
    (countable : Countable count) (positive : 0 < size) (present : count * size ≤ bytes.length)
    (reads : Reads (Typed type) next bytes value) :
    Reads (Typed type) (do requireBytes machine count size; next) bytes value :=
  requireBytes_reads (Nat.mul_pos countable.some positive) present reads

theorem unpackWords_reads (countable : Countable words.length) :
    Reads (Typed type) (unpackWords machine width words.length) (wireWords width words) words := by
  refine requireBytes_countable machine type _ countable (width_bytes_bounds width).1
    (wireWords_length width words).ge ?_
  exact reads_repeated (typed_stable type) fun word _ => takeWord_reads type width word

theorem single_reads (element : Element)
    (reads : Reads (Typed type) (unpack ((1 : Nat) : Int)) bytes [element]) :
    Reads (Typed type) (single unpack) bytes element := by
  rw [← append_nil bytes]
  exact reads_bind (typed_stable type) reads reads_pure

theorem singleWord_reads :
    Reads (Typed type) (single (unpackWords machine width)) (encodeWord width word) word := by
  have read := single_reads type _ word (unpackWords_reads machine type width [word] one_countable)
  rwa [wireWords, flatMap_singleton] at read

theorem getDataType_reads :
    Reads (Typed type) (opalDssGetDataType machine) (encodeWord .one code) code :=
  singleWord_reads machine type .one code

theorem expectType_reads (code : Word .one) (mismatch : ErrorCode) :
    Reads (Typed type) (expectType machine code mismatch) (tag type code) () := by
  rintro buffer rest ⟨rfl, used⟩ stream
  cases mode : buffer.type with
  | nonDesc =>
    change exec (if buffer.type = .fullyDesc then _ else pure ()) buffer = _
    rw [if_neg (by simp [mode])]
    rfl
  | fullyDesc =>
    rw [mode] at stream
    have read := getDataType_reads machine .fullyDesc buffer rest ⟨mode, used⟩ stream
    change exec (if buffer.type = .fullyDesc then _ else pure ()) buffer = _
    rw [if_pos mode, exec_bind_ok read, if_neg (by simp)]
    rfl

theorem checkType_reads : Reads (Typed type) (checkType machine code) (tag type code) () :=
  expectType_reads machine type code .packMismatch

theorem unpackWordsBuffer_reads (countable : Countable words.length) :
    Reads (Typed type) (unpackWordsBuffer machine scalar width words.length)
      (tag type scalar.code ++ wireWords width words)
      words :=
  reads_bind (typed_stable type) (checkType_reads machine type)
    (unpackWords_reads machine type width words countable)

theorem peekType_eq (typed : Typed .fullyDesc buffer)
    (stream : unread buffer = encodeWord .one code ++ rest) :
    exec (opalDssPeekType machine) buffer = (.ok code, buffer) := by
  have inside : ¬ buffer.bytes_used ≤ buffer.unpack_ptr := by
    have := unread_length_le buffer
    rw [stream, length_append, encodeWord_length, ← typed.2] at this
    simp only [Width.bytes] at this
    omega
  change exec (if buffer.type ≠ .fullyDesc then _ else _) buffer = _
  rw [if_neg (not_not.mpr typed.1), if_neg inside,
    exec_bind_ok (getDataType_reads machine .fullyDesc buffer rest typed stream)]
  rfl

/-- The tag of a native type. In a described buffer it is looked at first and consumed by `next`. -/
theorem remoteType_reads {Value : Type} {next : Word .one → Dss Value} {value : Value}
    (reads : Reads (Typed type) (next scalar.code) (tag type scalar.code ++ bytes) value) :
    Reads (Typed type) (do let remote_type ← remoteType machine; next remote_type)
      (encodeWord .one scalar.code ++ bytes)
      value := by
  cases type with
  | fullyDesc =>
    intro buffer rest typed stream
    have peeked : exec (remoteType machine) buffer = (.ok scalar.code, buffer) := by
      change exec (if buffer.type = .fullyDesc then opalDssPeekType machine
        else opalDssGetDataType machine) buffer = _
      rw [if_pos typed.1]
      exact peekType_eq machine typed (by rw [stream, append_assoc])
    rw [exec_bind_ok peeked]
    exact reads buffer rest typed stream
  | nonDesc =>
    refine reads_bind (typed_stable _) ?_ reads
    intro buffer rest typed stream
    change exec (if buffer.type = .fullyDesc then opalDssPeekType machine
      else opalDssGetDataType machine) buffer = _
    rw [if_neg (by simp [typed.1])]
    exact getDataType_reads machine .nonDesc buffer rest typed stream

theorem unpackNative_reads (store : Word width → Element) (cast : Int → Element)
    (countable : Countable words.length) :
    Reads (Typed type) (unpackNative machine scalar width store cast words.length)
      (wireNative scalar width words)
      (words.map store) := by
  refine remoteType_reads machine type scalar _ ?_
  rw [if_pos rfl]
  exact reads_map (typed_stable type) _ (unpackWordsBuffer_reads machine type scalar width
    words countable)

theorem unpackNative_keeps (cast : Int → Word width) (countable : Countable words.length) :
    Reads (Typed type) (unpackNative machine scalar width id cast words.length)
      (wireNative scalar width words) words := by
  have read := unpackNative_reads machine type scalar width words id cast countable
  rwa [map_id] at read

theorem remote_ofCode : Remote.ofCode remote.type.code = some remote := by
  rcases remote with width | width <;> cases width <;> rfl

theorem unpackNative_casts (store : Word width → Element)
    (cast : Int → Element) (remote : Remote) (differs : remote.type.code ≠ scalar.code)
    (words : List (Word remote.width)) (countable : Countable words.length) :
    Reads (Typed type) (unpackNative machine scalar width store cast words.length)
      (wireNative remote.type remote.width words)
      (words.map fun word => cast (remote.value word)) := by
  refine remoteType_reads machine type remote.type _ ?_
  rw [if_neg differs, remote_ofCode]
  exact reads_map (typed_stable type) _ (unpackWordsBuffer_reads machine type remote.type
    remote.width words countable)

theorem unpackBool_reads (countable : Countable flags.length) :
    Reads (Typed type) (opalDssUnpackBool machine flags.length)
      (wireScalar machine type .bool flags) flags := by
  have read := unpackNative_reads machine type (unsignedType machine.sizeof_bool)
    machine.sizeof_bool (flags.map fun flag => if flag then 1 else 0)
    (fun word => decide (word ≠ 0)) (fun value => decide (value ≠ 0)) (by rwa [length_map])
  have zero_one :
      ∀ flag : Bool, decide ((if flag then 1 else 0 : Word machine.sizeof_bool) ≠ 0) = flag := by
    intro flag
    cases machine.sizeof_bool <;> cases flag <;> rfl
  have decoded : ∀ flags : List Bool,
      (flags.map fun flag => (if flag then 1 else 0 : Word machine.sizeof_bool)).map
      (fun word => decide (word ≠ 0)) = flags := by
    intro flags
    rw [map_map]
    exact map_id'' zero_one flags
  rwa [length_map, decoded] at read

theorem unpackBlock_reads (countable : Countable bytes.length) :
    Reads (Typed type) (unpackBlock machine bytes.length) bytes bytes := by
  refine requireBytes_countable machine type _ countable Nat.one_pos (by omega) ?_
  exact takeBytes_reads type bytes

theorem ofBlock_text (text : CText) : CText.ofBlock (text.bytes ++ [0]) = text := by
  have nonzero : ∀ byte ∈ text.bytes, decide (byte ≠ 0) = true := by
    intro byte member
    have : byte ≠ 0 := fun zero => text.noZero (zero ▸ member)
    simpa using this
  simp only [CText.ofBlock, takeWhile_append_of_pos nonzero]
  simp

theorem count_toInt {count : Nat} (small : count < 2147483648) :
    (BitVec.ofNat 32 count).toInt = count := by
  have : (BitVec.ofNat 32 count).toNat = count := by
    rw [BitVec.toNat_ofNat]
    omega
  rw [BitVec.toInt_eq_toNat_of_lt (by omega), this]

theorem unpackText_reads (fits : TextFits text) (counted : len.toInt = (text.bytes ++ [0]).length) :
    Reads (Typed type) (unpackString machine) (encodeWord .four len ++ (text.bytes ++ [0]))
      (some text) := by
  have nonzero : len ≠ 0 := by
    rintro rfl
    simp at counted
    omega
  refine reads_bind (typed_stable type) (singleWord_reads machine type .four len) ?_
  rw [if_neg nonzero, counted]
  have read := reads_map (typed_stable type) (fun block => some (CText.ofBlock block))
    (unpackBlock_reads machine type (text.bytes ++ [0]) ⟨by simp, by rwa [length_append]⟩)
  rwa [ofBlock_text] at read

theorem unpackString_reads (string : Option CText) (fits : ∀ text ∈ string, TextFits text) :
    Reads (Typed type) (unpackString machine) (wireString string) string := by
  cases string with
  | none =>
    have read : Reads (Typed type) (unpackString machine) (wireString none ++ []) none :=
      reads_bind (typed_stable type) (singleWord_reads machine type .four 0) reads_pure
    rwa [append_nil] at read
  | some text =>
    refine unpackText_reads machine type (fits text rfl) ?_
    rw [length_append]
    exact count_toInt (fits text rfl)

theorem unpackByteObject_reads (fits : object.size.toInt.toNat = object.bytes.length) :
    Reads (Typed type) (unpackByteObject machine) (wireByteObject object) object := by
  refine reads_bind (typed_stable type) (singleWord_reads machine type .four object.size) ?_
  rcases Nat.eq_zero_or_pos object.bytes.length with none | some
  · rw [if_neg (by omega), eq_nil_of_length_eq_zero none]
    have same : (⟨object.size, []⟩ : ByteObject) = object := by
      rw [← eq_nil_of_length_eq_zero none]
    rw [same]
    exact reads_pure
  · have small : object.bytes.length < 2147483648 := by
      have : object.size.toInt < 2147483648 := object.size.toInt_lt
      omega
    have size : object.size.toInt = object.bytes.length := by omega
    rw [if_pos (by omega), size]
    exact reads_map (typed_stable type) (ByteObject.mk object.size)
      (unpackBlock_reads machine type _ ⟨some, small⟩)

theorem takeTimeval_reads :
    Reads (Typed type) (do let tv_sec ← takeWord .eight; return ⟨tv_sec, ← takeWord .eight⟩)
      (wireTimeval time) time := by
  have words : Reads (Typed type)
      (do let tv_sec ← takeWord .eight; return ⟨tv_sec, ← takeWord .eight⟩) _ time :=
    reads_bind (typed_stable type) (takeWord_reads type .eight time.tv_sec)
      (reads_map (typed_stable type) (Timeval.mk time.tv_sec)
        (takeWord_reads type .eight time.tv_usec))
  simpa [wireTimeval, wireWords] using words

theorem unpackTimeval_reads {time : Timeval} :
    Reads (Typed type) (unpackTimeval machine) (wireTimeval time) time :=
  requireBytes_countable machine type _ ⟨by decide, by decide⟩ (by decide)
    (wireWords_length .eight [time.tv_sec, time.tv_usec]).ge (takeTimeval_reads type)

theorem unpackName_reads (countable : Countable names.length) :
    Reads (Typed type) (opalDssUnpackName machine names.length)
      (wireScalar machine type .name names) names := by
  have jobids :=
    unpackWordsBuffer_reads machine type .uint32 .four (names.map ProcessName.jobid)
      (by rwa [length_map])
  have vpids :=
    unpackWordsBuffer_reads machine type .uint32 .four (names.map ProcessName.vpid)
      (by rwa [length_map])
  rw [length_map] at jobids vpids
  have zipped : List.zipWith ProcessName.mk (names.map ProcessName.jobid)
      (names.map ProcessName.vpid) = names := by
    rw [zipWith_map, zipWith_self]
    exact map_id' names
  unfold opalDssUnpackName
  refine reads_bind (typed_stable type) jobids ?_
  have read :=
    reads_map (typed_stable type) (List.zipWith ProcessName.mk (names.map ProcessName.jobid)) vpids
  rwa [zipped] at read

theorem unpackScalar_reads {values : List (ScalarValue machine scalar)}
    (roundTrip : RoundTripScalar scalar) (countable : Countable values.length)
    (fits : ∀ value ∈ values, ScalarFits machine scalar value) :
    Reads (Typed type) (unpackScalar machine scalar values.length)
      (wireScalar machine type scalar values) values := by
  cases scalar with
  | byte | int8 | uint8 => exact unpackWords_reads machine type .one values countable
  | int16 | uint16 => exact unpackWords_reads machine type .two values countable
  | int32 | uint32 => exact unpackWords_reads machine type .four values countable
  | int64 | uint64 => exact unpackWords_reads machine type .eight values countable
  | bool => exact unpackBool_reads machine type countable
  | int | uint | size | pid => exact unpackNative_keeps machine type _ _ values _ countable
  | string =>
    exact reads_repeated (typed_stable type) fun string member =>
      unpackString_reads machine type string (fits string member)
  | float => exact absurd rfl roundTrip.1
  | double => exact absurd rfl roundTrip.2
  | timeval =>
    refine requireBytes_countable machine type _ countable (by decide) ?_ ?_
    · simp [wireScalar, length_flatMap, wireTimeval, wireWords_length, Width.bytes]
    · rw [Int.toNat_natCast]
      exact reads_repeated (typed_stable type) fun time _ => unpackTimeval_reads machine type
  | byteObject =>
    exact reads_repeated (typed_stable type) fun object member =>
      unpackByteObject_reads machine type (byteObject_counted machine (fits object member))
  | name => exact unpackName_reads machine type countable

theorem unpackScalarBuffer_reads (values : List (ScalarValue machine scalar))
    (roundTrip : RoundTripScalar scalar) (countable : Countable values.length)
    (fits : ∀ value ∈ values, ScalarFits machine scalar value) :
    Reads (Typed type) (unpackScalarBuffer machine scalar values.length)
      (wireScalarBuffer machine type scalar values)
      values :=
  reads_bind (typed_stable type) (checkType_reads machine type)
    (unpackScalar_reads machine type scalar roundTrip countable fits)

def header (count : Word .four) : List UInt8 :=
  tag type ScalarType.int32.code ++ encodeWord .four count

theorem unpackCount_reads (count : Word .four) :
    Reads (Typed type) (unpackCount machine) (header type count) count.toInt := by
  have counted :=
    reads_map (typed_stable type) BitVec.toInt (singleWord_reads machine type .four count)
  exact reads_bind (typed_stable type) (expectType_reads machine type _ _) counted

end Unpacking

section Nested

variable (type : BufferType)

def wireValueData : ValueData machine → List UInt8
  | .scalar .byteObject object => wireByteObject object
  | .scalar scalar value => wireScalarBuffer machine type scalar [value]
  | .ptr => []
  | .array scalar _ size values =>
    wireScalarBuffer machine type .int32 [size] ++ wireScalarBuffer machine type scalar values
  | .unsupported _ => []

def wireValue (value : OpalValue machine) : List UInt8 :=
  wireString value.key ++
    ((tag type ScalarType.uint8.code ++ wireWords .one [valueCode value.data]) ++
      wireValueData machine type value.data)

/-- A nested value that comes back: its key fits, and it holds one scalar that fits. -/
def ValueFits (value : OpalValue machine) : Prop :=
  (∀ text ∈ value.key, TextFits text) ∧
    match value.data with
    | .scalar scalar held => RoundTripScalar scalar ∧ ScalarFits machine scalar held
    | _ => False

theorem packValueData_writes {scalar : ScalarType} {held : ScalarValue machine scalar}
    (fits : ScalarFits machine scalar held) :
    Writes appended (Ready type) (packValueData machine (.scalar scalar held))
      (wireValueData machine type (.scalar scalar held)) := by
  have tagged := packScalarBuffer_writes machine type scalar [held] (by simpa using fits)
  cases scalar with
  | byteObject => exact packByteObject_writes machine type (byteObject_counted machine fits)
  | _ => exact tagged

theorem unpackValueData_reads {scalar : ScalarType} {held : ScalarValue machine scalar}
    (roundTrip : RoundTripScalar scalar) (fits : ScalarFits machine scalar held) :
    Reads (Typed type) (unpackValueData machine scalar.code)
      (wireValueData machine type (.scalar scalar held))
      (.scalar scalar held) := by
  have tagged := reads_map (typed_stable type) (ValueData.scalar scalar) (single_reads type _ held
    (unpackScalarBuffer_reads machine type scalar [held] roundTrip one_countable
      (by simpa using fits)))
  unfold unpackValueData
  cases scalar with
  | byteObject =>
    exact reads_map (typed_stable type) (ValueData.scalar .byteObject)
      (unpackByteObject_reads machine type (byteObject_counted machine fits))
  | _ => exact tagged

theorem packValue_writes {value : OpalValue machine} (fits : ValueFits machine value) :
    Writes appended (Ready type) (packValue machine value) (wireValue machine type value) := by
  obtain ⟨key, data⟩ := value
  obtain ⟨keyFits, dataFits⟩ := fits
  cases data with
  | scalar =>
    exact writes_bind (packString_writes machine type keyFits)
      (writes_bind (packWordsBuffer_writes machine type .uint8 .one _)
        (packValueData_writes machine type dataFits.2))
  | ptr | array | unsupported => exact dataFits.elim

theorem unpackValue_reads {value : OpalValue machine} (fits : ValueFits machine value) :
    Reads (Typed type) (unpackValue machine) (wireValue machine type value) value := by
  obtain ⟨key, data⟩ := value
  obtain ⟨keyFits, dataFits⟩ := fits
  cases data with
  | scalar scalar =>
    refine reads_bind (typed_stable type) (unpackString_reads machine type key keyFits) ?_
    refine reads_bind (typed_stable type)
      (single_reads type _ _ (unpackWordsBuffer_reads machine type .uint8 .one [scalar.code]
        one_countable)) ?_
    exact reads_map (typed_stable type) (OpalValue.mk key)
      (unpackValueData_reads machine type dataFits.1 dataFits.2)
  | ptr | array | unsupported => exact dataFits.elim

end Nested

section Operations

variable (type : BufferType) (dataType : DataType)

def countWord (count : Nat) : Word .four := BitVec.ofNat 32 count

def wireOperation (count : Nat) (payload : List UInt8) : List UInt8 :=
  header type (countWord count) ++ (tag type dataType.code ++ payload)

variable {dataType}

theorem opalDssPack_writes
    (packs : Writes appended (Ready type) (packFunction machine dataType values) payload) :
    Writes appended (Ready type) (opalDssPack machine dataType values)
      (wireOperation type dataType values.length payload) := by
  have packsBuffer : Writes appended (Ready type) (opalDssPackBuffer machine dataType values) _ :=
    writes_bind (storeIfDescribed_writes machine type _) packs
  rw [wireOperation, header, append_assoc]
  exact writes_bind (storeIfDescribed_writes machine type _)
    (writes_bind (packWord_writes machine type .four (countWord values.length)) packsBuffer)

variable (dataType)

theorem opalDssUnpack_reads {count : Nat} (countable : Countable count)
    (unpacks : Reads (Typed type) (unpackFunction machine dataType count) payload results)
    (buffer : Buffer) (rest : List UInt8) (typed : Typed type buffer)
    (stream : unread buffer = wireOperation type dataType count payload ++ rest) :
    opalDssUnpack machine dataType count buffer =
      ⟨.ok (), count, results, advance (wireOperation type dataType count payload).length
        buffer⟩ := by
  have counted : (countWord count).toInt = count := count_toInt countable.small
  have some := countable.some
  have unpacksBuffer : Reads (Typed type) (opalDssUnpackBuffer machine dataType count) _ results :=
    reads_bind (typed_stable type) (checkType_reads machine type) unpacks
  rw [wireOperation, append_assoc] at stream
  have ranCount := unpackCount_reads machine type (countWord count) buffer _ typed stream
  have remaining : unread (advance (header type (countWord count)).length buffer) =
      (tag type dataType.code ++ payload) ++ rest := by
    rw [unread_advance, stream, drop_left]
  have ranBuffer := unpacksBuffer _ rest (typed_stable type _ _ typed) remaining
  rw [advance_add, ← length_append] at ranBuffer
  simp only [opalDssUnpack, ranCount, counted, min_self, ranBuffer]
  rw [if_neg (by omega), if_neg (by omega)]
  rfl

theorem contents_length {buffer : Buffer} (valid : buffer.Valid) :
    buffer.contents.length = buffer.pack_ptr := by
  have := valid.block
  have := valid.used
  have := valid.fits
  rw [Buffer.contents, length_take]
  omega

theorem drained_stream {program : Dss Unit} {bytes : List UInt8} (valid : buffer.Valid)
    (drained : buffer.unpack_ptr = buffer.pack_ptr)
    (packs : Writes appended (Ready buffer.type) program bytes) :
    ∃ packed, exec program buffer = (.ok (), packed) ∧ Typed buffer.type packed ∧
      unread packed = bytes ++ [] ∧
      (advance bytes.length packed).unpack_ptr = (advance bytes.length packed).pack_ptr := by
  obtain ⟨packed, ran, ready, contents, cursor, -⟩ := packs buffer ⟨valid, rfl⟩
  have start : packed.unpack_ptr = buffer.contents.length := by
    rw [cursor, drained, contents_length valid]
  refine ⟨packed, ran, ready_typed ready, ?_, ?_⟩
  · change packed.contents.drop packed.unpack_ptr = _
    rw [contents, start, drop_left, append_nil]
  · change packed.unpack_ptr + bytes.length = packed.pack_ptr
    rw [start, ← contents_length ready.1, contents, length_append]

end Operations

end Orcm.DssWire
