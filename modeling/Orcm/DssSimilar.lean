import Orcm.DssUnpackCount

/-!
What an unpack call can see of a buffer. Two well-formed buffers of one mode with the same unread
bytes are similar, wherever their blocks begin and end. Counts are below 2^31, as `int32_t` makes
them, and `size_t` has eight bytes, so that the check in front of a group of elements does not wrap.
-/

namespace Orcm.DssSimilar

open Cursor SymbolStream DssTypes DssBuffer DssUnpack DssWire DssUnpackCount

variable {machine : Machine}

structure Similar (left right : Buffer) : Prop where
  leftValid : left.Valid
  rightValid : right.Valid
  type : left.type = right.type
  stream : unread left = unread right

theorem similar_self (valid : buffer.Valid) : Similar buffer buffer := ⟨valid, valid, rfl, rfl⟩

theorem advance_valid {buffer : Buffer} (valid : buffer.Valid)
    (inside : count ≤ (unread buffer).length) :
    (advance count buffer).Valid := by
  refine consumed_valid valid ⟨⟨_, (List.take_append_drop count _).symm⟩, ?_⟩
  rw [List.length_take, Nat.min_eq_left inside]

variable {left right : Buffer}

theorem advance_similar (similar : Similar left right) {count : Nat}
    (inside : count ≤ (unread left).length) :
    Similar (advance count left) (advance count right) where
  leftValid := advance_valid similar.leftValid inside
  rightValid := advance_valid similar.rightValid (similar.stream ▸ inside)
  type := similar.type
  stream := by rw [unread_advance, unread_advance, similar.stream]

theorem tooSmall_iff (valid : buffer.Valid) (bytes_reqd : Nat) :
    opalDssTooSmall buffer bytes_reqd = true ↔ (unread buffer).length < bytes_reqd := by
  have := valid.ordered
  rw [unread_length valid]
  simp only [opalDssTooSmall, Bool.or_eq_true, decide_eq_true_eq]
  omega

variable {scalar : ScalarType} {width : Width} (num : Int)

theorem requireBytes_eq (size : Nat) (buffer : Buffer) :
    exec (requireBytes machine num size) buffer =
      (if opalDssTooSmall buffer (sizeT machine (num * size)) then .error
        (.error .unpackReadPastEndOfBuffer) else .ok (), buffer) := by
  change exec (if opalDssTooSmall buffer (sizeT machine (num * size)) then throw _ else pure ())
    buffer = _
  split <;> rfl

theorem requireBytes_similar (machine : Machine) (size : Nat) (similar : Similar left right) :
    (exec (requireBytes machine num size) left).1 =
      (exec (requireBytes machine num size) right).1 := by
  have same : opalDssTooSmall left (sizeT machine (num * size)) = opalDssTooSmall right
      (sizeT machine (num * size)) := by
    rw [Bool.eq_iff_iff, tooSmall_iff similar.leftValid, tooSmall_iff similar.rightValid,
      similar.stream]
  rw [requireBytes_eq, requireBytes_eq, same]

variable {num}

theorem requireBytes_agrees {size : Nat} : Agrees Similar (requireBytes machine num size) := by
  intro left right similar
  refine ⟨requireBytes_similar num machine size similar, ?_⟩
  rw [requireBytes_eq, requireBytes_eq]
  exact similar

theorem reads_similar (value : Value) (reads : ∀ type, Reads (Typed type) program bytes value)
    (similar : Similar left right) (stream : unread left = bytes ++ rest) :
    (exec program left).1 = (exec program right).1 ∧
      Similar (exec program left).2 (exec program right).2 := by
  rw [reads left.type left rest ⟨rfl, similar.leftValid.used⟩ stream,
    reads right.type right rest ⟨rfl, similar.rightValid.used⟩ (similar.stream ▸ stream)]
  exact ⟨rfl, advance_similar similar (by rw [stream, List.length_append]; omega)⟩

theorem words_of_length (width : Width) (count : Nat) (bytes : List UInt8)
    (enough : count * width.bytes ≤ bytes.length) :
    ∃ words rest, words.length = count ∧ bytes = wireWords width words ++ rest := by
  induction count generalizing bytes with
  | zero => exact ⟨[], bytes, rfl, rfl⟩
  | succ count ih =>
    rw [Nat.succ_mul] at enough
    obtain ⟨words, rest, counted, split⟩ :=
      ih (bytes.drop width.bytes) (by rw [List.length_drop]; omega)
    refine ⟨decodeWord width (bytes.take width.bytes) :: words, rest, by simp [counted], ?_⟩
    rw [wireWords, List.flatMap_cons,
      encodeWord_decodeWord width _ (by rw [List.length_take]; omega),
      List.append_assoc, show words.flatMap (encodeWord width) ++ rest = _ from split.symm,
        List.take_append_drop]

theorem takeWords_similar {count : Nat} (similar : Similar left right)
    (enough : count * width.bytes ≤ (unread left).length) :
    (exec (repeated (takeWord width) count) left).1 =
      (exec (repeated (takeWord width) count) right).1 ∧
      Similar (exec (repeated (takeWord width) count) left).2
        (exec (repeated (takeWord width) count) right).2 := by
  obtain ⟨words, rest, rfl, stream⟩ := words_of_length width count _ enough
  exact reads_similar words (fun type => reads_repeated (typed_stable type) fun word _ =>
    takeWord_reads type width word) similar stream

theorem single_agrees (agrees : Agrees Similar (unpack 1)) :
    Agrees Similar (single unpack) :=
  agrees_bind agrees fun values => by
    cases values with
    | nil => exact agrees_throw
    | cons value => exact agrees_pure

theorem Similar.exhausted (similar : Similar left right) :
    right.bytes_used ≤ right.unpack_ptr ↔ left.bytes_used ≤ left.unpack_ptr := by
  have lengths := congrArg List.length similar.stream
  have := similar.leftValid.used
  have := similar.rightValid.used
  rw [unread_length similar.leftValid, unread_length similar.rightValid] at lengths
  omega

theorem map_agrees {convert : First → Value} (agrees : Agrees Similar program) :
    Agrees Similar (do let value ← program; pure (convert value)) :=
  agrees_bind agrees fun _ => agrees_pure

theorem word_toInt_lt {word : Word .four} : word.toInt < 2147483648 := BitVec.toInt_lt

theorem checked_agrees (size : Nat) (agrees : Agrees Similar program) :
    Agrees Similar (do requireBytes machine num size; repeated program num.toNat) :=
  agrees_bind requireBytes_agrees fun _ => agrees_repeated agrees _

section Wide

variable (wide : machine.sizeof_size_t = .eight)
include wide

theorem requireBytes_then_agrees (size : Nat) (small : num * size < 18446744073709551616)
    (inside : ∀ left right, Similar left right → (num * size).toNat ≤ (unread left).length →
      (exec next left).1 = (exec next right).1 ∧ Similar (exec next left).2 (exec next right).2) :
    Agrees Similar (do requireBytes machine num size; next) := by
  intro left right similar
  have same := requireBytes_similar num machine size similar
  simp only [exec_bind, requireBytes_eq] at same ⊢
  rw [← same]
  cases short : opalDssTooSmall left (sizeT machine (num * size)) with
  | true => exact ⟨rfl, similar⟩
  | false =>
    refine inside left right similar ?_
    have enough :=
      (tooSmall_iff similar.leftValid (sizeT machine (num * size))).not.mp (by simp [short])
    simp only [sizeT, wide, Width.bits] at enough
    omega

theorem unpackWords_agrees (small : num < 2147483648) :
    Agrees Similar (unpackWords machine width num) := by
  refine requireBytes_then_agrees wide width.bytes ?_ fun left right similar enough => ?_
  · cases width <;> simp only [Width.bytes] <;> omega
  · refine takeWords_similar similar ?_
    cases width <;> simp only [Width.bytes] at enough ⊢ <;> omega

theorem unpackBlock_agrees (small : len < 2147483648) :
    Agrees Similar (unpackBlock machine len) := by
  refine requireBytes_then_agrees wide 1 (by omega) fun left right similar enough => ?_
  have stream := (List.take_append_drop len.toNat (unread left)).symm
  have counted : ((unread left).take len.toNat).length = len.toNat := by
    rw [List.length_take]
    omega
  refine reads_similar ((unread left).take len.toNat) (fun type => ?_) similar stream
  have reads := takeBytes_reads type ((unread left).take len.toNat)
  rwa [counted] at reads

theorem unpackTimeval_agrees : Agrees Similar (unpackTimeval machine) := by
  refine requireBytes_then_agrees wide 8 (by decide) fun left right similar enough => ?_
  obtain ⟨words, rest, counted, stream⟩ := words_of_length .eight 2 _ enough
  obtain ⟨tv_sec, tv_usec, rfl⟩ := List.length_eq_two.mp counted
  exact reads_similar ⟨tv_sec, tv_usec⟩ (fun type => takeTimeval_reads type) similar stream

theorem singleWord_agrees : Agrees Similar (single (unpackWords machine width)) :=
  single_agrees (unpackWords_agrees wide (by decide))

theorem expectType_agrees : Agrees Similar (expectType machine code mismatch) := by
  intro left right similar
  change (exec (if left.type = .fullyDesc then _ else pure ()) left).1 =
    (exec (if right.type = .fullyDesc then _ else pure ()) right).1 ∧
    Similar (exec (if left.type = .fullyDesc then _ else pure ()) left).2
      (exec (if right.type = .fullyDesc then _ else pure ()) right).2
  rw [← similar.type]
  split
  · refine agrees_bind (singleWord_agrees wide) (fun found => ?_) left right similar
    split
    · exact agrees_throw
    · exact agrees_pure
  · exact agrees_pure left right similar

theorem peekType_agrees : Agrees Similar (opalDssPeekType machine) := by
  intro left right similar
  have peeks : ∀ buffer, exec (opalDssPeekType machine) buffer = exec (if buffer.type ≠ .fullyDesc
      then throw (.error .unknownDataType) else if buffer.bytes_used ≤ buffer.unpack_ptr
      then throw (.error .unpackReadPastEndOfBuffer) else do
        let code ← opalDssGetDataType machine
        set buffer
        pure code) buffer := fun _ => rfl
  rw [peeks, peeks, ← similar.type, if_congr similar.exhausted rfl rfl]
  split
  · exact ⟨rfl, similar⟩
  · split
    · exact ⟨rfl, similar⟩
    · have code_agrees : Agrees Similar (opalDssGetDataType machine) := singleWord_agrees wide
      obtain ⟨outcome, _, _, ranLeft, ranRight, after⟩ := code_agrees.outcomes similar
      rw [exec_bind, exec_bind, ranLeft, ranRight]
      cases outcome with
      | error => exact ⟨rfl, after⟩
      | ok => exact ⟨rfl, similar⟩

theorem remoteType_agrees : Agrees Similar (remoteType machine) := by
  intro left right similar
  change (exec (if left.type = .fullyDesc then opalDssPeekType machine
    else opalDssGetDataType machine) left).1 =
    (exec (if right.type = .fullyDesc then opalDssPeekType machine else opalDssGetDataType machine)
      right).1 ∧
    Similar (exec (if left.type = .fullyDesc then opalDssPeekType machine
      else opalDssGetDataType machine) left).2
      (exec (if right.type = .fullyDesc then opalDssPeekType machine
        else opalDssGetDataType machine) right).2
  rw [← similar.type]
  split
  · exact peekType_agrees wide left right similar
  · exact singleWord_agrees wide left right similar

theorem unpackWordsBuffer_agrees (small : num < 2147483648) :
    Agrees Similar (unpackWordsBuffer machine scalar width num) :=
  agrees_bind (expectType_agrees wide) fun _ => unpackWords_agrees wide small

theorem unpackNative_agrees (store : Word width → Element) (cast : Int → Element)
    (small : num < 2147483648) :
    Agrees Similar (unpackNative machine scalar width store cast num) := by
  refine agrees_bind (remoteType_agrees wide) fun code => ?_
  split
  · exact map_agrees (unpackWordsBuffer_agrees wide small)
  · cases Remote.ofCode code with
    | none => exact agrees_throw
    | some remote => exact map_agrees (unpackWordsBuffer_agrees wide small)

theorem unpackString_agrees : Agrees Similar (unpackString machine) := by
  refine agrees_bind (singleWord_agrees wide) fun len => ?_
  split
  · exact agrees_pure
  · split
    · exact agrees_throw
    · exact map_agrees (unpackBlock_agrees wide word_toInt_lt)

theorem unpackFloat_agrees : Agrees Similar (unpackFloat machine) := by
  refine agrees_bind (unpackString_agrees wide) fun text => ?_
  cases text with
  | none => exact agrees_throw
  | some text => exact agrees_pure

theorem unpackByteObject_agrees : Agrees Similar (unpackByteObject machine) := by
  refine agrees_bind (singleWord_agrees wide) fun size => ?_
  split
  · exact map_agrees (unpackBlock_agrees wide word_toInt_lt)
  · exact agrees_pure

theorem unpackName_agrees {num : Int} (small : num < 2147483648) :
    Agrees Similar (opalDssUnpackName machine num) := by
  unfold opalDssUnpackName
  split
  · exact agrees_throw
  · exact agrees_bind (unpackWordsBuffer_agrees wide small) fun _ =>
      map_agrees (unpackWordsBuffer_agrees wide small)

theorem unpackScalar_agrees (small : num < 2147483648) :
    Agrees Similar (unpackScalar machine scalar num) := by
  cases scalar with
  | byte | int8 | uint8 => exact unpackWords_agrees wide small
  | int16 | uint16 => exact unpackWords_agrees wide small
  | int32 | uint32 => exact unpackWords_agrees wide small
  | int64 | uint64 => exact unpackWords_agrees wide small
  | bool =>
    exact unpackNative_agrees wide
      (fun word => decide (word ≠ 0)) (fun value => decide (value ≠ 0)) small
  | int | uint =>
    exact unpackNative_agrees wide id (BitVec.ofInt _) small
  | size =>
    exact unpackNative_agrees wide id (BitVec.ofInt _) small
  | pid =>
    exact unpackNative_agrees wide id (BitVec.ofInt _) small
  | string => exact agrees_repeated (unpackString_agrees wide) num.toNat
  | float => exact checked_agrees 4 (unpackFloat_agrees wide)
  | double => exact checked_agrees 8 (unpackFloat_agrees wide)
  | timeval => exact checked_agrees 16 (unpackTimeval_agrees wide)
  | byteObject => exact agrees_repeated (unpackByteObject_agrees wide) num.toNat
  | name => exact unpackName_agrees wide small

theorem unpackScalarBuffer_agrees (small : num < 2147483648) :
    Agrees Similar (unpackScalarBuffer machine scalar num) :=
  agrees_bind (expectType_agrees wide) fun _ => unpackScalar_agrees wide small

theorem field_agrees : Agrees Similar (single (unpackScalarBuffer machine scalar)) :=
  single_agrees (unpackScalarBuffer_agrees wide (by decide))

theorem floatField_agrees : Agrees Similar (single (opalDssUnpackFloat machine)) :=
  single_agrees (checked_agrees 4 (unpackFloat_agrees wide))

theorem unpackNullWords_agrees {size : Int} (positive : 0 < size) (small : size < 2147483648) :
    Agrees Similar (unpackNullWords machine width size) := by
  refine requireBytes_then_agrees wide width.bytes ?_ fun left right similar enough => ?_
  · cases width <;> simp only [Width.bytes] <;> omega
  · have first : width.bytes ≤ (unread left).length := by
      cases width <;> simp only [Width.bytes] at enough ⊢ <;> omega
    obtain ⟨words, rest, counted, stream⟩ := words_of_length width 1 (unread left) (by omega)
    obtain ⟨word, rfl⟩ := List.length_eq_one_iff.mp counted
    rw [wireWords, List.flatMap_singleton] at stream
    have read := fun type =>
      reads_map (typed_stable type) (fun _ => ()) (takeWord_reads type width word)
    exact reads_similar () read similar stream

theorem unpackNullNative_agrees {size : Int} (positive : 0 < size) (small : size < 2147483648) :
    Agrees Similar (unpackNullNative machine scalar width size) := by
  refine agrees_bind (remoteType_agrees wide) fun code => ?_
  split
  · exact agrees_bind (expectType_agrees wide) fun _ => unpackNullWords_agrees wide positive small
  · split
    · exact agrees_throw
    · exact agrees_pure

theorem unpackNullData_agrees {size : Int} (positive : 0 < size) (small : size < 2147483648) :
    Agrees Similar (unpackNullData machine scalar size) := by
  cases scalar with
  | byte | int8 | uint8 | int16 | uint16 | int32 | uint32 | int64 | uint64 =>
    exact unpackNullWords_agrees wide positive small
  | bool | int | uint | size | pid => exact unpackNullNative_agrees wide positive small
  | string => exact map_agrees (singleWord_agrees wide)
  | float | double =>
    exact agrees_bind requireBytes_agrees fun _ => map_agrees (unpackFloat_agrees wide)
  | timeval => exact agrees_bind requireBytes_agrees fun _ => map_agrees (unpackTimeval_agrees wide)
  | byteObject | name => exact agrees_pure

theorem unpackValueData_agrees {code : Word .one} :
    Agrees Similar (unpackValueData machine code) := by
  unfold unpackValueData
  cases ValueKind.ofCode code with
  | unsupported => exact agrees_throw
  | array type =>
    refine agrees_bind (field_agrees wide) fun size => agrees_bind (expectType_agrees wide)
      fun _ => ?_
    split
    · exact map_agrees (unpackScalar_agrees wide word_toInt_lt)
    · rename_i positive
      exact agrees_bind (unpackNullData_agrees wide (not_le.mp positive) word_toInt_lt) fun _ =>
        agrees_throw
  | scalar type =>
    cases type with
    | byteObject => exact map_agrees (unpackByteObject_agrees wide)
    | _ => exact map_agrees (field_agrees wide)

theorem unpackValue_agrees : Agrees Similar (unpackValue machine) :=
  agrees_bind (unpackString_agrees wide) fun _ =>
    agrees_bind (single_agrees (unpackWordsBuffer_agrees wide (by decide))) fun code =>
      map_agrees (unpackValueData_agrees wide)

theorem unpackField_agrees : Agrees Similar (unpackField machine) := by
  refine agrees_bind (field_agrees wide) fun text => ?_
  cases text with
  | none => exact agrees_throw
  | some text =>
    change Agrees Similar (if text.bytes.length ≤ 32 then pure text
      else throw CLibrary.Fault.undefined)
    split
    · exact agrees_pure
    · exact agrees_throw

theorem unpackPstat_agrees : Agrees Similar (unpackPstat machine) := by
  unfold unpackPstat
  repeat' first
    | with_reducible exact agrees_pure
    | with_reducible refine agrees_bind (field_agrees wide) fun _ => ?_
    | with_reducible refine agrees_bind (unpackField_agrees wide) fun _ => ?_
    | with_reducible refine agrees_bind (floatField_agrees wide) fun _ => ?_

theorem unpackDiskStats_agrees : Agrees Similar (unpackDiskStats machine) := by
  unfold unpackDiskStats
  repeat' first
    | with_reducible exact agrees_pure
    | with_reducible refine agrees_bind (field_agrees wide) fun _ => ?_

theorem unpackNetStats_agrees : Agrees Similar (unpackNetStats machine) := by
  unfold unpackNetStats
  repeat' first
    | with_reducible exact agrees_pure
    | with_reducible refine agrees_bind (field_agrees wide) fun _ => ?_

theorem unpackNodeStat_agrees : Agrees Similar (unpackNodeStat machine) := by
  unfold unpackNodeStat
  repeat' first
    | with_reducible exact agrees_pure
    | with_reducible refine agrees_bind (field_agrees wide) fun _ => ?_
    | with_reducible refine agrees_bind (floatField_agrees wide) fun _ => ?_
    | with_reducible refine agrees_bind (agrees_repeated (unpackDiskStats_agrees wide) _) fun _ =>
      ?_
    | with_reducible refine agrees_bind (agrees_repeated (unpackNetStats_agrees wide) _) fun _ => ?_

theorem unpackBufferContents_agrees : Agrees Similar (unpackBufferContents machine) := by
  refine agrees_bind (single_agrees (unpackNative_agrees wide _ _ (by decide))) fun nbytes => ?_
  have small : CLibrary.toInt nbytes.toNat < 2147483648 := by
    have := (CLibrary.toInt_bounds nbytes.toNat).2
    simp only [CLibrary.intMax] at this
    omega
  split
  · exact map_agrees (unpackBlock_agrees wide small)
  · exact agrees_pure

theorem unpackFunction_agrees (small : num < 2147483648) :
    Agrees Similar (unpackFunction machine dataType num) := by
  cases dataType with
  | scalar scalar => exact unpackScalar_agrees wide small
  | unregistered => exact agrees_throw
  | object object =>
    cases object with
    | time => exact checked_agrees 8 (singleWord_agrees wide)
    | dataType => exact unpackWordsBuffer_agrees wide small
    | jobid | vpid => exact unpackWordsBuffer_agrees wide small
    | null => exact unpackWords_agrees wide small
    | pstat => exact agrees_repeated (unpackPstat_agrees wide) num.toNat
    | nodeStat => exact agrees_repeated (unpackNodeStat_agrees wide) num.toNat
    | value => exact agrees_repeated (unpackValue_agrees wide) num.toNat
    | buffer => exact agrees_repeated (unpackBufferContents_agrees wide) num.toNat

theorem opalDssUnpackBuffer_agrees (small : num < 2147483648) :
    Agrees Similar (opalDssUnpackBuffer machine dataType num) :=
  agrees_bind (expectType_agrees wide) fun _ => unpackFunction_agrees wide small

end Wide

end Orcm.DssSimilar
