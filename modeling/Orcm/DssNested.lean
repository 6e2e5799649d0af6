import Orcm.DssSimilar
import Orcm.DssTransfer

/-!
A buffer packed as a value of type `OPAL_BUFFER`. The pack function copies the nested buffer from
its start to its write cursor. The receiver creates its buffer in its own default mode.
-/

namespace Orcm.DssNested

open Cursor SymbolStream DssTypes DssBuffer DssPack DssUnpack DssWire DssSimilar DssTransfer

variable (machine : Machine)

structure Call where
  type : DataType
  num_vals : Int

structure Answer where
  type : DataType
  result : Except Fault Unit
  num_vals : Int
  dest : List (Value machine type)

def answers : List Call → Buffer → List (Answer machine)
  | [], _ => []
  | call :: rest, buffer =>
    let unpacked := opalDssUnpack machine call.type call.num_vals buffer
    ⟨call.type, unpacked.result, unpacked.num_vals, unpacked.dest⟩ :: answers rest unpacked.buffer

def SameAnswers (left right : Buffer) : Prop :=
  ∀ calls, answers machine calls left = answers machine calls right

theorem unpackCount_small (ran : exec (unpackCount machine) buffer = (.ok local_num, after)) :
    local_num < 2147483648 := by
  obtain ⟨passed, middle, -, rest⟩ := (exec_bind_eq_ok ..).mp ran
  obtain ⟨count, last, -, done⟩ := (exec_bind_eq_ok ..).mp rest
  cases done
  exact word_toInt_lt

section Wide

variable {machine} (wide : machine.sizeof_size_t = .eight)
include wide

theorem unpackCount_agrees : Agrees Similar (unpackCount machine) :=
  agrees_bind (expectType_agrees wide) fun _ => map_agrees (singleWord_agrees wide)

theorem opalDssUnpack_similar (dataType : DataType) (num_vals : Int)
    (similar : Similar left right) :
    let unpackedLeft := opalDssUnpack machine dataType num_vals left
    let unpackedRight := opalDssUnpack machine dataType num_vals right
    unpackedLeft.result = unpackedRight.result ∧ unpackedLeft.num_vals = unpackedRight.num_vals ∧
      unpackedLeft.dest = unpackedRight.dest ∧
        Similar unpackedLeft.buffer unpackedRight.buffer := by
  simp only [opalDssUnpack]
  by_cases space : num_vals = 0
  · rw [if_pos space, if_pos space]
    exact ⟨rfl, rfl, rfl, similar⟩
  · rw [if_neg space, if_neg space]
    obtain ⟨outcome, after⟩ := unpackCount_agrees wide left right similar
    rcases countLeft : exec (unpackCount machine) left with ⟨fault | local_num, middleLeft⟩ <;>
      rcases countRight : exec (unpackCount machine) right with ⟨fault' | local_num',
        middleRight⟩ <;>
      rw [countLeft, countRight] at outcome after <;> cases outcome
    · exact ⟨rfl, rfl, rfl, after⟩
    · have small := unpackCount_small machine countLeft
      have agrees :
          Agrees Similar (opalDssUnpackBuffer machine dataType (min local_num num_vals)) :=
        opalDssUnpackBuffer_agrees wide (by omega)
      obtain ⟨outcome, final⟩ := agrees middleLeft middleRight after
      simp only
      rcases ranLeft : exec (opalDssUnpackBuffer machine dataType (min local_num num_vals))
        middleLeft with
        ⟨fault | dest, finalLeft⟩ <;>
        rcases ranRight : exec (opalDssUnpackBuffer machine dataType (min local_num num_vals))
          middleRight with
          ⟨fault' | dest', finalRight⟩ <;>
        rw [ranLeft, ranRight] at outcome final <;> cases outcome
      · exact ⟨rfl, rfl, rfl, final⟩
      · simp only
        split
        · exact ⟨rfl, rfl, rfl, final⟩
        · exact ⟨rfl, rfl, rfl, final⟩

theorem similar_sameAnswers (similar : Similar left right) : SameAnswers machine left right := by
  intro calls
  induction calls generalizing left right with
  | nil => rfl
  | cons call rest ih =>
    obtain ⟨result, num_vals, dest, after⟩ :=
      opalDssUnpack_similar wide call.type call.num_vals similar
    simp [answers, result, num_vals, dest, ih after]

end Wide

/-! A buffer with nothing left answers every call alike, in either mode. -/

theorem singleWord_exhausted {buffer : Buffer} (width : Width) (valid : buffer.Valid)
    (none : unread buffer = []) :
    exec (single (unpackWords machine width)) buffer =
      (.error (.error .unpackReadPastEndOfBuffer), buffer) := by
  have bounds := width_bytes_bounds width
  have short : opalDssTooSmall buffer (sizeT machine ((1 : Int) * width.bytes)) = true := by
    rw [tooSmall_iff valid, none, one_mul, sizeT_of_small machine (by omega)]
    exact bounds.1
  rw [single, exec_bind, unpackWords, exec_bind, requireBytes_eq, if_pos short]

theorem unpack_exhausted {buffer : Buffer} (dataType : DataType) (num_vals : Int)
    (valid : buffer.Valid) (none : unread buffer = []) :
    opalDssUnpack machine dataType num_vals buffer =
      ⟨.error (.error (if num_vals = 0 then .unpackInadequateSpace
        else .unpackReadPastEndOfBuffer)), 0, [], buffer⟩ := by
  have tag_read : exec (opalDssGetDataType machine) buffer = _ :=
    singleWord_exhausted machine .one valid none
  have count_read : exec (single (opalDssUnpackInt32 machine)) buffer = _ :=
    singleWord_exhausted machine .four valid none
  have tagged : exec (expectType machine ScalarType.int32.code .unpackFailure) buffer =
      (if buffer.type = .fullyDesc then .error (.error .unpackReadPastEndOfBuffer) else .ok (),
        buffer) := by
    change exec (if buffer.type = .fullyDesc then _ else pure ()) buffer = _
    split
    · rw [exec_bind, tag_read]
    · rfl
  have counted : exec (unpackCount machine) buffer =
      (.error (.error .unpackReadPastEndOfBuffer), buffer) := by
    by_cases described : buffer.type = .fullyDesc
    · rw [if_pos described] at tagged
      rw [unpackCount, exec_bind, tagged]
    · rw [if_neg described] at tagged
      rw [unpackCount, exec_bind_ok tagged, exec_bind, count_read]
  rw [opalDssUnpack, counted]
  split <;> rfl

theorem empty_sameAnswers {left right : Buffer} (leftValid : left.Valid) (rightValid : right.Valid)
    (leftNone : unread left = []) (rightNone : unread right = []) :
    SameAnswers machine left right := by
  intro calls
  induction calls with
  | nil => rfl
  | cons call rest ih =>
    rw [answers, answers, unpack_exhausted machine call.type call.num_vals leftValid leftNone,
      unpack_exhausted machine call.type call.num_vals rightValid rightNone]
    exact congrArg _ ih

def sourceAfterPack (source : Buffer) : Buffer :=
  if 0 < source.bytes_used then source else { source with based := false }

theorem sourceAfterPack_eq_iff {source : Buffer} :
    sourceAfterPack source = source ↔ 0 < source.bytes_used ∨ source.based = false := by
  unfold sourceAfterPack
  split
  · rename_i some
    exact iff_of_true rfl (.inl some)
  · rename_i none
    constructor
    · exact fun same => .inr (congrArg Buffer.based same).symm
    · intro block
      rw [← block.resolve_left none]

def wireBuffer (source : Buffer) : List UInt8 :=
  wireNative (unsignedType machine.sizeof_size_t) machine.sizeof_size_t
    [BitVec.ofNat _ source.bytes_used] ++
    source.contents

def received (source : Buffer) : Buffer where
  type := machine.default_buf_type
  based := decide (0 < source.bytes_used)
  memory := source.contents
  pack_ptr := source.bytes_used
  unpack_ptr := 0
  bytes_allocated := source.bytes_used
  bytes_used := source.bytes_used

variable (type : BufferType) (source : Buffer)

theorem packBufferContents_writes (valid : source.Valid) (small : source.bytes_used < 2147483648) :
    Writes appended (Ready type) (packBufferContents machine source)
      (wireBuffer machine source) := by
  refine writes_bind (packNative_writes machine type _) ?_
  by_cases some : 0 < source.bytes_used
  · rw [if_pos some, if_pos small, valid.used]
    exact appendBytes_writes
  · rw [if_neg some]
    have empty : source.contents = [] := by
      have := contents_length valid
      have := valid.used
      exact List.eq_nil_of_length_eq_zero (by omega)
    rw [empty]
    exact writes_pure

theorem unpackBufferContents_reads (valid : source.Valid) (small : source.bytes_used < 2147483648)
    (counted : source.bytes_used < 2 ^ machine.sizeof_size_t.bits) :
    Reads (Typed type) (unpackBufferContents machine) (wireBuffer machine source)
      (received machine source) := by
  have sized : source.contents.length = source.bytes_used :=
    (contents_length valid).trans valid.used.symm
  have nbytes :
      (BitVec.ofNat machine.sizeof_size_t.bits source.bytes_used).toNat = source.bytes_used := by
    rw [BitVec.toNat_ofNat, Nat.mod_eq_of_lt counted]
  refine reads_bind (typed_stable type)
    (single_reads type _ _ (unpackNative_keeps machine type _ _ [_]
      (BitVec.ofInt _) one_countable)) ?_
  simp only [nbytes]
  have int : CLibrary.toInt source.bytes_used = source.bytes_used :=
    CLibrary.toInt_of_nonneg (by omega) (by simp only [CLibrary.intMax]; omega)
  rw [int]
  split
  · rename_i some
    have block :=
      reads_map (typed_stable type) (fun bytes => (Buffer.mk machine.default_buf_type true
      (bytes ++ List.replicate (source.bytes_used - bytes.length) 0) source.bytes_used 0
        source.bytes_used
      source.bytes_used)) (unpackBlock_reads machine type source.contents ⟨by omega, by omega⟩)
    have whole : received machine source = Buffer.mk machine.default_buf_type true
        (source.contents ++ List.replicate (source.bytes_used - source.bytes_used) 0)
          source.bytes_used 0
        source.bytes_used source.bytes_used := by
      simp [received, some]
    rw [whole]
    rwa [sized] at block
  · rename_i none
    have empty : source.contents = [] := List.eq_nil_of_length_eq_zero (by omega)
    have zero : source.bytes_used = 0 := by omega
    have whole : received machine source = Buffer.empty machine.default_buf_type := by
      simp [received, Buffer.empty, zero, empty]
    rw [whole, empty]
    exact reads_pure

theorem received_valid (valid : source.Valid) : (received machine source).Valid := by
  have length := contents_length valid
  refine ⟨Nat.zero_le _, rfl, Nat.le_refl _, ?_, ?_⟩
  · exact length.trans valid.used.symm
  · intro null
    simpa [received] using null

theorem received_similar (valid : source.Valid) (mode : source.type = machine.default_buf_type) :
    Similar (received machine source) { source with unpack_ptr := 0 } where
  leftValid := received_valid machine source valid
  rightValid := ⟨Nat.zero_le _, valid.used, valid.fits, valid.block, valid.null⟩
  type := mode.symm
  stream := by
    change (source.contents.take source.bytes_used).drop 0 = source.contents.drop 0
    rw [List.take_of_length_le (by rw [contents_length valid, valid.used])]

/-- The buffer holds what remains to be read from the source, in the mode of the source if anything
remains. Where `size_t` has eight bytes, no sequence of unpack calls tells the two apart. -/
structure HoldsRemaining (inner source : Buffer) : Prop where
  contents : unread inner = unread source
  type : unread source = [] ∨ inner.type = source.type
  answers : machine.sizeof_size_t = .eight → SameAnswers machine inner source

theorem received_holdsRemaining_iff (valid : source.Valid) :
    HoldsRemaining machine (received machine source) source ↔
      source.unpack_ptr = 0 ∧ (source.type = machine.default_buf_type ∨ source.bytes_used = 0) := by
  have length := contents_length valid
  have used := valid.used
  have whole : unread (received machine source) = source.contents := by
    change (source.contents.take source.bytes_used).drop 0 = source.contents
    rw [List.drop_zero, List.take_of_length_le (by rw [length, used])]
  constructor
  · intro holds
    have same := congrArg List.length holds.contents
    rw [whole, unread_length valid] at same
    have := valid.ordered
    refine ⟨by omega, holds.type.symm.imp Eq.symm fun none => ?_⟩
    have := congrArg List.length none
    rw [unread_length valid, List.length_nil] at this
    omega
  · rintro ⟨unmoved, mode | empty⟩
    · have similar := received_similar machine source valid mode
      rw [← unmoved] at similar
      exact ⟨similar.stream, .inr mode.symm, fun wide => similar_sameAnswers wide similar⟩
    · have none : source.contents = [] := List.eq_nil_of_length_eq_zero (by omega)
      have source_none : unread source = [] := by
        change source.contents.drop source.unpack_ptr = []
        rw [none, List.drop_nil]
      refine ⟨by rw [whole, none, source_none], .inl source_none, fun _ => ?_⟩
      exact empty_sameAnswers machine (received_valid machine source valid) valid (whole.trans none)
        source_none

theorem nested_buffer_arrives (outerValid : outer.Valid) (sourceValid : source.Valid)
    (counted : source.bytes_used < 2 ^ machine.sizeof_size_t.bits)
    (small : source.bytes_used < 2147483648) :
    ∃ packed, exec (opalDssPack machine (.object .buffer) [source]) outer = (.ok (), packed) ∧
      Continued packed outer.pack_ptr { packed with unpack_ptr := outer.pack_ptr } ∧
      ∀ later, Continued packed outer.pack_ptr later →
        opalDssUnpack machine (.object .buffer) 1 later =
          ⟨.ok (), 1, [received machine source], { later with unpack_ptr := packed.pack_ptr }⟩ := by
  obtain ⟨payload, packs, unpacks⟩ : Transfers appended (Ready outer.type) (Typed outer.type)
      (packFunction machine (.object .buffer) [source])
        (unpackFunction machine (.object .buffer) (1 : Nat))
      [received machine source] :=
    transfers_forM (typed_stable outer.type) (packBufferContents machine)
      (unpackBufferContents machine)
      (received machine) [source] fun nested member => by
        rw [List.mem_singleton.mp member]
        exact ⟨_, packBufferContents_writes machine outer.type source sourceValid small,
          unpackBufferContents_reads machine outer.type source sourceValid small counted⟩
  obtain ⟨packed, ran, -, now, reads⟩ := continued_stream outerValid
    (opalDssPack_writes machine outer.type packs)
  refine ⟨packed, ran, now, fun later continued => ?_⟩
  obtain ⟨following, typed, stream, moved⟩ := reads later continued
  rw [← moved]
  exact opalDssUnpack_reads machine outer.type (.object .buffer) one_countable unpacks later
    following typed
    stream

theorem packed_buffer_small
    (ran : exec (opalDssPack machine (.object .buffer) [source]) outer = (.ok (), packed)) :
    source.bytes_used < 2147483648 := by
  -- past the two tags, the count and the size
  obtain ⟨_, _, _, counted⟩ := (exec_bind_eq_ok ..).mp ran
  obtain ⟨_, _, _, tagged⟩ := (exec_bind_eq_ok ..).mp counted
  obtain ⟨_, _, _, each⟩ := (exec_bind_eq_ok ..).mp tagged
  obtain ⟨_, _, first, _⟩ := (exec_bind_eq_ok ..).mp each
  obtain ⟨_, _, _, copied⟩ := (exec_bind_eq_ok ..).mp first
  by_contra large
  rw [if_pos (by omega), if_neg large] at copied
  cases copied

/-- A nested buffer is unchanged, and the receiver gets what remains to be read from it, exactly
when nothing has been read from it, it is in the receiver's default mode or empty, it has fewer than
2^31 bytes, and it has bytes or no block. -/
theorem nested_buffer_comes_back_iff (outer : Buffer) (outerValid : outer.Valid)
    (sourceValid : source.Valid) (counted : source.bytes_used < 2 ^ machine.sizeof_size_t.bits) :
    (∃ packed, exec (opalDssPack machine (.object .buffer) [source]) outer = (.ok (), packed) ∧
      sourceAfterPack source = source ∧
      ∀ later, Continued packed outer.pack_ptr later →
        ∃ inner, opalDssUnpack machine (.object .buffer) 1 later =
            ⟨.ok (), 1, [inner], { later with unpack_ptr := packed.pack_ptr }⟩ ∧
          HoldsRemaining machine inner source) ↔
      source.unpack_ptr = 0 ∧ (source.type = machine.default_buf_type ∨ source.bytes_used = 0) ∧
        source.bytes_used < 2147483648 ∧ (0 < source.bytes_used ∨ source.based = false) := by
  constructor
  · rintro ⟨packed, ran, same, reads⟩
    have small := packed_buffer_small machine source ran
    obtain ⟨arrived, ranToo, now, unpacks⟩ :=
      nested_buffer_arrives machine source outerValid sourceValid counted
      small
    obtain rfl : packed = arrived := congrArg Prod.snd (ran.symm.trans ranToo)
    obtain ⟨inner, unpacked, holds⟩ := reads _ now
    obtain rfl : inner = received machine source := by
      have dest := congrArg Unpacked.dest (unpacked.symm.trans (unpacks _ now))
      exact List.singleton_inj.mp dest
    obtain ⟨unmoved, mode⟩ := (received_holdsRemaining_iff machine source sourceValid).mp holds
    exact ⟨unmoved, mode, small, sourceAfterPack_eq_iff.mp same⟩
  · rintro ⟨unmoved, mode, small, block⟩
    obtain ⟨packed, ran, -, unpacks⟩ :=
      nested_buffer_arrives machine source outerValid sourceValid counted small
    refine ⟨packed, ran, sourceAfterPack_eq_iff.mpr block, fun later continued => ?_⟩
    exact ⟨_, unpacks later continued, (received_holdsRemaining_iff machine source sourceValid).mpr
      ⟨unmoved, mode⟩⟩

theorem nested_buffer_with_one_byte :
    ∃ packed,
      exec (opalDssPack .lp64 (.object .buffer) [⟨.nonDesc, true, [0, 0, 0, 1, 7], 5, 0, 5, 5⟩])
        (Buffer.empty .nonDesc) = (.ok (), packed) ∧
      sourceAfterPack ⟨.nonDesc, true, [0, 0, 0, 1, 7], 5, 0, 5, 5⟩ = ⟨.nonDesc, true,
        [0, 0, 0, 1, 7], 5, 0, 5, 5⟩ ∧
      ∀ later, Continued packed 0 later →
        ∃ inner, opalDssUnpack .lp64 (.object .buffer) 1 later =
            ⟨.ok (), 1, [inner], { later with unpack_ptr := packed.pack_ptr }⟩ ∧
          HoldsRemaining .lp64 inner ⟨.nonDesc, true, [0, 0, 0, 1, 7], 5, 0, 5, 5⟩ :=
  (nested_buffer_comes_back_iff .lp64 ⟨.nonDesc, true, [0, 0, 0, 1, 7], 5, 0, 5, 5⟩
    (Buffer.empty .nonDesc)
    empty_valid ⟨by decide, rfl, by decide, rfl, by decide⟩ (by decide)).mpr
    ⟨rfl, .inl rfl, by decide, .inl (by decide)⟩

def halfRead : Buffer :=
  let packed :=
    (exec (do opalDssPack .lp64 (.scalar .byte) [7]; opalDssPack .lp64 (.scalar .byte) [8])
    (Buffer.empty .nonDesc)).2
  (opalDssUnpack .lp64 (.scalar .byte) 1 packed).buffer

/-- The receiver unpacks the 7 again, although only the 8 remained. -/
theorem nested_buffer_repeats_what_was_read :
    let packed := exec (opalDssPack .lp64 (.object .buffer) [halfRead]) (Buffer.empty .nonDesc)
    let unpacked := opalDssUnpack .lp64 (.object .buffer) 1 packed.2
    packed.1 = .ok () ∧ unpacked.result = .ok () ∧
      (unpacked.dest.map fun inner => (opalDssUnpack .lp64 (.scalar .byte) 1 inner).dest) =
        [[(7 : Word .one)]] ∧
      (opalDssUnpack .lp64 (.scalar .byte) 1 halfRead).dest = [(8 : Word .one)] := by
  decide +kernel

end Orcm.DssNested
