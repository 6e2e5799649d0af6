import Orcm.DssWire

/-!
What is packed can be unpacked: pack operations append their wire formats, and the same sequence of
unpack calls reads them back.
-/

namespace Orcm.DssRoundTrip

open Cursor SymbolStream DssTypes DssBuffer DssPack DssUnpack DssWire

variable (machine : Machine)

structure Operation where
  type : DataType
  values : List (Value machine type)

def RoundTripType : DataType → Prop
  | .scalar scalar => RoundTripScalar scalar
  | .object .time | .object .dataType | .object .value | .object .jobid | .object .vpid => True
  | .object _ | .unregistered _ _ => False

def Fits : (type : DataType) → Value machine type → Prop
  | .scalar scalar, value => ScalarFits machine scalar value
  | .object .value, value => ValueFits machine value
  | .object _, _ | .unregistered _ _, _ => True

structure Operation.Fits (operation : Operation machine) : Prop where
  type : RoundTripType operation.type
  count : Countable operation.values.length
  values : ∀ value ∈ operation.values, DssRoundTrip.Fits machine operation.type value

def packAll (operations : List (Operation machine)) : Dss Unit :=
  operations.forM fun operation => opalDssPack machine operation.type operation.values

/-- The same types and counts are unpacked in the same order; every call succeeds and returns the
values of its operation. -/
def UnpacksBack : List (Operation machine) → Buffer → Buffer → Prop
  | [], buffer, final => buffer = final
  | operation :: rest, buffer, final =>
    let unpacked := opalDssUnpack machine operation.type operation.values.length buffer
    unpacked.result = .ok () ∧ unpacked.num_vals = operation.values.length ∧
      unpacked.dest = operation.values ∧
      UnpacksBack rest unpacked.buffer final

variable (type : BufferType)

def Carried (dataType : DataType) (values : List (Value machine dataType)) (bytes : List UInt8) :
    Prop :=
  Writes appended (Ready type) (packFunction machine dataType values) bytes ∧
    Reads (Typed type) (unpackFunction machine dataType values.length) bytes values

variable {type}

theorem time_carried {times : List (Word .eight)} (countable : Countable times.length) :
    Carried machine type (.object .time) times (times.flatMap (encodeWord .eight)) := by
  refine ⟨writes_forM fun time _ => packWord_writes machine type .eight time, ?_⟩
  refine requireBytes_countable machine type _ countable (by decide) ?_ ?_
  · exact (wireWords_length .eight times).ge
  · rw [Int.toNat_natCast]
    exact reads_repeated (typed_stable type) fun time _ => singleWord_reads machine type .eight time

theorem value_carried (fits : ∀ value ∈ values, ValueFits machine value) :
    Carried machine type (.object .value) values (values.flatMap (wireValue machine type)) :=
  ⟨writes_forM fun value member => packValue_writes machine type (fits value member),
    reads_repeated (typed_stable type) fun value member =>
      unpackValue_reads machine type (fits value member)⟩

theorem operation_carried (operation : Operation machine) (fits : operation.Fits) :
    ∃ bytes, Carried machine type operation.type operation.values bytes := by
  obtain ⟨dataType, values⟩ := operation
  obtain ⟨roundTrip, countable, contents⟩ := fits
  cases dataType with
  | scalar scalar =>
    exact ⟨_, packScalar_writes machine type scalar contents,
      unpackScalar_reads machine type scalar roundTrip countable contents⟩
  | object object =>
    cases object with
    | time => exact ⟨_, time_carried machine countable⟩
    | dataType => exact ⟨_, packWordsBuffer_writes machine type .uint8 .one values,
        unpackWordsBuffer_reads machine type .uint8 .one values countable⟩
    | value => exact ⟨_, value_carried machine contents⟩
    | jobid | vpid => exact ⟨_, packWordsBuffer_writes machine type .uint32 .four values,
        unpackWordsBuffer_reads machine type .uint32 .four values countable⟩
    | null | pstat | nodeStat | buffer => exact roundTrip.elim
  | unregistered => exact roundTrip.elim

theorem operation_round_trip {operation : Operation machine} (fits : operation.Fits) :
    ∃ bytes, Writes appended (Ready type) (opalDssPack machine operation.type operation.values)
      bytes ∧
      ∀ buffer rest, Typed type buffer → unread buffer = bytes ++ rest →
        opalDssUnpack machine operation.type operation.values.length buffer =
          ⟨.ok (), operation.values.length, operation.values, advance bytes.length buffer⟩ := by
  obtain ⟨payload, packs, unpacks⟩ := operation_carried machine operation fits
  exact ⟨_, opalDssPack_writes machine type packs,
    opalDssUnpack_reads machine type operation.type fits.count unpacks⟩

theorem operations_round_trip {operations : List (Operation machine)}
    (fits : ∀ operation ∈ operations, operation.Fits) :
    ∃ bytes, Writes appended (Ready type) (packAll machine operations) bytes ∧
      ∀ buffer rest, Typed type buffer → unread buffer = bytes ++ rest →
        UnpacksBack machine operations buffer (advance bytes.length buffer) := by
  induction operations with
  | nil => exact ⟨[], writes_pure, fun buffer _ _ _ => (advance_zero buffer).symm⟩
  | cons operation others ih =>
    rw [List.forall_mem_cons] at fits
    obtain ⟨front, packedFront, unpackedFront⟩ := operation_round_trip machine fits.1
    obtain ⟨back, packedBack, unpackedBack⟩ := ih fits.2
    refine ⟨front ++ back, writes_bind packedFront packedBack, ?_⟩
    intro buffer rest typed stream
    rw [List.append_assoc] at stream
    have remaining : unread (advance front.length buffer) = back ++ rest := by
      rw [unread_advance, stream, List.drop_left]
    have tail := unpackedBack _ rest (typed_stable type _ _ typed) remaining
    rw [advance_add, ← List.length_append] at tail
    simp only [UnpacksBack, unpackedFront buffer _ typed stream]
    exact ⟨trivial, trivial, trivial, tail⟩

/-- Whatever was packed into a drained buffer comes back, and the buffer is drained again. -/
theorem pack_unpack_round_trip (operations : List (Operation machine))
    (fits : ∀ operation ∈ operations, operation.Fits) (buffer : Buffer) (valid : buffer.Valid)
    (drained : buffer.unpack_ptr = buffer.pack_ptr) :
    ∃ packed final, exec (packAll machine operations) buffer = (.ok (), packed) ∧
      UnpacksBack machine operations packed final ∧ final.unpack_ptr = final.pack_ptr := by
  obtain ⟨bytes, packs, unpacks⟩ := operations_round_trip machine fits
  obtain ⟨packed, ran, typed, stream, finish⟩ := drained_stream valid drained packs
  exact ⟨packed, _, ran, unpacks packed [] typed stream, finish⟩

/-- A group of two strings, one of them `NULL`, and a nested value with a process name. -/
theorem pack_unpack_strings_and_value :
    ∃ packed final,
      exec (packAll .lp64 [⟨.scalar .string, [some ⟨[104, 105], by decide⟩, none]⟩,
        ⟨.object .value, [⟨none, .scalar .name ⟨1, 2⟩⟩]⟩]) (Buffer.empty .fullyDesc) =
          (.ok (), packed) ∧
      UnpacksBack .lp64 [⟨.scalar .string, [some ⟨[104, 105], by decide⟩, none]⟩,
        ⟨.object .value, [⟨none, .scalar .name ⟨1, 2⟩⟩]⟩] packed final ∧
      final.unpack_ptr = final.pack_ptr := by
  refine pack_unpack_round_trip .lp64 _ ?_ (Buffer.empty .fullyDesc) empty_valid rfl
  intro operation member
  rw [List.mem_cons, List.mem_singleton] at member
  rcases member with rfl | rfl
  · refine ⟨(by decide : RoundTripScalar .string), ⟨by decide, by decide⟩, ?_⟩
    simp [Fits, ScalarFits, TextFits]
  · refine ⟨trivial, one_countable, ?_⟩
    simp [Fits, ValueFits, ScalarFits, RoundTripScalar]

/-- An operation without values is packed, but no call can unpack zero values. -/
theorem pack_unpack_no_values :
    ∃ packed, exec (packAll .lp64 [⟨.scalar .int32, []⟩]) (Buffer.empty .fullyDesc) =
      (.ok (), packed) ∧
      ∀ final, ¬ UnpacksBack .lp64 [⟨.scalar .int32, []⟩] packed final := by
  refine ⟨_, rfl, ?_⟩
  rintro final ⟨result, -⟩
  cases result

end Orcm.DssRoundTrip
