import Orcm.DssPayload

/-!
Unpacking and peeking, in any order, from a buffer that was loaded with any bytes and from the
buffers found inside it. The bounds hold where `size_t` has eight bytes. In four, 2^30 elements of
four bytes need no bytes at all.
-/

namespace Orcm.CursorBounds

open Cursor DssTypes DssBuffer DssPack DssUnpack DssSimilar DssPayload

variable (machine : Machine)

/-- `opal_dss_peek` reads from a copy of the buffer. -/
def opalDssPeek (buffer : Buffer) : Except Fault (Word .one × Word .four) :=
  if buffer.bytes_used ≤ buffer.unpack_ptr then .error (.error .unpackReadPastEndOfBuffer)
  else if buffer.type ≠ .fullyDesc then .error (.error .unknownDataType)
  else
    (exec (do
      expectType machine ScalarType.int32.code .unpackFailure
      let num_vals ← single (opalDssUnpackInt32 machine)
      let type ← opalDssGetDataType machine
      pure (type, num_vals)) buffer).1

inductive Call where
  | unpack (type : DataType) (num_vals : Word .four)
  | unpackBuffer (type : DataType) (num_vals : Word .four)
  | peek
  | peekType

def Call.Answer : Call → Type
  | .unpack type _ => Except Fault Unit × Int × List (Value machine type)
  | .unpackBuffer type _ => Except Fault (List (Value machine type))
  | .peek => Except Fault (Word .one × Word .four)
  | .peekType => Except Fault (Word .one)

def perform : (call : Call) → Buffer → call.Answer machine × Buffer
  | .unpack type num_vals, buffer =>
    let done := opalDssUnpack machine type num_vals.toInt buffer
    ((done.result, done.num_vals, done.dest), done.buffer)
  | .unpackBuffer type num_vals, buffer =>
    exec (opalDssUnpackBuffer machine type num_vals.toInt) buffer
  | .peek, buffer => (opalDssPeek machine buffer, buffer)
  | .peekType, buffer => exec (opalDssPeekType machine) buffer

def nested : (call : Call) → call.Answer machine → List Buffer
  | .unpack (.object .buffer) _, (_, _, dest) => dest
  | .unpackBuffer (.object .buffer) _, .ok dest => dest
  | _, _ => []

def performAt (buffers : List Buffer) (step : Nat × Call) : List Buffer :=
  match buffers[step.1]? with
  | none => buffers
  | some buffer =>
    let done := perform machine step.2 buffer
    buffers.set step.1 done.2 ++ nested machine step.2 done.1

def run (calls : List (Nat × Call)) (buffers : List Buffer) : List Buffer :=
  calls.foldl (performAt machine) buffers

variable {buffer left right : Buffer}

section Wide

variable {machine} (wide : machine.sizeof_size_t = .eight)
include wide

theorem peek_similar (similar : Similar left right) :
    opalDssPeek machine left = opalDssPeek machine right := by
  unfold opalDssPeek
  rw [← similar.type, if_congr similar.exhausted rfl rfl]
  split
  · rfl
  · split
    · rfl
    · refine (agrees_bind (expectType_agrees wide) (fun _ => ?_) left right similar).1
      exact agrees_bind (singleWord_agrees wide) fun _ => map_agrees (singleWord_agrees wide)

theorem unpack_similar (similar : Similar left right) :
    (perform machine (.unpack type num_vals) left).1 =
      (perform machine (.unpack type num_vals) right).1 ∧
      Similar (perform machine (.unpack type num_vals) left).2
        (perform machine (.unpack type num_vals) right).2 := by
  obtain ⟨result, count, dest, after⟩ :=
    DssNested.opalDssUnpack_similar wide type num_vals.toInt similar
  exact ⟨Prod.ext result (Prod.ext count dest), after⟩

theorem perform_similar (similar : Similar left right) :
    (perform machine call left).1 = (perform machine call right).1 ∧
      Similar (perform machine call left).2 (perform machine call right).2 := by
  cases call with
  | unpack type num_vals => exact unpack_similar wide similar
  | unpackBuffer type num_vals =>
    exact opalDssUnpackBuffer_agrees wide word_toInt_lt left right similar
  | peek => exact ⟨peek_similar wide similar, similar⟩
  | peekType => exact peekType_agrees wide left right similar

end Wide

variable {machine}

theorem unpackBlock_returns :
    Returns (fun bytes => bytes.length ≤ len.toNat) (unpackBlock machine len) := by
  refine returns_next fun _ state bytes after taken => ?_
  cases taken
  exact List.length_take_le _ _

theorem bufferContents_returns : Returns Buffer.Valid (unpackBufferContents machine) := by
  refine returns_next fun nbytes => ?_
  split
  · refine returns_bind unpackBlock_returns fun bytes short => returns_pure ?_
    have cut : (CLibrary.toInt nbytes.toNat).toNat ≤ nbytes.toNat := by
      simp only [CLibrary.toInt, Int.bmod]
      split <;> omega
    generalize (CLibrary.toInt nbytes.toNat).toNat = m at short cut
    refine ⟨Nat.zero_le _, rfl, cut, ?_, by simp⟩
    simp only [List.length_append, List.length_replicate]
    omega
  · exact returns_pure empty_valid

theorem unpackBuffers_valid
    (ran : exec (opalDssUnpackBuffer machine (.object .buffer) num) buffer = (.ok dest, after)) :
    ∀ inner ∈ dest, inner.Valid :=
  (returns_next (fun _ => returns_repeated bufferContents_returns) buffer dest after ran).2

theorem opalDssUnpack_valid :
    ∀ inner ∈ (opalDssUnpack machine (.object .buffer) num_vals buffer).dest, inner.Valid := by
  unfold opalDssUnpack
  split
  · simp
  · rcases exec (unpackCount machine) buffer with ⟨fault | local_num, middle⟩
    · simp
    · dsimp only
      rcases ran : exec (opalDssUnpackBuffer machine (.object .buffer) (min local_num num_vals))
        middle with
        ⟨fault | dest, final⟩
      · simp
      · dsimp only
        split <;> exact unpackBuffers_valid ran

theorem nested_valid :
    ∀ inner ∈ nested machine call (perform machine call buffer).1, inner.Valid := by
  cases call with
  | peek => simp [nested]
  | peekType => simp [nested]
  | unpack type num_vals =>
    cases type with
    | object type =>
      cases type with
      | buffer => exact opalDssUnpack_valid
      | _ => simp [nested]
    | _ => simp [nested]
  | unpackBuffer type num_vals =>
    cases type with
    | object type =>
      cases type with
      | buffer =>
        rcases ran : perform machine (.unpackBuffer (.object .buffer) num_vals)
          buffer with ⟨fault | dest, after⟩
        · simp [nested]
        · exact unpackBuffers_valid ran
      | _ => simp [nested]
    | _ => simp [nested]

section Wide

variable (wide : machine.sizeof_size_t = .eight)
include wide

theorem performAt_valid (valid : ∀ buffer ∈ buffers, buffer.Valid) :
    ∀ buffer ∈ performAt machine buffers step, buffer.Valid := by
  unfold performAt
  cases found : buffers[step.1]? with
  | none => exact valid
  | some buffer =>
    intro other member
    rcases List.mem_append.mp member with placed | inner
    · rcases List.mem_or_eq_of_mem_set placed with old | rfl
      · exact valid other old
      · exact (perform_similar wide
          (similar_self (valid buffer (List.mem_of_getElem? found)))).2.leftValid
    · exact nested_valid other inner

theorem run_valid (valid : ∀ buffer ∈ buffers, buffer.Valid) :
    ∀ buffer ∈ run machine calls buffers, buffer.Valid := by
  induction calls generalizing buffers with
  | nil => exact valid
  | cons step rest ih => exact ih (performAt_valid wide valid)

end Wide

/-- The bytes up to the write cursor, in a block that has any others behind them. -/
def followedBy (buffer : Buffer) (behind : List UInt8) : Buffer :=
  { buffer with based := true, memory := buffer.contents ++ behind,
                bytes_allocated := buffer.pack_ptr + behind.length }

theorem followedBy_similar (valid : buffer.Valid) :
    Similar (followedBy buffer behind) buffer := by
  obtain ⟨ordered, used, fits, block, null⟩ := valid
  have front : buffer.contents.length = buffer.pack_ptr := by
    rw [Buffer.contents, List.length_take]
    omega
  refine ⟨⟨ordered, used, ?_, ?_, by simp [followedBy]⟩, ⟨ordered, used, fits, block, null⟩,
    rfl, ?_⟩
  · simp [followedBy, used]
  · simp [followedBy, front]
  · change ((buffer.contents ++ behind).take buffer.pack_ptr).drop buffer.unpack_ptr = _
    rw [List.take_left' front]
    rfl

/-- Whatever bytes were loaded and whatever was called before, on the buffer or on one found inside
it: the read cursor is not behind the write cursor, and no call answers differently for what stands
there. -/
theorem cursor_bounds (machine : Machine) (wide : machine.sizeof_size_t = .eight) (buffer : Buffer)
    (payload : Option (List UInt8)) (calls : List (Nat × Call)) :
    ∀ reached ∈ run machine calls [opalDssLoad buffer payload],
      reached.unpack_ptr ≤ reached.pack_ptr ∧ reached.pack_ptr ≤ reached.memory.length ∧
        ∀ call behind, (perform machine call (followedBy reached behind)).1 =
          (perform machine call reached).1 := by
  intro reached member
  have valid := run_valid wide (by simpa using opalDssLoad_valid buffer) reached member
  refine ⟨valid.ordered, ?_, fun call behind => ?_⟩
  · have := valid.used
    have := valid.fits
    have := valid.block
    omega
  · exact (perform_similar wide (followedBy_similar valid)).1

/-- A nested buffer with one byte, then a byte, then a count without its value. -/
def threeParts : List UInt8 :=
  [0, 0, 0, 1, 15, 0, 0, 0, 0, 0, 0, 0, 5, 0, 0, 0, 1, 9] ++ [0, 0, 0, 1, 7] ++ [0, 0, 0, 1]

def threeCalls : List (Nat × Call) :=
  [(0, .unpack (.object .buffer) 1), (0, .unpack (.scalar .byte) 1),
    (0, .unpack (.scalar .int32) 1), (1, .unpack (.scalar .byte) 1)]

/-- The nested buffer is unpacked and read to its end, the byte too, and the last call on the outer
buffer fails. -/
theorem cursor_bounds_three_parts :
    (run .lp64 threeCalls [opalDssLoad (.empty .nonDesc) (some threeParts)]).map
        (fun reached => (reached.unpack_ptr, reached.pack_ptr)) = [(27, 27), (5, 5)] ∧
      ∀ reached ∈ run .lp64 threeCalls [opalDssLoad (.empty .nonDesc) (some threeParts)],
        ∀ call behind, (perform .lp64 call (followedBy reached behind)).1 =
          (perform .lp64 call reached).1 := by
  refine ⟨by decide +kernel, fun reached member => ?_⟩
  exact (cursor_bounds .lp64 rfl (.empty .nonDesc) (some threeParts) threeCalls reached member).2.2

/-- A value with 2^30 array elements of four bytes, none of which is there. In a `size_t` of four
bytes the check asks for no bytes, and the first element is read behind the write cursor. -/
theorem narrow_array_escapes :
    ∃ reached ∈ run .ilp32 [(0, .unpack (.object .value) 1)]
        [opalDssLoad (.empty .nonDesc) (some [0, 0, 0, 1, 0, 0, 0, 0, 40, 64, 0, 0, 0])],
      reached.pack_ptr < reached.unpack_ptr := by
  decide +kernel

end Orcm.CursorBounds
