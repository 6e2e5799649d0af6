import Orcm.DssWire

/-!
Native integers between machines of different widths. A receiver with another width casts every
element, which keeps the value modulo the width. A `pid_t` travels as an unsigned integer although
it is signed, an `unsigned int` travels as a signed one.
-/

namespace Orcm.DssWidth

open Cursor DssTypes DssBuffer DssPack DssUnpack DssWire

inductive Native where
  | int | uint | size | pid
  deriving DecidableEq, Repr

def Native.type : Native → ScalarType
  | .int => .int | .uint => .uint | .size => .size | .pid => .pid

def Native.width (machine : Machine) : Native → Width
  | .int | .uint => machine.sizeof_int
  | .size => machine.sizeof_size_t
  | .pid => machine.sizeof_pid_t

def Native.signed : Native → Bool
  | .int | .pid => true
  | .uint | .size => false

def Native.sentSigned : Native → Bool
  | .int | .uint => true
  | .size | .pid => false

def number (signed : Bool) {bits : Nat} (word : BitVec bits) : Int :=
  if signed then word.toInt else word.toNat

def Native.word (machine : Machine) :
    (native : Native) → ScalarValue machine native.type → Word (native.width machine)
  | .int, value => value
  | .uint, value => value
  | .size, value => value
  | .pid, value => value

def Native.meaning (machine : Machine) (native : Native) (value : ScalarValue machine native.type) :
    Int :=
  number native.signed (native.word machine value)

def Native.sent (machine : Machine) (native : Native) (value : ScalarValue machine native.type) :
    Int :=
  number native.sentSigned (native.word machine value)

def InRange (signed : Bool) (bits : Nat) (value : Int) : Prop :=
  if signed then -(2 ^ (bits - 1) : Int) ≤ value ∧ value < 2 ^ (bits - 1)
    else 0 ≤ value ∧ value < 2 ^ bits

/-- The receiver can hold the value, and where it has to widen it, the bytes sent stand for the same
number. -/
def Representable (sender receiver : Machine) (native : Native)
    (value : ScalarValue sender native.type) : Prop :=
  InRange native.signed (native.width receiver).bits (native.meaning sender value) ∧
    ((native.width sender).bits < (native.width receiver).bits →
      native.sent sender value = native.meaning sender value)

variable {bits : Nat} (signed : Bool)

theorem number_ofInt_eq_iff (positive : 0 < bits) (operand result : Int) :
    number signed (BitVec.ofInt bits operand) = result ↔
      InRange signed bits result ∧ (2 ^ bits : Int) ∣ result - operand := by
  have half : 2 ^ bits = 2 * 2 ^ (bits - 1) := by
    rw [← Nat.pow_succ']
    congr 1
    omega
  have modulus : ((2 ^ bits : Nat) : Int) = 2 ^ bits := by push_cast; rfl
  have halved : (2 ^ bits : Int) = 2 * 2 ^ (bits - 1) := by exact_mod_cast half
  have nonzero : 0 < 2 ^ bits := Nat.two_pow_pos bits
  cases signed with
  | true =>
    simp only [number, if_true, BitVec.toInt_ofInt]
    rw [Int.bmod_eq_iff nonzero, ← and_assoc]
    refine and_congr_left fun _ => ?_
    constructor <;> rintro ⟨lower, upper⟩ <;> constructor <;> omega
  | false =>
    simp only [number, InRange, Bool.false_eq_true, if_false, BitVec.toNat_ofInt]
    rw [Int.toNat_of_nonneg (Int.emod_nonneg _ (by omega)), Int.emod_eq_iff (by omega),
      Int.natAbs_natCast, modulus, and_assoc]

theorem number_sub_number {word : BitVec bits} :
    number first word - number second word = 0 ∨ number first word - number second word = 2 ^ bits ∨
      number first word - number second word = -(2 ^ bits : Int) := by
  have readings : word.toInt = word.toNat ∨ word.toInt = word.toNat - 2 ^ bits := by
    rw [word.toInt_eq_toNat_cond]
    split <;> simp
  cases first <;> cases second <;> simp only [number, Bool.false_eq_true, if_true, if_false] <;>
    omega

theorem modulus_dvd_iff
    (shape : difference = 0 ∨ difference = 2 ^ bits ∨ difference = -(2 ^ bits : Int)) :
    (2 ^ target : Int) ∣ difference ↔ (bits < target → difference = 0) := by
  rcases Nat.lt_or_ge bits target with wider | narrower
  · have larger : (2 ^ bits : Int) < 2 ^ target := pow_lt_pow_right₀ (by decide) wider
    have positive : (0 : Int) < 2 ^ bits := by positivity
    constructor
    · intro divides _
      refine Int.eq_zero_of_abs_lt_dvd divides ?_
      rw [abs_lt]
      omega
    · intro zero
      rw [zero wider]
      exact dvd_zero _
  · have divides : (2 ^ target : Int) ∣ 2 ^ bits := pow_dvd_pow 2 narrower
    refine iff_of_true ?_ fun wider => absurd wider (by omega)
    rcases shape with same | above | below
    · rw [same]
      exact dvd_zero _
    · rwa [above]
    · rw [below]
      exact Int.dvd_neg.mpr divides

theorem converted_eq_iff (positive : 0 < target) {word : BitVec bits} :
    number signed (BitVec.ofInt target (number sentSigned word)) = number signed word ↔
      InRange signed target (number signed word) ∧
        (bits < target → number sentSigned word = number signed word) := by
  rw [number_ofInt_eq_iff signed positive, modulus_dvd_iff number_sub_number]
  refine and_congr_right fun _ => forall_congr' fun _ => ?_
  rw [sub_eq_zero, eq_comm]

def sentType (signed : Bool) (width : Width) : ScalarType :=
  if signed then signedType width else unsignedType width

theorem sentType_code_injective
    (same : (sentType signed first).code = (sentType signed second).code) : first = second := by
  revert same
  cases signed <;> cases first <;> cases second <;> decide

theorem ofInt_number (word : BitVec bits) : BitVec.ofInt bits (number signed word) = word := by
  cases signed with
  | true => exact BitVec.ofInt_toInt
  | false => simp [number]

theorem unpackNative_converts (machine : Machine) (type : BufferType) (sent target : Width)
    (words : List (Word sent)) (countable : Countable words.length) :
    Reads (Typed type) (unpackNative machine (sentType signed target) target id
      (BitVec.ofInt _) words.length)
      (wireNative (sentType signed sent) sent words)
      (words.map fun word => BitVec.ofInt _ (number signed word)) := by
  by_cases same : sent = target
  · subst same
    have kept :=
      unpackNative_keeps machine type (sentType signed sent) sent words (BitVec.ofInt _) countable
    rwa [List.map_id'' (ofInt_number signed)]
  · have differs := fun equal => same (sentType_code_injective signed equal)
    cases signed with
    | true =>
      exact unpackNative_casts machine type _ target id (BitVec.ofInt _) (.signed sent) differs
        words countable
    | false =>
      exact unpackNative_casts machine type _ target id (BitVec.ofInt _) (.unsigned sent) differs
        words countable

theorem native_transfer {native : Native} {values : List (ScalarValue sender native.type)}
    (countable : Countable values.length) :
    ∃ payload results, Writes appended (Ready type)
      (packFunction sender (.scalar native.type) values) payload ∧
      Reads (Typed type) (unpackFunction receiver (.scalar native.type) values.length)
        payload results ∧
      results.map (native.meaning receiver) = values.map fun value =>
        number native.signed
          (BitVec.ofInt (native.width receiver).bits (native.sent sender value)) := by
  have converts :=
    unpackNative_converts native.sentSigned receiver type (native.width sender)
      (native.width receiver)
  cases native with
  | int | uint | size | pid =>
    exact ⟨_, _, packNative_writes sender type _, converts values countable, List.map_map⟩

def Faithful (sender receiver : Machine) (native : Native)
    (values : List (ScalarValue sender native.type)) (buffer : Buffer) : Prop :=
  ∀ packed, exec (opalDssPack sender (.scalar native.type) values) buffer = (.ok (), packed) →
    let unpacked := opalDssUnpack receiver (.scalar native.type) values.length packed
    unpacked.result = .ok () → unpacked.dest.map (native.meaning receiver) = values.map
      (native.meaning sender)

/-- Numbers arrive unchanged exactly when the receiver can represent all of them. -/
theorem faithful_iff (sender receiver : Machine) (native : Native)
    (values : List (ScalarValue sender native.type))
    (countable : Countable values.length) (buffer : Buffer) (valid : buffer.Valid)
    (drained : buffer.unpack_ptr = buffer.pack_ptr) :
    Faithful sender receiver native values buffer ↔
      ∀ value ∈ values, Representable sender receiver native value := by
  obtain ⟨payload, results, packs, unpacks, received⟩ :=
    native_transfer countable
  obtain ⟨packed, ran, typed, stream, -⟩ := drained_stream valid drained
    (opalDssPack_writes sender buffer.type packs)
  have unpacked := opalDssUnpack_reads receiver buffer.type (.scalar native.type) countable
    unpacks packed [] typed stream
  have outcome : Faithful sender receiver native values buffer ↔
      results.map (native.meaning receiver) = values.map (native.meaning sender) := by
    constructor
    · intro faithful
      have same := faithful packed ran
      rw [unpacked] at same
      exact same rfl
    · intro same other otherRan
      obtain rfl : packed = other := congrArg Prod.snd (ran.symm.trans otherRan)
      rw [unpacked]
      exact fun _ => same
  have positive : 0 < (native.width receiver).bits := by
    cases native.width receiver <;> decide
  rw [outcome, received, List.map_inj_left]
  refine forall₂_congr fun value _ => ?_
  exact converted_eq_iff native.signed positive

theorem faithful_small_size :
    Faithful .lp64 .ilp32 .size [(7 : BitVec 64)] (Buffer.empty .nonDesc) ↔
    ∀ value ∈ [(7 : BitVec 64)], Representable .lp64 .ilp32 .size value :=
  faithful_iff .lp64 .ilp32 .size [(7 : BitVec 64)] one_countable _ empty_valid rfl

/-- A 64-bit sender packs the size `2 ^ 32`; a 32-bit receiver unpacks zero and reports success. -/
theorem size_arrives_as_zero :
    (∃ packed, exec (opalDssPack .lp64 (.scalar .size) [4294967296]) (Buffer.empty .nonDesc) =
      (.ok (), packed) ∧
      (opalDssUnpack .ilp32 (.scalar .size) 1 packed).result = .ok () ∧
      (opalDssUnpack .ilp32 (.scalar .size) 1 packed).dest = [0]) ∧
    ¬ Faithful .lp64 .ilp32 .size [(4294967296 : BitVec 64)] (Buffer.empty .nonDesc) := by
  refine ⟨⟨_, rfl, rfl, rfl⟩, fun faithful => ?_⟩
  exact absurd (faithful _ rfl rfl) (by decide)

end Orcm.DssWidth
