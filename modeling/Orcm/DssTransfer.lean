import Orcm.DssRoundTrip

/-!
Pairs of hand-written programs, one packing the fields of a record and one unpacking them. `Carries`
says that the second reads back what the first wrote, in either mode and wherever the bytes stand.
`ComesBack` says it of a buffer: unpacking from its old end returns the value and stops where the
packed bytes end, whatever has been packed behind them.
-/

namespace Orcm.DssTransfer

open Cursor SymbolStream DssTypes DssBuffer DssPack DssUnpack DssWire DssRoundTrip

variable {Element : Type}

def Carries (pack : Dss Unit) (unpack : Dss Element) (value : Element) : Prop :=
  ∀ type, Transfers appended (Ready type) (Typed type) pack unpack value

/-- The same buffer later: more may have been packed, and it has been read up to the given
position. -/
structure Continued (packed : Buffer) (position : Nat) (later : Buffer) : Prop where
  valid : later.Valid
  type : later.type = packed.type
  contents : packed.contents <+: later.contents
  cursor : later.unpack_ptr = position

def ComesBack (pack : Dss Unit) (unpack : Dss Element) (value : Element) : Prop :=
  ∀ buffer, buffer.Valid → ∃ packed, exec pack buffer = (.ok (), packed) ∧ packed.Valid ∧
    ∀ later, Continued packed buffer.pack_ptr later →
      exec unpack later = (.ok value, { later with unpack_ptr := packed.pack_ptr })

variable {pack : Dss Unit} {unpack : Dss Element} {value : Element}

theorem continued_stream (valid : buffer.Valid)
    (packs : Writes appended (Ready buffer.type) pack bytes) :
    ∃ packed, exec pack buffer = (.ok (), packed) ∧ packed.Valid ∧
      Continued packed buffer.pack_ptr { packed with unpack_ptr := buffer.pack_ptr } ∧
      ∀ later, Continued packed buffer.pack_ptr later → ∃ following, Typed buffer.type later ∧
        unread later = bytes ++ following ∧
          advance bytes.length later = { later with unpack_ptr := packed.pack_ptr } := by
  obtain ⟨packed, ran, ready, contents, -, type⟩ := packs buffer ⟨valid, rfl⟩
  have start := contents_length valid
  have finish : buffer.pack_ptr + bytes.length = packed.pack_ptr := by
    rw [← contents_length ready.1, contents, List.length_append, start]
  have whole : { packed with unpack_ptr := buffer.pack_ptr }.Valid :=
    ⟨finish ▸ Nat.le_add_right _ _, ready.1.used, ready.1.fits, ready.1.block, ready.1.null⟩
  refine ⟨packed, ran, ready.1, ⟨whole, rfl, List.prefix_rfl, rfl⟩, fun later continued => ?_⟩
  obtain ⟨following, whole⟩ := continued.contents
  refine ⟨following, ⟨continued.type.trans type, continued.valid.used⟩, ?_, ?_⟩
  · change later.contents.drop later.unpack_ptr = _
    rw [← whole, contents, continued.cursor, ← start, List.append_assoc, List.drop_left]
  · change { later with unpack_ptr := later.unpack_ptr + bytes.length } = _
    rw [continued.cursor, finish]

theorem comesBack_of_carries (carries : Carries pack unpack value) :
    ComesBack pack unpack value := by
  intro buffer valid
  obtain ⟨bytes, packs, unpacks⟩ := carries buffer.type
  obtain ⟨packed, ran, packedValid, -, reads⟩ := continued_stream valid packs
  refine ⟨packed, ran, packedValid, fun later continued => ?_⟩
  obtain ⟨following, typed, stream, moved⟩ := reads later continued
  rw [unpacks later following typed stream, moved]

theorem carries_pure : Carries (pure ()) (pure value) value := fun _ => transfers_pure

theorem carries_bind (first : Carries pack unpack value)
    (second : Carries later (next value) result) :
    Carries (do pack; later) (unpack >>= next) result :=
  fun type => transfers_bind (typed_stable type) (first type) (second type)

theorem carries_finish {next : Element → Dss Next} (first : Carries pack unpack value)
    (finish : next value = pure result) :
    Carries pack (unpack >>= next) result := by
  have second : Carries (pure ()) (next value) result := by
    rw [finish]
    exact carries_pure
  have carried := carries_bind first second
  rwa [bind_pure_unit] at carried

theorem carries_map (convert : Element → Next) (first : Carries pack unpack value) :
    Carries pack (do let result ← unpack; pure (convert result)) (convert value) :=
  carries_finish first rfl

variable {values : List Element}

theorem carries_forM (pack : Element → Dss Unit) (unpack : Dss Next) (convert : Element → Next)
    (each : ∀ value ∈ values, Carries (pack value) unpack (convert value)) :
    Carries (values.forM pack) (repeated unpack values.length) (values.map convert) :=
  fun type => transfers_forM (typed_stable type) pack unpack convert values fun value member =>
    each value member type

variable (machine : Machine)

theorem group_carries (dataType : DataType) (values : List (Value machine dataType))
    (roundTrip : RoundTripType dataType)
    (countable : Countable values.length) (fits : ∀ value ∈ values, Fits machine dataType value) :
    Carries (opalDssPackBuffer machine dataType values)
      (opalDssUnpackBuffer machine dataType values.length) values := by
  intro type
  obtain ⟨bytes, packs, unpacks⟩ :=
    operation_carried machine ⟨dataType, values⟩ ⟨roundTrip, countable, fits⟩
  exact ⟨_, writes_bind (storeIfDescribed_writes machine type dataType.code) packs,
    reads_bind (typed_stable type) (checkType_reads machine type) unpacks⟩

variable {machine}

theorem field_carries (dataType : DataType) (value : Value machine dataType)
    (roundTrip : RoundTripType dataType) (fits : Fits machine dataType value) :
    Carries (opalDssPackBuffer machine dataType [value])
      (single (opalDssUnpackBuffer machine dataType)) value := by
  intro type
  obtain ⟨bytes, packs, unpacks⟩ :=
    group_carries machine dataType [value] roundTrip one_countable (by simpa using fits) type
  exact ⟨bytes, packs, single_reads type _ value unpacks⟩

theorem scalar_carries (scalar : ScalarType) (value : ScalarValue machine scalar)
    (roundTrip : RoundTripScalar scalar) (fits : ScalarFits machine scalar value) :
    Carries (packScalarBuffer machine scalar [value])
      (single (unpackScalarBuffer machine scalar)) value :=
  field_carries (.scalar scalar) value roundTrip fits

/-! Strings and argument vectors that fit: their lengths can be counted by an `int32_t`. A `NULL`
vector and one without arguments are kept apart. -/

def TextsFit (string : Option CText) : Prop := ∀ text ∈ string, TextFits text

abbrev Argv := Option (List CText)

structure ArgvFits (argv : Argv) : Prop where
  count : (argv.getD []).length < 2147483648
  texts : ∀ text ∈ argv.getD [], TextFits text

/-- Receivers allocate a vector only for its first argument. -/
def argvOf (texts : List CText) : Argv := if texts = [] then none else some texts

theorem argvOf_getD (filled : argv ≠ some []) : argvOf (argv.getD []) = argv := by
  cases argv with
  | none => rfl
  | some => exact if_neg fun empty => filled (congrArg some empty)

variable (machine)

theorem string_carries (string : Option CText) (fits : TextsFit string) :
    Carries (packScalarBuffer machine .string [string])
      (single (unpackScalarBuffer machine .string)) string :=
  scalar_carries .string string (by decide) fits

/-! Types that other layers register with the data support service. -/

/-- `opal_dss_pack_buffer` for a registered type with the given code and pack function. -/
def packTyped (code : Word .one) (pack : Dss Unit) : Dss Unit := do
  storeIfDescribed machine code
  pack

def unpackTyped (code : Word .one) (unpack : Dss Element) : Dss Element := do
  checkType machine code
  unpack

theorem typed_carries (code : Word .one) (carries : Carries pack unpack value) :
    Carries (packTyped machine code pack) (unpackTyped machine code unpack) value := by
  intro type
  obtain ⟨bytes, packs, unpacks⟩ := carries type
  exact ⟨_, writes_bind (storeIfDescribed_writes machine type code) packs,
    reads_bind (typed_stable type) (checkType_reads machine type) unpacks⟩

variable (values)

/-! Lists that are sent as the number of their elements, then one element after the other. -/

def packCounted (packCount : Word .four → Dss Unit) (pack : Element → Dss Unit)
    (values : List Element) : Dss Unit := do
  packCount (countWord values.length)
  values.forM pack

def unpackCounted (unpackCount : Dss (Word .four)) (unpack : Dss Element) : Dss (List Element) := do
  let count ← unpackCount
  repeated unpack count.toInt.toNat

theorem counted_carries {unpackCount : Dss (Word .four)}
    {pack : Element → Dss Unit} {unpack : Dss Next} (convert : Element → Next)
    (small : values.length < 2147483648)
    (counts : ∀ word, Carries (packCount word) unpackCount word)
    (each : ∀ value ∈ values, Carries (pack value) unpack (convert value)) :
    Carries (packCounted packCount pack values) (unpackCounted unpackCount unpack)
      (values.map convert) := by
  have counted : (countWord values.length).toInt = values.length := count_toInt small
  refine carries_bind (counts _) ?_
  rw [counted]
  exact carries_forM pack unpack convert each

/-- Elements that are counted in an `int` first: more of them than it can hold are undefined. -/
def requireCountable (values : List Element) : Dss Unit :=
  if values.length < 2147483648 then pure () else throw .undefined

variable {values}

theorem countable_carries (small : values.length < 2147483648) {unpack : Dss Next} {result : Next}
    (carries : Carries pack unpack result) :
    Carries (do requireCountable values; pack) unpack result := by
  rw [requireCountable, if_pos small]
  exact carries

/-! The other direction: what a record that comes back must be like. -/

variable {machine} {accepted : Element → Prop}

section

variable (comesBack : ComesBack pack unpack value)
include comesBack

theorem comesBack_run :
    ∃ packed, exec pack (Buffer.empty .nonDesc) = (.ok (), packed) ∧
      exec unpack { packed with unpack_ptr := 0 } =
        (.ok value, { packed with unpack_ptr := packed.pack_ptr }) := by
  obtain ⟨packed, ran, valid, reads⟩ := comesBack (Buffer.empty .nonDesc) empty_valid
  have whole : { packed with unpack_ptr := 0 }.Valid :=
    ⟨Nat.zero_le _, valid.used, valid.fits, valid.block, valid.null⟩
  exact ⟨packed, ran, reads { packed with unpack_ptr := 0 } ⟨whole, rfl, List.prefix_rfl, rfl⟩⟩

theorem comesBack_needs (needs : Returns (fun _ => condition) pack) : condition := by
  obtain ⟨packed, ran, -⟩ := comesBack_run comesBack
  exact needs _ _ _ ran

theorem comesBack_returns (returns : Returns accepted unpack) : accepted value := by
  obtain ⟨packed, -, ran⟩ := comesBack_run comesBack
  exact returns _ _ _ ran

theorem comesBack_unique (carries : Carries pack unpack other) : value = other := by
  obtain ⟨packed, ran, unpacks⟩ := comesBack_run comesBack
  obtain ⟨carried, ranToo, unpacksOther⟩ :=
    comesBack_run (comesBack_of_carries carries)
  obtain rfl : packed = carried := congrArg Prod.snd (ran.symm.trans ranToo)
  exact Except.ok.inj (congrArg Prod.fst (unpacks.symm.trans unpacksOther))

end

theorem packString_needs (string : Option CText) :
    Returns (fun _ => TextsFit string) (packString machine string) := by
  cases string with
  | none => exact fun _ _ _ _ text member => absurd member (by simp)
  | some text =>
    rw [packString]
    split
    · rename_i fits
      rintro _ _ _ _ _ ⟨⟩
      exact fits
    · exact returns_throw

theorem strings_need (strings : List (Option CText)) :
    Returns (fun _ => ∀ string ∈ strings, TextsFit string)
      (packScalarBuffer machine .string strings) :=
  returns_next fun _ => returns_forM TextsFit (packString machine) strings packString_needs

theorem string_needs (string : Option CText) :
    Returns (fun _ => TextsFit string) (packScalarBuffer machine .string [string]) :=
  fun state result after ran => strings_need [string] state result after ran string
    List.mem_cons_self

variable (values)

theorem counted_needs (packCount : Word .four → Dss Unit) {pack : Element → Dss Unit}
    (each : ∀ value, Returns (fun _ => accepted value) (pack value)) :
    Returns (fun _ => ∀ value ∈ values, accepted value) (packCounted packCount pack values) :=
  returns_next fun _ => returns_forM accepted pack values each

theorem counted_returns {unpackCount : Dss (Word .four)} (each : Returns accepted unpack) :
    Returns (fun values => values.length < 2147483648 ∧ ∀ value ∈ values, accepted value)
      (unpackCounted unpackCount unpack) := by
  refine returns_next fun count => ?_
  intro state values after ran
  obtain ⟨length, accepts⟩ := returns_repeated each state values after ran
  have small : count.toInt < 2147483648 := count.toInt_lt
  exact ⟨by omega, accepts⟩

end Orcm.DssTransfer
