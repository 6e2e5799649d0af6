import Orcm.Attributes
import Orcm.DssTransfer

/-!
`orte_dt_pack_attr` and `orte_dt_unpack_attr` of `orte/runtime/data_type_support`. Pointers are
skipped when packing, and unpacking has no case for them. The flag `local` is not sent.
-/

namespace Orcm.AttributeCodec

open Cursor DssTypes DssBuffer DssPack DssUnpack DssWire DssTransfer Attributes

/-- `%f` and `strtof`. -/
structure FloatText where
  print : Word .four → CText
  parse : CText → Word .four
  short : ∀ word, TextFits (print word)

/-- The coarsest format, in which only zero survives. -/
def FloatText.zero : FloatText :=
  ⟨fun _ => ⟨[48], by decide⟩, fun _ => 0, fun _ => by simp [TextFits]⟩

variable (machine : Machine) (floats : FloatText)

/-- The code of `ORTE_ATTRIBUTE`. -/
def attributeCode : Word .one := 117

def packAttrData : AttrValue machine → Dss Unit
  | ⟨.scalar .byteObject _, object⟩ => packByteObject machine object
  | ⟨.scalar type _, value⟩ => packScalarBuffer machine type [value]
  | ⟨.float, word⟩ => packScalarBuffer machine .float [floats.print word]
  | ⟨.ptr, _⟩ => pure ()
  | ⟨.vpid, word⟩ => opalDssPackBuffer machine (.object .vpid) [word]
  | ⟨.jobid, word⟩ => opalDssPackBuffer machine (.object .jobid) [word]
  | ⟨.buffer, _⟩ => throw (.error .error)
  | ⟨.other _ _, _⟩ => throw (.error .error)

def packAttr (attr : Attribute machine) : Dss Unit := do
  packScalarBuffer machine .uint16 [attr.key]
  opalDssPackBuffer machine (.object .dataType) [attr.value.type.code]
  packAttrData machine floats attr.value

/-- The cases of the switch in `orte_dt_unpack_attr`. -/
inductive AttrCase where
  | scalar (type : ScalarType) (isHeld : held type = true)
  | float
  | vpid
  | jobid
  | unsupported

def AttrCase.ofCode (code : Word .one) : AttrCase :=
  match scalarTypes.find? (fun type => type.code = code) with
  | some .float => .float
  | some type => if isHeld : held type = true then .scalar type isHeld else .unsupported
  | none => if code = 52 then .vpid else if code = 51 then .jobid else .unsupported

def unpackAttrData (code : Word .one) : Dss (AttrValue machine) :=
  match AttrCase.ofCode code with
  | .scalar .byteObject isHeld => do
      let object ← unpackByteObject machine
      pure ⟨.scalar .byteObject isHeld, object⟩
  | .scalar type isHeld => do
      let value ← single (unpackScalarBuffer machine type)
      pure ⟨.scalar type isHeld, value⟩
  | .float => do
      let text ← single (unpackScalarBuffer machine .float)
      pure ⟨.float, floats.parse text⟩
  | .vpid => do
      let word ← single (opalDssUnpackBuffer machine (.object .vpid))
      pure ⟨.vpid, word⟩
  | .jobid => do
      let word ← single (opalDssUnpackBuffer machine (.object .jobid))
      pure ⟨.jobid, word⟩
  | .unsupported => throw (.error .error)

/-- The constructor of the new attribute sets `local`. -/
def unpackAttr : Dss (Attribute machine) := do
  let key ← single (unpackScalarBuffer machine .uint16)
  let code ← single (opalDssUnpackBuffer machine (.object .dataType))
  let value ← unpackAttrData machine floats code
  pure ⟨key, true, value⟩

/-- The values that both switches have a case for: strings with a length that an `int32_t` can
count, and byte objects with as many bytes as they say. -/
def Sendable : AttrValue machine → Prop
  | ⟨.scalar .string _, string⟩ => TextsFit string
  | ⟨.scalar .byteObject _, object⟩ => object.size.toInt.toNat = object.bytes.length
  | ⟨.scalar _ _, _⟩ | ⟨.float, _⟩ | ⟨.vpid, _⟩ | ⟨.jobid, _⟩ => True
  | ⟨.ptr, _⟩ | ⟨.buffer, _⟩ | ⟨.other _ _, _⟩ => False

variable {machine}

def arrivedValue : AttrValue machine → AttrValue machine
  | ⟨.float, word⟩ => ⟨.float, floats.parse (floats.print word)⟩
  | value => value

def arrived (attr : Attribute machine) : Attribute machine :=
  { attr with is_local := true, value := arrivedValue floats attr.value }

variable (machine)

theorem attrCase_ofCode (isHeld : held type = true) :
    AttrCase.ofCode type.code = .scalar type isHeld := by
  cases type <;> first | rfl | cases isHeld

theorem byteObject_carries (fits : object.size.toInt.toNat = object.bytes.length) :
    Carries (packByteObject machine object) (unpackByteObject machine) object :=
  fun type => ⟨_, packByteObject_writes machine type fits, unpackByteObject_reads machine type fits⟩

theorem floatText_carries (fits : TextFits text) :
    Carries (packScalarBuffer machine .float [text]) (single (unpackScalarBuffer machine .float))
      text := by
  intro type
  refine ⟨_, packScalarBuffer_writes machine type .float [text]
    (List.forall_mem_singleton.mpr fits), ?_⟩
  have reads : Reads (Typed type) (unpackFloat machine) (wireString (some text)) text := by
    have read := unpackString_reads machine type (some text) (by rintro _ ⟨⟩; exact fits)
    rw [← List.append_nil (wireString (some text))]
    exact reads_bind (typed_stable type) read reads_pure
  refine single_reads type _ text ?_
  refine reads_bind (typed_stable type) (checkType_reads machine type) ?_
  refine requireBytes_countable machine type _ one_countable (by decide) ?_ ?_
  · change 1 * 4 ≤ ([text].flatMap fun text => wireString (some text)).length
    have counted : (encodeWord .four (countWord (text.bytes.length + 1))).length = 4 :=
      encodeWord_length ..
    rw [List.flatMap_singleton, wireString, List.length_append]
    exact le_trans counted.ge (Nat.le_add_right _ _)
  · exact reads_repeated (typed_stable type) fun other member => by
      rw [List.mem_singleton.mp member]
      exact reads

theorem attrData_carries (sendable : Sendable machine value) :
    Carries (packAttrData machine floats value) (unpackAttrData machine floats value.type.code)
      (arrivedValue floats value) := by
  obtain ⟨type, data⟩ := value
  cases type with
  | scalar type isHeld =>
    unfold unpackAttrData AttrType.code
    rw [attrCase_ofCode isHeld]
    by_cases object : type = .byteObject
    · subst object
      exact carries_map (fun object => (⟨.scalar .byteObject isHeld, object⟩ : AttrValue machine))
        (byteObject_carries machine sendable)
    · have roundTrip : RoundTripScalar type := by
        cases type <;> first | decide | cases isHeld
      have fits : ScalarFits machine type data := by
        cases type with
        | byteObject => exact absurd rfl object
        | float | double => cases isHeld
        | string => exact sendable
        | _ => trivial
      have carried := carries_map (AttrValue.mk (.scalar type isHeld))
        (scalar_carries type data roundTrip fits)
      cases type with
      | byteObject => exact absurd rfl object
      | _ => exact carried
  | float =>
    exact carries_map (fun text => (⟨.float, floats.parse text⟩ : AttrValue machine))
      (floatText_carries machine (floats.short data))
  | vpid =>
    exact carries_map (AttrValue.mk .vpid) (field_carries (.object .vpid) data trivial trivial)
  | jobid =>
    exact carries_map (AttrValue.mk .jobid) (field_carries (.object .jobid) data trivial trivial)
  | ptr | buffer | other => exact sendable.elim

theorem attribute_carries (sendable : Sendable machine attr.value) :
    Carries (packTyped machine attributeCode (packAttr machine floats attr))
      (unpackTyped machine attributeCode (unpackAttr machine floats)) (arrived floats attr) := by
  refine typed_carries machine attributeCode ?_
  refine carries_bind (scalar_carries .uint16 attr.key (by decide) trivial) ?_
  refine carries_bind (field_carries (.object .dataType) _ trivial trivial) ?_
  exact carries_map (Attribute.mk attr.key true) (attrData_carries machine floats sendable)

/-- A string is packed only if its length can be counted, and a byte object only if it has the bytes
it promises. -/
def PackedFits : AttrValue machine → Prop
  | ⟨.scalar .string _, string⟩ => TextsFit string
  | ⟨.scalar .byteObject _, object⟩ => object.size.toInt.toNat ≤ object.bytes.length
  | _ => True

theorem packByteObject_needs :
    Returns (fun _ => object.size.toInt.toNat ≤ object.bytes.length)
      (packByteObject machine object) := by
  refine returns_next fun _ => ?_
  split
  · split
    · exact fun _ _ _ _ => by omega
    · exact returns_throw
  · exact returns_pure (by omega)

theorem attribute_needs (attr : Attribute machine) :
    Returns (fun _ => PackedFits machine attr.value)
      (packTyped machine attributeCode (packAttr machine floats attr)) := by
  refine returns_next fun _ => returns_next fun _ => returns_next fun _ => ?_
  rcases attr.value with ⟨type, data⟩
  cases type with
  | scalar type =>
    cases type with
    | string => exact string_needs data
    | byteObject => exact packByteObject_needs machine
    | _ => exact fun _ _ _ _ => trivial
  | _ => exact fun _ _ _ _ => trivial

theorem unpackByteObject_returns :
    Returns (fun object : ByteObject => object.bytes.length ≤ object.size.toInt.toNat)
      (unpackByteObject machine) := by
  refine returns_next fun size => ?_
  split
  · refine returns_bind (?_ : Returns (fun bytes => bytes.length ≤ size.toInt.toNat) _)
      fun bytes short => returns_pure short
    refine returns_next fun _ => ?_
    rintro buffer _ _ ⟨⟩
    exact List.length_take_le _ _
  · exact returns_pure (Nat.zero_le _)

theorem attribute_returns :
    Returns (fun attr => PackedFits machine attr.value → Sendable machine attr.value)
      (unpackTyped machine attributeCode (unpackAttr machine floats)) := by
  refine returns_next fun _ => returns_next fun key => returns_next fun code => ?_
  refine returns_bind
    (?_ : Returns (fun value => PackedFits machine value → Sendable machine value) _)
    fun value sendable => returns_pure sendable
  rw [unpackAttrData]
  split
  · exact returns_bind (unpackByteObject_returns machine) fun object short =>
      returns_pure fun long => le_antisymm long short
  · rename_i type isHeld different _
    refine returns_next fun value => returns_pure fun fits => ?_
    cases type with
    | string => exact fits
    | byteObject => exact (different rfl).elim
    | _ => trivial
  · exact returns_next fun text => returns_pure fun _ => trivial
  · exact returns_next fun word => returns_pure fun _ => trivial
  · exact returns_next fun word => returns_pure fun _ => trivial
  · exact returns_throw

end Orcm.AttributeCodec
