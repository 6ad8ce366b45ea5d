import RusshSftp.Protocol.Packet

/-!
# Values of any derived type

`ser::to_bytes` and `de::from_bytes` are public, and take values of the types of their callers.
A `Shape` is such a type, as derived code drives the serializer and the deserializer with it;
a shape of index `true` may run to the end of the input.
-/

set_option autoImplicit false

namespace RusshSftp

open Utf8 ByteCodec

/-! ## Methods that the packets do not reach -/

def serializeTuple (fields : List Ser) : Ser := writeAll id fields

def serializeTupleStruct (fields : List Ser) : Ser := writeAll id fields

/-- The index of the variant is not written. -/
def serializeNewtypeVariant (_variantIndex : UInt32) (value : Ser) : Ser := value

/-- The index of the variant is not written. -/
def serializeTupleVariant (_variantIndex : UInt32) (fields : List Ser) : Ser := writeAll id fields

def unitVariant : De Unit := pure ()

def newtypeVariantSeed {α : Type} (seed : De α) : De α := seed

def tupleVariant {α : Type} (len : Nat) (visitSeq : SeqAccess α) : De α :=
  deserializeTuple len visitSeq

/-- `visit_enum` of a derived visitor gets the index from `variant_seed`, and goes on with the
variant. -/
def deserializeEnum {α : Type} (visitEnum : Nat → De α) : De α := do
  let index ← deserializeU32
  visitEnum index.toNat

/-! ## Shapes -/

mutual

/-- A type that both the serializer and the deserializer support. -/
inductive Shape : Bool → Type → Type 1 where
  | u8 {b : Bool} : Shape b UInt8
  | u32 {b : Bool} : Shape b UInt32
  | u64 {b : Bool} : Shape b UInt64
  | string {b : Bool} : Shape b String
  | seq {b : Bool} {α : Type} (element : Shape false α) : Shape b (List α)
  | tuple {b : Bool} {α : Type} (fields : Fields b α) : Shape b α
  | tupleStruct {b : Bool} {α : Type} (name : String) (fields : Fields b α) : Shape b α
  | struct {b : Bool} {α : Type} (name : String) (fields : Fields b α) : Shape b α
  | newtypeStruct {b : Bool} {α : Type} (value : Shape b α) : Shape b α
  | enum {b : Bool} {α : Type} (variants : Variants b α) : Shape b α
  | map : Shape true Extensions

/-- Fields in declaration order. -/
inductive Fields : Bool → Type → Type 1 where
  | nil {b : Bool} : Fields b Unit
  | last {b : Bool} {α : Type} (field : Shape b α) : Fields b α
  | cons {b : Bool} {α β : Type} (field : Shape false α) (fields : Fields b β) : Fields b (α × β)

/-- What a variant carries. -/
inductive Payload : Bool → Type → Type 1 where
  | unit {b : Bool} : Payload b Unit
  | newtype {b : Bool} {α : Type} (value : Shape b α) : Payload b α
  | tuple {b : Bool} {α : Type} (name : String) (fields : Fields b α) : Payload b α

/-- The variants of an enumeration, by their indices. -/
inductive Variants : Bool → Type → Type 1 where
  | nil {b : Bool} : Variants b Empty
  | cons {b : Bool} {α β : Type} (payload : Payload b α) (variants : Variants b β) :
      Variants b (α ⊕ β)

end

def Fields.count {b : Bool} {α : Type} : Fields b α → Nat
  | .nil => 0
  | .last _ => 1
  | .cons _ fields => fields.count + 1

def Variants.count {b : Bool} {α : Type} : Variants b α → Nat
  | .nil => 0
  | .cons _ variants => variants.count + 1

/-! ## Derived code -/

mutual

def Shape.serialize {b : Bool} {α : Type} : Shape b α → α → Ser
  | .u8, v => serializeU8 v
  | .u32, v => serializeU32 v
  | .u64, v => serializeU64 v
  | .string, v => serializeStr v
  | .seq element, v => serializeVec element.serialize v
  | .tuple fields, v => serializeTuple (fields.serialize v)
  | .tupleStruct _ fields, v => serializeTupleStruct (fields.serialize v)
  | .struct _ fields, v => serializeStruct (fields.serialize v)
  | .newtypeStruct value, v => serializeNewtypeStruct (value.serialize v)
  | .enum variants, v => variants.serialize 0 v
  | .map, v => v.serialize
termination_by structural shape => shape

def Fields.serialize {b : Bool} {α : Type} : Fields b α → α → List Ser
  | .nil, _ => []
  | .last field, v => [field.serialize v]
  | .cons field fields, v => field.serialize v.1 :: fields.serialize v.2
termination_by structural fields => fields

def Payload.serialize {b : Bool} {α : Type} (index : UInt32) : Payload b α → α → Ser
  | .unit, _ => serializeUnitVariant index
  | .newtype value, v => serializeNewtypeVariant index (value.serialize v)
  | .tuple _ fields, v => serializeTupleVariant index (fields.serialize v)
termination_by structural payload => payload

def Variants.serialize {b : Bool} {α : Type} (index : Nat) : Variants b α → α → Ser
  | .nil, v => nomatch v
  | .cons payload _, .inl v => payload.serialize (UInt32.ofNat index) v
  | .cons _ variants, .inr v => variants.serialize (index + 1) v
termination_by structural variants => variants

end

/-- How an error of a derived visitor counts the elements. -/
def elements (count : Nat) : String :=
  if count = 1 then "1 element" else toString count ++ " elements"

mutual

def Shape.deserialize {b : Bool} {α : Type} : Shape b α → De α
  | .u8 => deserializeU8
  | .u32 => deserializeU32
  | .u64 => deserializeU64
  | .string => deserializeString
  | .seq element => deserializeVec element.deserialize
  | .tuple fields =>
      deserializeTuple fields.count
        (fields.visitSeq ("a tuple of size " ++ toString fields.count) 0)
  | .tupleStruct name fields =>
      deserializeTuple fields.count
        (fields.visitSeq ("tuple struct " ++ name ++ " with " ++ elements fields.count) 0)
  | .struct name fields =>
      deserializeStruct fields.count
        (fields.visitSeq ("struct " ++ name ++ " with " ++ elements fields.count) 0)
  | .newtypeStruct value => deserializeNewtypeStruct value.deserialize
  | .enum variants => deserializeEnum fun index => variants.visitEnum index variants.count index
  | .map => Extensions.deserialize
termination_by structural shape => shape

/-- The derived `visit_seq`. -/
def Fields.visitSeq {b : Bool} {α : Type} (expected : String) (index : Nat) :
    Fields b α → SeqAccess α
  | .nil => pure ()
  | .last field => nextField index expected field.deserialize
  | .cons field fields => do
      let v ← nextField index expected field.deserialize
      let vs ← fields.visitSeq expected (index + 1)
      pure (v, vs)
termination_by structural fields => fields

/-- What a derived `visit_enum` reads of a variant. -/
def Payload.variant {b : Bool} {α : Type} : Payload b α → De α
  | .unit => unitVariant
  | .newtype value => newtypeVariantSeed value.deserialize
  | .tuple name fields =>
      tupleVariant fields.count
        (fields.visitSeq ("tuple variant " ++ name ++ " with " ++ elements fields.count) 0)
termination_by structural payload => payload

/-- The derived `visit_enum` at `index`; `left` counts down to the variant. -/
def Variants.visitEnum {b : Bool} {α : Type} (index count : Nat) : Variants b α → Nat → De α
  | .nil, _ => throw (.badMessage ("invalid value: integer `" ++ toString index ++
      "`, expected variant index 0 <= i < " ++ toString count))
  | .cons payload _, 0 => Sum.inl <$> payload.variant
  | .cons _ variants, left + 1 => Sum.inr <$> variants.visitEnum index count left
termination_by structural variants => variants

end

/-! ## What is written -/

mutual

def Shape.wire {b : Bool} {α : Type} : Shape b α → α → Bytes
  | .u8, v => putU8 v
  | .u32, v => putU32 v
  | .u64, v => putU64 v
  | .string, v => lengthPrefixed (utf8Bytes v)
  | .seq element, v => putU32 (UInt32.ofNat v.length) ++ v.flatMap element.wire
  | .tuple fields, v => fields.wire v
  | .tupleStruct _ fields, v => fields.wire v
  | .struct _ fields, v => fields.wire v
  | .newtypeStruct value, v => value.wire v
  | .enum variants, v => variants.wire 0 v
  | .map, v => v.entries.flatMap entryWire
termination_by structural shape => shape

def Fields.wire {b : Bool} {α : Type} : Fields b α → α → Bytes
  | .nil, _ => []
  | .last field, v => field.wire v
  | .cons field fields, v => field.wire v.1 ++ fields.wire v.2
termination_by structural fields => fields

def Payload.wire {b : Bool} {α : Type} (index : UInt32) : Payload b α → α → Bytes
  | .unit, _ => putU32 index
  | .newtype value, v => value.wire v
  | .tuple _ fields, v => fields.wire v
termination_by structural payload => payload

def Variants.wire {b : Bool} {α : Type} (index : Nat) : Variants b α → α → Bytes
  | .nil, v => nomatch v
  | .cons payload _, .inl v => payload.wire (UInt32.ofNat index) v
  | .cons _ variants, .inr v => variants.wire (index + 1) v
termination_by structural variants => variants

end

mutual

theorem Shape.appends {b : Bool} {α : Type} :
    (shape : Shape b α) → (v : α) → Appends (shape.serialize v) (shape.wire v)
  | .u8, v => appends_serializeU8 v
  | .u32, v => appends_serializeU32 v
  | .u64, v => appends_serializeU64 v
  | .string, v => appends_serializeStr v
  | .seq element, v => appends_serializeVec _ _ v element.appends
  | .tuple fields, v => fields.appends v
  | .tupleStruct _ fields, v => fields.appends v
  | .struct _ fields, v => fields.appends v
  | .newtypeStruct value, v => value.appends v
  | .enum variants, v => variants.appends 0 v
  | .map, v => appends_serializeMap v.entries
termination_by structural shape => shape

theorem Fields.appends {b : Bool} {α : Type} :
    (fields : Fields b α) → (v : α) → Appends (writeAll id (fields.serialize v)) (fields.wire v)
  | .nil, _ => appends_pure
  | .last field, v => by
      have written := (field.appends v).bind (appends_pure (ε := Error))
      rwa [List.append_nil] at written
  | .cons field fields, v => (field.appends v.1).bind (fields.appends v.2)
termination_by structural fields => fields

theorem Payload.appends {b : Bool} {α : Type} (index : UInt32) :
    (payload : Payload b α) → (v : α) → Appends (payload.serialize index v) (payload.wire index v)
  | .unit, _ => appends_serializeU32 index
  | .newtype value, v => value.appends v
  | .tuple _ fields, v => fields.appends v
termination_by structural payload => payload

theorem Variants.appends {b : Bool} {α : Type} (index : Nat) :
    (variants : Variants b α) → (v : α) →
      Appends (variants.serialize index v) (variants.wire index v)
  | .cons payload _, .inl v => payload.appends (UInt32.ofNat index) v
  | .cons _ variants, .inr v => variants.appends (index + 1) v
termination_by structural variants => variants

end

end RusshSftp
