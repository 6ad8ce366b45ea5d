import RusshSftp.Buf

/-!
# The serializer

The methods of the crate's `serde::Serializer` that its packets reach.  Each
appends to the output.  Sequences carry their length, structs and maps do not,
and `dataSerialize` writes a byte vector without its length.
-/

set_option autoImplicit false

namespace RusshSftp

open Utf8 ByteCodec

def putSlice (bytes : Bytes) : Ser := modify (· ++ bytes)

def serializeU8 (v : UInt8) : Ser := putSlice (putU8 v)
def serializeU32 (v : UInt32) : Ser := putSlice (putU32 v)
def serializeU64 (v : UInt64) : Ser := putSlice (putU64 v)

/-- `bytes.len() as u32`: the length word is the length modulo `2 ^ 32`. -/
def serializeStr (v : String) : Ser := do
  let bytes := utf8Bytes v
  putSlice (putU32 (UInt32.ofNat bytes.length))
  putSlice bytes

def serializeUnitVariant (variantIndex : UInt32) : Ser := serializeU32 variantIndex

def serializeNewtypeStruct (value : Ser) : Ser := value

def serializeSeq (len : Option Nat) : Ser :=
  match len with
  | some len => putSlice (putU32 (UInt32.ofNat len))
  | none => pure ()

/-- `Serialize for Vec<T>`: the length is known, so it is written. -/
def serializeVec {α : Type} (element : α → Ser) (items : List α) : Ser := do
  serializeSeq (some items.length)
  writeAll element items

/-- Serialization of a `Vec` without length. -/
def dataSerialize (data : Bytes) : Ser := do
  serializeSeq none
  writeAll serializeU8 data

/-- `Serialize for HashMap<String, String>`: keys and values in iteration order. -/
def serializeMap (entries : List (String × String)) : Ser :=
  writeAll (fun entry => do serializeStr entry.1; serializeStr entry.2) entries

/-- A derived `Serialize` of a struct: its fields in declaration order. -/
def serializeStruct (fields : List Ser) : Ser := writeAll id fields

/-! ## What each method appends -/

theorem appends_putSlice (bytes : Bytes) : Appends (putSlice bytes) bytes := by
  intro output
  rfl

theorem appends_serializeU8 (v : UInt8) : Appends (serializeU8 v) (putU8 v) :=
  appends_putSlice _

theorem appends_serializeU32 (v : UInt32) : Appends (serializeU32 v) (putU32 v) :=
  appends_putSlice _

theorem appends_serializeU64 (v : UInt64) : Appends (serializeU64 v) (putU64 v) :=
  appends_putSlice _

theorem appends_serializeStr (v : String) :
    Appends (serializeStr v) (lengthPrefixed (utf8Bytes v)) :=
  (appends_putSlice _).bind (appends_putSlice _)

theorem appends_serializeVec {α : Type} (element : α → Ser) (wire : α → Bytes) (items : List α)
    (each : ∀ item, Appends (element item) (wire item)) :
    Appends (serializeVec element items)
      (putU32 (UInt32.ofNat items.length) ++ items.flatMap wire) :=
  (appends_putSlice _).bind (appends_writeAll _ _ _ fun item _ => each item)

theorem flatMap_putU8 (data : Bytes) : data.flatMap putU8 = data := by
  induction data with
  | nil => rfl
  | cons byte rest ih => rw [List.flatMap_cons, ih]; rfl

theorem appends_dataSerialize (data : Bytes) : Appends (dataSerialize data) data := by
  have written : Appends (dataSerialize data) ([] ++ data.flatMap putU8) :=
    appends_pure.bind (appends_writeAll _ _ _ fun byte _ => appends_serializeU8 byte)
  rwa [List.nil_append, flatMap_putU8] at written

/-- The bytes of one map entry. -/
def entryWire (entry : String × String) : Bytes :=
  lengthPrefixed (utf8Bytes entry.1) ++ lengthPrefixed (utf8Bytes entry.2)

theorem appends_serializeMap (entries : List (String × String)) :
    Appends (serializeMap entries) (entries.flatMap entryWire) :=
  appends_writeAll _ _ _ fun entry _ =>
    (appends_serializeStr entry.1).bind (appends_serializeStr entry.2)

theorem appends_serializeStruct_nil : Appends (serializeStruct []) [] := appends_pure

theorem appends_serializeStruct_cons {field : Ser} {fields : List Ser} {front back : Bytes}
    (head : Appends field front) (tail : Appends (serializeStruct fields) back) :
    Appends (serializeStruct (field :: fields)) (front ++ back) :=
  head.bind tail

end RusshSftp
