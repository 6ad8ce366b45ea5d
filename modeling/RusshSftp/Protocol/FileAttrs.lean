import RusshSftp.De

/-!
# File attributes

`FileAttributes` has no `flags` field: the flags word is computed from the
fields that are present when it is written, and decides which fields follow it
when it is read.  One bit stands for `uid` and `gid`, one for `atime` and
`mtime`, so a missing partner is written as 0 (`normalise`).
-/

set_option autoImplicit false

namespace RusshSftp

open Utf8 ByteCodec

/-- Attributes flags according to the specification. -/
structure FileAttr where
  bits : UInt32
deriving DecidableEq, Repr

namespace FileAttr

def size : FileAttr := ⟨0x00000001⟩
def uidgid : FileAttr := ⟨0x00000002⟩
def permissions : FileAttr := ⟨0x00000004⟩
def acmodtime : FileAttr := ⟨0x00000008⟩
def extended : FileAttr := ⟨0x80000000⟩

def union (left right : FileAttr) : FileAttr := ⟨left.bits ||| right.bits⟩

def all : FileAttr := (((size.union uidgid).union permissions).union acmodtime).union extended

def fromBitsTruncate (bits : UInt32) : FileAttr := ⟨bits &&& all.bits⟩

def contains (attrs flag : FileAttr) : Bool := attrs.bits &&& flag.bits == flag.bits

end FileAttr

/-- Used in the implementation of other packets. -/
structure FileAttributes where
  size : Option UInt64
  uid : Option UInt32
  user : Option String
  gid : Option UInt32
  group : Option String
  permissions : Option UInt32
  atime : Option UInt32
  mtime : Option UInt32
deriving DecidableEq, Repr

namespace FileAttributes

/-- Creates a structure with omitted attributes. -/
def empty : FileAttributes where
  size := none
  uid := none
  user := none
  gid := none
  group := none
  permissions := none
  atime := none
  mtime := none

/-- The flags that `serialize` computes for the fields that are present. -/
def flags (attrs : FileAttributes) : FileAttr :=
  let flag (present : Bool) (bit acc : FileAttr) := if present then acc.union bit else acc
  flag (attrs.atime.isSome || attrs.mtime.isSome) .acmodtime <|
    flag attrs.permissions.isSome .permissions <|
      flag (attrs.uid.isSome || attrs.gid.isSome) .uidgid <|
        flag attrs.size.isSome .size ⟨0⟩

/-- A field of `serialize`, written only if it is present. -/
def whenPresent (present : Bool) (field : Ser) : Ser := if present then field else pure ()

def serialize (attrs : FileAttributes) : Ser := do
  serializeNewtypeStruct (serializeU32 attrs.flags.bits)
  whenPresent attrs.size.isSome (serializeU64 (attrs.size.getD 0))
  whenPresent (attrs.uid.isSome || attrs.gid.isSome) do
    serializeU32 (attrs.uid.getD 0)
    serializeU32 (attrs.gid.getD 0)
  whenPresent attrs.permissions.isSome (serializeU32 (attrs.permissions.getD 0))
  whenPresent (attrs.atime.isSome || attrs.mtime.isSome) do
    serializeU32 (attrs.atime.getD 0)
    serializeU32 (attrs.mtime.getD 0)

/-- A field of `visit_seq`, read only under its flag. -/
def flagged {α : Type} (present : Bool) (seed : De α) : SeqAccess (Option α) :=
  if present then nextElement seed else pure none

/-- No element at all counts as a flags word of 0: `unwrap_or(0)`. -/
def visitSeq : SeqAccess FileAttributes := do
  let attrs := FileAttr.fromBitsTruncate ((← nextElement deserializeU32).getD 0)
  let size ← flagged (attrs.contains .size) deserializeU64
  let uid ← flagged (attrs.contains .uidgid) deserializeU32
  let gid ← flagged (attrs.contains .uidgid) deserializeU32
  let permissions ← flagged (attrs.contains .permissions) deserializeU32
  let atime ← flagged (attrs.contains .acmodtime) deserializeU32
  let mtime ← flagged (attrs.contains .acmodtime) deserializeU32
  return { size, uid, user := none, gid, group := none, permissions, atime, mtime }

def deserialize : De FileAttributes := deserializeAny visitSeq

/-- What is left of attributes after a passage over the wire. -/
def normalise (attrs : FileAttributes) : FileAttributes where
  size := attrs.size
  uid := if attrs.uid.isSome || attrs.gid.isSome then some (attrs.uid.getD 0) else none
  user := none
  gid := if attrs.uid.isSome || attrs.gid.isSome then some (attrs.gid.getD 0) else none
  group := none
  permissions := attrs.permissions
  atime := if attrs.atime.isSome || attrs.mtime.isSome then some (attrs.atime.getD 0) else none
  mtime := if attrs.atime.isSome || attrs.mtime.isSome then some (attrs.mtime.getD 0) else none

/-- The fields of an attribute block, after its flags word. -/
def fieldsWire (attrs : FileAttributes) : Bytes :=
  (if attrs.size.isSome then putU64 (attrs.size.getD 0) else []) ++
    ((if attrs.uid.isSome || attrs.gid.isSome then
        putU32 (attrs.uid.getD 0) ++ putU32 (attrs.gid.getD 0) else []) ++
      ((if attrs.permissions.isSome then putU32 (attrs.permissions.getD 0) else []) ++
        (if attrs.atime.isSome || attrs.mtime.isSome then
          putU32 (attrs.atime.getD 0) ++ putU32 (attrs.mtime.getD 0) else [])))

/-- The attribute block: the flags word and the fields it announces. -/
def wire (attrs : FileAttributes) : Bytes := putU32 attrs.flags.bits ++ attrs.fieldsWire

theorem appends_whenPresent (present : Bool) {field : Ser} {bytes : Bytes}
    (written : Appends field bytes) :
    Appends (whenPresent present field) (if present then bytes else []) := by
  cases present
  · exact appends_pure
  · exact written

theorem appends_serialize (attrs : FileAttributes) : Appends attrs.serialize attrs.wire :=
  (appends_serializeU32 _).bind <|
    (appends_whenPresent _ (appends_serializeU64 _)).bind <|
      (appends_whenPresent _ ((appends_serializeU32 _).bind (appends_serializeU32 _))).bind <|
        (appends_whenPresent _ (appends_serializeU32 _)).bind <|
          appends_whenPresent _ ((appends_serializeU32 _).bind (appends_serializeU32 _))

/-- A flags word that, once read, announces exactly the fields that are written. -/
def Announces (bits : UInt32) (attrs : FileAttributes) : Prop :=
  let read := FileAttr.fromBitsTruncate bits
  read.contains .size = attrs.size.isSome ∧
    read.contains .uidgid = (attrs.uid.isSome || attrs.gid.isSome) ∧
    read.contains .permissions = attrs.permissions.isSome ∧
    read.contains .acmodtime = (attrs.atime.isSome || attrs.mtime.isSome)

/-- The flags announce the fields, with or without the `EXTENDED` bit. -/
theorem announces_flags (attrs : FileAttributes) :
    Announces attrs.flags.bits attrs ∧
      Announces (attrs.flags.union .extended).bits attrs := by
  unfold Announces flags
  generalize attrs.size.isSome = size
  generalize (attrs.uid.isSome || attrs.gid.isSome) = uidgid
  generalize attrs.permissions.isSome = permissions
  generalize (attrs.atime.isSome || attrs.mtime.isSome) = acmodtime
  revert size uidgid permissions acmodtime
  decide

theorem budgeted_flagged {α : Type} (present : Bool) {seed : De α} {bytes : Bytes} {value : α}
    (reads : Consumes seed bytes value) (nonempty : 0 < bytes.length) :
    Budgeted (flagged present seed) (if present then bytes else [])
      (if present then some value else none) := by
  cases present
  · exact budgeted_pure none
  · exact budgeted_nextElement reads nonempty

theorem if_isSome_getD {α : Type} (value : Option α) (default : α) :
    (if value.isSome then some (value.getD default) else none) = value := by
  cases value <;> rfl

theorem consumes_block (bits : UInt32) (attrs : FileAttributes)
    (announced : Announces bits attrs) :
    Consumes deserialize (putU32 bits ++ attrs.fieldsWire) attrs.normalise := by
  obtain ⟨size, uidgid, permissions, acmodtime⟩ := announced
  have word (v : UInt32) := consumes_deserializeU32 v
  have four (v : UInt32) : 0 < (putU32 v).length := by simp
  have blocks : attrs.fieldsWire =
      (if attrs.size.isSome then putU64 (attrs.size.getD 0) else []) ++
        ((if attrs.uid.isSome || attrs.gid.isSome then putU32 (attrs.uid.getD 0) else []) ++
          ((if attrs.uid.isSome || attrs.gid.isSome then putU32 (attrs.gid.getD 0) else []) ++
            ((if attrs.permissions.isSome then putU32 (attrs.permissions.getD 0) else []) ++
              ((if attrs.atime.isSome || attrs.mtime.isSome then
                  putU32 (attrs.atime.getD 0) else []) ++
                ((if attrs.atime.isSome || attrs.mtime.isSome then
                  putU32 (attrs.mtime.getD 0) else []) ++ []))))) := by
    unfold fieldsWire
    split_ifs <;> simp
  refine Budgeted.deserializeAny ?_
  rw [blocks]
  refine (budgeted_nextElement (word _) (four _)).bind ?_
  simp only [Option.getD_some, size, uidgid, permissions, acmodtime]
  have value : attrs.normalise =
      { size := if attrs.size.isSome then some (attrs.size.getD 0) else none
        uid := if attrs.uid.isSome || attrs.gid.isSome then some (attrs.uid.getD 0) else none
        user := none
        gid := if attrs.uid.isSome || attrs.gid.isSome then some (attrs.gid.getD 0) else none
        group := none
        permissions :=
          if attrs.permissions.isSome then some (attrs.permissions.getD 0) else none
        atime := if attrs.atime.isSome || attrs.mtime.isSome then
          some (attrs.atime.getD 0) else none
        mtime := if attrs.atime.isSome || attrs.mtime.isSome then
          some (attrs.mtime.getD 0) else none } := by
    simp only [normalise, if_isSome_getD]
  rw [value]
  exact (budgeted_flagged _ (consumes_deserializeU64 _) (by simp)).bind <|
    (budgeted_flagged _ (word _) (four _)).bind <|
      (budgeted_flagged _ (word _) (four _)).bind <|
        (budgeted_flagged _ (word _) (four _)).bind <|
          (budgeted_flagged _ (word _) (four _)).bind <|
            (budgeted_flagged _ (word _) (four _)).bind (budgeted_pure _)

theorem consumes_deserialize (attrs : FileAttributes) :
    Consumes deserialize attrs.wire attrs.normalise :=
  consumes_block _ attrs attrs.announces_flags.1

end FileAttributes

end RusshSftp
