import RusshSftp.Protocol.RoundTrip

/-!
# The fields of a packet

Before its strings are decoded and its attributes are told apart, a packet is a list of
fields: words, byte strings, attribute blocks.  `layout` gives the kinds of the fields by the
type byte, and `readPacket` reads them.  The crate's decoder sees no more of its input than
these fields (`tryFrom_fields`), and its encoder writes fields again (`wire_eq_fields`).
-/

set_option autoImplicit false

namespace RusshSftp

open Utf8 ByteCodec

/-! ## Attribute blocks -/

/-- A block of attributes as it is found: the flags word, if there is one, and the fields that
it announces. -/
structure Block where
  flags : Option UInt32
  attrs : FileAttributes
deriving DecidableEq, Repr

namespace Block

def none : Block := ⟨.none, .empty⟩

/-- The block that is written for attributes. -/
def ofAttrs (attrs : FileAttributes) : Block := ⟨some attrs.flags.bits, attrs⟩

def wire (block : Block) : Bytes :=
  match block.flags with
  | .none => []
  | some bits => putU32 bits ++ block.attrs.fieldsWire

/-- A field that is there under its flag. -/
def readFlagged {α : Type} (present : Bool) (seed : De α) : De (Option α) :=
  if present then some <$> seed else pure .none

def readAnnounced (attrs : FileAttr) : De FileAttributes := do
  let size ← readFlagged (attrs.contains .size) deserializeU64
  let uid ← readFlagged (attrs.contains .uidgid) deserializeU32
  let gid ← readFlagged (attrs.contains .uidgid) deserializeU32
  let permissions ← readFlagged (attrs.contains .permissions) deserializeU32
  let atime ← readFlagged (attrs.contains .acmodtime) deserializeU32
  let mtime ← readFlagged (attrs.contains .acmodtime) deserializeU32
  return { size, uid, user := .none, gid, group := .none, permissions, atime, mtime }

def readPresent : De Block := do
  let bits ← deserializeU32
  let attrs ← readAnnounced (FileAttr.fromBitsTruncate bits)
  return ⟨some bits, attrs⟩

/-- A block is left out only at the end of the input. -/
def read : De Block := fun input =>
  match input with
  | [] => .ok (none, [])
  | byte :: rest => readPresent.run (byte :: rest)

theorem spares_flagged {α : Type} (present : Bool) {seed : De α} {wire : α → Bytes}
    (spells : Spells seed wire) (nonempty : ∀ a, 0 < (wire a).length) :
    Spares (FileAttributes.flagged present seed) (readFlagged present seed) := by
  cases present with
  | false => exact spares_pure _
  | true => exact spares_nextElement spells nonempty

/-- What `visit_seq` of the attributes does after the flags word. -/
def visitAnnounced (attrs : FileAttr) : SeqAccess FileAttributes := do
  let size ← FileAttributes.flagged (attrs.contains .size) deserializeU64
  let uid ← FileAttributes.flagged (attrs.contains .uidgid) deserializeU32
  let gid ← FileAttributes.flagged (attrs.contains .uidgid) deserializeU32
  let permissions ← FileAttributes.flagged (attrs.contains .permissions) deserializeU32
  let atime ← FileAttributes.flagged (attrs.contains .acmodtime) deserializeU32
  let mtime ← FileAttributes.flagged (attrs.contains .acmodtime) deserializeU32
  return { size, uid, user := .none, gid, group := .none, permissions, atime, mtime }

theorem visitSeq_eq : FileAttributes.visitSeq = nextElement deserializeU32 >>= fun bits =>
    visitAnnounced (FileAttr.fromBitsTruncate (bits.getD 0)) := rfl

/-- With elements to spare, the visitor of attributes reads the announced fields. -/
theorem spares_announced (attrs : FileAttr) :
    Spares (visitAnnounced attrs) (readAnnounced attrs) := by
  have long (present : Bool) := spares_flagged present spells_deserializeU64 fun _ => by simp
  have word (present : Bool) := spares_flagged present spells_deserializeU32 fun _ => by simp
  exact (long _).bind fun _ => (word _).bind fun _ => (word _).bind fun _ => (word _).bind fun _ =>
    (word _).bind fun _ => (word _).bind fun _ => spares_pure _

/-- The budget of `deserialize_any` is never used up before the fields of a block are read. -/
theorem deserialize_eq : FileAttributes.deserialize = attrs <$> read := by
  funext input
  cases input with
  | nil => rfl
  | cons byte rest =>
      show (FileAttributes.visitSeq.run' (byte :: rest).length).run (byte :: rest) =
        (attrs <$> readPresent).run (byte :: rest)
      rw [StateT.run'_eq, visitSeq_eq, readPresent, StateT.run_bind, List.length_cons,
        nextElement_run_succ, bind_assoc, map_bind, StateT.run_map, StateT.run_bind,
        StateT.run_bind]
      cases word : deserializeU32.run (byte :: rest) with
      | error e => rfl
      | ok got =>
          obtain ⟨bits, left⟩ := got
          -- four bytes are gone for one element, so there are elements to spare
          have shape := congrArg List.length (spells_deserializeU32 _ _ _ word)
          rw [List.length_append, putU32_length, List.length_cons] at shape
          have announced := spares_announced (FileAttr.fromBitsTruncate bits) rest.length left
            (by omega)
          show (fun got : (FileAttributes × Nat) × Bytes => (got.1.1, got.2)) <$>
            ((visitAnnounced (FileAttr.fromBitsTruncate bits)).run rest.length).run left =
              (attrs <$> (readAnnounced (FileAttr.fromBitsTruncate bits) >>= fun attrs =>
                pure (⟨some bits, attrs⟩ : Block))).run left
          rw [StateT.run_map, StateT.run_bind]
          cases read : (readAnnounced (FileAttr.fromBitsTruncate bits)).run left with
          | error e =>
              rw [read] at announced
              simp only [announced]
              rfl
          | ok fields =>
              rw [read] at announced
              obtain ⟨spare, -, visited⟩ := announced
              simp only [visited]
              rfl

theorem readFlagged_ok {α : Type} {present : Bool} {seed : De α} {wire : α → Bytes}
    (spells : Spells seed wire) (default : α) {input rest : Bytes} {value : Option α}
    (read : (readFlagged present seed).run input = .ok (value, rest)) :
    input = (if present then wire (value.getD default) else []) ++ rest ∧
      value.isSome = present := by
  cases present with
  | false =>
      obtain ⟨rfl, rfl⟩ := pure_ok read
      exact ⟨rfl, rfl⟩
  | true =>
      obtain ⟨value, first, rfl⟩ := map_ok read
      exact ⟨spells _ _ _ first, rfl⟩

/-- What the flags announce: each field is there just under its flag. -/
structure Announced (attrs : FileAttr) (values : FileAttributes) : Prop where
  size : values.size.isSome = attrs.contains .size
  uid : values.uid.isSome = attrs.contains .uidgid
  gid : values.gid.isSome = attrs.contains .uidgid
  permissions : values.permissions.isSome = attrs.contains .permissions
  atime : values.atime.isSome = attrs.contains .acmodtime
  mtime : values.mtime.isSome = attrs.contains .acmodtime
  user : values.user = .none
  group : values.group = .none

theorem readAnnounced_ok {attrs : FileAttr} {values : FileAttributes} {input rest : Bytes}
    (read : (readAnnounced attrs).run input = .ok (values, rest)) :
    input = values.fieldsWire ++ rest ∧ Announced attrs values := by
  obtain ⟨size, input1, readSize, read⟩ := bind_ok read
  obtain ⟨uid, input2, readUid, read⟩ := bind_ok read
  obtain ⟨gid, input3, readGid, read⟩ := bind_ok read
  obtain ⟨permissions, input4, readPermissions, read⟩ := bind_ok read
  obtain ⟨atime, input5, readAtime, read⟩ := bind_ok read
  obtain ⟨mtime, input6, readMtime, read⟩ := bind_ok read
  obtain ⟨rfl, rfl⟩ := pure_ok read
  obtain ⟨shape1, someSize⟩ := readFlagged_ok spells_deserializeU64 0 readSize
  obtain ⟨shape2, someUid⟩ := readFlagged_ok spells_deserializeU32 0 readUid
  obtain ⟨shape3, someGid⟩ := readFlagged_ok spells_deserializeU32 0 readGid
  obtain ⟨shape4, somePermissions⟩ := readFlagged_ok spells_deserializeU32 0 readPermissions
  obtain ⟨shape5, someAtime⟩ := readFlagged_ok spells_deserializeU32 0 readAtime
  obtain ⟨shape6, someMtime⟩ := readFlagged_ok spells_deserializeU32 0 readMtime
  refine ⟨?_, someSize, someUid, someGid, somePermissions, someAtime, someMtime, rfl, rfl⟩
  rw [shape1, shape2, shape3, shape4, shape5, shape6]
  simp only [FileAttributes.fieldsWire, someSize, someUid, someGid, somePermissions, someAtime,
    someMtime, Bool.or_self]
  split_ifs <;> simp

theorem spells_read : Spells read wire := by
  intro input block rest readBlock
  cases input with
  | nil =>
      obtain ⟨rfl, rfl⟩ := Prod.mk.inj (Except.ok.inj readBlock)
      rfl
  | cons byte input =>
      obtain ⟨bits, middle, word, fields⟩ := bind_ok readBlock
      obtain ⟨attrs, last, announced, done⟩ := bind_ok fields
      obtain ⟨rfl, rfl⟩ := pure_ok done
      rw [spells_deserializeU32 _ _ _ word, (readAnnounced_ok announced).1]
      exact (List.append_assoc ..).symm

/-- A block that has a flags word has exactly the fields that the word announces. -/
theorem announced_of_read {input rest : Bytes} {block : Block} {bits : UInt32}
    (readBlock : read.run input = .ok (block, rest)) (present : block.flags = some bits) :
    Announced (FileAttr.fromBitsTruncate bits) block.attrs := by
  cases input with
  | nil =>
      obtain ⟨rfl, rfl⟩ := Prod.mk.inj (Except.ok.inj readBlock)
      cases present
  | cons byte input =>
      obtain ⟨word, middle, readWord, fields⟩ := bind_ok readBlock
      obtain ⟨attrs, last, announced, done⟩ := bind_ok fields
      obtain ⟨rfl, rfl⟩ := pure_ok done
      cases present
      exact (readAnnounced_ok announced).2

end Block

/-! ## Fields -/

/-- One file of a NAME packet. -/
structure FileFields where
  filename : Bytes
  longname : Bytes
  block : Block
deriving DecidableEq, Repr

namespace FileFields

def wire (file : FileFields) : Bytes :=
  lengthPrefixed file.filename ++ (lengthPrefixed file.longname ++ file.block.wire)

def read : De FileFields := do
  let filename ← tryGetBytes
  let longname ← tryGetBytes
  let block ← Block.read
  return ⟨filename, longname, block⟩

def file (file : FileFields) : File :=
  ⟨fromUtf8Lossy file.filename, fromUtf8Lossy file.longname, file.block.attrs⟩

def ofFile (file : File) : FileFields :=
  ⟨utf8Bytes file.filename, utf8Bytes file.longname, .ofAttrs file.attrs⟩

theorem wire_length (file : FileFields) :
    file.wire.length =
      8 + file.filename.length + file.longname.length + file.block.wire.length := by
  rw [wire]
  simp only [List.length_append, lengthPrefixed_length]
  omega

theorem wire_pos (file : FileFields) : 0 < file.wire.length := by
  rw [wire_length]
  omega

theorem spells_read : Spells read wire := by
  intro input file rest readFile
  obtain ⟨filename, input1, name, readFile⟩ := bind_ok readFile
  obtain ⟨longname, input2, long, readFile⟩ := bind_ok readFile
  obtain ⟨block, input3, attrs, readFile⟩ := bind_ok readFile
  obtain ⟨rfl, rfl⟩ := pure_ok readFile
  rw [spells_tryGetBytes _ _ _ name, spells_tryGetBytes _ _ _ long, Block.spells_read _ _ _ attrs,
    wire]
  simp only [List.append_assoc]

theorem deserialize_eq : File.deserialize = file <$> read := by
  rw [File.deserialize, deserializeStruct3_eq, Block.deserialize_eq]
  simp [deserializeString, deserializeStr, tryGetString, read, file]

end FileFields

/-- A pair of an extension. -/
def rawEntryWire (entry : Bytes × Bytes) : Bytes :=
  lengthPrefixed entry.1 ++ lengthPrefixed entry.2

def readRawEntry : De (Bytes × Bytes) := do
  let key ← tryGetBytes
  let value ← tryGetBytes
  return (key, value)

/-- The entries up to the end of the packet. -/
def readRawEntries : De (List (Bytes × Bytes)) := do
  let input ← get
  foldToEnd readRawEntry (fun entries entry => entries ++ [entry])
    (.badMessage "map entry of no bytes") input.length []

inductive Field where
  | word (v : UInt32)
  | long (v : UInt64)
  | code (status : StatusCode)
  | text (bytes : Bytes)
  | data (bytes : Bytes)
  | block (attrs : Block)
  | files (list : List FileFields)
  | entries (pairs : List (Bytes × Bytes))
  | rest (bytes : Bytes)
deriving DecidableEq, Repr

inductive Kind where
  | word | long | code | text | data | block | files | entries | rest
deriving DecidableEq, Repr

def Field.wire : Field → Bytes
  | .word v => putU32 v
  | .long v => putU64 v
  | .code status => putU32 status.variantIndex
  | .text bytes => lengthPrefixed bytes
  | .data bytes => lengthPrefixed bytes
  | .block attrs => attrs.wire
  | .files list => putU32 (UInt32.ofNat list.length) ++ list.flatMap FileFields.wire
  | .entries pairs => pairs.flatMap rawEntryWire
  | .rest bytes => bytes

def Field.text? : Field → Option Bytes
  | .text bytes => some bytes
  | _ => none

def Kind.read : Kind → De Field
  | .word => .word <$> deserializeU32
  | .long => .long <$> deserializeU64
  | .code => .code <$> StatusCode.deserialize
  | .text => .text <$> tryGetBytes
  | .data => .data <$> deserializeVec deserializeU8
  | .block => .block <$> Block.read
  | .files => .files <$> deserializeVec FileFields.read
  | .entries => .entries <$> readRawEntries
  | .rest => .rest <$> dataDeserialize

def readFields : List Kind → De (List Field)
  | [] => pure []
  | kind :: kinds => do
      let field ← kind.read
      let fields ← readFields kinds
      return field :: fields

/-- The fields of a payload, by the type byte. -/
def layout : UInt8 → Option (List Kind)
  | SSH_FXP_INIT | SSH_FXP_VERSION => some [.word, .entries]
  | SSH_FXP_OPEN => some [.word, .text, .word, .block]
  | SSH_FXP_READ => some [.word, .text, .long, .word]
  | SSH_FXP_WRITE => some [.word, .text, .long, .data]
  | SSH_FXP_CLOSE | SSH_FXP_LSTAT | SSH_FXP_FSTAT | SSH_FXP_OPENDIR | SSH_FXP_READDIR
  | SSH_FXP_REMOVE | SSH_FXP_RMDIR | SSH_FXP_REALPATH | SSH_FXP_STAT | SSH_FXP_READLINK
  | SSH_FXP_HANDLE => some [.word, .text]
  | SSH_FXP_SETSTAT | SSH_FXP_FSETSTAT | SSH_FXP_MKDIR => some [.word, .text, .block]
  | SSH_FXP_RENAME | SSH_FXP_SYMLINK => some [.word, .text, .text]
  | SSH_FXP_STATUS => some [.word, .code, .text, .text]
  | SSH_FXP_DATA => some [.word, .data]
  | SSH_FXP_NAME => some [.word, .files]
  | SSH_FXP_ATTRS => some [.word, .block]
  | SSH_FXP_EXTENDED => some [.word, .text, .rest]
  | SSH_FXP_EXTENDED_REPLY => some [.word, .rest]
  | _ => none

/-- The type byte of a packet and its fields. -/
def readPacket : De (UInt8 × List Field) := do
  let type ← mapErr Error.ofTryGet tryGetU8
  match layout type with
  | some kinds => (fun fields => (type, fields)) <$> readFields kinds
  | none => throw (.badMessage "unknown type")

/-! ### What a field took -/

theorem variants_index {index : UInt32} {status : StatusCode}
    (found : StatusCode.variants[index.toNat]? = some status) : index = status.variantIndex := by
  obtain ⟨inside, same⟩ := List.getElem?_eq_some_iff.mp found
  have bound : index.toNat < 9 := inside
  apply UInt32.toNat_inj.mp
  generalize index.toNat = i at *
  interval_cases i <;> subst same <;> rfl

theorem spells_code : Spells StatusCode.deserialize fun status => putU32 status.variantIndex := by
  intro input status rest read
  obtain ⟨index, middle, word, variant⟩ := bind_ok read
  split at variant
  · rename_i found
    obtain ⟨rfl, rfl⟩ := pure_ok variant
    rw [spells_deserializeU32 _ _ _ word, variants_index found]
  · cases variant

theorem spells_rawEntry : Spells readRawEntry rawEntryWire := by
  intro input entry rest read
  obtain ⟨key, middle, first, read⟩ := bind_ok read
  obtain ⟨value, last, second, done⟩ := bind_ok read
  obtain ⟨rfl, rfl⟩ := pure_ok done
  rw [spells_tryGetBytes _ _ _ first, spells_tryGetBytes _ _ _ second, rawEntryWire,
    List.append_assoc]

theorem readRawEntries_ok {input rest : Bytes} {entries : List (Bytes × Bytes)}
    (read : readRawEntries.run input = .ok (entries, rest)) :
    input = entries.flatMap rawEntryWire ∧ rest = [] := by
  obtain ⟨items, folded, shape, ended⟩ := foldToEnd_ok spells_rawEntry read
  rw [List.foldl_append_eq_append, List.nil_append] at folded
  have same : (items.map fun item => [item]).flatten = items := by
    rw [← List.flatMap_def, List.flatMap_singleton']
  rw [folded, same]
  exact ⟨shape, ended⟩

theorem Kind.spells_read (kind : Kind) : Spells kind.read Field.wire := by
  cases kind with
  | word => exact spells_deserializeU32.map fun _ => rfl
  | long => exact spells_deserializeU64.map fun _ => rfl
  | code => exact spells_code.map fun _ => rfl
  | text => exact spells_tryGetBytes.map fun _ => rfl
  | data =>
      refine (spells_deserializeVec spells_deserializeU8).map fun bytes => ?_
      rw [flatMap_putU8]
      rfl
  | block => exact Block.spells_read.map fun _ => rfl
  | files => exact (spells_deserializeVec FileFields.spells_read).map fun _ => rfl
  | entries =>
      intro input field rest read
      obtain ⟨pairs, entries, rfl⟩ := map_ok read
      obtain ⟨shape, rfl⟩ := readRawEntries_ok entries
      rw [shape, List.append_nil]
      rfl
  | rest => exact spells_dataDeserialize.map fun _ => rfl

theorem spells_readFields (kinds : List Kind) :
    Spells (readFields kinds) fun fields => fields.flatMap Field.wire := by
  induction kinds with
  | nil =>
      intro input fields rest read
      obtain ⟨rfl, rfl⟩ := pure_ok read
      rfl
  | cons kind kinds ih =>
      intro input fields rest read
      obtain ⟨field, middle, first, read⟩ := bind_ok read
      obtain ⟨more, last, later, done⟩ := bind_ok read
      obtain ⟨rfl, rfl⟩ := pure_ok done
      rw [kind.spells_read _ _ _ first, ih _ _ _ later]
      simp only [List.flatMap_cons, List.append_assoc]

theorem readPacket_ok {input rest : Bytes} {type : UInt8} {fields : List Field}
    (read : readPacket.run input = .ok ((type, fields), rest)) :
    input = putU8 type ++ (fields.flatMap Field.wire ++ rest) ∧
      ∃ kinds middle, layout type = some kinds ∧
        (readFields kinds).run middle = .ok (fields, rest) := by
  obtain ⟨byte, middle, first, read⟩ := bind_ok read
  have shape := Spells.mapErr Error.ofTryGet (fun _ _ _ => tryGetU8_ok) _ _ _ first
  split at read
  · rename_i kinds known
    obtain ⟨fields', read, same⟩ := map_ok read
    cases same
    refine ⟨?_, kinds, middle, known, read⟩
    rw [shape, spells_readFields kinds _ _ _ read]
  · cases read

/-! ## The decoder sees the fields -/

def lossyEntry (entry : Bytes × Bytes) : String × String :=
  (fromUtf8Lossy entry.1, fromUtf8Lossy entry.2)

def utf8Entry (entry : String × String) : Bytes × Bytes := (utf8Bytes entry.1, utf8Bytes entry.2)

def Extensions.ofRaw (entries : List (Bytes × Bytes)) : Extensions :=
  (entries.map lossyEntry).foldl Extensions.insert .empty

theorem Extensions.deserialize_eq : Extensions.deserialize = ofRaw <$> readRawEntries := by
  funext input
  have each : (do
      let key ← deserializeString
      let value ← deserializeString
      pure (key, value) : De (String × String)) = lossyEntry <$> readRawEntry := by
    simp [deserializeString, deserializeStr, tryGetString, readRawEntry, lossyEntry]
  show (foldToEnd _ Extensions.insert _ input.length Extensions.empty).run input =
    (ofRaw <$> foldToEnd readRawEntry (fun entries entry => entries ++ [entry]) _ input.length
      []).run input
  rw [each]
  refine foldToEnd_map lossyEntry ofRaw ?_ readRawEntry _ input.length [] input
  intro entries entry
  simp [ofRaw]

namespace Packet

/-- The fields that a packet is written with. -/
def fields : Packet → List Field
  | .init p => [.word p.version, .entries (p.extensions.entries.map utf8Entry)]
  | .version p => [.word p.version, .entries (p.extensions.entries.map utf8Entry)]
  | .open p => [.word p.id, .text (utf8Bytes p.filename), .word p.pflags.bits,
      .block (.ofAttrs p.attrs)]
  | .close p => [.word p.id, .text (utf8Bytes p.handle)]
  | .read p => [.word p.id, .text (utf8Bytes p.handle), .long p.offset, .word p.len]
  | .write p => [.word p.id, .text (utf8Bytes p.handle), .long p.offset, .data p.data]
  | .lstat p => [.word p.id, .text (utf8Bytes p.path)]
  | .fstat p => [.word p.id, .text (utf8Bytes p.handle)]
  | .setStat p => [.word p.id, .text (utf8Bytes p.path), .block (.ofAttrs p.attrs)]
  | .fSetStat p => [.word p.id, .text (utf8Bytes p.handle), .block (.ofAttrs p.attrs)]
  | .openDir p => [.word p.id, .text (utf8Bytes p.path)]
  | .readDir p => [.word p.id, .text (utf8Bytes p.handle)]
  | .remove p => [.word p.id, .text (utf8Bytes p.filename)]
  | .mkDir p => [.word p.id, .text (utf8Bytes p.path), .block (.ofAttrs p.attrs)]
  | .rmDir p => [.word p.id, .text (utf8Bytes p.path)]
  | .realPath p => [.word p.id, .text (utf8Bytes p.path)]
  | .stat p => [.word p.id, .text (utf8Bytes p.path)]
  | .rename p => [.word p.id, .text (utf8Bytes p.oldpath), .text (utf8Bytes p.newpath)]
  | .readLink p => [.word p.id, .text (utf8Bytes p.path)]
  | .symlink p => [.word p.id, .text (utf8Bytes p.linkpath), .text (utf8Bytes p.targetpath)]
  | .status p => [.word p.id, .code p.statusCode, .text (utf8Bytes p.errorMessage),
      .text (utf8Bytes p.languageTag)]
  | .handle p => [.word p.id, .text (utf8Bytes p.handle)]
  | .data p => [.word p.id, .data p.data]
  | .name p => [.word p.id, .files (p.files.map FileFields.ofFile)]
  | .attrs p => [.word p.id, .block (.ofAttrs p.attrs)]
  | .extended p => [.word p.id, .text (utf8Bytes p.request), .rest p.data]
  | .extendedReply p => [.word p.id, .rest p.data]

theorem wire_eq_fields (p : Packet) : p.wire = p.fields.flatMap Field.wire := by
  have entry : entryWire = fun entry => rawEntryWire (utf8Entry entry) := rfl
  have file : File.wire = fun file => (FileFields.ofFile file).wire := rfl
  cases p <;> simp [wire, fields, Field.wire, idStrWire, idStrAttrsWire, idStrStrWire, strWire,
    extensionsWire, List.flatMap_map, Block.wire, Block.ofAttrs, FileAttributes.wire, entry, file]

end Packet

/-- The field that is written for what was read of a field. -/
def Field.rewritten : Field → Field
  | .text bytes => .text (utf8Bytes (fromUtf8Lossy bytes))
  | .block attrs => .block (.ofAttrs attrs.attrs)
  | .files list => .files (list.map fun file => .ofFile file.file)
  | .entries pairs => .entries ((Extensions.ofRaw pairs).entries.map utf8Entry)
  | field => field

section Sees

/-- The reader sees no more of its input than a field: what it reads is written as `field`
writes it. -/
def Sees {α : Type} (r : De α) (field : α → Field) (kind : Kind) : Prop :=
  field <$> r = Field.rewritten <$> kind.read

theorem sees_of_eq {α β : Type} {r : De β} {raw : De α} (value : α → β) {found : α → Field}
    {field : β → Field} {kind : Kind} (reads : r = value <$> raw)
    (kindReads : kind.read = found <$> raw) (same : ∀ a, field (value a) = (found a).rewritten) :
    Sees r field kind := by
  rw [Sees, reads, kindReads, Functor.map_map, Functor.map_map]
  exact congrArg (fun f => f <$> raw) (funext same)

theorem sees_word : Sees deserializeU32 .word .word :=
  sees_of_eq id (id_map _).symm rfl fun _ => rfl

theorem sees_flags : Sees OpenFlags.deserialize (fun flags => .word flags.bits) .word :=
  sees_of_eq OpenFlags.mk rfl rfl fun _ => rfl

theorem sees_long : Sees deserializeU64 .long .long :=
  sees_of_eq id (id_map _).symm rfl fun _ => rfl

theorem sees_code : Sees StatusCode.deserialize .code .code :=
  sees_of_eq id (id_map _).symm rfl fun _ => rfl

theorem sees_text : Sees deserializeString (fun text => .text (utf8Bytes text)) .text :=
  sees_of_eq fromUtf8Lossy rfl rfl fun _ => rfl

theorem sees_data : Sees (deserializeVec deserializeU8) .data .data :=
  sees_of_eq id (id_map _).symm rfl fun _ => rfl

theorem sees_block :
    Sees FileAttributes.deserialize (fun attrs => .block (.ofAttrs attrs)) .block :=
  sees_of_eq Block.attrs Block.deserialize_eq rfl fun _ => rfl

theorem sees_files :
    Sees (deserializeVec File.deserialize) (fun files => .files (files.map .ofFile)) .files := by
  have reads := deserializeVec_map FileFields.file FileFields.read
  rw [← FileFields.deserialize_eq] at reads
  refine sees_of_eq (List.map FileFields.file) reads rfl fun files => ?_
  rw [List.map_map]
  rfl

theorem sees_entries : Sees Extensions.deserialize
    (fun extensions => .entries (extensions.entries.map utf8Entry)) .entries :=
  sees_of_eq Extensions.ofRaw Extensions.deserialize_eq rfl fun _ => rfl

theorem sees_rest : Sees dataDeserialize .rest .rest :=
  sees_of_eq id (id_map _).symm rfl fun _ => rfl

variable {α β γ δ τ : Type} {a : De α} {b : De β} {c : De γ} {d : De δ}
  {fa : α → Field} {fb : β → Field} {fc : γ → Field} {fd : δ → Field} {ka kb kc kd : Kind}
  {fields : τ → List Field}

theorem sees_struct2 (name : String) (mk : α → β → τ)
    (shape : ∀ x y, fields (mk x y) = [fa x, fb y]) (ha : Sees a fa ka) (hb : Sees b fb kb) :
    fields <$> deserializeStruct2 name mk a b =
      List.map Field.rewritten <$> readFields [ka, kb] := by
  have left : fields <$> deserializeStruct2 name mk a b =
      (fa <$> a) >>= fun x => (fb <$> b) >>= fun y => pure [x, y] := by
    simp [deserializeStruct2_eq, shape]
  rw [left, ha, hb]
  simp [readFields]

theorem sees_struct3 (name : String) (mk : α → β → γ → τ)
    (shape : ∀ x y z, fields (mk x y z) = [fa x, fb y, fc z])
    (ha : Sees a fa ka) (hb : Sees b fb kb) (hc : Sees c fc kc) :
    fields <$> deserializeStruct3 name mk a b c =
      List.map Field.rewritten <$> readFields [ka, kb, kc] := by
  have left : fields <$> deserializeStruct3 name mk a b c =
      (fa <$> a) >>= fun x => (fb <$> b) >>= fun y => (fc <$> c) >>= fun z => pure [x, y, z] := by
    simp [deserializeStruct3_eq, shape]
  rw [left, ha, hb, hc]
  simp [readFields]

theorem sees_struct4 (name : String) (mk : α → β → γ → δ → τ)
    (shape : ∀ x y z w, fields (mk x y z w) = [fa x, fb y, fc z, fd w])
    (ha : Sees a fa ka) (hb : Sees b fb kb) (hc : Sees c fc kc) (hd : Sees d fd kd) :
    fields <$> deserializeStruct4 name mk a b c d =
      List.map Field.rewritten <$> readFields [ka, kb, kc, kd] := by
  have left : fields <$> deserializeStruct4 name mk a b c d =
      (fa <$> a) >>= fun x => (fb <$> b) >>= fun y => (fc <$> c) >>= fun z =>
        (fd <$> d) >>= fun w => pure [x, y, z, w] := by
    simp [deserializeStruct4_eq, shape]
  rw [left, ha, hb, hc, hd]
  simp [readFields]

/-- The payload of a known type. -/
theorem sees_payload {type : UInt8} {kinds : List Kind} (inject : τ → Packet) {r : De τ}
    (known : layout type = some kinds) (typed : ∀ x, (inject x).typed.1 = type)
    (sees : (fun x => (inject x).fields) <$> r = List.map Field.rewritten <$> readFields kinds) :
    (fun p : Packet => (p.typed.1, p.fields)) <$> (inject <$> r) =
      (fun found : UInt8 × List Field => (found.1, found.2.map Field.rewritten)) <$>
        (match layout type with
        | some kinds => (fun fields => (type, fields)) <$> readFields kinds
        | none => throw (.badMessage "unknown type") : De (UInt8 × List Field)) := by
  have both := congrArg (fun r : De (List Field) => (fun fields => (type, fields)) <$> r) sees
  simp only [Functor.map_map] at both
  rw [known]
  simp only [Functor.map_map, typed]
  exact both

end Sees

/-- The decoder and the reader of fields agree: on what they accept, on what they leave, and on
the fields. -/
theorem tryFrom_fields :
    (fun p : Packet => (p.typed.1, p.fields)) <$> Packet.tryFrom =
      (fun found : UInt8 × List Field => (found.1, found.2.map Field.rewritten)) <$>
        readPacket := by
  have idStr {τ : Type} {fields : τ → List Field} (name : String) (mk : UInt32 → String → τ)
      (shape : ∀ x y, fields (mk x y) = [.word x, .text (utf8Bytes y)]) :
      fields <$> deserializeIdStr name mk =
        List.map Field.rewritten <$> readFields [.word, .text] :=
    sees_struct2 name mk shape sees_word sees_text
  have idStrAttrs {τ : Type} {fields : τ → List Field} (name : String)
      (mk : UInt32 → String → FileAttributes → τ)
      (shape : ∀ x y z, fields (mk x y z) = [.word x, .text (utf8Bytes y), .block (.ofAttrs z)]) :
      fields <$> deserializeIdStrAttrs name mk =
        List.map Field.rewritten <$> readFields [.word, .text, .block] :=
    sees_struct3 name mk shape sees_word sees_text sees_block
  have idStrStr {τ : Type} {fields : τ → List Field} (name : String)
      (mk : UInt32 → String → String → τ)
      (shape : ∀ x y z, fields (mk x y z) = [.word x, .text (utf8Bytes y), .text (utf8Bytes z)]) :
      fields <$> deserializeIdStrStr name mk =
        List.map Field.rewritten <$> readFields [.word, .text, .text] :=
    sees_struct3 name mk shape sees_word sees_text sees_text
  rw [Packet.tryFrom, readPacket, map_bind, map_bind]
  refine bind_congr fun type => ?_
  split
  · exact sees_payload Packet.init rfl (fun _ => rfl) <|
      sees_struct2 "Init" Init.mk (fun _ _ => rfl) sees_word sees_entries
  · exact sees_payload Packet.version rfl (fun _ => rfl) <|
      sees_struct2 "Version" Version.mk (fun _ _ => rfl) sees_word sees_entries
  · exact sees_payload Packet.open rfl (fun _ => rfl) <|
      sees_struct4 "Open" Open.mk (fun _ _ _ _ => rfl) sees_word sees_text sees_flags sees_block
  · exact sees_payload Packet.close rfl (fun _ => rfl) (idStr "Close" Close.mk fun _ _ => rfl)
  · exact sees_payload Packet.read rfl (fun _ => rfl) <|
      sees_struct4 "Read" Read.mk (fun _ _ _ _ => rfl) sees_word sees_text sees_long sees_word
  · exact sees_payload Packet.write rfl (fun _ => rfl) <|
      sees_struct4 "Write" Write.mk (fun _ _ _ _ => rfl) sees_word sees_text sees_long sees_data
  · exact sees_payload Packet.lstat rfl (fun _ => rfl) (idStr "Lstat" Lstat.mk fun _ _ => rfl)
  · exact sees_payload Packet.fstat rfl (fun _ => rfl) (idStr "Fstat" Fstat.mk fun _ _ => rfl)
  · exact sees_payload Packet.setStat rfl (fun _ => rfl) <|
      idStrAttrs "SetStat" SetStat.mk fun _ _ _ => rfl
  · exact sees_payload Packet.fSetStat rfl (fun _ => rfl) <|
      idStrAttrs "FSetStat" FSetStat.mk fun _ _ _ => rfl
  · exact sees_payload Packet.openDir rfl (fun _ => rfl) (idStr "OpenDir" OpenDir.mk fun _ _ => rfl)
  · exact sees_payload Packet.readDir rfl (fun _ => rfl) (idStr "ReadDir" ReadDir.mk fun _ _ => rfl)
  · exact sees_payload Packet.remove rfl (fun _ => rfl) (idStr "Remove" Remove.mk fun _ _ => rfl)
  · exact sees_payload Packet.mkDir rfl (fun _ => rfl) <|
      idStrAttrs "MkDir" MkDir.mk fun _ _ _ => rfl
  · exact sees_payload Packet.rmDir rfl (fun _ => rfl) (idStr "RmDir" RmDir.mk fun _ _ => rfl)
  · exact sees_payload Packet.realPath rfl (fun _ => rfl) <|
      idStr "RealPath" RealPath.mk fun _ _ => rfl
  · exact sees_payload Packet.stat rfl (fun _ => rfl) (idStr "Stat" Stat.mk fun _ _ => rfl)
  · exact sees_payload Packet.rename rfl (fun _ => rfl) <|
      idStrStr "Rename" Rename.mk fun _ _ _ => rfl
  · exact sees_payload Packet.readLink rfl (fun _ => rfl) <|
      idStr "ReadLink" ReadLink.mk fun _ _ => rfl
  · exact sees_payload Packet.symlink rfl (fun _ => rfl) <|
      idStrStr "Symlink" Symlink.mk fun _ _ _ => rfl
  · exact sees_payload Packet.status rfl (fun _ => rfl) <|
      sees_struct4 "Status" Status.mk (fun _ _ _ _ => rfl) sees_word sees_code sees_text sees_text
  · exact sees_payload Packet.handle rfl (fun _ => rfl) (idStr "Handle" Handle.mk fun _ _ => rfl)
  · exact sees_payload Packet.data rfl (fun _ => rfl) <|
      sees_struct2 "Data" Data.mk (fun _ _ => rfl) sees_word sees_data
  · exact sees_payload Packet.name rfl (fun _ => rfl) <|
      sees_struct2 "Name" Name.mk (fun _ _ => rfl) sees_word sees_files
  · exact sees_payload Packet.attrs rfl (fun _ => rfl) <|
      sees_struct2 "Attrs" Attrs.mk (fun _ _ => rfl) sees_word sees_block
  · exact sees_payload Packet.extended rfl (fun _ => rfl) <|
      sees_struct3 "Extended" Extended.mk (fun _ _ _ => rfl) sees_word sees_text sees_rest
  · exact sees_payload Packet.extendedReply rfl (fun _ => rfl) <|
      sees_struct2 "ExtendedReply" ExtendedReply.mk (fun _ _ => rfl) sees_word sees_rest
  · have unknown : layout type = none := by
      unfold layout
      split <;> first | rfl | contradiction
    rw [unknown]
    rfl

end RusshSftp
