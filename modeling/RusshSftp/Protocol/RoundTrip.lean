import RusshSftp.Protocol.Packet

/-!
# The codec round trip

`Packet.wire` is the payload of a packet as the draft lays it out.  The
serializer appends exactly it, for every packet; the deserializer consumes
exactly it and gives the packet back with its attributes normalised, once no
length word of it wraps.
-/

set_option autoImplicit false

namespace RusshSftp

open Utf8 ByteCodec

/-! ## Layouts -/

def strWire (text : String) : Bytes := lengthPrefixed (utf8Bytes text)

def idStrWire (id : UInt32) (text : String) : Bytes := putU32 id ++ strWire text

def idStrAttrsWire (id : UInt32) (text : String) (attrs : FileAttributes) : Bytes :=
  putU32 id ++ (strWire text ++ attrs.wire)

def idStrStrWire (id : UInt32) (first second : String) : Bytes :=
  putU32 id ++ (strWire first ++ strWire second)

def extensionsWire (extensions : Extensions) : Bytes := extensions.entries.flatMap entryWire

def File.wire (file : File) : Bytes :=
  strWire file.filename ++ (strWire file.longname ++ file.attrs.wire)

def File.normalise (file : File) : File := { file with attrs := file.attrs.normalise }

namespace Packet

def wire : Packet → Bytes
  | .init p => putU32 p.version ++ extensionsWire p.extensions
  | .version p => putU32 p.version ++ extensionsWire p.extensions
  | .open p =>
      putU32 p.id ++ (strWire p.filename ++ (putU32 p.pflags.bits ++ p.attrs.wire))
  | .close p => idStrWire p.id p.handle
  | .read p => putU32 p.id ++ (strWire p.handle ++ (putU64 p.offset ++ putU32 p.len))
  | .write p =>
      putU32 p.id ++ (strWire p.handle ++ (putU64 p.offset ++ lengthPrefixed p.data))
  | .lstat p => idStrWire p.id p.path
  | .fstat p => idStrWire p.id p.handle
  | .setStat p => idStrAttrsWire p.id p.path p.attrs
  | .fSetStat p => idStrAttrsWire p.id p.handle p.attrs
  | .openDir p => idStrWire p.id p.path
  | .readDir p => idStrWire p.id p.handle
  | .remove p => idStrWire p.id p.filename
  | .mkDir p => idStrAttrsWire p.id p.path p.attrs
  | .rmDir p => idStrWire p.id p.path
  | .realPath p => idStrWire p.id p.path
  | .stat p => idStrWire p.id p.path
  | .rename p => idStrStrWire p.id p.oldpath p.newpath
  | .readLink p => idStrWire p.id p.path
  | .symlink p => idStrStrWire p.id p.linkpath p.targetpath
  | .status p =>
      putU32 p.id ++
        (putU32 p.statusCode.variantIndex ++ (strWire p.errorMessage ++ strWire p.languageTag))
  | .handle p => idStrWire p.id p.handle
  | .data p => putU32 p.id ++ lengthPrefixed p.data
  | .name p => putU32 p.id ++ (putU32 (UInt32.ofNat p.files.length) ++ p.files.flatMap File.wire)
  | .attrs p => putU32 p.id ++ p.attrs.wire
  | .extended p => putU32 p.id ++ (strWire p.request ++ p.data)
  | .extendedReply p => putU32 p.id ++ p.data

/-- The packet with its attributes as they are after a passage over the wire. -/
def normalise : Packet → Packet
  | .open p => .open { p with attrs := p.attrs.normalise }
  | .setStat p => .setStat { p with attrs := p.attrs.normalise }
  | .fSetStat p => .fSetStat { p with attrs := p.attrs.normalise }
  | .mkDir p => .mkDir { p with attrs := p.attrs.normalise }
  | .name p => .name { p with files := p.files.map File.normalise }
  | .attrs p => .attrs { p with attrs := p.attrs.normalise }
  | p => p

/-- Packets whose last field goes on to the end of the packet. -/
def runsToEnd : Packet → Bool
  | .init _ => true
  | .version _ => true
  | .extended _ => true
  | .extendedReply _ => true
  | _ => false

/-- Equal packets, with the extensions of `Init` and `Version` compared as maps. -/
def Same : Packet → Packet → Prop
  | .init p, .init q => p.version = q.version ∧ p.extensions.SameMap q.extensions
  | .version p, .version q => p.version = q.version ∧ p.extensions.SameMap q.extensions
  | p, q => p = q

theorem Same.refl (p : Packet) : p.Same p := by
  cases p <;> first | rfl | exact ⟨rfl, fun _ => rfl⟩

end Packet

/-! ## The serializer writes the layout -/

section Writing
variable {a b c d : Ser} {wa wb wc wd : Bytes}

theorem appends_struct2 (ha : Appends a wa) (hb : Appends b wb) :
    Appends (serializeStruct [a, b]) (wa ++ wb) := by
  have written := appends_serializeStruct_cons ha
    (appends_serializeStruct_cons hb appends_serializeStruct_nil)
  rwa [List.append_nil] at written

theorem appends_struct3 (ha : Appends a wa) (hb : Appends b wb) (hc : Appends c wc) :
    Appends (serializeStruct [a, b, c]) (wa ++ (wb ++ wc)) :=
  appends_serializeStruct_cons ha (appends_struct2 hb hc)

theorem appends_struct4 (ha : Appends a wa) (hb : Appends b wb) (hc : Appends c wc)
    (hd : Appends d wd) : Appends (serializeStruct [a, b, c, d]) (wa ++ (wb ++ (wc ++ wd))) :=
  appends_serializeStruct_cons ha (appends_struct3 hb hc hd)

theorem appends_idStr (id : UInt32) (text : String) :
    Appends (serializeIdStr id text) (idStrWire id text) :=
  appends_struct2 (appends_serializeU32 _) (appends_serializeStr _)

theorem appends_idStrAttrs (id : UInt32) (text : String) (attrs : FileAttributes) :
    Appends (serializeIdStrAttrs id text attrs) (idStrAttrsWire id text attrs) :=
  appends_struct3 (appends_serializeU32 _) (appends_serializeStr _) attrs.appends_serialize

theorem appends_idStrStr (id : UInt32) (first second : String) :
    Appends (serializeIdStrStr id first second) (idStrStrWire id first second) :=
  appends_struct3 (appends_serializeU32 _) (appends_serializeStr _) (appends_serializeStr _)

theorem appends_bytes (data : Bytes) :
    Appends (serializeVec serializeU8 data) (lengthPrefixed data) := by
  have written := appends_serializeVec serializeU8 putU8 data appends_serializeU8
  rwa [flatMap_putU8] at written

theorem File.appends_serialize (file : File) : Appends file.serialize file.wire :=
  appends_struct3 (appends_serializeStr _) (appends_serializeStr _) file.attrs.appends_serialize

end Writing

namespace Packet

/-- Every packet serializes, and to its layout: one case per packet. -/
theorem appends_wire (p : Packet) : Appends p.typed.2 p.wire := by
  have word := appends_serializeU32
  have text := appends_serializeStr
  cases p with
  | init p => exact appends_struct2 (word _) (appends_serializeMap _)
  | version p => exact appends_struct2 (word _) (appends_serializeMap _)
  | «open» p => exact appends_struct4 (word _) (text _) (word _) p.attrs.appends_serialize
  | close p => exact appends_idStr _ _
  | read p => exact appends_struct4 (word _) (text _) (appends_serializeU64 _) (word _)
  | write p => exact appends_struct4 (word _) (text _) (appends_serializeU64 _) (appends_bytes _)
  | lstat p => exact appends_idStr _ _
  | fstat p => exact appends_idStr _ _
  | setStat p => exact appends_idStrAttrs _ _ _
  | fSetStat p => exact appends_idStrAttrs _ _ _
  | openDir p => exact appends_idStr _ _
  | readDir p => exact appends_idStr _ _
  | remove p => exact appends_idStr _ _
  | mkDir p => exact appends_idStrAttrs _ _ _
  | rmDir p => exact appends_idStr _ _
  | realPath p => exact appends_idStr _ _
  | stat p => exact appends_idStr _ _
  | rename p => exact appends_idStrStr _ _ _
  | readLink p => exact appends_idStr _ _
  | symlink p => exact appends_idStrStr _ _ _
  | status p => exact appends_struct4 (word _) (word _) (text _) (text _)
  | handle p => exact appends_idStr _ _
  | data p => exact appends_struct2 (word _) (appends_bytes _)
  | name p =>
      exact appends_struct2 (word _) (appends_serializeVec _ _ _ File.appends_serialize)
  | attrs p => exact appends_struct2 (word _) p.attrs.appends_serialize
  | extended p => exact appends_struct3 (word _) (text _) (appends_dataSerialize _)
  | extendedReply p => exact appends_struct2 (word _) (appends_dataSerialize _)

theorem payload_eq (p : Packet) : p.payload = .ok p.wire := by
  rw [payload, serToBytes, p.appends_wire []]
  rfl

/-- The body of a packet's frame: its type byte and its payload. -/
def body (p : Packet) : Bytes := putU8 p.typed.1 ++ p.wire

theorem toBytes_eq (p : Packet) :
    p.toBytes = .ok (putU32 (UInt32.ofNat p.wire.length + 1) ++ p.body) := by
  rw [toBytes, payload_eq]
  rfl

end Packet

/-! ## The deserializer reads the layout -/

section Reading
variable {τ : Type}

theorem consumes_str (text : String) (fits : (strWire text).length < 2 ^ 32) :
    Consumes deserializeString (strWire text) text := by
  rw [strWire, lengthPrefixed_length] at fits
  exact consumes_deserializeString text (by omega)

theorem consumes_bytes (data : Bytes) (fits : (lengthPrefixed data).length < 2 ^ 32) :
    Consumes (deserializeVec deserializeU8) (lengthPrefixed data) data := by
  rw [lengthPrefixed_length] at fits
  have read := consumes_deserializeVec deserializeU8 putU8 id data (by omega)
    fun byte _ => consumes_deserializeU8 byte
  rwa [flatMap_putU8, List.map_id] at read

theorem consumes_idStr (name : String) (mk : UInt32 → String → τ) (id : UInt32) (text : String)
    (fits : (idStrWire id text).length < 2 ^ 32) :
    Consumes (deserializeIdStr name mk) (idStrWire id text) (mk id text) := by
  rw [idStrWire, List.length_append] at fits
  exact consumes_struct2 name mk (consumes_deserializeU32 _) (consumes_str _ (by omega))

theorem consumes_idStrAttrs (name : String) (mk : UInt32 → String → FileAttributes → τ)
    (id : UInt32) (text : String) (attrs : FileAttributes)
    (fits : (idStrAttrsWire id text attrs).length < 2 ^ 32) :
    Consumes (deserializeIdStrAttrs name mk) (idStrAttrsWire id text attrs)
      (mk id text attrs.normalise) := by
  rw [idStrAttrsWire, List.length_append, List.length_append] at fits
  exact consumes_struct3 name mk (consumes_deserializeU32 _) (consumes_str _ (by omega))
    attrs.consumes_deserialize

theorem consumes_idStrStr (name : String) (mk : UInt32 → String → String → τ) (id : UInt32)
    (first second : String) (fits : (idStrStrWire id first second).length < 2 ^ 32) :
    Consumes (deserializeIdStrStr name mk) (idStrStrWire id first second)
      (mk id first second) := by
  rw [idStrStrWire, List.length_append, List.length_append] at fits
  exact consumes_struct3 name mk (consumes_deserializeU32 _) (consumes_str _ (by omega))
    (consumes_str _ (by omega))

theorem File.consumes_deserialize (file : File) (fits : file.wire.length < 2 ^ 32) :
    Consumes File.deserialize file.wire file.normalise := by
  rw [File.wire, List.length_append, List.length_append] at fits
  exact consumes_struct3 "File" File.mk (consumes_str _ (by omega)) (consumes_str _ (by omega))
    file.attrs.consumes_deserialize

/-- Extensions come back, of whatever length together. -/
theorem Extensions.readsAll (extensions : Extensions)
    (short : ∀ entry ∈ extensions.entries,
      (utf8Bytes entry.1).length < 2 ^ 32 ∧ (utf8Bytes entry.2).length < 2 ^ 32) :
    ReadsAll Extensions.deserialize (extensions.entries.flatMap entryWire) extensions := by
  have read := readsAll_deserializeMap .empty insert extensions.entries short
  rwa [extensions.foldl_insert_empty] at read

theorem readsAll_extensions (extensions : Extensions)
    (fits : (extensionsWire extensions).length < 2 ^ 32) :
    ReadsAll Extensions.deserialize (extensionsWire extensions) extensions := by
  apply extensions.readsAll
  intro entry member
  have short : (entryWire entry).length < 2 ^ 32 :=
    lt_of_le_of_lt (length_le_flatMap entryWire member) fits
  rw [entryWire, List.length_append, lengthPrefixed_length, lengthPrefixed_length] at short
  constructor <;> omega

/-- The count of a list of files and each file fit if the list does. -/
theorem files_fit (files : List File) (fits : (files.flatMap File.wire).length < 2 ^ 32) :
    files.length < 2 ^ 32 ∧ ∀ file ∈ files, file.wire.length < 2 ^ 32 := by
  constructor
  · have nonempty (file : File) : 0 < file.wire.length := by
      rw [File.wire, strWire, List.length_append, lengthPrefixed_length]
      omega
    exact lt_of_le_of_lt (count_le_flatMap nonempty files) fits
  · intro file member
    exact lt_of_le_of_lt (length_le_flatMap File.wire member) fits

theorem consumes_files (files : List File)
    (fits : (files.flatMap File.wire).length < 2 ^ 32) :
    Consumes (deserializeVec File.deserialize)
      (putU32 (UInt32.ofNat files.length) ++ files.flatMap File.wire)
      (files.map File.normalise) := by
  obtain ⟨count, each⟩ := files_fit files fits
  exact consumes_deserializeVec _ _ _ _ count fun file member =>
    file.consumes_deserialize (each file member)

end Reading

namespace Packet

theorem consumes_body (p : Packet) (delimited : p.runsToEnd = false)
    (fits : p.wire.length < 2 ^ 32) : Consumes tryFrom p.body p.normalise := by
  have typeByte (t : UInt8) := (consumes_tryGetU8 t).mapErr Error.ofTryGet
  refine (typeByte _).bind ?_
  have word := consumes_deserializeU32
  have long := consumes_deserializeU64
  cases p with
  | init p => cases delimited
  | version p => cases delimited
  | extended p => cases delimited
  | extendedReply p => cases delimited
  | «open» p =>
      simp only [wire, List.length_append] at fits
      exact Consumes.map Packet.open <| consumes_struct4 "Open" Open.mk (word _)
        (consumes_str _ (by omega)) (Consumes.map OpenFlags.mk (word _))
        p.attrs.consumes_deserialize
  | read p =>
      simp only [wire, List.length_append] at fits
      exact Consumes.map Packet.read <| consumes_struct4 "Read" Read.mk (word _)
        (consumes_str _ (by omega)) (long _) (word _)
  | write p =>
      simp only [wire, List.length_append] at fits
      exact Consumes.map Packet.write <| consumes_struct4 "Write" Write.mk (word _)
        (consumes_str _ (by omega)) (long _) (consumes_bytes _ (by omega))
  | status p =>
      simp only [wire, List.length_append] at fits
      exact Consumes.map Packet.status <| consumes_struct4 "Status" Status.mk (word _)
        (consumes_deserializeUnitEnum _ _ _ p.statusCode.variants_variantIndex)
        (consumes_str _ (by omega)) (consumes_str _ (by omega))
  | data p =>
      simp only [wire, List.length_append] at fits
      exact Consumes.map Packet.data <| consumes_struct2 "Data" Data.mk (word _)
        (consumes_bytes _ (by omega))
  | name p =>
      simp only [wire, List.length_append] at fits
      exact Consumes.map Packet.name <| consumes_struct2 "Name" Name.mk (word _)
        (consumes_files _ (by omega))
  | attrs p =>
      exact Consumes.map Packet.attrs <| consumes_struct2 "Attrs" Attrs.mk (word _)
        p.attrs.consumes_deserialize
  | close p => exact Consumes.map Packet.close (consumes_idStr _ _ _ _ fits)
  | lstat p => exact Consumes.map Packet.lstat (consumes_idStr _ _ _ _ fits)
  | fstat p => exact Consumes.map Packet.fstat (consumes_idStr _ _ _ _ fits)
  | setStat p => exact Consumes.map Packet.setStat (consumes_idStrAttrs _ _ _ _ _ fits)
  | fSetStat p => exact Consumes.map Packet.fSetStat (consumes_idStrAttrs _ _ _ _ _ fits)
  | openDir p => exact Consumes.map Packet.openDir (consumes_idStr _ _ _ _ fits)
  | readDir p => exact Consumes.map Packet.readDir (consumes_idStr _ _ _ _ fits)
  | remove p => exact Consumes.map Packet.remove (consumes_idStr _ _ _ _ fits)
  | mkDir p => exact Consumes.map Packet.mkDir (consumes_idStrAttrs _ _ _ _ _ fits)
  | rmDir p => exact Consumes.map Packet.rmDir (consumes_idStr _ _ _ _ fits)
  | realPath p => exact Consumes.map Packet.realPath (consumes_idStr _ _ _ _ fits)
  | stat p => exact Consumes.map Packet.stat (consumes_idStr _ _ _ _ fits)
  | rename p => exact Consumes.map Packet.rename (consumes_idStrStr _ _ _ _ _ fits)
  | readLink p => exact Consumes.map Packet.readLink (consumes_idStr _ _ _ _ fits)
  | symlink p => exact Consumes.map Packet.symlink (consumes_idStrStr _ _ _ _ _ fits)
  | handle p => exact Consumes.map Packet.handle (consumes_idStr _ _ _ _ fits)

theorem readsAll_body (p : Packet) (fits : p.wire.length < 2 ^ 32) :
    ReadsAll tryFrom p.body p.normalise := by
  cases delimited : p.runsToEnd with
  | false => exact (p.consumes_body delimited fits).readsAll
  | true =>
      have typeByte (t : UInt8) := (consumes_tryGetU8 t).mapErr Error.ofTryGet
      have word := consumes_deserializeU32
      refine (typeByte _).bind_readsAll ?_
      cases p with
      | init p =>
          simp only [wire, List.length_append] at fits
          exact ReadsAll.map Packet.init <| readsAll_struct2 "Init" Init.mk (word _)
            (readsAll_extensions _ (by omega))
      | version p =>
          simp only [wire, List.length_append] at fits
          exact ReadsAll.map Packet.version <| readsAll_struct2 "Version" Version.mk (word _)
            (readsAll_extensions _ (by omega))
      | extended p =>
          simp only [wire, List.length_append] at fits
          exact ReadsAll.map Packet.extended <| readsAll_struct3 "Extended" Extended.mk (word _)
            (consumes_str _ (by omega)) (readsAll_dataDeserialize _)
      | extendedReply p =>
          exact ReadsAll.map Packet.extendedReply <|
            readsAll_struct2 "ExtendedReply" ExtendedReply.mk (word _)
              (readsAll_dataDeserialize _)
      | _ => cases delimited

end Packet

/-! ## The round trip -/

theorem packet_round_trip (p : Packet) (t : Bytes)
    (short : ∀ payload, p.payload = .ok payload → payload.length < 2 ^ 32 - 1)
    (tail : p.runsToEnd = true → t = []) :
    ∃ rest, p.toBytes = .ok (putU32 (UInt32.ofNat rest.length) ++ rest) ∧
      rest.length < 2 ^ 32 ∧
      ∃ q, Packet.tryFrom.run (rest ++ t) = .ok (q, t) ∧ q.Same p.normalise := by
  have bound := short p.wire p.payload_eq
  have bodyLength : p.body.length = p.wire.length + 1 := by
    rw [Packet.body, List.length_append, putU8_length, Nat.add_comm]
  refine ⟨p.body, ?_, by omega, p.normalise, ?_, Packet.Same.refl _⟩
  · have lengthWord : UInt32.ofNat p.wire.length + 1 = UInt32.ofNat p.body.length := by
      rw [bodyLength, UInt32.ofNat_add]
      rfl
    rw [p.toBytes_eq, lengthWord]
  · cases delimited : p.runsToEnd with
    | false => exact p.consumes_body delimited (by omega) t
    | true =>
        rw [tail delimited, List.append_nil]
        exact p.readsAll_body (by omega)

theorem packet_round_trip_two_files :
    let p := Packet.name ⟨7, [⟨"a", "-rw a", { FileAttributes.empty with size := some 5 }⟩,
      ⟨"b", "", { FileAttributes.empty with uid := some 1, mtime := some 2 }⟩]⟩
    ∃ rest, p.toBytes = .ok (putU32 (UInt32.ofNat rest.length) ++ rest) ∧
      rest.length < 2 ^ 32 ∧
      ∃ q, Packet.tryFrom.run (rest ++ [1, 2]) = .ok (q, [1, 2]) ∧ q.Same p.normalise := by
  refine packet_round_trip _ [1, 2] ?_ (fun delimited => by cases delimited)
  intro payload encoded
  rw [Packet.payload_eq] at encoded
  cases encoded
  decide

/-! ## Attributes that are left out

The flags word has one bit for `uid` and `gid`, and one for `atime` and `mtime`. -/

namespace FileAttributes

/-- A field as it is read again: 0 stands for it where only the other field under its bit is
present. -/
def filled (field other : Option UInt32) : Option UInt32 := field <|> other.map fun _ => 0

/-- The fields that are transmitted are the same. -/
structure SameOnWire (left right : FileAttributes) : Prop where
  size : left.size = right.size
  uid : left.uid = right.uid
  gid : left.gid = right.gid
  permissions : left.permissions = right.permissions
  atime : left.atime = right.atime
  mtime : left.mtime = right.mtime

theorem filled_left (field other : Option UInt32) :
    filled field other =
      if field.isSome || other.isSome then some (field.getD 0) else none := by
  cases field <;> cases other <;> rfl

theorem filled_eq_iff (field other : Option UInt32) :
    filled field other = field ↔ (other.isSome = true → field.isSome = true) := by
  cases field <;> cases other <;> simp [filled]

/-- Attributes are read again as they were written, but for a field that is left out beside the
one that shares its bit. -/
theorem attributes_pass (attrs : FileAttributes) :
    ∃ bytes got, Packet.serToBytes attrs.serialize = .ok bytes ∧
      deserialize.run bytes = .ok (got, []) ∧
      got.size = attrs.size ∧ got.permissions = attrs.permissions ∧
      got.uid = filled attrs.uid attrs.gid ∧ got.gid = filled attrs.gid attrs.uid ∧
      got.atime = filled attrs.atime attrs.mtime ∧ got.mtime = filled attrs.mtime attrs.atime ∧
      (SameOnWire got attrs ↔
        attrs.uid.isSome = attrs.gid.isSome ∧ attrs.atime.isSome = attrs.mtime.isSome) := by
  have written : Packet.serToBytes attrs.serialize = .ok attrs.wire := by
    rw [Packet.serToBytes, attrs.appends_serialize []]
    rfl
  have read := attrs.consumes_deserialize.readsAll
  have uid : attrs.normalise.uid = filled attrs.uid attrs.gid := (filled_left _ _).symm
  have gid : attrs.normalise.gid = filled attrs.gid attrs.uid := by
    rw [filled_left, Bool.or_comm]
    rfl
  have atime : attrs.normalise.atime = filled attrs.atime attrs.mtime := (filled_left _ _).symm
  have mtime : attrs.normalise.mtime = filled attrs.mtime attrs.atime := by
    rw [filled_left, Bool.or_comm]
    rfl
  refine ⟨attrs.wire, attrs.normalise, written, read, rfl, rfl, uid, gid, atime, mtime, ?_⟩
  constructor
  · rintro ⟨_, sameUid, sameGid, _, sameAtime, sameMtime⟩
    rw [uid, filled_eq_iff] at sameUid
    rw [gid, filled_eq_iff] at sameGid
    rw [atime, filled_eq_iff] at sameAtime
    rw [mtime, filled_eq_iff] at sameMtime
    exact ⟨Bool.eq_iff_iff.mpr ⟨sameGid, sameUid⟩, Bool.eq_iff_iff.mpr ⟨sameMtime, sameAtime⟩⟩
  · rintro ⟨owner, times⟩
    constructor
    · rfl
    · rw [uid, filled_eq_iff, owner]
      exact id
    · rw [gid, filled_eq_iff, owner]
      exact id
    · rfl
    · rw [atime, filled_eq_iff, times]
      exact id
    · rw [mtime, filled_eq_iff, times]
      exact id

/-- The attributes of a request to change the owner, or the time of the last change, only. -/
theorem attributes_filled :
    (∃ bytes got, Packet.serToBytes { empty with uid := some 1000 }.serialize = .ok bytes ∧
      deserialize.run bytes = .ok (got, []) ∧ got.gid = some 0) ∧
    ∃ bytes got, Packet.serToBytes { empty with mtime := some 7 }.serialize = .ok bytes ∧
      deserialize.run bytes = .ok (got, []) ∧ got.atime = some 0 :=
  ⟨⟨_, _, rfl, rfl, rfl⟩, ⟨_, _, rfl, rfl, rfl⟩⟩

end FileAttributes

end RusshSftp
