import RusshSftp.Protocol.Fields

/-!
# Encoding undoes decoding

`Field.Plain` is a field that loses nothing when it is decoded and written again: text that is
UTF-8, an attribute block with a flags word of known bits, extensions with distinct keys.  A
packet of plain fields is written back byte for byte, but for the order in which a map of
extensions is gone through.
-/

set_option autoImplicit false

namespace RusshSftp

open Utf8 ByteCodec

/-! ## Plain fields -/

/-- The bytes of some string. -/
def ValidUtf8 (bytes : Bytes) : Prop := ∃ text, utf8Bytes text = bytes

theorem utf8Bytes_fromUtf8Lossy {bytes : Bytes} (valid : ValidUtf8 bytes) :
    utf8Bytes (fromUtf8Lossy bytes) = bytes := by
  obtain ⟨text, rfl⟩ := valid
  rw [fromUtf8Lossy_utf8Bytes]

/-- `SIZE`, `UIDGID`, `PERMISSIONS` and `ACMODTIME`. -/
def FileAttr.known : FileAttr := ((size.union uidgid).union permissions).union acmodtime

/-- Each attribute is there just where its bit is set in the flags word. -/
structure FlagsTell (bits : UInt32) (attrs : FileAttributes) : Prop where
  size : attrs.size.isSome = (FileAttr.mk bits).contains .size
  uid : attrs.uid.isSome = (FileAttr.mk bits).contains .uidgid
  gid : attrs.gid.isSome = (FileAttr.mk bits).contains .uidgid
  permissions : attrs.permissions.isSome = (FileAttr.mk bits).contains .permissions
  atime : attrs.atime.isSome = (FileAttr.mk bits).contains .acmodtime
  mtime : attrs.mtime.isSome = (FileAttr.mk bits).contains .acmodtime

/-- The block has a flags word, and it uses known bits only. -/
def Block.Plain (block : Block) : Prop :=
  ∃ bits, block.flags = some bits ∧ bits &&& FileAttr.known.bits = bits

def FileFields.Plain (file : FileFields) : Prop :=
  ValidUtf8 file.filename ∧ ValidUtf8 file.longname ∧ file.block.Plain

def Field.Plain : Field → Prop
  | .text bytes => ValidUtf8 bytes
  | .block attrs => attrs.Plain
  | .files list => ∀ file ∈ list, file.Plain
  | .entries pairs =>
      (∀ pair ∈ pairs, ValidUtf8 pair.1 ∧ ValidUtf8 pair.2) ∧ (pairs.map Prod.fst).Nodup
  | _ => True

/-- The attribute blocks of a field. -/
def Field.blocks : Field → List Block
  | .block attrs => [attrs]
  | .files list => list.map FileFields.block
  | _ => []

/-- The attributes that a packet carries. -/
def Packet.attributes : Packet → List FileAttributes
  | .open p => [p.attrs]
  | .setStat p => [p.attrs]
  | .fSetStat p => [p.attrs]
  | .mkDir p => [p.attrs]
  | .name p => p.files.map File.attrs
  | .attrs p => [p.attrs]
  | _ => []

/-! ## What is plain is written back -/

theorem contains_truncated (bits : UInt32) (flag : FileAttr)
    (isFlag : FileAttr.all.bits &&& flag.bits = flag.bits) :
    (FileAttr.fromBitsTruncate bits).contains flag = (FileAttr.mk bits).contains flag := by
  show ((bits &&& FileAttr.all.bits) &&& flag.bits == flag.bits) = (bits &&& flag.bits == flag.bits)
  rw [UInt32.and_assoc, isFlag]

theorem flagsTell_of_announced {bits : UInt32} {attrs : FileAttributes}
    (announced : Block.Announced (FileAttr.fromBitsTruncate bits) attrs) :
    FlagsTell bits attrs where
  size := announced.size.trans (contains_truncated bits _ rfl)
  uid := announced.uid.trans (contains_truncated bits _ rfl)
  gid := announced.gid.trans (contains_truncated bits _ rfl)
  permissions := announced.permissions.trans (contains_truncated bits _ rfl)
  atime := announced.atime.trans (contains_truncated bits _ rfl)
  mtime := announced.mtime.trans (contains_truncated bits _ rfl)

/-- The flags word that is written for the attributes is the one that was read. -/
theorem flags_of_tell {bits : UInt32} {attrs : FileAttributes}
    (known : bits &&& FileAttr.known.bits = bits) (tell : FlagsTell bits attrs) :
    attrs.flags.bits = bits := by
  obtain ⟨n, small, rfl⟩ : ∃ n < 16, bits = UInt32.ofNat n := by
    refine ⟨bits.toNat, ?_, by rw [UInt32.ofNat_toNat]⟩
    have masked := congrArg UInt32.toNat known
    rw [UInt32.toNat_and] at masked
    have bound : bits.toNat &&& FileAttr.known.bits.toNat ≤ FileAttr.known.bits.toNat :=
      Nat.and_le_right
    have value : FileAttr.known.bits.toNat = 15 := rfl
    omega
  rw [FileAttributes.flags, tell.size, tell.uid, tell.gid, tell.permissions, tell.atime, tell.mtime]
  interval_cases n <;> rfl

/-- The flags word of a block, if there is one, tells its attributes. -/
def Block.Tells (block : Block) : Prop :=
  ∀ bits, block.flags = some bits → FlagsTell bits block.attrs

theorem Block.ofAttrs_of_plain {block : Block} (plain : block.Plain) (tells : block.Tells) :
    ofAttrs block.attrs = block := by
  obtain ⟨bits, present, known⟩ := plain
  have same := flags_of_tell known (tells bits present)
  obtain ⟨flags, attrs⟩ := block
  cases present
  rw [ofAttrs, same]

theorem FileFields.ofFile_of_plain {file : FileFields} (plain : file.Plain)
    (tells : file.block.Tells) : ofFile file.file = file := by
  obtain ⟨filename, longname, block⟩ := plain
  rw [ofFile, FileFields.file, utf8Bytes_fromUtf8Lossy filename, utf8Bytes_fromUtf8Lossy longname,
    Block.ofAttrs_of_plain block tells]

/-- Pairs of UTF-8 with distinct keys are kept by the map, in their order. -/
theorem Extensions.ofRaw_of_plain {pairs : List (Bytes × Bytes)}
    (valid : ∀ pair ∈ pairs, ValidUtf8 pair.1 ∧ ValidUtf8 pair.2)
    (distinct : (pairs.map Prod.fst).Nodup) :
    (ofRaw pairs).entries.map utf8Entry = pairs := by
  have keys : ((pairs.map lossyEntry).map Prod.fst).Nodup := by
    have lossy : (pairs.map lossyEntry).map Prod.fst = (pairs.map Prod.fst).map fromUtf8Lossy := by
      rw [List.map_map, List.map_map]
      rfl
    rw [lossy]
    refine List.Nodup.map_on ?_ distinct
    intro left leftKey right rightKey same
    obtain ⟨leftPair, leftMember, rfl⟩ := List.mem_map.mp leftKey
    obtain ⟨rightPair, rightMember, rfl⟩ := List.mem_map.mp rightKey
    rw [← utf8Bytes_fromUtf8Lossy (valid _ leftMember).1, same,
      utf8Bytes_fromUtf8Lossy (valid _ rightMember).1]
  have kept := foldl_insert_entries (pairs.map lossyEntry) .empty (by simpa [empty] using keys)
  rw [ofRaw, kept]
  simp only [empty, List.nil_append, List.map_map]
  conv_rhs => rw [← List.map_id pairs]
  refine List.map_congr_left fun pair member => ?_
  obtain ⟨key, value⟩ := valid pair member
  show (utf8Bytes (fromUtf8Lossy pair.1), utf8Bytes (fromUtf8Lossy pair.2)) = pair
  rw [utf8Bytes_fromUtf8Lossy key, utf8Bytes_fromUtf8Lossy value]

theorem Field.rewritten_of_plain {field : Field} (plain : field.Plain)
    (tells : ∀ block ∈ field.blocks, block.Tells) : field.rewritten = field := by
  cases field with
  | text bytes => exact congrArg Field.text (utf8Bytes_fromUtf8Lossy plain)
  | block attrs =>
      have told := tells attrs (List.mem_singleton_self _)
      exact congrArg Field.block (Block.ofAttrs_of_plain plain told)
  | files list =>
      refine congrArg Field.files ?_
      conv_rhs => rw [← List.map_id list]
      refine List.map_congr_left fun file member => ?_
      exact FileFields.ofFile_of_plain (plain file member)
        (tells file.block (List.mem_map_of_mem member))
  | entries pairs => exact congrArg Field.entries (Extensions.ofRaw_of_plain plain.1 plain.2)
  | _ => rfl

/-! ## What was read -/

theorem Block.tells_of_read {input rest : Bytes} {block : Block}
    (found : Block.read.run input = .ok (block, rest)) : block.Tells :=
  fun _ present => flagsTell_of_announced (Block.announced_of_read found present)

theorem Kind.tells_of_read {kind : Kind} {input rest : Bytes} {field : Field}
    (found : kind.read.run input = .ok (field, rest)) : ∀ block ∈ field.blocks, block.Tells := by
  cases kind with
  | block =>
      obtain ⟨attrs, read, rfl⟩ := map_ok found
      intro block member
      rw [List.mem_singleton.mp member]
      exact Block.tells_of_read read
  | files =>
      obtain ⟨list, read, rfl⟩ := map_ok found
      obtain ⟨len, middle, word, elements⟩ := bind_ok read
      rw [nextElements_run'] at elements
      have each := readMany_all (P := fun file : FileFields => file.block.Tells) ?_ elements
      · intro block member
        obtain ⟨file, inside, rfl⟩ := List.mem_map.mp member
        exact each file inside
      · intro input file rest read
        obtain ⟨filename, input1, name, read⟩ := bind_ok read
        obtain ⟨longname, input2, long, read⟩ := bind_ok read
        obtain ⟨block, input3, attrs, done⟩ := bind_ok read
        obtain ⟨rfl, rfl⟩ := pure_ok done
        exact Block.tells_of_read attrs
  | _ =>
      obtain ⟨value, -, rfl⟩ := map_ok found
      intro block member
      cases member

theorem tells_of_readFields {kinds : List Kind} {input rest : Bytes} {fields : List Field}
    (found : (readFields kinds).run input = .ok (fields, rest)) :
    ∀ field ∈ fields, ∀ block ∈ field.blocks, block.Tells := by
  induction kinds generalizing input fields with
  | nil =>
      obtain ⟨rfl, rfl⟩ := pure_ok found
      intro field member
      cases member
  | cons kind kinds ih =>
      obtain ⟨first, middle, one, found⟩ := bind_ok found
      obtain ⟨more, last, later, done⟩ := bind_ok found
      obtain ⟨rfl, rfl⟩ := pure_ok done
      rintro field (_ | ⟨_, member⟩)
      · exact Kind.tells_of_read one
      · exact ih later field member

/-- What the decoder accepts it has read as fields, and it writes them again as `rewritten`. -/
theorem fields_of_decoded {input rest : Bytes} {p : Packet}
    (decoded : Packet.tryFrom.run input = .ok (p, rest)) :
    ∃ fields, readPacket.run input = .ok ((p.typed.1, fields), rest) ∧
      p.fields = fields.map Field.rewritten := by
  have both := congrArg (fun r : De (UInt8 × List Field) => r.run input) tryFrom_fields
  simp only [StateT.run_map, decoded] at both
  cases found : readPacket.run input with
  | error e => rw [found] at both; cases both
  | ok got =>
      obtain ⟨⟨type, fields⟩, left⟩ := got
      rw [found] at both
      obtain ⟨same, rfl⟩ := Prod.mk.inj (Except.ok.inj both)
      obtain ⟨rfl, shape⟩ := Prod.mk.inj same
      exact ⟨fields, rfl, shape⟩

/-! ## The order of a map -/

theorem Extensions.mem_iff_get (extensions : Extensions) (key value : String) :
    (key, value) ∈ extensions.entries ↔ extensions.get key = some value := by
  rw [get, List.lookup_eq_some_iff]
  constructor
  · intro member
    obtain ⟨front, back, shape⟩ := List.append_of_mem member
    refine ⟨front, back, shape, fun other early => ?_⟩
    have distinct := extensions.nodup
    rw [shape, List.map_append, List.map_cons, List.nodup_append] at distinct
    have differ := distinct.2.2 other.1 (List.mem_map_of_mem early) key (List.mem_cons_self ..)
    exact bne_iff_ne.mpr (Ne.symm differ)
  · rintro ⟨front, back, shape, -⟩
    rw [shape]
    simp

/-- Equal maps list the same entries. -/
theorem Extensions.perm_of_sameMap {left right : Extensions} (same : left.SameMap right) :
    left.entries.Perm right.entries := by
  refine (List.perm_ext_iff_of_nodup left.nodup.of_map right.nodup.of_map).mpr ?_
  rintro ⟨key, value⟩
  rw [left.mem_iff_get, right.mem_iff_get, same key]

/-- The same field, but for the order of extension pairs. -/
def Field.Reorders : Field → Field → Prop
  | .entries left, .entries right => left.Perm right
  | left, right => left = right

theorem Field.Reorders.refl (field : Field) : field.Reorders field := by
  cases field with
  | entries pairs => exact List.Perm.refl pairs
  | _ => exact rfl

theorem Field.Reorders.length {left right : Field} (same : left.Reorders right) :
    left.wire.length = right.wire.length := by
  cases left with
  | entries pairs =>
      cases right with
      | entries other => exact (List.Perm.flatMap_right rawEntryWire same).length_eq
      | _ => exact congrArg (fun field => field.wire.length) same
  | _ => exact congrArg (fun field => field.wire.length) same

/-- The packets that carry extensions. -/
def Packet.greets : Packet → Bool
  | .init _ | .version _ => true
  | _ => false

theorem Packet.Same.eq {p q : Packet} (same : p.Same q) (plain : p.greets = false) : p = q := by
  cases p with
  | init p => cases plain
  | version p => cases plain
  | _ => exact same

theorem Packet.Same.typed {p q : Packet} (same : p.Same q) : p.typed.1 = q.typed.1 := by
  cases p with
  | init p =>
      cases q with
      | init q => rfl
      | _ => cases same
  | version p =>
      cases q with
      | version q => rfl
      | _ => cases same
  | _ => rw [Packet.Same.eq same rfl]

theorem Packet.Same.fields {p q : Packet} (same : p.Same q) :
    List.Forall₂ Field.Reorders p.fields q.fields := by
  have extensions {version version' : UInt32} {left right : Extensions} (word : version = version')
      (entries : left.SameMap right) :
      List.Forall₂ Field.Reorders
        [.word version, .entries (left.entries.map utf8Entry)]
        [.word version', .entries (right.entries.map utf8Entry)] :=
    .cons (congrArg Field.word word) <|
      .cons ((Extensions.perm_of_sameMap entries).map utf8Entry) .nil
  cases p with
  | init p =>
      cases q with
      | init q => exact extensions same.1 same.2
      | _ => cases same
  | version p =>
      cases q with
      | version q => exact extensions same.1 same.2
      | _ => cases same
  | _ =>
      rw [← Packet.Same.eq same rfl]
      exact List.forall₂_same.mpr fun field _ => Field.Reorders.refl field

/-! ## The theorem -/

theorem Packet.blocks_fields (p : Packet) :
    p.fields.flatMap Field.blocks = p.attributes.map Block.ofAttrs := by
  cases p <;> simp [Packet.fields, Packet.attributes, Field.blocks, FileFields.ofFile]

theorem Field.blocks_rewritten (field : Field) :
    field.rewritten.blocks = field.blocks.map fun block => .ofAttrs block.attrs := by
  cases field <;> simp [Field.rewritten, Field.blocks, FileFields.ofFile, FileFields.file]

/-- The attributes of a decoded packet are those of its blocks. -/
theorem attributes_of_fields {p : Packet} {fields : List Field}
    (shape : p.fields = fields.map Field.rewritten) :
    p.attributes = (fields.flatMap Field.blocks).map Block.attrs := by
  have blocks := p.blocks_fields
  rw [shape, List.flatMap_map] at blocks
  simp only [Field.blocks_rewritten] at blocks
  rw [← List.map_flatMap] at blocks
  have attrs := congrArg (List.map Block.attrs) blocks
  rw [List.map_map, List.map_map] at attrs
  exact (attrs.trans (List.map_id _)).symm

/-- What the decoder accepts as a whole, with nothing but plain fields in it, the encoder writes
again after its length; and the flags words tell which attributes are there. -/
theorem encode_undoes_decode (b : Bytes) (p : Packet) (short : b.length < 2 ^ 32)
    (decoded : Packet.tryFrom.run b = .ok (p, [])) :
    ∃ fields, readPacket.run b = .ok ((p.typed.1, fields), []) ∧
      ((∀ field ∈ fields, field.Plain) →
        List.Forall₂ (fun block attrs => ∃ bits, block.flags = some bits ∧ FlagsTell bits attrs)
          (fields.flatMap Field.blocks) p.attributes ∧
        ∃ word : UInt32, word.toNat = b.length ∧
          (p.greets = false → p.toBytes = .ok (putU32 word ++ b)) ∧
          ∀ q, p.Same q → ∃ fields', List.Forall₂ Field.Reorders fields fields' ∧
            q.toBytes = .ok (putU32 word ++ (putU8 p.typed.1 ++ fields'.flatMap Field.wire))) := by
  obtain ⟨fields, found, shape⟩ := fields_of_decoded decoded
  refine ⟨fields, found, fun plain => ?_⟩
  obtain ⟨whole, kinds, middle, -, read⟩ := readPacket_ok found
  have tells := tells_of_readFields read
  rw [List.append_nil] at whole
  have same : p.fields = fields := by
    rw [shape]
    conv_rhs => rw [← List.map_id fields]
    exact List.map_congr_left fun field member =>
      Field.rewritten_of_plain (plain field member) (tells field member)
  -- whatever order the pairs are in, the length is that of the input
  have written (q : Packet) (alike : p.Same q) : q.toBytes = .ok
      (putU32 (UInt32.ofNat b.length) ++ (putU8 p.typed.1 ++ q.fields.flatMap Field.wire)) := by
    have wires : (fields.flatMap Field.wire).length = (q.fields.flatMap Field.wire).length := by
      have each := same ▸ alike.fields
      rw [List.length_flatMap, List.length_flatMap]
      refine congrArg List.sum ?_
      exact List.forall₂_eq_eq_eq ▸ List.forall₂_map_left_iff.mpr
        (List.forall₂_map_right_iff.mpr (each.imp fun _ _ => Field.Reorders.length))
    have word : UInt32.ofNat q.wire.length + 1 = UInt32.ofNat b.length := by
      rw [whole, List.length_append, putU8_length, wires, Nat.add_comm, UInt32.ofNat_add,
        q.wire_eq_fields]
      rfl
    rw [q.toBytes_eq, word, Packet.body, q.wire_eq_fields, alike.typed]
  refine ⟨?_, UInt32.ofNat b.length, ?_, ?_, ?_⟩
  · rw [attributes_of_fields shape, List.forall₂_map_right_iff, List.forall₂_same]
    intro block member
    obtain ⟨field, inside, there⟩ := List.mem_flatMap.mp member
    have present : block.Plain := by
      have ofField := plain field inside
      cases field with
      | block attrs => rwa [List.mem_singleton.mp there]
      | files list =>
          obtain ⟨file, one, rfl⟩ := List.mem_map.mp there
          exact (ofField file one).2.2
      | _ => cases there
    obtain ⟨bits, some, -⟩ := present
    exact ⟨bits, some, tells field inside block there bits some⟩
  · rw [UInt32.toNat_ofNat', Nat.mod_eq_of_lt short]
  · intro _
    rw [written p (Packet.Same.refl p), same, ← whole]
  · intro q alike
    exact ⟨q.fields, same ▸ alike.fields, written q alike⟩

/-- A SETSTAT with a size and permissions. -/
def setStatBody : Bytes :=
  [9, 0, 0, 0, 7, 0, 0, 0, 1, 97, 0, 0, 0, 5, 0, 0, 0, 0, 0, 0, 0, 3, 0, 0, 1, 164]

def setStatAttrs : FileAttributes :=
  { FileAttributes.empty with size := some 3, permissions := some 420 }

theorem encode_undoes_decode_setstat :
    Packet.tryFrom.run setStatBody = .ok (.setStat ⟨7, "a", setStatAttrs⟩, []) ∧
      (Packet.setStat ⟨7, "a", setStatAttrs⟩).toBytes = .ok ([0, 0, 0, 26] ++ setStatBody) := by
  have decoded : Packet.tryFrom.run setStatBody = .ok (.setStat ⟨7, "a", setStatAttrs⟩, []) := rfl
  have read : readPacket.run setStatBody =
      .ok ((9, [.word 7, .text [97], .block ⟨some 5, setStatAttrs⟩]), []) := rfl
  obtain ⟨fields, found, kept⟩ := encode_undoes_decode setStatBody _ (by decide) decoded
  rw [read] at found
  cases found
  have plain : ∀ field ∈ [Field.word 7, .text [97], .block ⟨some 5, setStatAttrs⟩],
      field.Plain := by
    simp only [List.forall_mem_cons]
    exact ⟨trivial, ⟨"a", rfl⟩, ⟨5, rfl, rfl⟩, fun _ none => by cases none⟩
  obtain ⟨-, word, length, written, -⟩ := kept plain
  have isWord : word = 26 := UInt32.toNat_inj.mp length
  subst isWord
  exact ⟨decoded, written rfl⟩

end RusshSftp
