import RusshSftp.Protocol.RoundTrip

/-!
# NAME packets by the attribute grammar of the draft

`V3Attrs` is an attribute block of version 3 with its extended pairs, which the
crate's `FileAttributes` does not have.  `visitSeq` stops before the pairs, so a
file that carries them leaves the reader in front of its own pair count instead
of in front of the next file.
-/

set_option autoImplicit false

namespace RusshSftp

open Utf8 ByteCodec

/-- An attribute block of version 3: owner and times come in pairs, and the
`EXTENDED` bit announces a count and that many pairs of strings. -/
structure V3Attrs where
  size : Option UInt64
  owner : Option (UInt32 × UInt32)
  permissions : Option UInt32
  times : Option (UInt32 × UInt32)
  extended : Option (List (Bytes × Bytes))
deriving DecidableEq, Repr

structure V3File where
  filename : String
  longname : String
  attrs : V3Attrs
deriving DecidableEq, Repr

namespace V3Attrs

/-- The attributes of the block, without its extended pairs. -/
def attributes (attrs : V3Attrs) : FileAttributes where
  size := attrs.size
  uid := attrs.owner.map Prod.fst
  user := none
  gid := attrs.owner.map Prod.snd
  group := none
  permissions := attrs.permissions
  atime := attrs.times.map Prod.fst
  mtime := attrs.times.map Prod.snd

def pairWire (pair : Bytes × Bytes) : Bytes := lengthPrefixed pair.1 ++ lengthPrefixed pair.2

def extendedWire (attrs : V3Attrs) : Bytes :=
  match attrs.extended with
  | none => []
  | some pairs => putU32 (UInt32.ofNat pairs.length) ++ pairs.flatMap pairWire

def flags (attrs : V3Attrs) : FileAttr :=
  match attrs.extended with
  | none => attrs.attributes.flags
  | some _ => attrs.attributes.flags.union .extended

def wire (attrs : V3Attrs) : Bytes :=
  putU32 attrs.flags.bits ++ (attrs.attributes.fieldsWire ++ attrs.extendedWire)

theorem normalise_attributes (attrs : V3Attrs) :
    attrs.attributes.normalise = attrs.attributes := by
  obtain ⟨size, owner, permissions, times, extended⟩ := attrs
  cases owner <;> cases times <;> rfl

theorem announces_flags (attrs : V3Attrs) :
    attrs.attributes.Announces attrs.flags.bits := by
  obtain ⟨plain, withExtended⟩ := attrs.attributes.announces_flags
  unfold flags
  split
  · exact plain
  · exact withExtended

end V3Attrs

namespace V3File

def file (f : V3File) : File := ⟨f.filename, f.longname, f.attrs.attributes⟩

def wire (f : V3File) : Bytes := strWire f.filename ++ (strWire f.longname ++ f.attrs.wire)

/-- The part of a file that the crate reads: all but the extended pairs. -/
def readWire (f : V3File) : Bytes :=
  strWire f.filename ++ (strWire f.longname ++
    (putU32 f.attrs.flags.bits ++ f.attrs.attributes.fieldsWire))

theorem wire_eq (f : V3File) : f.wire = f.readWire ++ f.attrs.extendedWire := by
  simp only [wire, readWire, V3Attrs.wire, List.append_assoc]

/-- The crate reads a file up to its extended pairs. -/
theorem consumes_readWire (f : V3File) (fits : f.wire.length < 2 ^ 32) :
    Consumes File.deserialize f.readWire f.file := by
  rw [wire, List.length_append, List.length_append] at fits
  have block := FileAttributes.consumes_block _ _ f.attrs.announces_flags
  rw [f.attrs.normalise_attributes] at block
  exact consumes_struct3 "File" File.mk (consumes_str _ (by omega)) (consumes_str _ (by omega))
    block

end V3File

/-- The body of a NAME packet by the grammar. -/
def v3NameBody (id : UInt32) (files : List V3File) : Bytes :=
  putU8 SSH_FXP_NAME ++
    (putU32 id ++ (putU32 (UInt32.ofNat files.length) ++ files.flatMap V3File.wire))

/-- The packet decodes to its files. -/
def NameDecodes (id : UInt32) (files : List V3File) : Prop :=
  ∃ rest, Packet.tryFrom.run (v3NameBody id files) =
    .ok (.name ⟨id, files.map V3File.file⟩, rest)

/-- No file shifts the parse of the files that follow it: after any number of
files the reader is in front of the next one. -/
def NeverShifts (files : List V3File) : Prop :=
  ∀ front back, files = front ++ back → back ≠ [] →
    (readMany File.deserialize front.length).run (files.flatMap V3File.wire) =
      .ok (front.map V3File.file, back.flatMap V3File.wire)

theorem flatMap_wire_eq_readWire (files : List V3File)
    (plain : ∀ f ∈ files, f.attrs.extended = none) :
    files.flatMap V3File.wire = files.flatMap V3File.readWire := by
  induction files with
  | nil => rfl
  | cons f rest ih =>
      have head : f.attrs.extendedWire = [] := by
        rw [V3Attrs.extendedWire, plain f (List.mem_cons_self ..)]
      rw [List.flatMap_cons, List.flatMap_cons, f.wire_eq, head, List.append_nil,
        ih fun other member => plain other (List.mem_cons_of_mem _ member)]

/-- Files without extended pairs are consumed exactly. -/
theorem consumes_plain (files : List V3File)
    (fits : (files.flatMap V3File.wire).length < 2 ^ 32)
    (plain : ∀ f ∈ files, f.attrs.extended = none) :
    Consumes (readMany File.deserialize files.length) (files.flatMap V3File.wire)
      (files.map V3File.file) := by
  rw [flatMap_wire_eq_readWire files plain]
  exact consumes_readMany _ _ _ files fun f member =>
    f.consumes_readWire (lt_of_le_of_lt (length_le_flatMap V3File.wire member) fits)

/-- Of a list whose first files are plain, the last file is read up to its pairs. -/
theorem readMany_last (front : List V3File) (last : V3File)
    (fits : ((front ++ [last]).flatMap V3File.wire).length < 2 ^ 32)
    (plain : ∀ f ∈ front, f.attrs.extended = none) (rest : Bytes) :
    (readMany File.deserialize (front.length + 1)).run
        ((front ++ [last]).flatMap V3File.wire ++ rest) =
      .ok ((front ++ [last]).map V3File.file, last.attrs.extendedWire ++ rest) := by
  have whole : (front ++ [last]).flatMap V3File.wire =
      front.flatMap V3File.wire ++ (last.readWire ++ last.attrs.extendedWire) := by
    rw [List.flatMap_append, List.flatMap_singleton, last.wire_eq]
  rw [whole, List.length_append] at fits
  have lastFits : last.wire.length < 2 ^ 32 := by
    rw [last.wire_eq]
    omega
  have one := (last.consumes_readWire lastFits) (last.attrs.extendedWire ++ rest)
  have all := (consumes_plain front (by omega) plain)
    (last.readWire ++ (last.attrs.extendedWire ++ rest))
  have single : readMany File.deserialize 1 =
      File.deserialize >>= fun value => pure [value] := by
    simp [readMany]
  rw [readMany_add, single, whole, List.append_assoc, List.append_assoc, run_bind_ok all,
    run_bind_ok (run_bind_ok one), List.map_append]
  rfl

theorem nameDecodes_of_readMany {id : UInt32} {files : List V3File} {rest : Bytes}
    (count : files.length < 2 ^ 32)
    (read : (readMany File.deserialize files.length).run (files.flatMap V3File.wire) =
      .ok (files.map V3File.file, rest)) : NameDecodes id files := by
  refine ⟨rest, ?_⟩
  have len : (UInt32.ofNat files.length).toNat = files.length := by
    rw [UInt32.toNat_ofNat', Nat.mod_eq_of_lt count]
  have elements : (deserializeVec File.deserialize).run
      (putU32 (UInt32.ofNat files.length) ++ files.flatMap V3File.wire) =
        .ok (files.map V3File.file, rest) := by
    rw [deserializeVec, deserializeSeq,
      run_bind_ok (consumes_deserializeU32 (UInt32.ofNat files.length) _), len,
      nextElements_run', read]
  have fields : Name.deserialize.run (putU32 id ++
      (putU32 (UInt32.ofNat files.length) ++ files.flatMap V3File.wire)) =
        .ok (⟨id, files.map V3File.file⟩, rest) := by
    rw [Name.deserialize, deserializeStruct2_eq, run_bind_ok (consumes_deserializeU32 id _),
      run_bind_ok elements]
    rfl
  have typeByte := (consumes_tryGetU8 SSH_FXP_NAME).mapErr Error.ofTryGet
  rw [v3NameBody, Packet.tryFrom, run_bind_ok (typeByte _)]
  exact run_map_ok Packet.name fields

/-- The count and the elements of a list fit if the body fits. -/
theorem files_fit_of_body {id : UInt32} {files : List V3File}
    (fits : (v3NameBody id files).length < 2 ^ 32) :
    files.length < 2 ^ 32 ∧ (files.flatMap V3File.wire).length < 2 ^ 32 := by
  simp only [v3NameBody, List.length_append, putU8_length, putU32_length] at fits
  have nonempty (f : V3File) : 0 < f.wire.length := by
    rw [V3File.wire, strWire, List.length_append, lengthPrefixed_length]
    omega
  have few := count_le_flatMap nonempty files
  constructor <;> omega

/-- Up to the first extended block the reader stays in step, so with none before
the last file the whole packet is read. -/
theorem nameDecodes_of_plain (id : UInt32) (files : List V3File)
    (fits : (v3NameBody id files).length < 2 ^ 32)
    (plain : ∀ f ∈ files.dropLast, f.attrs.extended = none) : NameDecodes id files := by
  obtain ⟨count, blocks⟩ := files_fit_of_body fits
  cases split : files.getLast? with
  | none =>
      rw [List.getLast?_eq_none_iff] at split
      subst split
      have none_read :
          (readMany File.deserialize 0).run ([].flatMap V3File.wire) = .ok ([], []) := rfl
      exact nameDecodes_of_readMany count none_read
  | some last =>
      have whole := List.dropLast_append_getLast? last split
      rw [← whole] at blocks
      have read := readMany_last files.dropLast last blocks plain []
      rw [List.append_nil, List.append_nil, whole] at read
      have length : files.dropLast.length + 1 = files.length := by
        rw [← congrArg List.length whole, List.length_append, List.length_singleton]
      rw [length] at read
      exact nameDecodes_of_readMany count read

theorem neverShifts_of_plain (id : UInt32) (files : List V3File)
    (fits : (v3NameBody id files).length < 2 ^ 32)
    (plain : ∀ f ∈ files.dropLast, f.attrs.extended = none) : NeverShifts files := by
  obtain ⟨-, blocks⟩ := files_fit_of_body fits
  rintro front back rfl nonempty
  rw [List.dropLast_append_of_ne_nil nonempty] at plain
  rw [List.flatMap_append] at blocks ⊢
  rw [List.length_append] at blocks
  exact consumes_plain front (by omega)
    (fun f member => plain f (List.mem_append_left _ member)) _

/-- The first extended block, if it is not the last file's, leaves its pairs in
front of the next file. -/
theorem plain_of_neverShifts (id : UInt32) (files : List V3File)
    (fits : (v3NameBody id files).length < 2 ^ 32) (inStep : NeverShifts files) :
    ∀ f ∈ files.dropLast, f.attrs.extended = none := by
  obtain ⟨-, blocks⟩ := files_fit_of_body fits
  by_contra someExtended
  push Not at someExtended
  obtain ⟨bad, member, extended⟩ := someExtended
  -- the first extended file among those that are not last
  obtain ⟨f, found⟩ : ∃ f, files.dropLast.find? (fun f => f.attrs.extended.isSome) = some f := by
    rw [← Option.isSome_iff_exists, List.find?_isSome]
    exact ⟨bad, member, Option.isSome_iff_ne_none.mpr extended⟩
  obtain ⟨isExtended, front, back, shape, before⟩ := List.find?_eq_some_iff_append.mp found
  have lastSplit : ∃ last, files = files.dropLast ++ [last] := by
    cases split : files.getLast? with
    | none =>
        rw [List.getLast?_eq_none_iff] at split
        subst split
        cases member
    | some last => exact ⟨last, (List.dropLast_append_getLast? last split).symm⟩
  obtain ⟨last, whole⟩ := lastSplit
  have regroup : files = (front ++ [f]) ++ (back ++ [last]) := by
    rw [whole, shape]
    simp
  have claimed := inStep (front ++ [f]) (back ++ [last]) regroup (by simp)
  rw [regroup, List.flatMap_append, List.length_append] at blocks
  have actual := readMany_last front f (by omega)
    (fun g memberG => by simpa using before g memberG) ((back ++ [last]).flatMap V3File.wire)
  rw [List.length_append, List.length_singleton] at claimed
  rw [regroup, @List.flatMap_append _ _ (front ++ [f]), actual] at claimed
  have leftovers := congrArg List.length (Prod.mk.inj (Except.ok.inj claimed)).2
  obtain ⟨pairs, isPairs⟩ := Option.isSome_iff_exists.mp isExtended
  rw [List.length_append, V3Attrs.extendedWire, isPairs, List.length_append,
    putU32_length] at leftovers
  omega

/-- NAME decoding by the grammar: exact and in step for exactly the lists in which
no file but the last carries extended pairs. -/
theorem name_decodes_iff (id : UInt32) (files : List V3File)
    (fits : (v3NameBody id files).length < 2 ^ 32) :
    (NameDecodes id files ∧ NeverShifts files) ↔
      ∀ f ∈ files.dropLast, f.attrs.extended = none := by
  constructor
  · rintro ⟨-, inStep⟩
    exact plain_of_neverShifts id files fits inStep
  · intro plain
    exact ⟨nameDecodes_of_plain id files fits plain, neverShifts_of_plain id files fits plain⟩

/-- Pairs on the last file are dropped without harm. -/
theorem name_decodes_iff_last_extended :
    let files : List V3File := [⟨"a", "a", ⟨some 3, some (1, 2), none, none, none⟩⟩,
      ⟨"b", "b", ⟨none, none, some 420, some (5, 6), some [([118], [49])]⟩⟩]
    NameDecodes 9 files ∧ NeverShifts files :=
  (name_decodes_iff 9 _ (by decide)).mpr (by decide)

/-- One pair on the first of two plain files, and the packet does not decode at all. -/
theorem name_decodes_extended_first :
    ¬ NameDecodes 9 [⟨"a", "a", ⟨none, none, none, none, some [([118, 64, 120], [49])]⟩⟩,
      ⟨"b", "b", ⟨none, none, none, none, none⟩⟩] := by
  rintro ⟨rest, decoded⟩
  have refused : Packet.tryFrom.run (v3NameBody 9
      [⟨"a", "a", ⟨none, none, none, none, some [([118, 64, 120], [49])]⟩⟩,
        ⟨"b", "b", ⟨none, none, none, none, none⟩⟩]) =
      .error (.badMessage "no remaining for vec") := by
    rfl
  rw [refused] at decoded
  cases decoded

end RusshSftp
