import RusshSftp.Client.File

/-!
# Payloads of the extensions

What the session's extended requests carry, and what is carried back by the replies to
`limits@openssh.com` and `statvfs@openssh.com`.  The two replies are words of eight bytes, so
a reply is read just when it has enough bytes, and bytes after it are not looked at.
-/

set_option autoImplicit false

namespace RusshSftp

open Utf8 ByteCodec Client

def Client.LIMITS : String := "limits@openssh.com"
def Client.HARDLINK : String := "hardlink@openssh.com"
def Client.STATVFS : String := "statvfs@openssh.com"

structure HardlinkExtension where
  oldpath : String
  newpath : String
deriving DecidableEq, Repr

structure FsyncExtension where
  handle : String
deriving DecidableEq, Repr

structure StatvfsExtension where
  path : String
deriving DecidableEq, Repr

structure Statvfs where
  /-- The file system block size -/
  blockSize : UInt64
  /-- The fundamental file system block size -/
  fragmentSize : UInt64
  /-- The number of blocks, in units of `fragmentSize` -/
  blocks : UInt64
  blocksFree : UInt64
  /-- The number of free blocks for unprivileged users -/
  blocksAvail : UInt64
  inodes : UInt64
  inodesFree : UInt64
  inodesAvail : UInt64
  fsId : UInt64
  /-- The mount flags -/
  flags : UInt64
  /-- The maximum filename length -/
  nameMax : UInt64
deriving DecidableEq, Repr

/-! ## Requests -/

def HardlinkExtension.serialize (p : HardlinkExtension) : Ser :=
  serializeStruct [serializeStr p.oldpath, serializeStr p.newpath]

def HardlinkExtension.deserialize : De HardlinkExtension :=
  deserializeStruct2 "HardlinkExtension" HardlinkExtension.mk deserializeString deserializeString

def FsyncExtension.serialize (p : FsyncExtension) : Ser := serializeStruct [serializeStr p.handle]

def FsyncExtension.deserialize : De FsyncExtension :=
  deserializeStruct 1 do
    let handle ← nextField 0 "struct FsyncExtension with 1 element" deserializeString
    pure { handle }

def StatvfsExtension.serialize (p : StatvfsExtension) : Ser := serializeStruct [serializeStr p.path]

def StatvfsExtension.deserialize : De StatvfsExtension :=
  deserializeStruct 1 do
    let path ← nextField 0 "struct StatvfsExtension with 1 element" deserializeString
    pure { path }

/-- `impl_try_into_bytes!`. -/
def HardlinkExtension.tryInto (p : HardlinkExtension) : Except Error Bytes :=
  Packet.serToBytes p.serialize

def StatvfsExtension.tryInto (p : StatvfsExtension) : Except Error Bytes :=
  Packet.serToBytes p.serialize

/-! ## Replies -/

def Client.LimitsExtension.serialize (p : LimitsExtension) : Ser :=
  serializeStruct [serializeU64 p.maxPacketLen, serializeU64 p.maxReadLen,
    serializeU64 p.maxWriteLen, serializeU64 p.maxOpenHandles]

def Client.LimitsExtension.deserialize : De LimitsExtension :=
  deserializeStruct4 "LimitsExtension" LimitsExtension.mk deserializeU64 deserializeU64
    deserializeU64 deserializeU64

def Statvfs.serialize (p : Statvfs) : Ser :=
  serializeStruct [serializeU64 p.blockSize, serializeU64 p.fragmentSize, serializeU64 p.blocks,
    serializeU64 p.blocksFree, serializeU64 p.blocksAvail, serializeU64 p.inodes,
    serializeU64 p.inodesFree, serializeU64 p.inodesAvail, serializeU64 p.fsId,
    serializeU64 p.flags, serializeU64 p.nameMax]

def Statvfs.deserialize : De Statvfs :=
  let expected := "struct Statvfs with 11 elements"
  deserializeStruct 11 do
    let blockSize ← nextField 0 expected deserializeU64
    let fragmentSize ← nextField 1 expected deserializeU64
    let blocks ← nextField 2 expected deserializeU64
    let blocksFree ← nextField 3 expected deserializeU64
    let blocksAvail ← nextField 4 expected deserializeU64
    let inodes ← nextField 5 expected deserializeU64
    let inodesFree ← nextField 6 expected deserializeU64
    let inodesAvail ← nextField 7 expected deserializeU64
    let fsId ← nextField 8 expected deserializeU64
    let flags ← nextField 9 expected deserializeU64
    let nameMax ← nextField 10 expected deserializeU64
    pure { blockSize, fragmentSize, blocks, blocksFree, blocksAvail, inodes, inodesFree,
           inodesAvail, fsId, flags, nameMax }

/-! ## Words -/

/-- The words of a reply, in the order in which they are sent. -/
def Client.LimitsExtension.words (p : LimitsExtension) : List UInt64 :=
  [p.maxPacketLen, p.maxReadLen, p.maxWriteLen, p.maxOpenHandles]

def Statvfs.words (p : Statvfs) : List UInt64 :=
  [p.blockSize, p.fragmentSize, p.blocks, p.blocksFree, p.blocksAvail, p.inodes, p.inodesFree,
    p.inodesAvail, p.fsId, p.flags, p.nameMax]

/-- Bytes that run out before the word is complete. -/
def wordMissing (left : Nat) : Error := Error.ofTryGet ⟨8, left⟩

theorem deserializeU64_short {input : Bytes} (short : input.length < 8) :
    deserializeU64.run input = .error (wordMissing input.length) := by
  have missing : (tryGet 8).run input = .error ⟨8, input.length⟩ := if_pos short
  show (tryGetU64.run input).mapError Error.ofTryGet = _
  rw [tryGetU64, StateT.run_map, missing]
  rfl

theorem deserializeU64_long {input : Bytes} (enough : 8 ≤ input.length) :
    ∃ v, input = putU64 v ++ input.drop 8 ∧ deserializeU64.run input = .ok (v, input.drop 8) := by
  have word : (tryGet 8).run input = .ok (BigEndian.beNat (input.take 8), input.drop 8) :=
    if_neg (by omega)
  have read := run_map_ok UInt64.ofNat word
  exact ⟨_, tryGetU64_ok read, by
    show (tryGetU64.run input).mapError Error.ofTryGet = _
    rw [tryGetU64, read]
    rfl⟩

theorem readWords_long (count : Nat) {input : Bytes} (enough : 8 * count ≤ input.length) :
    ∃ values : List UInt64, values.length = count ∧
      input = values.flatMap putU64 ++ input.drop (8 * count) ∧
      (readMany deserializeU64 count).run input = .ok (values, input.drop (8 * count)) := by
  induction count generalizing input with
  | zero => exact ⟨[], rfl, rfl, rfl⟩
  | succ count ih =>
      have first : 8 ≤ input.length := by omega
      have rest : 8 * count ≤ (input.drop 8).length := by
        rw [List.length_drop]
        omega
      obtain ⟨v, front, read⟩ := deserializeU64_long first
      obtain ⟨values, length, back, later⟩ := ih rest
      have left : (input.drop 8).drop (8 * count) = input.drop (8 * (count + 1)) := by
        rw [List.drop_drop]
        congr 1
        omega
      rw [left] at back later
      refine ⟨v :: values, by rw [List.length_cons, length], ?_, ?_⟩
      · rw [List.flatMap_cons, List.append_assoc, ← back]
        exact front
      · rw [readMany, run_bind_ok read, run_bind_ok later]
        rfl

theorem readWords_short (count : Nat) {input : Bytes} (short : input.length < 8 * count) :
    (readMany deserializeU64 count).run input = .error (wordMissing (input.length % 8)) := by
  induction count generalizing input with
  | zero => omega
  | succ count ih =>
      by_cases missing : input.length < 8
      · rw [readMany, StateT.run_bind, deserializeU64_short missing, Nat.mod_eq_of_lt missing]
        rfl
      · have rest : (input.drop 8).length < 8 * count := by
          rw [List.length_drop]
          omega
        obtain ⟨v, -, read⟩ := deserializeU64_long (Nat.not_lt.mp missing)
        have later := ih rest
        have left : (input.drop 8).length % 8 = input.length % 8 := by
          rw [List.length_drop]
          omega
        rw [readMany, run_bind_ok read, StateT.run_bind, later, left]
        rfl

/-- A derived reader of `count` words: it reads a reply of enough bytes, and the words that it
takes are those of its value. -/
structure ReadsWords {α : Type} (r : De α) (words : α → List UInt64) (count : Nat) : Prop where
  length : ∀ v, (words v).length = count
  consumes : ∀ v, Consumes r ((words v).flatMap putU64) v
  long : ∀ input, 8 * count ≤ input.length → ∃ v,
    input = (words v).flatMap putU64 ++ input.drop (8 * count) ∧
      r.run input = .ok (v, input.drop (8 * count))
  short : ∀ input, input.length < 8 * count →
    r.run input = .error (wordMissing (input.length % 8))

theorem readsWords_of_map {α : Type} (words : α → List UInt64) {count : Nat}
    (make : List UInt64 → α) (length : ∀ v, (words v).length = count)
    (whole : ∀ v, make (words v) = v)
    (made : ∀ values, values.length = count → words (make values) = values)
    {r : De α} (same : r = make <$> readMany deserializeU64 count) : ReadsWords r words count where
  length := length
  consumes v := by
    have read := (consumes_readMany deserializeU64 putU64 id (words v)
      fun word _ => consumes_deserializeU64 word).map make
    rw [length, List.map_id, whole] at read
    rw [same]
    exact read
  long input enough := by
    obtain ⟨values, length, spelled, read⟩ := readWords_long count enough
    refine ⟨make values, ?_, ?_⟩
    · rw [made values length]
      exact spelled
    · rw [same]
      exact run_map_ok make read
  short input short := by
    rw [same, StateT.run_map, readWords_short count short]
    rfl

/-- What follows the words is not looked at. -/
theorem ReadsWords.ok_iff {α : Type} {r : De α} {words : α → List UInt64} {count : Nat}
    (reads : ReadsWords r words count) (input : Bytes) (v : α) :
    r.run' input = .ok v ↔ ∃ rest, input = (words v).flatMap putU64 ++ rest := by
  rw [StateT.run'_eq]
  constructor
  · intro read
    by_cases enough : 8 * count ≤ input.length
    · obtain ⟨v', spelled, found⟩ := reads.long input enough
      rw [found] at read
      cases read
      exact ⟨_, spelled⟩
    · rw [reads.short input (by omega)] at read
      cases read
  · rintro ⟨rest, rfl⟩
    rw [reads.consumes v rest]
    rfl

/-- The reply whose words these are, if there are as many as it has. -/
def Client.LimitsExtension.ofWords : List UInt64 → LimitsExtension
  | [a, b, c, d] => ⟨a, b, c, d⟩
  | _ => ⟨0, 0, 0, 0⟩

def Statvfs.ofWords : List UInt64 → Statvfs
  | [a, b, c, d, e, f, g, h, i, j, k] => ⟨a, b, c, d, e, f, g, h, i, j, k⟩
  | _ => ⟨0, 0, 0, 0, 0, 0, 0, 0, 0, 0, 0⟩

theorem Client.LimitsExtension.readsWords : ReadsWords deserialize words 4 := by
  refine readsWords_of_map words ofWords (fun _ => rfl) (fun _ => rfl) ?_ ?_
  · intro values length
    match values, length with
    | [a, b, c, d], _ => rfl
  · rw [deserialize, deserializeStruct4_eq]
    simp [readMany, ofWords]

theorem Statvfs.readsWords : ReadsWords deserialize words 11 := by
  refine readsWords_of_map words ofWords (fun _ => rfl) (fun _ => rfl) ?_ ?_
  · intro values length
    match values, length with
    | [a, b, c, d, e, f, g, h, i, j, k], _ => rfl
  · simp [deserialize, deserializeStruct, deserializeTuple, StateT.run'_eq, StateT.run_bind,
      nextField_run_succ, readMany, ofWords]

/-! ## What is written -/

theorem appends_words (values : List UInt64) :
    Appends (serializeStruct (values.map serializeU64)) (values.flatMap putU64) := by
  induction values with
  | nil => exact appends_serializeStruct_nil
  | cons value values ih =>
      exact appends_serializeStruct_cons (appends_serializeU64 value) ih

theorem serToBytes_of_appends {w : Ser} {bytes : Bytes} (written : Appends w bytes) :
    Packet.serToBytes w = .ok bytes := by
  rw [Packet.serToBytes, written []]
  rfl

theorem Client.LimitsExtension.toBytes (p : LimitsExtension) :
    Packet.serToBytes p.serialize = .ok (p.words.flatMap putU64) :=
  serToBytes_of_appends (appends_words p.words)

theorem Statvfs.toBytes (p : Statvfs) :
    Packet.serToBytes p.serialize = .ok (p.words.flatMap putU64) :=
  serToBytes_of_appends (appends_words p.words)

theorem FsyncExtension.toBytes (p : FsyncExtension) :
    Packet.serToBytes p.serialize = .ok (lengthPrefixed (utf8Bytes p.handle)) :=
  Client.fsyncExtension_eq p.handle

theorem FsyncExtension.reads (p : FsyncExtension) (fits : (utf8Bytes p.handle).length < 2 ^ 32) :
    Consumes deserialize (lengthPrefixed (utf8Bytes p.handle)) p := by
  have fields : deserialize = FsyncExtension.mk <$> deserializeString := by
    simp [deserialize, deserializeStruct, deserializeTuple, StateT.run'_eq, nextField_run_succ]
  rw [fields]
  exact (consumes_deserializeString p.handle fits).map FsyncExtension.mk

theorem StatvfsExtension.tryInto_eq (p : StatvfsExtension) :
    p.tryInto = .ok (lengthPrefixed (utf8Bytes p.path)) := by
  have written : Appends p.serialize (lengthPrefixed (utf8Bytes p.path) ++ []) :=
    appends_serializeStruct_cons (appends_serializeStr p.path) appends_serializeStruct_nil
  rw [List.append_nil] at written
  exact serToBytes_of_appends written

theorem StatvfsExtension.reads (p : StatvfsExtension) (fits : (utf8Bytes p.path).length < 2 ^ 32) :
    Consumes deserialize (lengthPrefixed (utf8Bytes p.path)) p := by
  have fields : deserialize = StatvfsExtension.mk <$> deserializeString := by
    simp [deserialize, deserializeStruct, deserializeTuple, StateT.run'_eq, nextField_run_succ]
  rw [fields]
  exact (consumes_deserializeString p.path fits).map StatvfsExtension.mk

theorem HardlinkExtension.tryInto_eq (p : HardlinkExtension) :
    p.tryInto = .ok (lengthPrefixed (utf8Bytes p.oldpath) ++ lengthPrefixed (utf8Bytes p.newpath))
    := by
  have written : Appends p.serialize (lengthPrefixed (utf8Bytes p.oldpath) ++
      (lengthPrefixed (utf8Bytes p.newpath) ++ [])) :=
    appends_serializeStruct_cons (appends_serializeStr p.oldpath)
      (appends_serializeStruct_cons (appends_serializeStr p.newpath) appends_serializeStruct_nil)
  rw [List.append_nil] at written
  exact serToBytes_of_appends written

theorem HardlinkExtension.reads (p : HardlinkExtension)
    (fits : (utf8Bytes p.oldpath).length < 2 ^ 32 ∧ (utf8Bytes p.newpath).length < 2 ^ 32) :
    Consumes deserialize
      (lengthPrefixed (utf8Bytes p.oldpath) ++ lengthPrefixed (utf8Bytes p.newpath)) p := by
  rw [deserialize, deserializeStruct2_eq]
  refine (consumes_deserializeString p.oldpath fits.1).bind ?_
  rw [bind_pure_comp]
  exact (consumes_deserializeString p.newpath fits.2).map _

end RusshSftp
