import RusshSftp.Protocol.FileAttrs

/-!
# File types in the mode bits

A Unix mode has the type of the file in four of its bits, as a number and not as a set of flags.
The setters of `FileAttributes` put in and take out these numbers as if they were flags, and so
does the conversion of the metadata of a local file.
-/

set_option autoImplicit false

namespace RusshSftp

/-- Type according to mode unix. -/
structure FileMode where
  bits : UInt32
deriving DecidableEq, Repr

namespace FileMode

def fifo : FileMode := ⟨0x1000⟩
def chr : FileMode := ⟨0x2000⟩
def dir : FileMode := ⟨0x4000⟩
def nam : FileMode := ⟨0x5000⟩
def blk : FileMode := ⟨0x6000⟩
def reg : FileMode := ⟨0x8000⟩
def lnk : FileMode := ⟨0xA000⟩
def sock : FileMode := ⟨0xC000⟩

def union (left right : FileMode) : FileMode := ⟨left.bits ||| right.bits⟩

def all : FileMode :=
  ((((((fifo.union chr).union dir).union nam).union blk).union reg).union lnk).union sock

def fromBitsTruncate (bits : UInt32) : FileMode := ⟨bits &&& all.bits⟩

/-- The types of POSIX. -/
def posix : List FileMode := [fifo, chr, dir, blk, reg, lnk, sock]

end FileMode

/-- Represents a simplified version of the `FileMode`. -/
inductive FileType where
  | dir
  | file
  | symlink
  | other
deriving DecidableEq, Repr

namespace FileType

/-- `impl From<FileMode> for FileType`. -/
def ofMode (mode : FileMode) : FileType :=
  if mode = .dir then .dir
  else if mode = .lnk then .symlink
  else if mode = .reg then .file
  else .other

/-- `impl From<u32> for FileType`. -/
def ofBits (mode : UInt32) : FileType := ofMode (.fromBitsTruncate mode)

end FileType

/-- What `FileAttributes::from` reads of the metadata of a file on Unix.  A time is in seconds, and
`none` where the platform has none. -/
structure Metadata where
  len : UInt64
  uid : UInt32
  gid : UInt32
  mode : UInt32
  accessed : Option Int
  modified : Option Int
deriving DecidableEq, Repr

/-- The type of a file, among its mode bits. -/
def Metadata.type (metadata : Metadata) : UInt32 := metadata.mode &&& 0xF000

def Metadata.isDir (metadata : Metadata) : Bool := metadata.type == 0x4000

/-- `utils::unix`: the seconds of a time, `as u32`. -/
def unix (time : Int) : UInt32 := UInt32.ofNat (time % 2 ^ 32).toNat

namespace FileAttributes

/-- For packets which require dummy attributes. -/
def default : FileAttributes where
  size := some 0
  uid := some 0
  user := none
  gid := some 0
  group := none
  permissions := some (0o777 ||| FileMode.dir.bits)
  atime := some 0
  mtime := some 0

/-- Set mode flag. -/
def setType (attrs : FileAttributes) (mode : FileMode) : FileAttributes :=
  { attrs with permissions := some (attrs.permissions.getD 0 ||| mode.bits) }

/-- Remove mode flag. -/
def removeType (attrs : FileAttributes) (mode : FileMode) : FileAttributes :=
  { attrs with permissions := some (attrs.permissions.getD 0 &&& ~~~mode.bits) }

/-- The setters of `impl_fn_type!`. -/
def setFlag (flag : FileMode) (attrs : FileAttributes) (set : Bool) : FileAttributes :=
  match set with
  | true => attrs.setType flag
  | false => attrs.removeType flag

def setDir := setFlag .dir
def setRegular := setFlag .reg

/-- Returns the file type. -/
def fileType (attrs : FileAttributes) : FileType :=
  .ofMode (.fromBitsTruncate (attrs.permissions.getD 0))

/-- `impl From<&Metadata> for FileAttributes`. -/
def ofMetadata (metadata : Metadata) : FileAttributes :=
  let attrs : FileAttributes := { default with
    size := some metadata.len
    uid := some metadata.uid
    gid := some metadata.gid
    permissions := some metadata.mode
    atime := some (unix (metadata.accessed.getD 0))
    mtime := some (unix (metadata.modified.getD 0)) }
  (attrs.setDir metadata.isDir).setRegular !metadata.isDir

end FileAttributes

/-! ## Bits of a word -/

theorem and_or_distrib (a b mask : UInt32) :
    (a ||| b) &&& mask = (a &&& mask) ||| (b &&& mask) := by
  rw [← UInt32.toBitVec_inj]
  simpa using BitVec.and_or_distrib_right

theorem and_swap (a b mask : UInt32) : (a &&& b) &&& mask = (a &&& mask) &&& b := by
  rw [UInt32.and_assoc, UInt32.and_comm b, ← UInt32.and_assoc]

/-- Setting the bits that are set, and clearing those that are clear, changes nothing. -/
theorem or_of_and_eq {a flag : UInt32} (set : a &&& flag = flag) : a ||| flag = a := by
  rw [← UInt32.toBitVec_inj] at set ⊢
  simp only [UInt32.toBitVec_and, UInt32.toBitVec_or] at set ⊢
  ext i bound
  have bit := congrArg (fun v => v[i]) set
  simp only [BitVec.getElem_and, BitVec.getElem_or] at bit ⊢
  cases at_a : a.toBitVec[i] <;> cases at_flag : flag.toBitVec[i] <;> rw [at_a, at_flag] at bit <;>
    first | rfl | cases bit

theorem and_not_of_and_eq_zero {a flag : UInt32} (clear : a &&& flag = 0) :
    a &&& ~~~flag = a := by
  rw [← UInt32.toBitVec_inj] at clear ⊢
  simp only [UInt32.toBitVec_and, UInt32.toBitVec_not] at clear ⊢
  ext i bound
  have bit := congrArg (fun v => v[i]) clear
  simp only [BitVec.getElem_and, BitVec.getElem_not] at bit ⊢
  cases at_a : a.toBitVec[i] <;> cases at_flag : flag.toBitVec[i] <;> rw [at_a, at_flag] at bit <;>
    first | rfl | simp at bit

/-! ## What the conversion makes of the type -/

/-- The two setters on the type bits. -/
def convertType (type : UInt32) : UInt32 :=
  if type = 0x4000 then (type ||| 0x4000) &&& ~~~0x8000 else (type &&& ~~~0x4000) ||| 0x8000

section
variable (metadata : Metadata)

theorem ofMetadata_permissions :
    (FileAttributes.ofMetadata metadata).permissions =
      some (if metadata.type = 0x4000 then (metadata.mode ||| 0x4000) &&& ~~~0x8000
        else (metadata.mode &&& ~~~0x4000) ||| 0x8000) := by
  unfold FileAttributes.ofMetadata Metadata.isDir
  by_cases dir : metadata.type = 0x4000
  · rw [beq_iff_eq.mpr dir, if_pos dir]
    rfl
  · rw [beq_eq_false_iff_ne.mpr dir, if_neg dir]
    rfl

/-- Whatever the other bits are, the type bits are converted by themselves. -/
theorem converted_type {permissions : UInt32}
    (converted : (FileAttributes.ofMetadata metadata).permissions = some permissions) :
    permissions &&& 0xF000 = convertType metadata.type := by
  rw [ofMetadata_permissions] at converted
  cases converted
  unfold convertType Metadata.type
  have dir : (0x4000 : UInt32) &&& 0xF000 = 0x4000 := by decide
  have reg : (0x8000 : UInt32) &&& 0xF000 = 0x8000 := by decide
  split
  · rw [and_swap, and_or_distrib, dir]
  · rw [and_or_distrib, and_swap, reg]

theorem type_and {flag : UInt32} (within : 0xF000 &&& flag = flag) :
    metadata.mode &&& flag = metadata.type &&& flag := by
  rw [Metadata.type, UInt32.and_assoc, within]

end

/-- The attributes have the mode of the file, and so its type. -/
def PreservesMode (metadata : Metadata) : Prop :=
  (FileAttributes.ofMetadata metadata).permissions = some metadata.mode ∧
    (FileAttributes.ofMetadata metadata).fileType = .ofBits metadata.mode

/-- Of the types of POSIX, directories, regular files and links are preserved, and no others. -/
theorem mode_preserved_iff (metadata : Metadata) (posix : ⟨metadata.type⟩ ∈ FileMode.posix) :
    PreservesMode metadata ↔ FileMode.mk metadata.type ∈ [FileMode.dir, .reg, .lnk] := by
  constructor
  · rintro ⟨same, _⟩
    have kept : metadata.type = convertType metadata.type := converted_type metadata same
    generalize metadata.type = type at posix kept ⊢
    simp only [FileMode.posix, List.mem_cons, List.not_mem_nil, or_false] at posix
    rcases posix with same | same | same | same | same | same | same <;>
      obtain rfl : type = _ := congrArg FileMode.bits same <;>
      first | decide | exact absurd kept (by decide)
  · intro plain
    have same : (FileAttributes.ofMetadata metadata).permissions = some metadata.mode := by
      rw [ofMetadata_permissions]
      have dir : metadata.mode &&& 0x4000 = metadata.type &&& 0x4000 :=
        type_and metadata (by decide)
      have reg : metadata.mode &&& 0x8000 = metadata.type &&& 0x8000 :=
        type_and metadata (by decide)
      simp only [List.mem_cons, List.not_mem_nil, or_false] at plain
      rcases plain with isDir | isReg | isLnk
      · have type : metadata.type = 0x4000 := congrArg FileMode.bits isDir
        rw [type] at dir reg
        rw [if_pos type, or_of_and_eq dir, and_not_of_and_eq_zero reg]
      · have type : metadata.type = 0x8000 := congrArg FileMode.bits isReg
        rw [type] at dir reg
        rw [if_neg (by rw [type]; decide), and_not_of_and_eq_zero dir, or_of_and_eq reg]
      · have type : metadata.type = 0xA000 := congrArg FileMode.bits isLnk
        rw [type] at dir reg
        rw [if_neg (by rw [type]; decide), and_not_of_and_eq_zero dir, or_of_and_eq reg]
    exact ⟨same, by rw [FileAttributes.fileType, same]; rfl⟩

/-- A link with all its permissions. -/
theorem mode_preserved_iff_link : PreservesMode ⟨9, 0, 0, 0xA1FF, none, none⟩ :=
  (mode_preserved_iff ⟨9, 0, 0, 0xA1FF, none, none⟩ (by decide)).mpr (by decide)

/-- A block device becomes a link, and a socket a regular file. -/
theorem mode_converted :
    (FileAttributes.ofMetadata ⟨0, 0, 6, 0x61B0, none, none⟩).permissions = some 0xA1B0 ∧
      (FileAttributes.ofMetadata ⟨0, 0, 6, 0x61B0, none, none⟩).fileType = .symlink ∧
      FileType.ofBits 0x61B0 = .other ∧
      (FileAttributes.ofMetadata ⟨0, 0, 0, 0xC1ED, none, none⟩).fileType = .file ∧
      ¬ PreservesMode ⟨0, 0, 6, 0x61B0, none, none⟩ := by
  refine ⟨by decide, by decide, by decide, by decide, ?_⟩
  rintro ⟨same, _⟩
  exact absurd same (by decide)

end RusshSftp
