import RusshSftp.Protocol.FileAttrs

/-!
# The packets of the protocol

One structure for each packet, with its derived `Serialize` and `Deserialize`:
the fields in declaration order.  `Extended` and `ExtendedReply` keep their data
without a length, up to the end of the packet; so do the extensions of `Init`
and `Version`.
-/

set_option autoImplicit false

namespace RusshSftp

open Utf8 ByteCodec

def VERSION : UInt32 := 3

/-! ## Extensions -/

/-- A `HashMap<String, String>`, listed in its iteration order. -/
structure Extensions where
  entries : List (String × String)
  nodup : (entries.map Prod.fst).Nodup
deriving DecidableEq, Repr

namespace Extensions

def empty : Extensions := ⟨[], List.nodup_nil⟩

def get (extensions : Extensions) (key : String) : Option String :=
  extensions.entries.lookup key

/-- The value of a key that is there is replaced, a new key is added. -/
def insertEntry (entry : String × String) : List (String × String) → List (String × String)
  | [] => [entry]
  | old :: rest =>
    if old.1 = entry.1 then (old.1, entry.2) :: rest else old :: insertEntry entry rest

theorem insertEntry_keys (entry : String × String) (entries : List (String × String)) :
    (insertEntry entry entries).map Prod.fst =
      if entry.1 ∈ entries.map Prod.fst then entries.map Prod.fst
      else entries.map Prod.fst ++ [entry.1] := by
  induction entries with
  | nil => rfl
  | cons old rest ih =>
      by_cases same : old.1 = entry.1
      · simp [insertEntry, same]
      · have differ : ¬ entry.1 = old.1 := fun e => same e.symm
        simp only [insertEntry, same, if_false, List.map_cons, ih, List.mem_cons, differ, false_or]
        split <;> rfl

def insert (extensions : Extensions) (entry : String × String) : Extensions where
  entries := insertEntry entry extensions.entries
  nodup := by
    rw [insertEntry_keys]
    split
    · exact extensions.nodup
    · rename_i absent
      exact List.nodup_append.mpr ⟨extensions.nodup, List.nodup_singleton _,
        fun key member other single => by
          rw [List.mem_singleton.mp single]
          rintro rfl
          exact absent member⟩

/-- The same map, whatever the iteration order. -/
def SameMap (left right : Extensions) : Prop := ∀ key, left.get key = right.get key

theorem insertEntry_absent (entry : String × String) (entries : List (String × String))
    (absent : entry.1 ∉ entries.map Prod.fst) :
    insertEntry entry entries = entries ++ [entry] := by
  induction entries with
  | nil => rfl
  | cons old rest ih =>
      rw [List.map_cons, List.mem_cons, not_or] at absent
      rw [insertEntry, if_neg (fun e => absent.1 e.symm), ih absent.2, List.cons_append]

theorem foldl_insert_entries (entries : List (String × String)) (extensions : Extensions)
    (nodup : ((extensions.entries ++ entries).map Prod.fst).Nodup) :
    (entries.foldl insert extensions).entries = extensions.entries ++ entries := by
  induction entries generalizing extensions with
  | nil => simp
  | cons entry rest ih =>
      have absent : entry.1 ∉ extensions.entries.map Prod.fst := by
        rw [List.map_append, List.map_cons, List.nodup_append] at nodup
        intro member
        exact nodup.2.2 entry.1 member entry.1 (List.mem_cons_self ..) rfl
      have added : (extensions.insert entry).entries = extensions.entries ++ [entry] :=
        insertEntry_absent entry extensions.entries absent
      rw [List.foldl_cons, ih (extensions.insert entry) (by rw [added]; simpa using nodup), added,
        List.append_assoc, List.singleton_append]

/-- Reading the entries of a map back gives that map. -/
theorem foldl_insert_empty (extensions : Extensions) :
    extensions.entries.foldl insert empty = extensions := by
  have same := foldl_insert_entries extensions.entries empty extensions.nodup
  obtain ⟨entries, nodup⟩ := extensions
  cases folded : entries.foldl insert empty with
  | mk got gotNodup =>
      rw [folded] at same
      simp only [empty, List.nil_append] at same
      subst same
      rfl

def serialize (extensions : Extensions) : Ser := serializeMap extensions.entries

def deserialize : De Extensions := deserializeMap empty insert

end Extensions

/-! ## Status codes and open flags -/

/-- Error codes for `SSH_FXP_STATUS`. -/
inductive StatusCode where
  | ok
  | eof
  | noSuchFile
  | permissionDenied
  | failure
  | badMessage
  | noConnection
  | connectionLost
  | opUnsupported
deriving DecidableEq, Repr

namespace StatusCode

def variants : List StatusCode :=
  [.ok, .eof, .noSuchFile, .permissionDenied, .failure, .badMessage, .noConnection,
    .connectionLost, .opUnsupported]

def variantIndex : StatusCode → UInt32
  | .ok => 0
  | .eof => 1
  | .noSuchFile => 2
  | .permissionDenied => 3
  | .failure => 4
  | .badMessage => 5
  | .noConnection => 6
  | .connectionLost => 7
  | .opUnsupported => 8

def display : StatusCode → String
  | .ok => "Ok"
  | .eof => "Eof"
  | .noSuchFile => "No such file"
  | .permissionDenied => "Permission denied"
  | .failure => "Failure"
  | .badMessage => "Bad message"
  | .noConnection => "No connection"
  | .connectionLost => "Connection lost"
  | .opUnsupported => "Operation unsupported"

def serialize (code : StatusCode) : Ser := serializeUnitVariant code.variantIndex

def deserialize : De StatusCode := deserializeUnitEnum variants

theorem variants_variantIndex (code : StatusCode) :
    variants[code.variantIndex.toNat]? = some code := by
  cases code <;> rfl

end StatusCode

/-- Opening flags according to the specification. -/
structure OpenFlags where
  bits : UInt32
deriving DecidableEq, Repr

namespace OpenFlags

def read : OpenFlags := ⟨0x00000001⟩
def write : OpenFlags := ⟨0x00000002⟩
def append : OpenFlags := ⟨0x00000004⟩
def create : OpenFlags := ⟨0x00000008⟩
def truncate : OpenFlags := ⟨0x00000010⟩
def exclude : OpenFlags := ⟨0x00000020⟩

def serialize (flags : OpenFlags) : Ser := serializeNewtypeStruct (serializeU32 flags.bits)

def deserialize : De OpenFlags := deserializeNewtypeStruct (OpenFlags.mk <$> deserializeU32)

end OpenFlags

/-! ## Packets -/

structure Init where
  version : UInt32
  extensions : Extensions
deriving DecidableEq, Repr

def Init.new : Init := ⟨VERSION, .empty⟩

structure Version where
  version : UInt32
  extensions : Extensions
deriving DecidableEq, Repr

def Version.new : Version := ⟨VERSION, .empty⟩

structure Open where
  id : UInt32
  filename : String
  pflags : OpenFlags
  attrs : FileAttributes
deriving DecidableEq, Repr

structure Close where
  id : UInt32
  handle : String
deriving DecidableEq, Repr

structure Read where
  id : UInt32
  handle : String
  offset : UInt64
  len : UInt32
deriving DecidableEq, Repr

structure Write where
  id : UInt32
  handle : String
  offset : UInt64
  data : Bytes
deriving DecidableEq, Repr

structure Lstat where
  id : UInt32
  path : String
deriving DecidableEq, Repr

structure Fstat where
  id : UInt32
  handle : String
deriving DecidableEq, Repr

structure SetStat where
  id : UInt32
  path : String
  attrs : FileAttributes
deriving DecidableEq, Repr

structure FSetStat where
  id : UInt32
  handle : String
  attrs : FileAttributes
deriving DecidableEq, Repr

structure OpenDir where
  id : UInt32
  path : String
deriving DecidableEq, Repr

structure ReadDir where
  id : UInt32
  handle : String
deriving DecidableEq, Repr

structure Remove where
  id : UInt32
  filename : String
deriving DecidableEq, Repr

structure MkDir where
  id : UInt32
  path : String
  attrs : FileAttributes
deriving DecidableEq, Repr

structure RmDir where
  id : UInt32
  path : String
deriving DecidableEq, Repr

structure RealPath where
  id : UInt32
  path : String
deriving DecidableEq, Repr

structure Stat where
  id : UInt32
  path : String
deriving DecidableEq, Repr

structure Rename where
  id : UInt32
  oldpath : String
  newpath : String
deriving DecidableEq, Repr

structure ReadLink where
  id : UInt32
  path : String
deriving DecidableEq, Repr

structure Symlink where
  id : UInt32
  linkpath : String
  targetpath : String
deriving DecidableEq, Repr

structure Status where
  id : UInt32
  statusCode : StatusCode
  errorMessage : String
  languageTag : String
deriving DecidableEq, Repr

structure Handle where
  id : UInt32
  handle : String
deriving DecidableEq, Repr

structure Data where
  id : UInt32
  data : Bytes
deriving DecidableEq, Repr

structure File where
  filename : String
  longname : String
  attrs : FileAttributes
deriving DecidableEq, Repr

structure Name where
  id : UInt32
  files : List File
deriving DecidableEq, Repr

structure Attrs where
  id : UInt32
  attrs : FileAttributes
deriving DecidableEq, Repr

structure Extended where
  id : UInt32
  request : String
  data : Bytes
deriving DecidableEq, Repr

structure ExtendedReply where
  id : UInt32
  data : Bytes
deriving DecidableEq, Repr

/-! ## Derived `Serialize` -/

/-- The layout of most requests: an id and one string. -/
def serializeIdStr (id : UInt32) (text : String) : Ser :=
  serializeStruct [serializeU32 id, serializeStr text]

/-- The layout of the requests that change attributes: an id, a string and attributes. -/
def serializeIdStrAttrs (id : UInt32) (text : String) (attrs : FileAttributes) : Ser :=
  serializeStruct [serializeU32 id, serializeStr text, attrs.serialize]

/-- The layout of the requests with two paths. -/
def serializeIdStrStr (id : UInt32) (first second : String) : Ser :=
  serializeStruct [serializeU32 id, serializeStr first, serializeStr second]

def Init.serialize (p : Init) : Ser :=
  serializeStruct [serializeU32 p.version, p.extensions.serialize]
def Version.serialize (p : Version) : Ser :=
  serializeStruct [serializeU32 p.version, p.extensions.serialize]
def Open.serialize (p : Open) : Ser :=
  serializeStruct [serializeU32 p.id, serializeStr p.filename, p.pflags.serialize,
    p.attrs.serialize]
def Close.serialize (p : Close) : Ser := serializeIdStr p.id p.handle
def Read.serialize (p : Read) : Ser :=
  serializeStruct [serializeU32 p.id, serializeStr p.handle, serializeU64 p.offset,
    serializeU32 p.len]
def Write.serialize (p : Write) : Ser :=
  serializeStruct [serializeU32 p.id, serializeStr p.handle, serializeU64 p.offset,
    serializeVec serializeU8 p.data]
def Lstat.serialize (p : Lstat) : Ser := serializeIdStr p.id p.path
def Fstat.serialize (p : Fstat) : Ser := serializeIdStr p.id p.handle
def SetStat.serialize (p : SetStat) : Ser := serializeIdStrAttrs p.id p.path p.attrs
def FSetStat.serialize (p : FSetStat) : Ser := serializeIdStrAttrs p.id p.handle p.attrs
def OpenDir.serialize (p : OpenDir) : Ser := serializeIdStr p.id p.path
def ReadDir.serialize (p : ReadDir) : Ser := serializeIdStr p.id p.handle
def Remove.serialize (p : Remove) : Ser := serializeIdStr p.id p.filename
def MkDir.serialize (p : MkDir) : Ser := serializeIdStrAttrs p.id p.path p.attrs
def RmDir.serialize (p : RmDir) : Ser := serializeIdStr p.id p.path
def RealPath.serialize (p : RealPath) : Ser := serializeIdStr p.id p.path
def Stat.serialize (p : Stat) : Ser := serializeIdStr p.id p.path
def Rename.serialize (p : Rename) : Ser := serializeIdStrStr p.id p.oldpath p.newpath
def ReadLink.serialize (p : ReadLink) : Ser := serializeIdStr p.id p.path
def Symlink.serialize (p : Symlink) : Ser := serializeIdStrStr p.id p.linkpath p.targetpath
def Status.serialize (p : Status) : Ser :=
  serializeStruct [serializeU32 p.id, p.statusCode.serialize, serializeStr p.errorMessage,
    serializeStr p.languageTag]
def Handle.serialize (p : Handle) : Ser := serializeIdStr p.id p.handle
def Data.serialize (p : Data) : Ser :=
  serializeStruct [serializeU32 p.id, serializeVec serializeU8 p.data]
def File.serialize (p : File) : Ser :=
  serializeStruct [serializeStr p.filename, serializeStr p.longname, p.attrs.serialize]
def Name.serialize (p : Name) : Ser :=
  serializeStruct [serializeU32 p.id, serializeVec File.serialize p.files]
def Attrs.serialize (p : Attrs) : Ser := serializeStruct [serializeU32 p.id, p.attrs.serialize]
def Extended.serialize (p : Extended) : Ser :=
  serializeStruct [serializeU32 p.id, serializeStr p.request, dataSerialize p.data]
def ExtendedReply.serialize (p : ExtendedReply) : Ser :=
  serializeStruct [serializeU32 p.id, dataSerialize p.data]

/-! ## Derived `Deserialize` -/

section Layouts
variable {τ : Type}

def deserializeIdStr (name : String) (mk : UInt32 → String → τ) : De τ :=
  deserializeStruct2 name mk deserializeU32 deserializeString

def deserializeIdStrAttrs (name : String) (mk : UInt32 → String → FileAttributes → τ) : De τ :=
  deserializeStruct3 name mk deserializeU32 deserializeString FileAttributes.deserialize

def deserializeIdStrStr (name : String) (mk : UInt32 → String → String → τ) : De τ :=
  deserializeStruct3 name mk deserializeU32 deserializeString deserializeString

end Layouts

def Init.deserialize : De Init :=
  deserializeStruct2 "Init" Init.mk deserializeU32 Extensions.deserialize
def Version.deserialize : De Version :=
  deserializeStruct2 "Version" Version.mk deserializeU32 Extensions.deserialize
def Open.deserialize : De Open :=
  deserializeStruct4 "Open" Open.mk deserializeU32 deserializeString OpenFlags.deserialize
    FileAttributes.deserialize
def Close.deserialize : De Close := deserializeIdStr "Close" Close.mk
def Read.deserialize : De Read :=
  deserializeStruct4 "Read" Read.mk deserializeU32 deserializeString deserializeU64 deserializeU32
def Write.deserialize : De Write :=
  deserializeStruct4 "Write" Write.mk deserializeU32 deserializeString deserializeU64
    (deserializeVec deserializeU8)
def Lstat.deserialize : De Lstat := deserializeIdStr "Lstat" Lstat.mk
def Fstat.deserialize : De Fstat := deserializeIdStr "Fstat" Fstat.mk
def SetStat.deserialize : De SetStat := deserializeIdStrAttrs "SetStat" SetStat.mk
def FSetStat.deserialize : De FSetStat := deserializeIdStrAttrs "FSetStat" FSetStat.mk
def OpenDir.deserialize : De OpenDir := deserializeIdStr "OpenDir" OpenDir.mk
def ReadDir.deserialize : De ReadDir := deserializeIdStr "ReadDir" ReadDir.mk
def Remove.deserialize : De Remove := deserializeIdStr "Remove" Remove.mk
def MkDir.deserialize : De MkDir := deserializeIdStrAttrs "MkDir" MkDir.mk
def RmDir.deserialize : De RmDir := deserializeIdStr "RmDir" RmDir.mk
def RealPath.deserialize : De RealPath := deserializeIdStr "RealPath" RealPath.mk
def Stat.deserialize : De Stat := deserializeIdStr "Stat" Stat.mk
def Rename.deserialize : De Rename := deserializeIdStrStr "Rename" Rename.mk
def ReadLink.deserialize : De ReadLink := deserializeIdStr "ReadLink" ReadLink.mk
def Symlink.deserialize : De Symlink := deserializeIdStrStr "Symlink" Symlink.mk
def Status.deserialize : De Status :=
  deserializeStruct4 "Status" Status.mk deserializeU32 StatusCode.deserialize deserializeString
    deserializeString
def Handle.deserialize : De Handle := deserializeIdStr "Handle" Handle.mk
def Data.deserialize : De Data :=
  deserializeStruct2 "Data" Data.mk deserializeU32 (deserializeVec deserializeU8)
def File.deserialize : De File :=
  deserializeStruct3 "File" File.mk deserializeString deserializeString FileAttributes.deserialize
def Name.deserialize : De Name :=
  deserializeStruct2 "Name" Name.mk deserializeU32 (deserializeVec File.deserialize)
def Attrs.deserialize : De Attrs :=
  deserializeStruct2 "Attrs" Attrs.mk deserializeU32 FileAttributes.deserialize
def Extended.deserialize : De Extended :=
  deserializeStruct3 "Extended" Extended.mk deserializeU32 deserializeString dataDeserialize
def ExtendedReply.deserialize : De ExtendedReply :=
  deserializeStruct2 "ExtendedReply" ExtendedReply.mk deserializeU32 dataDeserialize

end RusshSftp
