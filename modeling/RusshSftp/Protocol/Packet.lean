import RusshSftp.Protocol.Types

/-!
# Packets on the wire

`Packet.toBytes` is `TryFrom<Packet> for Bytes`: a length word, the type byte
and the payload.  `Packet.tryFrom` is `TryFrom<&mut Bytes> for Packet`: it reads
the type byte and the payload and leaves in the buffer what it did not use.
-/

set_option autoImplicit false

namespace RusshSftp

open Utf8 ByteCodec

@[match_pattern] abbrev SSH_FXP_INIT : UInt8 := 1
@[match_pattern] abbrev SSH_FXP_VERSION : UInt8 := 2
@[match_pattern] abbrev SSH_FXP_OPEN : UInt8 := 3
@[match_pattern] abbrev SSH_FXP_CLOSE : UInt8 := 4
@[match_pattern] abbrev SSH_FXP_READ : UInt8 := 5
@[match_pattern] abbrev SSH_FXP_WRITE : UInt8 := 6
@[match_pattern] abbrev SSH_FXP_LSTAT : UInt8 := 7
@[match_pattern] abbrev SSH_FXP_FSTAT : UInt8 := 8
@[match_pattern] abbrev SSH_FXP_SETSTAT : UInt8 := 9
@[match_pattern] abbrev SSH_FXP_FSETSTAT : UInt8 := 10
@[match_pattern] abbrev SSH_FXP_OPENDIR : UInt8 := 11
@[match_pattern] abbrev SSH_FXP_READDIR : UInt8 := 12
@[match_pattern] abbrev SSH_FXP_REMOVE : UInt8 := 13
@[match_pattern] abbrev SSH_FXP_MKDIR : UInt8 := 14
@[match_pattern] abbrev SSH_FXP_RMDIR : UInt8 := 15
@[match_pattern] abbrev SSH_FXP_REALPATH : UInt8 := 16
@[match_pattern] abbrev SSH_FXP_STAT : UInt8 := 17
@[match_pattern] abbrev SSH_FXP_RENAME : UInt8 := 18
@[match_pattern] abbrev SSH_FXP_READLINK : UInt8 := 19
@[match_pattern] abbrev SSH_FXP_SYMLINK : UInt8 := 20
@[match_pattern] abbrev SSH_FXP_STATUS : UInt8 := 101
@[match_pattern] abbrev SSH_FXP_HANDLE : UInt8 := 102
@[match_pattern] abbrev SSH_FXP_DATA : UInt8 := 103
@[match_pattern] abbrev SSH_FXP_NAME : UInt8 := 104
@[match_pattern] abbrev SSH_FXP_ATTRS : UInt8 := 105
@[match_pattern] abbrev SSH_FXP_EXTENDED : UInt8 := 200
@[match_pattern] abbrev SSH_FXP_EXTENDED_REPLY : UInt8 := 201

inductive Packet where
  | init (p : Init)
  | version (p : Version)
  | open (p : Open)
  | close (p : Close)
  | read (p : Read)
  | write (p : Write)
  | lstat (p : Lstat)
  | fstat (p : Fstat)
  | setStat (p : SetStat)
  | fSetStat (p : FSetStat)
  | openDir (p : OpenDir)
  | readDir (p : ReadDir)
  | remove (p : Remove)
  | mkDir (p : MkDir)
  | rmDir (p : RmDir)
  | realPath (p : RealPath)
  | stat (p : Stat)
  | rename (p : Rename)
  | readLink (p : ReadLink)
  | symlink (p : Symlink)
  | status (p : Status)
  | handle (p : Handle)
  | data (p : Data)
  | name (p : Name)
  | attrs (p : Attrs)
  | extended (p : Extended)
  | extendedReply (p : ExtendedReply)
deriving DecidableEq, Repr

namespace Packet

/-- The id of a request.  Only requests have one here; everything else gives 0. -/
def getRequestId : Packet → UInt32
  | .open p => p.id
  | .close p => p.id
  | .read p => p.id
  | .write p => p.id
  | .lstat p => p.id
  | .fstat p => p.id
  | .setStat p => p.id
  | .fSetStat p => p.id
  | .openDir p => p.id
  | .readDir p => p.id
  | .remove p => p.id
  | .mkDir p => p.id
  | .rmDir p => p.id
  | .realPath p => p.id
  | .stat p => p.id
  | .rename p => p.id
  | .readLink p => p.id
  | .symlink p => p.id
  | .extended p => p.id
  | _ => 0

/-- The packets that a client sends. -/
def isRequest : Packet → Bool
  | .version _ | .status _ | .handle _ | .data _ | .name _ | .attrs _ | .extendedReply _ => false
  | _ => true

/-- `Packet::status`. -/
def ofStatus (id : UInt32) (statusCode : StatusCode) (msg tag : String) : Packet :=
  .status { id, statusCode, errorMessage := msg, languageTag := tag }

/-- `Packet::error`. -/
def error (id : UInt32) (statusCode : StatusCode) : Packet :=
  ofStatus id statusCode statusCode.display "en-US"

/-! ## The codec -/

def tryFrom : De Packet := do
  match ← mapErr Error.ofTryGet tryGetU8 with
  | SSH_FXP_INIT => .init <$> Init.deserialize
  | SSH_FXP_VERSION => .version <$> Version.deserialize
  | SSH_FXP_OPEN => .open <$> Open.deserialize
  | SSH_FXP_CLOSE => .close <$> Close.deserialize
  | SSH_FXP_READ => .read <$> Read.deserialize
  | SSH_FXP_WRITE => .write <$> Write.deserialize
  | SSH_FXP_LSTAT => .lstat <$> Lstat.deserialize
  | SSH_FXP_FSTAT => .fstat <$> Fstat.deserialize
  | SSH_FXP_SETSTAT => .setStat <$> SetStat.deserialize
  | SSH_FXP_FSETSTAT => .fSetStat <$> FSetStat.deserialize
  | SSH_FXP_OPENDIR => .openDir <$> OpenDir.deserialize
  | SSH_FXP_READDIR => .readDir <$> ReadDir.deserialize
  | SSH_FXP_REMOVE => .remove <$> Remove.deserialize
  | SSH_FXP_MKDIR => .mkDir <$> MkDir.deserialize
  | SSH_FXP_RMDIR => .rmDir <$> RmDir.deserialize
  | SSH_FXP_REALPATH => .realPath <$> RealPath.deserialize
  | SSH_FXP_STAT => .stat <$> Stat.deserialize
  | SSH_FXP_RENAME => .rename <$> Rename.deserialize
  | SSH_FXP_READLINK => .readLink <$> ReadLink.deserialize
  | SSH_FXP_SYMLINK => .symlink <$> Symlink.deserialize
  | SSH_FXP_STATUS => .status <$> Status.deserialize
  | SSH_FXP_HANDLE => .handle <$> Handle.deserialize
  | SSH_FXP_DATA => .data <$> Data.deserialize
  | SSH_FXP_NAME => .name <$> Name.deserialize
  | SSH_FXP_ATTRS => .attrs <$> Attrs.deserialize
  | SSH_FXP_EXTENDED => .extended <$> Extended.deserialize
  | SSH_FXP_EXTENDED_REPLY => .extendedReply <$> ExtendedReply.deserialize
  | _ => throw (.badMessage "unknown type")

/-- The type byte of a packet and its derived serializer. -/
def typed : Packet → UInt8 × Ser
  | .init p => (SSH_FXP_INIT, p.serialize)
  | .version p => (SSH_FXP_VERSION, p.serialize)
  | .open p => (SSH_FXP_OPEN, p.serialize)
  | .close p => (SSH_FXP_CLOSE, p.serialize)
  | .read p => (SSH_FXP_READ, p.serialize)
  | .write p => (SSH_FXP_WRITE, p.serialize)
  | .lstat p => (SSH_FXP_LSTAT, p.serialize)
  | .fstat p => (SSH_FXP_FSTAT, p.serialize)
  | .setStat p => (SSH_FXP_SETSTAT, p.serialize)
  | .fSetStat p => (SSH_FXP_FSETSTAT, p.serialize)
  | .openDir p => (SSH_FXP_OPENDIR, p.serialize)
  | .readDir p => (SSH_FXP_READDIR, p.serialize)
  | .remove p => (SSH_FXP_REMOVE, p.serialize)
  | .mkDir p => (SSH_FXP_MKDIR, p.serialize)
  | .rmDir p => (SSH_FXP_RMDIR, p.serialize)
  | .realPath p => (SSH_FXP_REALPATH, p.serialize)
  | .stat p => (SSH_FXP_STAT, p.serialize)
  | .rename p => (SSH_FXP_RENAME, p.serialize)
  | .readLink p => (SSH_FXP_READLINK, p.serialize)
  | .symlink p => (SSH_FXP_SYMLINK, p.serialize)
  | .status p => (SSH_FXP_STATUS, p.serialize)
  | .handle p => (SSH_FXP_HANDLE, p.serialize)
  | .data p => (SSH_FXP_DATA, p.serialize)
  | .name p => (SSH_FXP_NAME, p.serialize)
  | .attrs p => (SSH_FXP_ATTRS, p.serialize)
  | .extended p => (SSH_FXP_EXTENDED, p.serialize)
  | .extendedReply p => (SSH_FXP_EXTENDED_REPLY, p.serialize)

/-- `ser::to_bytes`. -/
def serToBytes (value : Ser) : Except Error Bytes := do
  let (_, output) ← value.run []
  return output

/-- The payload of a packet: what follows the type byte. -/
def payload (packet : Packet) : Except Error Bytes := serToBytes packet.typed.2

/-- `payload.len() as u32 + 1` is computed in 32 bits. -/
def toBytes (packet : Packet) : Except Error Bytes := do
  let payload ← packet.payload
  let length := UInt32.ofNat payload.length + 1
  return putU32 length ++ (putU8 packet.typed.1 ++ payload)

end Packet

end RusshSftp
