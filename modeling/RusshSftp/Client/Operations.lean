import RusshSftp.Client.Error
import RusshSftp.Protocol.Packet

/-!
# The operations of the raw session

Each operation checks a limit, draws an id, sends its packet, counts the open handles
by the reply and turns the reply into a result.  `Operation` holds these parts; there is
one value of it for each method of the session.
-/

set_option autoImplicit false

namespace RusshSftp.Client

structure Limits where
  readLen : Option UInt64
  writeLen : Option UInt64
  openHandles : Option UInt64
deriving DecidableEq, Repr

def Limits.default : Limits := ⟨none, none, none⟩

/-- The reply of the server to `limits@openssh.com`. -/
structure LimitsExtension where
  maxPacketLen : UInt64
  maxReadLen : UInt64
  maxWriteLen : UInt64
  maxOpenHandles : UInt64
deriving DecidableEq, Repr

/-- `impl From<LimitsExtension> for Limits`: a limit of zero is no limit. -/
def Limits.ofExtension (limits : LimitsExtension) : Limits where
  readLen := if limits.maxReadLen > 0 then some limits.maxReadLen else none
  writeLen := if limits.maxWriteLen > 0 then some limits.maxWriteLen else none
  openHandles := if limits.maxOpenHandles > 0 then some limits.maxOpenHandles else none

structure Operation (ρ : Type) where
  /-- The error that is returned before anything is sent. -/
  limited : Limits → UInt64 → Option Error := fun _ _ => none
  packet : UInt32 → Packet
  /-- What the reply does to the counter of open handles. -/
  counted : Packet → UInt64 → UInt64 := fun _ handles => handles
  result : Packet → SftpResult ρ

/-! ## Replies -/

/-- `into_with_status!`. -/
def intoWithStatus {ρ : Type} (expected : Packet → Option ρ) (result : Packet) : SftpResult ρ :=
  match expected result with
  | some p => .ok p
  | none =>
      match result with
      | .status p => .error (.status p)
      | _ => .error .unexpectedPacket

/-- `into_status!`. -/
def intoStatus (result : Packet) : SftpResult Status :=
  match result with
  | .status status => if status.statusCode = .ok then .ok status else .error (.status status)
  | _ => .error .unexpectedPacket

def handle? : Packet → Option Handle
  | .handle p => some p
  | _ => none

def data? : Packet → Option Data
  | .data p => some p
  | _ => none

def attrs? : Packet → Option Attrs
  | .attrs p => some p
  | _ => none

def name? : Packet → Option Name
  | .name p => some p
  | _ => none

/-! ## Limits and the counter of open handles -/

def exceeds (limit : Option UInt64) (message : String) (reached : UInt64 → Bool) : Option Error :=
  if limit.any reached then some (.limited message) else none

def countHandle (result : Packet) (handles : UInt64) : UInt64 :=
  match result with
  | .handle _ => handles + 1
  | _ => handles

def uncountHandle (result : Packet) (handles : UInt64) : UInt64 :=
  match result with
  | .status status =>
      if status.statusCode = .ok then (if handles > 0 then handles - 1 else handles) else handles
  | _ => handles

namespace Operation

/-! ## The methods of the session -/

def «open» (filename : String) (flags : OpenFlags) (attrs : FileAttributes) : Operation Handle where
  limited limits handles := exceeds limits.openHandles "handle limit reached" fun h => handles ≥ h
  packet id := .open { id, filename, pflags := flags, attrs }
  counted := countHandle
  result := intoWithStatus handle?

def close (handle : String) : Operation Status where
  packet id := .close { id, handle }
  counted := uncountHandle
  result := intoStatus

def read (handle : String) (offset : UInt64) (len : UInt32) : Operation Data where
  limited limits _ := exceeds limits.readLen "read limit reached" fun r => len.toUInt64 > r
  packet id := .read { id, handle, offset, len }
  result := intoWithStatus data?

def write (handle : String) (offset : UInt64) (data : Bytes) : Operation Status where
  limited limits _ :=
    exceeds limits.writeLen "write limit reached" fun w => data.length > w.toNat
  packet id := .write { id, handle, offset, data }
  result := intoStatus

def lstat (path : String) : Operation Attrs where
  packet id := .lstat { id, path }
  result := intoWithStatus attrs?

def fstat (handle : String) : Operation Attrs where
  packet id := .fstat { id, handle }
  result := intoWithStatus attrs?

def setstat (path : String) (attrs : FileAttributes) : Operation Status where
  packet id := .setStat { id, path, attrs }
  result := intoStatus

def fsetstat (handle : String) (attrs : FileAttributes) : Operation Status where
  packet id := .fSetStat { id, handle, attrs }
  result := intoStatus

def opendir (path : String) : Operation Handle where
  limited limits handles := exceeds limits.openHandles "Handle limit reached" fun h => handles ≥ h
  packet id := .openDir { id, path }
  counted := countHandle
  result := intoWithStatus handle?

def readdir (handle : String) : Operation Name where
  packet id := .readDir { id, handle }
  result := intoWithStatus name?

def remove (filename : String) : Operation Status where
  packet id := .remove { id, filename }
  result := intoStatus

def mkdir (path : String) (attrs : FileAttributes) : Operation Status where
  packet id := .mkDir { id, path, attrs }
  result := intoStatus

def rmdir (path : String) : Operation Status where
  packet id := .rmDir { id, path }
  result := intoStatus

def realpath (path : String) : Operation Name where
  packet id := .realPath { id, path }
  result := intoWithStatus name?

def stat (path : String) : Operation Attrs where
  packet id := .stat { id, path }
  result := intoWithStatus attrs?

def rename (oldpath newpath : String) : Operation Status where
  packet id := .rename { id, oldpath, newpath }
  result := intoStatus

def readlink (path : String) : Operation Name where
  packet id := .readLink { id, path }
  result := intoWithStatus name?

def symlink (path target : String) : Operation Status where
  packet id := .symlink { id, linkpath := path, targetpath := target }
  result := intoStatus

/-- Equivalent to `SSH_FXP_EXTENDED`.  The reply is given back as it is. -/
def extended (request : String) (data : Bytes) : Operation Packet where
  packet id := .extended { id, request, data }
  result := .ok

end Operation

/-- A call of a method, with its arguments. -/
inductive Request where
  | open (filename : String) (flags : OpenFlags) (attrs : FileAttributes)
  | close (handle : String)
  | read (handle : String) (offset : UInt64) (len : UInt32)
  | write (handle : String) (offset : UInt64) (data : Bytes)
  | lstat (path : String)
  | fstat (handle : String)
  | setstat (path : String) (attrs : FileAttributes)
  | fsetstat (handle : String) (attrs : FileAttributes)
  | opendir (path : String)
  | readdir (handle : String)
  | remove (filename : String)
  | mkdir (path : String) (attrs : FileAttributes)
  | rmdir (path : String)
  | realpath (path : String)
  | stat (path : String)
  | rename (oldpath newpath : String)
  | readlink (path : String)
  | symlink (path target : String)
  | extended (request : String) (data : Bytes)
deriving DecidableEq, Repr

namespace Request

/-- What a method returns. -/
def Reply : Request → Type
  | .open .. | .opendir .. => Handle
  | .read .. => Data
  | .lstat .. | .fstat .. | .stat .. => Attrs
  | .readdir .. | .realpath .. | .readlink .. => Name
  | .extended .. => Packet
  | _ => Status

def operation : (request : Request) → Operation request.Reply
  | .open filename flags attrs => .open filename flags attrs
  | .close handle => .close handle
  | .read handle offset len => .read handle offset len
  | .write handle offset data => .write handle offset data
  | .lstat path => .lstat path
  | .fstat handle => .fstat handle
  | .setstat path attrs => .setstat path attrs
  | .fsetstat handle attrs => .fsetstat handle attrs
  | .opendir path => .opendir path
  | .readdir handle => .readdir handle
  | .remove filename => .remove filename
  | .mkdir path attrs => .mkdir path attrs
  | .rmdir path => .rmdir path
  | .realpath path => .realpath path
  | .stat path => .stat path
  | .rename oldpath newpath => .rename oldpath newpath
  | .readlink path => .readlink path
  | .symlink path target => .symlink path target
  | .extended request data => .extended request data

/-- What the method of the session returns for the result of `send`. -/
def returned (request : Request) (result : SftpResult Packet) : SftpResult request.Reply :=
  result.bind request.operation.result

end Request

end RusshSftp.Client
