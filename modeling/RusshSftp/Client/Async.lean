import RusshSftp.Lib.Program
import RusshSftp.ExtensionPayloads
import RusshSftp.Rpc

/-!
# The methods of a session as programs

The methods above `RawSftpSession`'s requests: its own ones for the extensions, those of
`SftpSession` and `File`, and `new_opts`, which makes the session.  Each is a program that awaits
calls one after the other; what a call is is left open here.
-/

set_option autoImplicit false

namespace RusshSftp.Client

/-- What is awaited: `init`, a request, and (at once) the setting of the limits. -/
inductive SessionCall where
  | init
  | setLimits (limits : Limits)
  | request (request : Request)
deriving DecidableEq, Repr

def SessionCall.Reply : SessionCall → Type
  | .init => SftpResult Version
  | .setLimits _ => Unit
  | .request r => SftpResult r.Reply

/-- The body of an `async fn` that returns an `SftpResult`. -/
abbrev Async (α : Type) := ExceptT Error (Program SessionCall SessionCall.Reply) α

/-- `Extensions` of the session. -/
structure Negotiated where
  hardlink : Bool
  fsync : Bool
  statvfs : Bool
  limits : Option Limits
deriving DecidableEq, Repr

/-- What a file keeps of them. -/
def Negotiated.forFile (extensions : Negotiated) : SessionExtensions :=
  ⟨extensions.fsync, extensions.limits⟩

namespace Async

def await (c : SessionCall) : Program SessionCall SessionCall.Reply c.Reply := Program.perform c

/-- `?` on a result that is there at once. -/
def ofResult {α : Type} (result : SftpResult α) : Async α := ExceptT.mk (pure result)

def ofCodec {α : Type} (result : Except RusshSftp.Error α) : Async α :=
  ofResult (result.mapError Error.ofError)

/-! ## The raw session -/

namespace RawSftpSession

def init : Async Version := ExceptT.mk (await .init)

def setLimits (limits : Limits) : Async Unit := ExceptT.lift (await (.setLimits limits))

def request (r : Request) : Async r.Reply := ExceptT.mk (await (.request r))

def extended (name : String) (data : Bytes) : Async Packet := request (.extended name data)

def limits : Async LimitsExtension := do
  match ← extended LIMITS [] with
  | .extendedReply reply => ofCodec (LimitsExtension.deserialize.run' reply.data)
  | .status status =>
      if status.statusCode ≠ .ok then throw (.status status) else throw .unexpectedPacket
  | _ => throw .unexpectedPacket

def hardlink (oldpath newpath : String) : Async Status := do
  let data ← ofCodec (HardlinkExtension.tryInto ⟨oldpath, newpath⟩)
  let result ← extended HARDLINK data
  ofResult (intoStatus result)

def fsync (handle : String) : Async Status := do
  let data ← ofCodec (fsyncExtension handle)
  let result ← extended FSYNC data
  ofResult (intoStatus result)

def statvfs (path : String) : Async Statvfs := do
  let data ← ofCodec (StatvfsExtension.tryInto ⟨path⟩)
  match ← extended STATVFS data with
  | .extendedReply reply => ofCodec (Statvfs.deserialize.run' reply.data)
  | .status status =>
      if status.statusCode ≠ .ok then throw (.status status) else throw .unexpectedPacket
  | _ => throw .unexpectedPacket

end RawSftpSession

/-! ## The session -/

namespace SftpSession

open RawSftpSession (request)

/-- The extensions that a `Version` packet announces, before the limits are asked for. -/
def announced (version : Version) : Negotiated where
  hardlink := version.extensions.get HARDLINK == some "1"
  fsync := version.extensions.get FSYNC == some "1"
  statvfs := version.extensions.get STATVFS == some "2"
  limits := none

/-- The timeout is not modelled: a call may take any time. -/
def newOpts : Async Negotiated := do
  let version ← RawSftpSession.init
  let extensions := announced version
  if version.extensions.get LIMITS == some "1" then
    let limits ← RawSftpSession.limits
    let limits := Limits.ofExtension limits
    RawSftpSession.setLimits limits
    return { extensions with limits := some limits }
  return extensions

/-- The one name of a reply to `realpath` and `readlink`. -/
def firstName (name : Name) : Async String :=
  match name.files.head? with
  | some file => return file.filename
  | none => throw (.unexpectedBehavior "no file")

def canonicalize (path : String) : Async String := do firstName (← request (.realpath path))

def createDir (path : String) : Async Unit := do
  let _ ← request (.mkdir path .empty)

def metadata (path : String) : Async FileAttributes := do
  let reply ← request (.stat path)
  return reply.attrs

/-- Checks a file or folder exists at the specified path -/
def tryExists (path : String) : Async Bool := ExceptT.mk do
  match ← (metadata path).run with
  | .ok _ => return .ok true
  | .error (.status status) =>
      if status.statusCode = .noSuchFile then return .ok false
      else return .error (.status status)
  | .error err => return .error err

def readLink (path : String) : Async String := do firstName (← request (.readlink path))

def removeDir (path : String) : Async Unit := do
  let _ ← request (.rmdir path)

def removeFile (filename : String) : Async Unit := do
  let _ ← request (.remove filename)

def rename (oldpath newpath : String) : Async Unit := do
  let _ ← request (.rename oldpath newpath)

def symlink (path target : String) : Async Unit := do
  let _ ← request (.symlink path target)

def setMetadata (path : String) (metadata : FileAttributes) : Async Unit := do
  let _ ← request (.setstat path metadata)

def symlinkMetadata (path : String) : Async FileAttributes := do
  let reply ← request (.lstat path)
  return reply.attrs

section
variable (extensions : Negotiated)

def openWithFlagsAndAttributes (filename : String) (flags : OpenFlags)
    (attributes : FileAttributes) : Async File := do
  let reply ← request (.open filename flags attributes)
  return File.new reply.handle extensions.forFile

def hardlink (oldpath newpath : String) : Async Bool := do
  if !extensions.hardlink then
    return false
  let _ ← RawSftpSession.hardlink oldpath newpath
  return true

/-- Performs a statvfs on the remote file system path. -/
def fsInfo (path : String) : Async (Option Statvfs) := do
  if !extensions.statvfs then
    return none
  let info ← RawSftpSession.statvfs path
  return some info

end

end SftpSession

/-! ## Files -/

namespace File

open RawSftpSession (request)

def metadata (file : File) : Async FileAttributes := do
  let reply ← request (.fstat file.handle)
  return reply.attrs

def setMetadata (file : File) (metadata : FileAttributes) : Async Unit := do
  let _ ← request (.fsetstat file.handle metadata)

/-- Attempts to sync all data. -/
def syncAll (file : File) : Async Unit := do
  if !file.extensions.fsync then
    return
  let _ ← RawSftpSession.fsync file.handle

end File

/-! ## What a caller may do with a session -/

/-- The methods of a session and of the files under its handles.  The requests that the loop of
`read_dir` and the polls of a file make are `plain`: they carry no extension.  The request of
`poll_flush` is the exception, and that is the one of `fileSyncAll`. -/
inductive Method where
  | openWithFlagsAndAttributes (filename : String) (flags : OpenFlags) (attributes : FileAttributes)
  | canonicalize (path : String)
  | createDir (path : String)
  | tryExists (path : String)
  | readLink (path : String)
  | removeDir (path : String)
  | removeFile (filename : String)
  | rename (oldpath newpath : String)
  | symlink (path target : String)
  | metadata (path : String)
  | setMetadata (path : String) (metadata : FileAttributes)
  | symlinkMetadata (path : String)
  | hardlink (oldpath newpath : String)
  | fsInfo (path : String)
  | fileMetadata (handle : String)
  | fileSetMetadata (handle : String) (metadata : FileAttributes)
  | fileSyncAll (handle : String)
  | plain (request : Request) (plain : request.isExtended = false)

namespace Method

def Result : Method → Type
  | .openWithFlagsAndAttributes .. => File
  | .canonicalize _ | .readLink _ => String
  | .tryExists _ | .hardlink .. => Bool
  | .metadata _ | .symlinkMetadata _ | .fileMetadata _ => FileAttributes
  | .fsInfo _ => Option Statvfs
  | .plain r _ => r.Reply
  | _ => Unit

def body (extensions : Negotiated) : (m : Method) → Async m.Result
  | .openWithFlagsAndAttributes filename flags attributes =>
      SftpSession.openWithFlagsAndAttributes extensions filename flags attributes
  | .canonicalize path => SftpSession.canonicalize path
  | .createDir path => SftpSession.createDir path
  | .tryExists path => SftpSession.tryExists path
  | .readLink path => SftpSession.readLink path
  | .removeDir path => SftpSession.removeDir path
  | .removeFile filename => SftpSession.removeFile filename
  | .rename oldpath newpath => SftpSession.rename oldpath newpath
  | .symlink path target => SftpSession.symlink path target
  | .metadata path => SftpSession.metadata path
  | .setMetadata path attributes => SftpSession.setMetadata path attributes
  | .symlinkMetadata path => SftpSession.symlinkMetadata path
  | .hardlink oldpath newpath => SftpSession.hardlink extensions oldpath newpath
  | .fsInfo path => SftpSession.fsInfo extensions path
  | .fileMetadata handle => File.metadata (.new handle extensions.forFile)
  | .fileSetMetadata handle attributes =>
      File.setMetadata (.new handle extensions.forFile) attributes
  | .fileSyncAll handle => File.syncAll (.new handle extensions.forFile)
  | .plain r _ => RawSftpSession.request r

end Method

/-- A caller of a session: it may look at the results, errors included. -/
abbrev Caller (α : Type) := Program Method (fun m => SftpResult m.Result) α

/-- A session is made, and a caller works with it. -/
def converse {α : Type} (caller : Negotiated → Caller α) : Async α := do
  let extensions ← SftpSession.newOpts
  ExceptT.lift ((caller extensions).lower fun m => (m.body extensions).run)

end Async

end RusshSftp.Client
