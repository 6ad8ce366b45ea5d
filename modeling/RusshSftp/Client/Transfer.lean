import RusshSftp.Client.Async
import RusshSftp.Client.ReadDir

/-!
# Whole files and folders as programs

`read`, `write` and `read_dir` of a session as programs that await their calls.  tokio's
`read_to_end` and `write_all` poll a file; here each poll goes on until its call has a result, so
that a file is never left with a pending read or write.  `Drop` leaves the closing of the handle to
a task of its own, which makes its call while the program goes on.
-/

set_option autoImplicit false

namespace RusshSftp.Client.Async

/-- A program that does not fail as a whole. -/
abbrev Calls (α : Type) := Program SessionCall SessionCall.Reply α

/-! ## Polling a file -/

namespace File

/-- `poll_read` of a file that has no pending read, until it is ready. -/
def read (f : File) (buf : ReadBuf) : Calls (Poll Unit × File × ReadBuf) := do
  let result ← await (.request (f.readRequest buf))
  return f.finishRead buf result

/-- `poll_write` of a file that has no pending write, until it is ready. -/
def write (f : File) (buf : Bytes) : Calls (Poll Nat × File) := do
  let result ← await (.request (f.writeRequest buf))
  return f.finishWrite (f.writeCall buf) result

/-- The call of the task that `Drop` spawns. -/
def dropped (f : File) : Option SessionCall :=
  if f.closed then none else some (.request (.close f.handle))

end File

/-- A poll of `read_to_end` that adds nothing is the last one. -/
def afterRead (more : File → Bytes → Calls (Poll Bytes × File)) (vec : Bytes) :
    Poll Unit × File × ReadBuf → Calls (Poll Bytes × File)
  | (.pending, f, _) => return (.pending, f)
  | (.panicked, f, _) => return (.panicked, f)
  | (.ready (.error e), f, _) => return (.ready (.error e), f)
  | (.ready (.ok ()), f, buf) =>
      if buf.filled.isEmpty then return (.ready (.ok vec), f)
      else more f (vec ++ buf.filled)

/-- tokio's `read_to_end`, where each poll is given a buffer with some room. -/
def readToEnd : List Nat → File → Bytes → Calls (Poll Bytes × File)
  | [], f, _ => return (.pending, f)
  | room :: rooms, f, vec => do
      let polled ← File.read f (.empty room)
      afterRead (readToEnd rooms) vec polled

/-- tokio's `write_all`, with at most so many polls. -/
def writeAll : Nat → File → Bytes → Calls (Poll Unit × File)
  | 0, f, buf => return (if buf.isEmpty then .ready (.ok ()) else .pending, f)
  | polls + 1, f, buf => do
      if buf.isEmpty then return (.ready (.ok ()), f)
      match ← File.write f buf with
      | (.pending, f) => return (.pending, f)
      | (.panicked, f) => return (.panicked, f)
      | (.ready (.error e), f) => return (.ready (.error e), f)
      | (.ready (.ok n), f) =>
          -- `split_at` panics beyond the end of the data
          if n > buf.length then return (.panicked, f)
          else if n = 0 then return (.ready (.error "write zero"), f)
          else writeAll polls f (buf.drop n)

/-! ## The session -/

namespace SftpSession

open RawSftpSession (request)

section
variable (extensions : Negotiated)

/-- Attempts to open or create the file in the specified mode. -/
def openWithFlags (filename : String) (flags : OpenFlags) : Async File :=
  openWithFlagsAndAttributes extensions filename flags FileAttributes.empty

/-- Attempts to open a file in read-only mode. -/
def «open» (filename : String) : Async File := openWithFlags extensions filename .read

/-- Opens a file in write-only mode. -/
def create (filename : String) : Async File :=
  openWithFlags extensions filename
    ⟨OpenFlags.create.bits ||| OpenFlags.truncate.bits ||| OpenFlags.write.bits⟩

/-- Reads the contents of a file located at the specified path to the end.  The file that is dropped
is given back beside them. -/
def read (path : String) (rooms : List Nat) : Calls (Awaited Bytes × Option File) := do
  match ← («open» extensions path).run with
  | .error err => return (.done (.error err), none)
  | .ok file =>
      let (last, file) ← readToEnd rooms file []
      return (last.awaited, some file)

/-- `write_all` on a file that is opened first. -/
def writeOpened (opening : Async File) (data : Bytes) (polls : Nat) :
    Calls (Awaited Unit × Option File) := do
  match ← opening.run with
  | .error err => return (.done (.error err), none)
  | .ok file =>
      let (last, file) ← writeAll polls file data
      return (last.awaited, some file)

/-- Writes the contents to a file whose path is specified. -/
def write (path : String) (data : Bytes) (polls : Nat) : Calls (Awaited Unit × Option File) :=
  writeOpened (openWithFlags extensions path .write) data polls

end

/-- The loop of `read_dir`, with at most so many rounds. -/
def readDirLoop (handle : String) : Nat → List (String × FileAttributes) →
    Calls (Awaited (List (String × FileAttributes)))
  | 0, _ => return .pending
  | rounds + 1, files => do
      match ← (request (.readdir handle)).run with
      | .ok name => readDirLoop handle rounds (SftpSession.batchEntries name ++ files)
      | .error (.status status) =>
          if status.statusCode = .eof then return .done (.ok files)
          else return .done (.error (.status status))
      | .error err => return .done (.error err)

/-- Returns an iterator over the entries within a directory. -/
def readDir (path : String) (rounds : Nat) : Calls (Awaited ReadDir) := do
  match ← (request (.opendir path)).run with
  | .error err => return .done (.error err)
  | .ok reply =>
      match ← readDirLoop reply.handle rounds [] with
      | .pending => return .pending
      | .panicked => return .panicked
      | .done (.error err) => return .done (.error err)
      | .done (.ok files) =>
          match ← (request (.close reply.handle)).run with
          | .error err => return .done (.error err)
          | .ok _ => return .done (.ok ⟨files⟩)

end SftpSession

/-- A program goes on while the handle of a dropped file is closed, after so many of its calls. -/
def afterDrop {α : Type} (file : Option File) (delay : Option Nat) (rest : Calls α) : Calls α :=
  match file.bind File.dropped with
  | some closing => rest.beside closing delay
  | none => rest

end RusshSftp.Client.Async
