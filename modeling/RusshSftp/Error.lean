import Mathlib

/-!
# Errors of the codec and of the processing loops

`Error` is the crate's own error.  A stream error of the standard library is
folded into it by `Error.ofIo`; only an end of file becomes `unexpectedEof`,
the one variant on which the processing loops stop.
-/

set_option autoImplicit false

namespace RusshSftp

abbrev Bytes := List UInt8

inductive Error where
  | io (message : String)
  | unexpectedEof
  | badMessage (message : String)
  | client (message : String)
  | unexpectedBehavior (message : String)
deriving DecidableEq, Repr

def Error.display : Error → String
  | .io message => "I/O: " ++ message
  | .unexpectedEof => "Unexpected EOF on stream"
  | .badMessage message => "Bad message: " ++ message
  | .client message => "Client error. (" ++ message ++ ")"
  | .unexpectedBehavior message => "Unexpected behavior: " ++ message

/-- `std::io::ErrorKind`. -/
inductive ErrorKind where
  | addrInUse | addrNotAvailable | alreadyExists | argumentListTooLong | brokenPipe
  | connectionAborted | connectionRefused | connectionReset | crossesDevices | deadlock
  | directoryNotEmpty | executableFileBusy | fileTooLarge | filesystemLoop | hostUnreachable
  | inProgress | interrupted | invalidData | invalidFilename | invalidInput | isADirectory
  | networkDown | networkUnreachable | notADirectory | notConnected | notFound | notSeekable
  | other | outOfMemory | permissionDenied | quotaExceeded | readOnlyFilesystem | resourceBusy
  | staleNetworkFileHandle | storageFull | timedOut | tooManyLinks | uncategorized
  | unexpectedEof | unsupported | wouldBlock | writeZero
deriving DecidableEq, Repr

def ErrorKind.display : ErrorKind → String
  | .addrInUse => "address in use"
  | .addrNotAvailable => "address not available"
  | .alreadyExists => "entity already exists"
  | .argumentListTooLong => "argument list too long"
  | .brokenPipe => "broken pipe"
  | .connectionAborted => "connection aborted"
  | .connectionRefused => "connection refused"
  | .connectionReset => "connection reset"
  | .crossesDevices => "cross-device link or rename"
  | .deadlock => "deadlock"
  | .directoryNotEmpty => "directory not empty"
  | .executableFileBusy => "executable file busy"
  | .fileTooLarge => "file too large"
  | .filesystemLoop => "filesystem loop or indirection limit (e.g. symlink loop)"
  | .hostUnreachable => "host unreachable"
  | .inProgress => "in progress"
  | .interrupted => "operation interrupted"
  | .invalidData => "invalid data"
  | .invalidFilename => "invalid filename"
  | .invalidInput => "invalid input parameter"
  | .isADirectory => "is a directory"
  | .networkDown => "network down"
  | .networkUnreachable => "network unreachable"
  | .notADirectory => "not a directory"
  | .notConnected => "not connected"
  | .notFound => "entity not found"
  | .notSeekable => "seek on unseekable file"
  | .other => "other error"
  | .outOfMemory => "out of memory"
  | .permissionDenied => "permission denied"
  | .quotaExceeded => "quota exceeded"
  | .readOnlyFilesystem => "read-only filesystem or storage medium"
  | .resourceBusy => "resource busy"
  | .staleNetworkFileHandle => "stale network file handle"
  | .storageFull => "no storage space"
  | .timedOut => "timed out"
  | .tooManyLinks => "too many links"
  | .uncategorized => "uncategorized error"
  | .unexpectedEof => "unexpected end of file"
  | .unsupported => "unsupported"
  | .wouldBlock => "operation would block"
  | .writeZero => "write zero"

/-- `io::Error`: its kind and the text of the error it was built around, if any. -/
structure IoError where
  kind : ErrorKind
  inner : Option String
deriving DecidableEq, Repr

/-- `impl From<io::Error> for Error`. -/
def Error.ofIo (err : IoError) : Error :=
  let msg := err.inner.getD ""
  match err.kind with
  | .unexpectedEof => .unexpectedEof
  | .other => if msg = "EOF" then .unexpectedEof else .io ErrorKind.other.display
  | e => .io e.display

/-- Which stream errors stop a processing loop. -/
theorem Error.ofIo_eq_unexpectedEof_iff (err : IoError) :
    Error.ofIo err = .unexpectedEof ↔
      err.kind = .unexpectedEof ∨ (err.kind = .other ∧ err.inner = some "EOF") := by
  obtain ⟨kind, inner⟩ := err
  cases kind <;> simp [Error.ofIo]
  cases inner <;> simp

/-- `TryGetError`: what a read asked for and what was left. -/
structure TryGetError where
  requested : Nat
  available : Nat
deriving DecidableEq, Repr

def TryGetError.display (err : TryGetError) : String :=
  "Not enough bytes remaining in buffer to read value (requested " ++ toString err.requested ++
    " but only " ++ toString err.available ++ " available)"

/-- `impl From<TryGetError> for Error`. -/
def Error.ofTryGet (err : TryGetError) : Error :=
  .badMessage ("only " ++ toString err.available ++ " bytes remaining, but " ++
    toString err.requested ++ " requested")

end RusshSftp
