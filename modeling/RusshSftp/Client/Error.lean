import RusshSftp.Protocol.Types

/-!
# Errors of the client
-/

set_option autoImplicit false

namespace RusshSftp.Client

inductive Error where
  /-- Contains an error status packet. -/
  | status (status : Status)
  | io (message : String)
  /-- Time limit for receiving response packet exceeded. -/
  | timeout
  | limited (message : String)
  | unexpectedPacket
  | unexpectedBehavior (message : String)
deriving DecidableEq, Repr

abbrev SftpResult (α : Type) := Except Error α

namespace Error

def display : Error → String
  | .status p => p.statusCode.display ++ ": " ++ p.errorMessage
  | .io message => "I/O: " ++ message
  | .timeout => "Timeout"
  | .limited message => "Limit exceeded: " ++ message
  | .unexpectedPacket => "Unexpected packet"
  | .unexpectedBehavior message => message

/-- `impl From<error::Error> for client::error::Error`. -/
def ofError (error : RusshSftp.Error) : Error := .unexpectedBehavior error.display

/-- `impl From<MpscSendError<T>>`, with the channel's own text for a closed queue. -/
def sendError : Error := .unexpectedBehavior ("SendError: " ++ "channel closed")

end Error

end RusshSftp.Client

/-- `impl From<client::error::Error> for Error`. -/
def RusshSftp.Error.ofClient (error : RusshSftp.Client.Error) : RusshSftp.Error :=
  .client error.display
