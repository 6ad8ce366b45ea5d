import RusshSftp.Buf
import RusshSftp.Client.Async
import RusshSftp.Client.Correlation
import RusshSftp.Client.Disconnect
import RusshSftp.Client.Download
import RusshSftp.Client.Echo
import RusshSftp.Client.Error
import RusshSftp.Client.File
import RusshSftp.Client.FileClose
import RusshSftp.Client.FileCursor
import RusshSftp.Client.FilePolls
import RusshSftp.Client.FileSeek
import RusshSftp.Client.HandleCount
import RusshSftp.Client.HandleLimit
import RusshSftp.Client.Invariant
import RusshSftp.Client.Leftovers
import RusshSftp.Client.Operations
import RusshSftp.Client.Progress
import RusshSftp.Client.ReadDir
import RusshSftp.Client.ReadLength
import RusshSftp.Client.ReadTask
import RusshSftp.Client.SeekRange
import RusshSftp.Client.Senders
import RusshSftp.Client.Session
import RusshSftp.Client.SharedKeys
import RusshSftp.Client.Steps
import RusshSftp.Client.Transfer
import RusshSftp.Client.Upload
import RusshSftp.Client.VersionGate
import RusshSftp.Client.WholeFile
import RusshSftp.Conversation
import RusshSftp.De
import RusshSftp.DeadStream
import RusshSftp.Error
import RusshSftp.ExtensionPayloads
import RusshSftp.Handshake
import RusshSftp.Lib.AtomicObject
import RusshSftp.Lib.BigEndian
import RusshSftp.Lib.FileStore
import RusshSftp.Lib.Framing
import RusshSftp.Lib.LocalFile
import RusshSftp.Lib.Logged
import RusshSftp.Lib.Pipe
import RusshSftp.Lib.Program
import RusshSftp.Lib.Reader
import RusshSftp.Lib.Refinement
import RusshSftp.Lib.Rounds
import RusshSftp.Lib.Run
import RusshSftp.Lib.Truncated
import RusshSftp.Lib.Utf8
import RusshSftp.Link.Atomic
import RusshSftp.Link.Belt
import RusshSftp.Link.Close
import RusshSftp.Link.Model
import RusshSftp.Link.Open
import RusshSftp.Link.Settle
import RusshSftp.Observed
import RusshSftp.Permitted
import RusshSftp.Protocol.DecodeWork
import RusshSftp.Protocol.Fields
import RusshSftp.Protocol.FileAttrs
import RusshSftp.Protocol.FileMode
import RusshSftp.Protocol.FileTypeViews
import RusshSftp.Protocol.Inversion
import RusshSftp.Protocol.LengthWords
import RusshSftp.Protocol.Packet
import RusshSftp.Protocol.RoundTrip
import RusshSftp.Protocol.Truncation
import RusshSftp.Protocol.Types
import RusshSftp.Protocol.V3Grammar
import RusshSftp.Rpc
import RusshSftp.Ser
import RusshSftp.Server.Handler
import RusshSftp.Server.Ids
import RusshSftp.Server.Run
import RusshSftp.ShapeRoundTrip
import RusshSftp.Shapes
import RusshSftp.Storage
import RusshSftp.StoredFiles
import RusshSftp.Stream
