import RusshSftp.Lib.Run
import RusshSftp.Client.Operations

/-!
# The client session

The calls of a session, the task that reads replies and the task that writes
requests share the request map, the counters and the write queue.  `State` holds
all of it, and `step` is one atomic action of one of them.  Frames arrive in the
inbox as whole bodies, whatever their bytes are.

Each call of `send` has a channel of one place.  Its sender is moved into the request
map.  The map does not drop an entry that is replaced or removed: it retires it, and
reclaims it at some later moment, when no guard is on it.
-/

set_option autoImplicit false

namespace RusshSftp.Client

abbrev CallId := Nat

/-- The keys of the request map: an id, or `none` for `init`. -/
abbrev Key := Option UInt32

inductive Job where
  | init
  | request (request : Request)
deriving DecidableEq, Repr

/-- A result for a call, and the number of the frame that it comes from. -/
structure Answer where
  frame : Nat
  result : SftpResult Packet
deriving DecidableEq

/-- Where a call stands: each name tells what the call does next. -/
inductive Phase where
  | checkLimit
  | useNextId
  | isClosed
  | insert
  | enqueue
  | recv
  | cleanup (err : Error)
  | complete (result : SftpResult Packet)
  | finished (result : SftpResult Packet)
  /-- The future of the call was dropped. -/
  | dropped
deriving DecidableEq

structure Call where
  job : Job
  /-- The key that `send` was called with. -/
  key : Option Key
  phase : Phase
  /-- What was put in the channel. -/
  answer : Option Answer
deriving DecidableEq

inductive Reader where
  | idle
  /-- `reply` was called for the packet of a frame. -/
  | replying (frame : Nat) (key : Key) (packet : Packet)
  /-- `reply` has taken the sender of a call from the map. -/
  | sending (frame : Nat) (key : Key) (packet : Packet) (c : CallId)
  | ended
deriving DecidableEq

inductive Writer where
  | running
  /-- The loop was left; the queue is not closed yet. -/
  | stopped
  | ended
deriving DecidableEq

structure State where
  limits : Limits
  nextReqId : UInt32
  handles : UInt64
  requests : Key → Option CallId
  /-- The senders that were replaced or removed, and are still to be reclaimed. -/
  retired : List CallId
  calls : CallId → Option Call
  version : Option UInt32
  inbox : List Bytes
  /-- How many frames were taken from the inbox. -/
  frames : Nat
  reader : Reader
  queue : List Bytes
  written : List Bytes
  writer : Writer
  cancelled : Bool

/-! ## Calls -/

def Job.key : Job → Option Key
  | .init => some none
  | .request _ => none

def Job.firstPhase : Job → Phase
  | .init => .isClosed
  | .request _ => .checkLimit

def Job.packet (key : Key) : Job → Packet
  | .init => .init Init.new
  | .request r => r.operation.packet (key.getD 0)

/-- The counter of open handles once a call has its result. -/
def Job.counted (result : SftpResult Packet) (handles : UInt64) : Job → UInt64
  | .init => handles
  | .request r =>
      match result with
      | .ok packet => r.operation.counted packet handles
      | .error _ => handles

def Call.new (job : Job) : Call := ⟨job, job.key, job.firstPhase, none⟩

namespace Phase

/-- The receiver lives until `send` returns. -/
def receiving : Phase → Bool
  | .insert | .enqueue | .recv | .cleanup _ => true
  | _ => false

/-- The call has neither returned nor been dropped. -/
def inFlight : Phase → Bool
  | .finished _ | .dropped => false
  | _ => true

end Phase

namespace Reader

def holds (c : CallId) : Reader → Bool
  | .sending _ _ _ c' => c' == c
  | _ => false

end Reader

namespace State

/-- `RawSftpSession::new`. -/
def new (limits : Limits) : State where
  limits := limits
  nextReqId := 1
  handles := 0
  requests := fun _ => none
  retired := []
  calls := fun _ => none
  version := none
  inbox := []
  frames := 0
  reader := .idle
  queue := []
  written := []
  writer := .running
  cancelled := false

def setCall (s : State) (c : CallId) (call : Call) : State :=
  { s with calls := Function.update s.calls c (some call) }

/-- `insert` and `remove` of the map: the entry that was there is retired. -/
def setRequest (s : State) (key : Key) (entry : Option CallId) : State :=
  { s with
    requests := Function.update s.requests key entry
    retired := (s.requests key).toList ++ s.retired }

/-- `tx.is_closed()`: the write task has dropped its end of the queue. -/
def isClosed (s : State) : Bool := s.writer == .ended

/-- The sender of a call's channel is in the request map, or the map has not yet reclaimed it, or
the reader still uses it. -/
def senderLeft (s : State) (c : CallId) (call : Call) : Bool :=
  call.key.any (fun key => s.requests key == some c) || s.retired.contains c || s.reader.holds c

end State

/-! ## Replies -/

/-- The texts of a `TrySendError`. -/
def channelFull : Error := .unexpectedBehavior "no available capacity"
def channelClosed : Error := .unexpectedBehavior "channel closed"

/-- `try_send` on the channel of a call. -/
def trySend (c : CallId) (answer : Answer) (s : State) : SftpResult Unit × State :=
  match s.calls c with
  | none => (.error channelClosed, s)
  | some call =>
      if call.phase.receiving then
        if call.answer.isNone then (.ok (), s.setCall c { call with answer := some answer })
        else (.error channelFull, s)
      else (.error channelClosed, s)

def validate (version : Option UInt32) (id : Key) : SftpResult Unit :=
  if id.isSome && version.isNone then .error .unexpectedPacket
  else if id.isNone && version.isSome then .error (.unexpectedBehavior "Duplicate version")
  else .ok ()

/-- The second half of `reply`: the sender has been taken from the map. -/
def sendReply (frame : Nat) (id : Key) (packet : Packet) (c : CallId) (s : State) :
    SftpResult Unit × State :=
  let valid := validate s.version id
  match trySend c ⟨frame, valid.map fun _ => packet⟩ s with
  | (.error err, s) => (.error err, s)
  | (.ok (), s) => (valid, s)

namespace SessionInner

def unknownRecipient : Key → Error
  | none => .unexpectedBehavior "Packet None for unknown recipient"
  | some id =>
      .unexpectedBehavior ("Packet Some(" ++ toString id.toNat ++ ") for unknown recipient")

def reply (frame : Nat) (id : Key) (packet : Packet) (s : State) : SftpResult Unit × State :=
  match s.requests id with
  | some c => sendReply frame id packet c (s.setRequest id none)
  | none => (.error (unknownRecipient id), s)

def version (frame : Nat) (p : Version) (s : State) : SftpResult Unit × State :=
  match reply frame none (.version p) s with
  | (.error err, s) => (.error err, s)
  | (.ok (), s) => (.ok (), { s with version := some p.version })

def name (frame : Nat) (p : Name) := reply frame (some p.id) (.name p)
def status (frame : Nat) (p : Status) := reply frame (some p.id) (.status p)
def handle (frame : Nat) (p : Handle) := reply frame (some p.id) (.handle p)
def data (frame : Nat) (p : Data) := reply frame (some p.id) (.data p)
def attrs (frame : Nat) (p : Attrs) := reply frame (some p.id) (.attrs p)
def extendedReply (frame : Nat) (p : ExtendedReply) := reply frame (some p.id) (.extendedReply p)

end SessionInner

def executeHandler (frame : Nat) (bytes : Bytes) (s : State) : SftpResult Unit × State :=
  match Packet.tryFrom.run bytes with
  | .error err => (.error (Error.ofError err), s)
  | .ok (packet, _) =>
      match packet with
      | .version p => SessionInner.version frame p s
      | .status p => SessionInner.status frame p s
      | .handle p => SessionInner.handle frame p s
      | .data p => SessionInner.data frame p s
      | .name p => SessionInner.name frame p s
      | .attrs p => SessionInner.attrs frame p s
      | .extendedReply p => SessionInner.extendedReply frame p s
      | _ => (.error (.unexpectedBehavior "A packet was received that could not be processed."), s)

end RusshSftp.Client

/-- The key under which `reply` looks for the call that a packet answers. -/
def RusshSftp.Packet.replyKey? : Packet → Option Client.Key
  | .version _ => some none
  | .status p => some (some p.id)
  | .handle p => some (some p.id)
  | .data p => some (some p.id)
  | .name p => some (some p.id)
  | .attrs p => some (some p.id)
  | .extendedReply p => some (some p.id)
  | _ => none

namespace RusshSftp.Client

/-- The reply that a frame holds, with its key. -/
def decodeReply (bytes : Bytes) : Option (Key × Packet) :=
  match Packet.tryFrom.run bytes with
  | .error _ => none
  | .ok (packet, _) => packet.replyKey?.map fun key => (key, packet)

/-- The end of a handler's method: `sendReply`, and for a version packet its version. -/
def deliver (frame : Nat) (id : Key) (packet : Packet) (c : CallId) (s : State) :
    SftpResult Unit × State :=
  match sendReply frame id packet c s with
  | (.error err, s) => (.error err, s)
  | (.ok (), s) =>
      match packet with
      | .version p => (.ok (), { s with version := some p.version })
      | _ => (.ok (), s)

/-! ## One atomic action -/

inductive Action where
  | start (c : CallId) (job : Job)
  | checkLimit (c : CallId)
  | useNextId (c : CallId)
  | isClosed (c : CallId)
  | insert (c : CallId)
  | enqueue (c : CallId)
  /-- `recv` gives the call the result that a frame has brought. -/
  | recv (c : CallId) (frame : Nat)
  | recvNone (c : CallId)
  | elapse (c : CallId)
  | cleanup (c : CallId)
  | complete (c : CallId)
  | drop (c : CallId)
  | arrive (bytes : Bytes)
  | read
  /-- `reply` looks up a key and removes it. -/
  | lookup (key : Key)
  /-- `reply` puts the result of a frame in the channel of a call, if it can. -/
  | deliver (c : CallId) (frame : Nat)
  /-- The map drops a sender that it has retired; the reader's guard is not on it. -/
  | reclaim (c : CallId)
  | eof
  | readCancelled
  | write
  | writeCancelled
  | writeEnd
  | closeSession
deriving DecidableEq

/-- An action of a call. -/
def callStep (s : State) (c : CallId) (call : Call) : Action → Option State
  | .checkLimit _ =>
      match call.phase, call.job with
      | .checkLimit, .request request =>
          match request.operation.limited s.limits s.handles with
          | some err => some (s.setCall c { call with phase := .finished (.error err) })
          | none => some (s.setCall c { call with phase := .useNextId })
      | _, _ => none
  | .useNextId _ =>
      if call.phase = .useNextId then
        some { s.setCall c { call with key := some (some s.nextReqId), phase := .isClosed } with
          nextReqId := s.nextReqId + 1 }
      else none
  | .isClosed _ =>
      if call.phase = .isClosed then
        if s.isClosed then
          some (s.setCall c { call with
            phase := .finished (.error (.unexpectedBehavior "session closed")) })
        else some (s.setCall c { call with phase := .insert })
      else none
  | .insert _ =>
      match call.phase, call.key with
      | .insert, some key =>
          some ((s.setRequest key (some c)).setCall c { call with phase := .enqueue })
      | _, _ => none
  | .enqueue _ =>
      match call.phase, call.key with
      | .enqueue, some key =>
          match (call.job.packet key).toBytes with
          | .error err =>
              some (s.setCall c { call with phase := .finished (.error (Error.ofError err)) })
          | .ok bytes =>
              if s.isClosed then
                some (s.setCall c { call with phase := .finished (.error Error.sendError) })
              else
                some { s.setCall c { call with phase := .recv } with queue := s.queue ++ [bytes] }
      | _, _ => none
  | .recv _ frame =>
      match call.phase, call.answer with
      | .recv, some answer =>
          if answer.frame = frame then
            some (s.setCall c { call with phase := .complete answer.result })
          else none
      | _, _ => none
  | .recvNone _ =>
      if call.phase = .recv ∧ call.answer = none ∧ s.senderLeft c call = false then
        some (s.setCall c { call with
          phase := .cleanup (.unexpectedBehavior "recv none message") })
      else none
  | .elapse _ =>
      if call.phase = .recv then some (s.setCall c { call with phase := .cleanup .timeout })
      else none
  | .cleanup _ =>
      match call.phase, call.key with
      | .cleanup err, some key =>
          some ((s.setRequest key none).setCall c { call with phase := .finished (.error err) })
      | _, _ => none
  | .complete _ =>
      match call.phase with
      | .complete result =>
          some { s.setCall c { call with phase := .finished result } with
            handles := call.job.counted result s.handles }
      | _ => none
  | .drop _ =>
      if call.phase = .recv then some (s.setCall c { call with phase := .dropped }) else none
  | _ => none

/-- One action; `none` where it is not the turn of that action. -/
def step (s : State) : Action → Option State
  | .start c job =>
      match s.calls c with
      | none => some (s.setCall c (Call.new job))
      | some _ => none
  | .arrive bytes => some { s with inbox := s.inbox ++ [bytes] }
  | .read =>
      match s.reader, s.inbox with
      | .idle, bytes :: inbox =>
          let reader := match decodeReply bytes with
            | some (key, packet) => .replying s.frames key packet
            | none => .idle
          some { s with inbox, frames := s.frames + 1, reader }
      | _, _ => none
  | .lookup key =>
      match s.reader with
      | .replying frame key' packet =>
          if key' = key then
            match s.requests key with
            | some c => some { s.setRequest key none with reader := .sending frame key packet c }
            | none => some { s with reader := .idle }
          else none
      | _ => none
  | .deliver c frame =>
      match s.reader with
      | .sending frame' key packet c' =>
          if c' = c ∧ frame' = frame then
            some { (deliver frame key packet c s).2 with reader := .idle }
          else none
      | _ => none
  | .reclaim c =>
      if c ∈ s.retired ∧ s.reader.holds c = false then
        some { s with retired := s.retired.erase c }
      else none
  | .eof =>
      if s.reader = .idle ∧ s.inbox = [] then some { s with reader := .ended, cancelled := true }
      else none
  | .readCancelled =>
      if s.reader = .idle ∧ s.cancelled then some { s with reader := .ended } else none
  | .write =>
      match s.writer, s.queue with
      | .running, data :: queue =>
          if data.isEmpty then some { s with queue, writer := .stopped, cancelled := true }
          else some { s with queue, written := s.written ++ [data] }
      | _, _ => none
  | .writeCancelled =>
      if s.writer = .running ∧ s.cancelled then some { s with writer := .stopped } else none
  | .writeEnd => if s.writer = .stopped then some { s with writer := .ended } else none
  | .closeSession =>
      if s.isClosed then some s else some { s with queue := s.queue ++ [[]] }
  | action@(.checkLimit c) | action@(.useNextId c) | action@(.isClosed c) | action@(.insert c)
  | action@(.enqueue c) | action@(.recv c _) | action@(.recvNone c) | action@(.elapse c)
  | action@(.cleanup c) | action@(.complete c) | action@(.drop c) =>
      match s.calls c with
      | some call => callStep s c call action
      | none => none

end RusshSftp.Client
