import RusshSftp.Client.Steps
import RusshSftp.Server.Run

/-!
# A call, from the client to the handler and back

`rpc` puts the parts together: the call of a session up to its bytes on the wire, one round
of the server's loop on these bytes, and the reader's work on what the server has written.
What the caller gets is compared with the handler's method of the same operation.
-/

set_option autoImplicit false

namespace RusshSftp

open Client Framing ByteCodec

variable {σ ε : Type}

namespace Client.Request

/-- The handler's method for an operation. -/
def method (handler : Server.Handler σ ε) (id : UInt32) :
    (r : Request) → σ → Except ε r.Reply × σ
  | .open filename flags attrs => handler.open id filename flags attrs
  | .close handle => handler.close id handle
  | .read handle offset len => handler.read id handle offset len
  | .write handle offset data => handler.write id handle offset data
  | .lstat path => handler.lstat id path
  | .fstat handle => handler.fstat id handle
  | .setstat path attrs => handler.setstat id path attrs
  | .fsetstat handle attrs => handler.fsetstat id handle attrs
  | .opendir path => handler.opendir id path
  | .readdir handle => handler.readdir id handle
  | .remove filename => handler.remove id filename
  | .mkdir path attrs => handler.mkdir id path attrs
  | .rmdir path => handler.rmdir id path
  | .realpath path => handler.realpath id path
  | .stat path => handler.stat id path
  | .rename oldpath newpath => handler.rename id oldpath newpath
  | .readlink path => handler.readlink id path
  | .symlink path target => handler.symlink id path target
  | .extended request data => handler.extended id request data

/-- A reply as a packet. -/
def toPacket : (r : Request) → r.Reply → Packet
  | .open .. => .handle
  | .opendir .. => .handle
  | .read .. => .data
  | .lstat .. => .attrs
  | .fstat .. => .attrs
  | .stat .. => .attrs
  | .readdir .. => .name
  | .realpath .. => .name
  | .readlink .. => .name
  | .extended .. => id
  | .close .. => .status
  | .write .. => .status
  | .setstat .. => .status
  | .fsetstat .. => .status
  | .remove .. => .status
  | .mkdir .. => .status
  | .rmdir .. => .status
  | .rename .. => .status
  | .symlink .. => .status

end Client.Request

/-- The actions by which a call gets its request on the wire. -/
def sendActions (c : CallId) (r : Request) : List Action :=
  [.start c (.request r), .checkLimit c, .useNextId c, .isClosed c, .insert c, .enqueue c, .write]

/-- The actions by which a frame gets to the call it answers. -/
def receiveActions (c : CallId) (id : UInt32) (frame : Nat) (body : Bytes) : List Action :=
  [.arrive body, .read, .lookup (some id), .deliver c frame, .recv c frame, .complete c]

/-- One round of the server's loop on some bytes: what it writes. -/
def serveOnce (handler : Server.Handler σ ε) (wire : Bytes) (hs : σ) : Option (Bytes × σ) :=
  match Server.processHandler ⟨wire, .earlyEof, [], []⟩ handler hs with
  | (.ok (), stream, hs) => some (stream.output, hs)
  | (.error _, _, _) => none

/-- The first frame of some bytes. -/
def firstFrame (wire : Bytes) : Option Bytes :=
  match Stream.readPacket ⟨wire, .earlyEof, [], []⟩ with
  | (.ok body, _) => some body
  | (.error _, _) => none

def Client.Phase.result? : Phase → Option (SftpResult Packet)
  | .finished result => some result
  | _ => none

/-- One call on a session whose tasks have nothing else to do, against one round of the
server's loop: what the caller gets, and the states afterwards. -/
def rpc (handler : Server.Handler σ ε) (r : Request) (c : CallId) (s : State) (hs : σ) :
    Option (SftpResult r.Reply × State × σ) := do
  let sent ← Run.exec step s (sendActions c r)
  let (output, hs) ← serveOnce handler (sent.written.drop s.written.length).flatten hs
  let body ← firstFrame output
  let done ← Run.exec step sent (receiveActions c s.nextReqId s.frames body)
  let call ← done.calls c
  let result ← call.phase.result?
  return (r.returned result, done, hs)

/-! ## The way to the server -/

/-- The session is initialised and its tasks wait; the call is new. -/
structure Ready (s : State) (c : CallId) : Prop where
  fresh : s.calls c = none
  initialised : s.version ≠ none
  reader : s.reader = .idle
  inbox : s.inbox = []
  writer : s.writer = .running
  queue : s.queue = []

/-- The payload fits in a frame. -/
def Packet.Short (p : Packet) : Prop :=
  ∀ payload, p.payload = .ok payload → payload.length < 2 ^ 32 - 1

theorem Packet.Short.wire {p : Packet} (short : p.Short) : p.wire.length < 2 ^ 32 - 1 :=
  short p.wire p.payload_eq

theorem exec_send {r : Request} {s : State} {c : CallId} (ready : Ready s c)
    (free : r.operation.limited s.limits s.handles = none) {bytes : Bytes}
    (encoded : (r.operation.packet s.nextReqId).toBytes = .ok bytes) (nonempty : bytes ≠ []) :
    ∃ sent, Run.exec step s (sendActions c r) = some sent ∧
      sent.written = s.written ++ [bytes] ∧
      sent.calls c = some ⟨.request r, some (some s.nextReqId), .recv, none⟩ ∧
      sent.requests (some s.nextReqId) = some c ∧ sent.version = s.version ∧
      sent.reader = .idle ∧ sent.inbox = [] ∧ sent.frames = s.frames ∧
      sent.handles = s.handles := by
  simp [sendActions, Run.exec, step, callStep, ready.fresh, Call.new, Job.firstPhase, Job.key,
    free, State.isClosed, ready.writer, Job.packet, encoded, ready.queue, nonempty,
    State.setRequest_requests, ready.reader, ready.inbox]

theorem processRequest_method (handler : Server.Handler σ ε) (r : Request) (id : UInt32) (hs : σ) :
    Server.processRequest handler (r.operation.packet id) hs =
      Server.intoWrap id handler r.toPacket (r.method handler id hs) := by
  cases r <;> rfl

/-- Attributes that pass over the wire unchanged. -/
structure FileAttributes.Paired (attrs : FileAttributes) : Prop where
  owner : attrs.uid.isSome = attrs.gid.isSome
  times : attrs.atime.isSome = attrs.mtime.isSome
  user : attrs.user = none
  group : attrs.group = none

theorem FileAttributes.Paired.normalise {attrs : FileAttributes} (paired : attrs.Paired) :
    attrs.normalise = attrs := by
  obtain ⟨size, uid, user, gid, group, permissions, atime, mtime⟩ := attrs
  obtain ⟨owner, times, rfl, rfl⟩ := paired
  cases uid <;> cases gid <;> cases owner <;> cases atime <;> cases mtime <;> cases times <;> rfl

def Client.Request.attributes? : Request → Option FileAttributes
  | .open _ _ attrs | .setstat _ attrs | .fsetstat _ attrs | .mkdir _ attrs => some attrs
  | _ => none

theorem request_normalise {r : Request} (id : UInt32)
    (paired : ∀ attrs, r.attributes? = some attrs → attrs.Paired) :
    (r.operation.packet id).normalise = r.operation.packet id := by
  cases r with
  | «open» filename flags attrs =>
      show Packet.open ⟨id, filename, flags, attrs.normalise⟩ = _
      rw [(paired attrs rfl).normalise]
      rfl
  | setstat path attrs =>
      show Packet.setStat ⟨id, path, attrs.normalise⟩ = _
      rw [(paired attrs rfl).normalise]
      rfl
  | fsetstat handle attrs =>
      show Packet.fSetStat ⟨id, handle, attrs.normalise⟩ = _
      rw [(paired attrs rfl).normalise]
      rfl
  | mkdir path attrs =>
      show Packet.mkDir ⟨id, path, attrs.normalise⟩ = _
      rw [(paired attrs rfl).normalise]
      rfl
  | _ => rfl

theorem body_length (p : Packet) : p.body.length = p.wire.length + 1 := by
  rw [Packet.body, List.length_append, putU8_length, Nat.add_comm]

theorem tryFrom_body (p : Packet) (fits : p.wire.length < 2 ^ 32) :
    Packet.tryFrom.run p.body = .ok (p.normalise, []) := p.readsAll_body fits

/-! ## The way back -/

theorem normalise_replyKey (p : Packet) : p.normalise.replyKey? = p.replyKey? := by
  cases p <;> rfl

theorem decodeReply_body {p : Packet} {key : Key} (fits : p.wire.length < 2 ^ 32)
    (replyKey : p.replyKey? = some key) : decodeReply p.body = some (key, p.normalise) := by
  rw [decodeReply, tryFrom_body p fits]
  simp only [normalise_replyKey, replyKey, Option.map_some]

theorem exec_receive {r : Request} {sent : State} {c : CallId} {id : UInt32} {p : Packet}
    (present : sent.calls c = some ⟨.request r, some (some id), .recv, none⟩)
    (entry : sent.requests (some id) = some c) (initialised : sent.version ≠ none)
    (reader : sent.reader = .idle) (inbox : sent.inbox = []) (fits : p.wire.length < 2 ^ 32)
    (replyKey : p.replyKey? = some (some id)) :
    ∃ done call, Run.exec step sent (receiveActions c id sent.frames p.body) = some done ∧
      done.calls c = some call ∧ call.phase.result? = some (.ok p.normalise) := by
  have decoded := decodeReply_body fits replyKey
  obtain ⟨v, version⟩ := Option.ne_none_iff_exists'.mp initialised
  have put (t : State) (same : t.version = some v)
      (at_c : t.calls c = some ⟨.request r, some (some id), .recv, none⟩) :=
    deliver_accepted sent.frames (some id) p.normalise c t at_c rfl rfl
  have valid : validate (some v) (some id) = .ok () := rfl
  simp [receiveActions, Run.exec, step, callStep, reader, inbox, decoded, entry, present, put,
    version, valid, Except.map, Phase.result?]

/-! ## The whole way -/

/-- The bytes of the request are one round of the server's loop: the handler's method of the
operation is called, and the response is its result. -/
theorem serve_request (handler : Server.Handler σ ε) {r : Request} {id : UInt32} (hs : σ)
    (paired : ∀ attrs, r.attributes? = some attrs → attrs.Paired)
    (fits : (r.operation.packet id).wire.length < 2 ^ 32 - 1) {response : Packet} {hs' : σ}
    (served : Server.intoWrap id handler r.toPacket (r.method handler id hs) = (response, hs'))
    (small : response.wire.length < 2 ^ 32 - 1) :
    serveOnce handler (frame 4 (r.operation.packet id).body) hs =
      some (frame 4 response.body, hs') := by
  have answered : Server.respond handler (r.operation.packet id).body hs = (response, hs') := by
    rw [Server.respond, tryFrom_body _ (by omega), request_normalise id paired, ← served]
    exact processRequest_method handler r id hs
  have short : response.body.length < 2 ^ 32 := by
    rw [body_length]
    omega
  have round := Server.processHandler_frame handler
    ⟨frame 4 (r.operation.packet id).body, .earlyEof, [], []⟩ hs (r.operation.packet id).body []
    (by rw [body_length]; omega) (List.append_nil _).symm rfl (by rw [answered]; exact short)
  rw [serveOnce, round, answered]
  rfl

theorem firstFrame_frame (body : Bytes) (fits : body.length < 2 ^ 32) :
    firstFrame (frame 4 body) = some body := by
  have read := Stream.readPacket_frame ⟨frame 4 body, .earlyEof, [], []⟩ body [] fits
    (List.append_nil _).symm
  rw [firstFrame, read]

theorem rpc_of_parts {handler : Server.Handler σ ε} {r : Request} {c : CallId} {s sent done : State}
    {hs hs' : σ} {output body : Bytes} {call : Call} {result : SftpResult Packet}
    (run : Run.exec step s (sendActions c r) = some sent)
    (served : serveOnce handler (sent.written.drop s.written.length).flatten hs =
      some (output, hs'))
    (framed : firstFrame output = some body)
    (back : Run.exec step sent (receiveActions c s.nextReqId s.frames body) = some done)
    (present : done.calls c = some call) (finished : call.phase.result? = some result) :
    rpc handler r c s hs = some (r.returned result, done, hs') := by
  simp [rpc, run, served, framed, back, present, finished]

theorem rpc_eq (handler : Server.Handler σ ε) {r : Request} {s : State} {c : CallId} (hs : σ)
    (ready : Ready s c) (free : r.operation.limited s.limits s.handles = none)
    (paired : ∀ attrs, r.attributes? = some attrs → attrs.Paired)
    (fits : (r.operation.packet s.nextReqId).wire.length < 2 ^ 32 - 1)
    {response : Packet} {hs' : σ}
    (served : Server.intoWrap s.nextReqId handler r.toPacket
      (r.method handler s.nextReqId hs) = (response, hs'))
    (small : response.wire.length < 2 ^ 32 - 1)
    (replyKey : response.replyKey? = some (some s.nextReqId)) :
    ∃ done, rpc handler r c s hs = some (r.operation.result response.normalise, done, hs') := by
  have encoded := Server.toBytes_eq_frame (r.operation.packet s.nextReqId)
    (by rw [body_length]; omega)
  have nonempty : frame 4 (r.operation.packet s.nextReqId).body ≠ [] := by
    simp [frame, Packet.body, putU8]
  obtain ⟨sent, run, written, present, entry, version, reader, inbox, frames, _⟩ :=
    exec_send ready free encoded nonempty
  have wire : (sent.written.drop s.written.length).flatten =
      frame 4 (r.operation.packet s.nextReqId).body := by
    rw [written, List.drop_left]
    simp
  have round := serve_request handler hs paired fits served small
  have body := firstFrame_frame response.body (by rw [body_length]; omega)
  obtain ⟨done, call, back, at_c, result⟩ := exec_receive present entry
    (version ▸ ready.initialised) reader inbox (by omega) replyKey
  rw [frames] at back
  exact ⟨done, rpc_of_parts run (wire ▸ round) body back at_c result⟩

/-! ## What the caller gets -/

namespace Client.Request

/-- The status in a reply, for the operations that are answered by one. -/
def status? : (r : Request) → r.Reply → Option Status
  | .close .., p => some p
  | .write .., p => some p
  | .setstat .., p => some p
  | .fsetstat .., p => some p
  | .remove .., p => some p
  | .mkdir .., p => some p
  | .rmdir .., p => some p
  | .rename .., p => some p
  | .symlink .., p => some p
  | _, _ => none

/-- A reply with its attributes as they are after a passage over the wire. -/
def normaliseReply : (r : Request) → r.Reply → r.Reply
  | .lstat .., p => { p with attrs := p.attrs.normalise }
  | .fstat .., p => { p with attrs := p.attrs.normalise }
  | .stat .., p => { p with attrs := p.attrs.normalise }
  | .readdir .., p => { p with files := p.files.map File.normalise }
  | .realpath .., p => { p with files := p.files.map File.normalise }
  | .readlink .., p => { p with files := p.files.map File.normalise }
  | .extended .., p => p.normalise
  | _, p => p

/-- The operation is answered by a status alone. -/
def byStatus : Request → Bool
  | .close .. | .write .. | .setstat .. | .fsetstat .. | .remove .. | .mkdir .. | .rmdir ..
  | .rename .. | .symlink .. => true
  | _ => false

def isExtended : Request → Bool
  | .extended .. => true
  | _ => false

end Client.Request

theorem result_toPacket (r : Request) (p : r.Reply) :
    r.operation.result (r.toPacket p).normalise =
      match r.status? p with
      | some status => if status.statusCode = .ok then .ok p else .error (.status status)
      | none => .ok (r.normaliseReply p) := by
  cases r <;> rfl

theorem result_error {r : Request} (other : r.isExtended = false) (id : UInt32)
    (code : StatusCode) (refused : r.byStatus = false ∨ code ≠ .ok) :
    r.operation.result (Packet.error id code).normalise =
      .error (.status ⟨id, code, code.display, "en-US"⟩) := by
  have status : intoStatus (Packet.error id code) =
      if code = .ok then .ok ⟨id, code, code.display, "en-US"⟩
      else .error (.status ⟨id, code, code.display, "en-US"⟩) := rfl
  cases r with
  | extended => cases other
  | close | write | setstat | fsetstat | remove | mkdir | rmdir | rename | symlink =>
      rcases refused with noStatus | bad
      · cases noStatus
      · rw [if_neg bad] at status
        exact status
  | _ => rfl

theorem error_small (id : UInt32) (code : StatusCode) :
    (Packet.error id code).wire.length < 2 ^ 32 - 1 := by
  have texts : (strWire code.display).length + (strWire "en-US").length < 2 ^ 16 := by
    cases code <;> decide +kernel
  show (putU32 id ++ (putU32 code.variantIndex ++ (strWire code.display ++
    strWire "en-US"))).length < 2 ^ 32 - 1
  simp only [List.length_append, putU32_length]
  omega

theorem result_ok {r : Request} (id : UInt32) (code : StatusCode)
    (accepted : (r.byStatus = true ∧ code = .ok) ∨ r.isExtended = true) :
    ∃ reply, r.operation.result (Packet.error id code).normalise = .ok reply ∧
      r.toPacket reply = Packet.error id code := by
  cases r with
  | extended => exact ⟨Packet.error id code, rfl, rfl⟩
  | close | write | setstat | fsetstat | remove | mkdir | rmdir | rename | symlink =>
      rcases accepted with ⟨-, rfl⟩ | other
      · exact ⟨⟨id, .ok, StatusCode.ok.display, "en-US"⟩, rfl, rfl⟩
      · cases other
  | _ => rcases accepted with ⟨other, -⟩ | other <;> cases other

/-- The call of an operation is the call of the handler's method of that name, and its result
is the caller's. -/
theorem rpc_transparent (handler : Server.Handler σ ε) (r : Request) (s : State) (c : CallId)
    (hs : σ) (ready : Ready s c) (free : r.operation.limited s.limits s.handles = none)
    (paired : ∀ attrs, r.attributes? = some attrs → attrs.Paired)
    (short : (r.operation.packet s.nextReqId).Short) :
    (∀ p hs', r.method handler s.nextReqId hs = (.ok p, hs') →
      (r.toPacket p).replyKey? = some (some s.nextReqId) → (r.toPacket p).Short →
      ∃ done, rpc handler r c s hs = some
        (match r.status? p with
          | some status => if status.statusCode = .ok then .ok p else .error (.status status)
          | none => .ok (r.normaliseReply p), done, hs')) ∧
    (∀ e hs', r.method handler s.nextReqId hs = (.error e, hs') → r.isExtended = false →
      r.byStatus = false ∨ handler.into e ≠ .ok →
      ∃ done, rpc handler r c s hs = some
        (.error (.status ⟨s.nextReqId, handler.into e, (handler.into e).display, "en-US"⟩),
          done, hs')) ∧
    (∀ e hs', r.method handler s.nextReqId hs = (.error e, hs') →
      (r.byStatus = true ∧ handler.into e = .ok) ∨ r.isExtended = true →
      ∃ done reply, rpc handler r c s hs = some (.ok reply, done, hs') ∧
        r.toPacket reply = Packet.error s.nextReqId (handler.into e)) := by
  have refused : ∀ e hs', r.method handler s.nextReqId hs = (.error e, hs') →
      Server.intoWrap s.nextReqId handler r.toPacket (r.method handler s.nextReqId hs) =
        (Packet.error s.nextReqId (handler.into e), hs') := by
    intro e hs' called
    rw [called]
    rfl
  refine ⟨?_, ?_, ?_⟩
  · intro p hs' called replyKey small
    have served : Server.intoWrap s.nextReqId handler r.toPacket
        (r.method handler s.nextReqId hs) = (r.toPacket p, hs') := by
      rw [called]
      rfl
    obtain ⟨done, ends⟩ := rpc_eq handler hs ready free paired short.wire served small.wire replyKey
    exact ⟨done, by rw [ends, result_toPacket]⟩
  · intro e hs' called other bad
    obtain ⟨done, ends⟩ := rpc_eq handler hs ready free paired short.wire (refused e hs' called)
      (error_small s.nextReqId (handler.into e)) rfl
    exact ⟨done, by rw [ends, result_error other _ _ bad]⟩
  · intro e hs' called accepted
    obtain ⟨done, ends⟩ := rpc_eq handler hs ready free paired short.wire (refused e hs' called)
      (error_small s.nextReqId (handler.into e)) rfl
    obtain ⟨reply, result, same⟩ := result_ok s.nextReqId (handler.into e) accepted
    exact ⟨done, reply, by rw [ends, result], same⟩

/-- A session that `init` has been called on is ready for its next call. -/
theorem ready_initialised {s : State}
    (run : Run.exec step (State.new Limits.default) initialised = some s) : Ready s 1 where
  fresh := by
    cases present : s.calls 1 with
    | none => rfl
    | some call =>
        have started := call_started run 1 call present
        simp [initialised, handleReply] at started
  initialised := by
    have version : s.version = some 3 := Run.exec_map run (by decide +kernel)
    rw [version]
    exact fun unset => by cases unset
  reader := Run.exec_map run (by decide +kernel)
  inbox := Run.exec_map run (by decide +kernel)
  writer := Run.exec_map run (by decide +kernel)
  queue := Run.exec_map run (by decide +kernel)

/-- A handler that counts the calls of `stat`; its errors are the status `Ok`. -/
def countingHandler : Server.Handler Nat Unit where
  into _ := .ok
  unimplemented _ := ()
  stat id _ n := (.ok ⟨id, .empty⟩, n + 1)

/-- A handler that keeps the attributes of its one file. -/
def keepingHandler : Server.Handler FileAttributes StatusCode where
  into := id
  unimplemented _ := .opUnsupported
  setstat id _ attrs _ := (.ok ⟨id, .ok, "", ""⟩, attrs)

def owned : FileAttributes := { FileAttributes.empty with uid := some 7, gid := some 8 }

theorem Packet.Short.of_wire {p : Packet} (small : p.wire.length < 2 ^ 32 - 1) : p.Short := by
  intro payload payloadIs
  rw [p.payload_eq] at payloadIs
  cases payloadIs
  exact small

/-- Three calls: one that the handler answers, one that brings it attributes, and one that it
refuses. -/
theorem rpc_transparent_calls :
    ∃ s, Run.exec step (State.new Limits.default) initialised = some s ∧ s.nextReqId = 1 ∧
      (∃ done, rpc countingHandler (.stat "a") 1 s 0 = some (.ok ⟨1, .empty⟩, done, 1)) ∧
      (∃ done, rpc keepingHandler (.setstat "a" owned) 1 s .empty =
        some (.ok ⟨1, .ok, "", ""⟩, done, owned)) ∧
      ∃ done, rpc keepingHandler (.remove "a") 1 s .empty =
        some (.error (.status ⟨1, .opUnsupported, StatusCode.opUnsupported.display, "en-US"⟩), done,
          .empty) := by
  obtain ⟨s, run⟩ : ∃ s, Run.exec step (State.new Limits.default) initialised = some s :=
    Option.isSome_iff_exists.mp (by decide +kernel)
  have id : s.nextReqId = 1 := Run.exec_map (f := State.nextReqId) run (by decide +kernel)
  have ready := ready_initialised run
  have short (r : Request) (small : (r.operation.packet 1).wire.length < 2 ^ 32 - 1) :
      (r.operation.packet s.nextReqId).Short := by
    rw [id]
    exact .of_wire small
  have answers := (rpc_transparent countingHandler (.stat "a") s 1 0 ready rfl
    (fun attrs unused => by cases unused) (short _ (by decide +kernel))).1
      ⟨s.nextReqId, .empty⟩ 1 rfl rfl
  have keeps := (rpc_transparent keepingHandler (.setstat "a" owned) s 1 .empty ready rfl
    (fun attrs same => by cases same; exact ⟨rfl, rfl, rfl, rfl⟩) (short _ (by decide +kernel))).1
      ⟨s.nextReqId, .ok, "", ""⟩ _ rfl rfl
  have fails := (rpc_transparent keepingHandler (.remove "a") s 1 .empty ready rfl
    (fun attrs unused => by cases unused) (short _ (by decide +kernel))).2.1
      .opUnsupported .empty rfl rfl (.inr (by decide))
  rw [id] at answers keeps fails
  exact ⟨s, run, id, answers (.of_wire (by decide +kernel)), keeps (.of_wire (by decide +kernel)),
    fails⟩

/-- The error of a `close` whose status is `Ok` is no error for the caller. -/
theorem close_error_status_ok :
    ∃ s, Run.exec step (State.new Limits.default) initialised = some s ∧ Ready s 1 ∧
      (Request.close "h").method countingHandler s.nextReqId 0 = (.error (), 0) ∧
      ∃ done, rpc countingHandler (.close "h") 1 s 0 =
        some (.ok ⟨s.nextReqId, .ok, "Ok", "en-US"⟩, done, 0) := by
  obtain ⟨s, run⟩ : ∃ s, Run.exec step (State.new Limits.default) initialised = some s :=
    Option.isSome_iff_exists.mp (by decide +kernel)
  have id : s.nextReqId = 1 := Run.exec_map (f := State.nextReqId) run (by decide +kernel)
  have ready := ready_initialised run
  have small : (Packet.close ⟨s.nextReqId, "h"⟩).wire.length < 2 ^ 32 - 1 := by
    rw [id]
    decide +kernel
  have served : Server.intoWrap s.nextReqId countingHandler (Request.close "h").toPacket
      ((Request.close "h").method countingHandler s.nextReqId 0) =
      (Packet.error s.nextReqId .ok, 0) := rfl
  obtain ⟨done, ends⟩ := rpc_eq (r := .close "h") countingHandler 0 ready rfl
    (fun attrs unused => by cases unused) small served (error_small s.nextReqId .ok) rfl
  exact ⟨s, run, ready, rfl, done, ends⟩

end RusshSftp
