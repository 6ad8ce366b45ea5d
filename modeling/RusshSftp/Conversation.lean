import RusshSftp.Client.Async
import RusshSftp.Link.Model

/-!
# Programs over the wire

The calls of a program go over the wire one after the other, each answered by one round of the
server's loop; a call that gets no reply of its own times out.  A `Peer` has neither packets nor
tasks: a call there is a call of the handler's method.  No program can tell the two apart.
-/

set_option autoImplicit false

namespace RusshSftp

open Client Framing ByteCodec

variable {σ ε : Type}

/-! ## Calls of the handler's methods -/

namespace Client.Job

/-- The error that is returned before anything is sent. -/
def limited (limits : Limits) (handles : UInt64) : Job → Option Client.Error
  | .init => none
  | .request r => r.operation.limited limits handles

/-- The key that a call gets when `id` is the next one. -/
def keyAt (id : UInt32) : Job → Key
  | .init => none
  | .request _ => some id

def idAfter (id : UInt32) : Job → UInt32
  | .init => id
  | .request _ => id + 1

end Client.Job

/-- What a handler and the sessions's counters are without the wire between them. -/
structure Peer (σ : Type) where
  limits : Limits
  nextReqId : UInt32
  handles : UInt64
  version : Option UInt32
  server : σ

namespace Peer

def new (start : σ) : Peer σ := ⟨.default, 1, 0, none, start⟩

/-- An answer comes back to the call.  If it is not the reply of that call, the call times out. -/
def receive (job : Job) (reply : Packet) (server : σ) (p : Peer σ) :
    SftpResult Packet × Peer σ :=
  let key := job.keyAt p.nextReqId
  let p := { p with nextReqId := job.idAfter p.nextReqId, server }
  if reply.replyKey? = some key then
    let result := (validate p.version key).map fun _ => reply
    (result, { p with
      version := versionAfter p.version key reply, handles := job.counted result p.handles })
  else (.error .timeout, p)

/-- A call of the handler's method, unless a limit of the session is reached. -/
def exchange (handler : Server.Handler σ ε) (job : Job) (p : Peer σ) :
    SftpResult Packet × Peer σ :=
  match job.limited p.limits p.handles with
  | some err => (.error err, p)
  | none =>
      let (reply, server) := Link.answer handler (job.keyAt p.nextReqId) job p.server
      p.receive job reply server

end Peer

namespace Client.SessionCall

/-- `init` takes a `Version` packet only. -/
def initResult : SftpResult Packet → SftpResult Version
  | .ok (.version version) => .ok version
  | .ok _ => .error .unexpectedPacket
  | .error err => .error err

end Client.SessionCall

def Peer.serve (handler : Server.Handler σ ε) : (c : SessionCall) → Peer σ → c.Reply × Peer σ
  | .init, p =>
      let (result, p) := p.exchange handler .init
      (SessionCall.initResult result, p)
  | .setLimits limits, p => ((), { p with limits })
  | .request r, p =>
      let (result, p) := p.exchange handler (.request r)
      (r.returned result, p)

/-! ## Calls over the wire -/

/-- The session between two calls, and the server's handler. -/
structure Wire (σ : Type) where
  client : State
  /-- The number of the next call. -/
  next : CallId
  server : σ

/-- The first actions of a call: a limit that is reached ends it. -/
def Client.Job.enter (c : CallId) : Job → List Action
  | .init => [.start c .init]
  | .request r => [.start c (.request r), .checkLimit c]

/-- The actions by which a call gets its frame on the wire. -/
def Client.Job.post (c : CallId) : Job → List Action
  | .init => [.isClosed c, .insert c, .enqueue c, .write]
  | .request _ => [.useNextId c, .isClosed c, .insert c, .enqueue c, .write]

/-- What follows the server's answer.  A reply for somebody else, or no reply at all, leaves the
call waiting until its time is over. -/
def awaitReply (c : CallId) (key : Key) (frame : Nat) (body : Bytes) : List Action :=
  match decodeReply body with
  | some (key', _) =>
      if key' = key then
        [.arrive body, .read, .lookup key, .deliver c frame, .recv c frame, .complete c]
      else [.arrive body, .read, .lookup key', .elapse c, .cleanup c]
  | none => [.arrive body, .read, .elapse c, .cleanup c]

namespace Wire

def new (start : σ) : Wire σ := ⟨State.new .default, 0, start⟩

/-- One call, from its start to its result. -/
def exchange (handler : Server.Handler σ ε) (job : Job) (w : Wire σ) :
    Option (SftpResult Packet × Wire σ) := do
  let entered ← Run.exec step w.client (job.enter w.next)
  let call ← entered.calls w.next
  match call.phase with
  | .finished result => return (result, ⟨entered, w.next + 1, w.server⟩)
  | _ =>
      let sent ← Run.exec step entered (job.post w.next)
      let (output, server) ←
        serveOnce handler (sent.written.drop w.client.written.length).flatten w.server
      let body ← firstFrame output
      let done ← Run.exec step sent
        (awaitReply w.next (job.keyAt w.client.nextReqId) sent.frames body)
      let call ← done.calls w.next
      let result ← call.phase.result?
      return (result, ⟨done, w.next + 1, server⟩)

def serve (handler : Server.Handler σ ε) : (c : SessionCall) → Wire σ → Option (c.Reply × Wire σ)
  | .init, w => do
      let (result, w) ← w.exchange handler .init
      return (SessionCall.initResult result, w)
  | .setLimits limits, w => some ((), { w with client := { w.client with limits } })
  | .request r, w => do
      let (result, w) ← w.exchange handler (.request r)
      return (r.returned result, w)

end Wire

/-! ## A call over the wire is a call of the method -/

/-- What is left of a wire and its ends when the wire is taken away. -/
def Wire.peer (w : Wire σ) : Peer σ :=
  ⟨w.client.limits, w.client.nextReqId, w.client.handles, w.client.version, w.server⟩

/-- The tasks of the session wait, and no call is under way. -/
structure Wire.Idle (w : Wire σ) : Prop where
  fresh : ∀ c, w.next ≤ c → w.client.calls c = none
  requests : ∀ key, w.client.requests key = none
  reader : w.client.reader = .idle
  inbox : w.client.inbox = []
  writer : w.client.writer = .running
  queue : w.client.queue = []

theorem Wire.idle_new (start : σ) : (Wire.new start).Idle := by
  constructor <;> intros <;> rfl

/-- The state in which the frame of a call is on the wire. -/
def posted (s : State) (c : CallId) (job : Job) (bytes : Bytes) : State :=
  { s with
    nextReqId := job.idAfter s.nextReqId
    calls := Function.update s.calls c (some ⟨job, some (job.keyAt s.nextReqId), .recv, none⟩)
    requests := Function.update s.requests (job.keyAt s.nextReqId) (some c)
    retired := (s.requests (job.keyAt s.nextReqId)).toList ++ s.retired
    queue := [], written := s.written ++ [bytes] }

section
variable {s : State} {c : CallId} {job : Job}

theorem exec_enter_limited {err : Client.Error} (fresh : s.calls c = none)
    (limited : job.limited s.limits s.handles = some err) :
    ∃ key, Run.exec step s (job.enter c) =
      some (s.setCall c ⟨job, key, .finished (.error err), none⟩) := by
  cases job with
  | init => cases limited
  | request r =>
      have reached : r.operation.limited s.limits s.handles = some err := limited
      refine ⟨none, ?_⟩
      simp [Job.enter, Run.exec, step, callStep, fresh, Call.new, Job.firstPhase, Job.key, reached,
        State.setCall]

theorem exec_post {bytes : Bytes} (fresh : s.calls c = none) (writer : s.writer = .running)
    (queue : s.queue = []) (free : job.limited s.limits s.handles = none)
    (encoded : (job.packet (job.keyAt s.nextReqId)).toBytes = .ok bytes) (nonempty : bytes ≠ []) :
    ∃ entered call, Run.exec step s (job.enter c) = some entered ∧
      entered.calls c = some call ∧ (∀ result, call.phase ≠ .finished result) ∧
      Run.exec step entered (job.post c) = some (posted s c job bytes) := by
  cases job with
  | init =>
      refine ⟨s.setCall c (Call.new .init), Call.new .init, ?_, State.setCall_same .., ?_, ?_⟩
      · simp [Job.enter, Run.exec, step, fresh]
      · rintro result ⟨⟩
      · simp [Job.keyAt] at encoded
        simp [Job.post, Run.exec, step, callStep, Call.new, Job.firstPhase, Job.key,
          State.isClosed, writer, queue, encoded, nonempty, posted, Job.idAfter, Job.keyAt,
          State.setCall, State.setRequest]
  | request r =>
      have below : r.operation.limited s.limits s.handles = none := free
      refine ⟨s.setCall c ⟨.request r, none, .useNextId, none⟩, _, ?_, State.setCall_same .., ?_,
        ?_⟩
      · simp [Job.enter, Run.exec, step, callStep, fresh, Call.new, Job.firstPhase, Job.key, below,
          State.setCall]
      · rintro result ⟨⟩
      · simp [Job.keyAt] at encoded
        simp [Job.post, Run.exec, step, callStep, State.isClosed, writer, queue, encoded, nonempty,
          posted, Job.idAfter, Job.keyAt, State.setCall, State.setRequest]

/-- The state in which a call has returned, and its entry is gone. -/
def returned (s : State) (c : CallId) (job : Job) (key : Key) (result : SftpResult Packet)
    (answer : Option Answer) : State :=
  { s with
    frames := s.frames + 1
    calls := Function.update s.calls c (some ⟨job, some key, .finished result, answer⟩)
    requests := Function.update s.requests key none
    retired := (s.requests key).toList ++ s.retired }

variable {key : Key} {body : Bytes}

theorem exec_await_addressed {packet : Packet}
    (present : s.calls c = some ⟨job, some key, .recv, none⟩) (entry : s.requests key = some c)
    (reader : s.reader = .idle) (inbox : s.inbox = [])
    (decoded : decodeReply body = some (key, packet)) {result : SftpResult Packet}
    (valid : (validate s.version key).map (fun _ => packet) = result) :
    Run.exec step s (awaitReply c key s.frames body) =
      some { returned s c job key result (some ⟨s.frames, result⟩) with
        version := versionAfter s.version key packet
        handles := job.counted result s.handles } := by
  have put (t : State) (same : t.version = s.version) (at_c : t.calls c = s.calls c) :=
    deliver_accepted s.frames key packet c t (at_c.trans present) rfl rfl
  subst valid
  rw [awaitReply, decoded]
  simp [Run.exec, step, callStep, reader, inbox, decoded, entry, put, returned, State.setCall,
    State.setRequest]

theorem exec_await_unaddressed (present : s.calls c = some ⟨job, some key, .recv, none⟩)
    (others : ∀ other, other ≠ key → s.requests other = none)
    (reader : s.reader = .idle) (inbox : s.inbox = [])
    (decoded : ∀ packet, decodeReply body ≠ some (key, packet)) :
    Run.exec step s (awaitReply c key s.frames body) =
      some (returned s c job key (.error .timeout) none) := by
  rw [awaitReply]
  cases got : decodeReply body with
  | none =>
      simp [Run.exec, step, callStep, reader, inbox, got, present, returned, State.setCall,
        State.setRequest]
  | some reply =>
      obtain ⟨key', packet⟩ := reply
      have other : key' ≠ key := by
        rintro rfl
        exact decoded packet got
      simp [Run.exec, step, callStep, reader, inbox, got, other, others key' other, present,
        returned, State.setCall, State.setRequest]

end

/-- The bytes of a packet are one round of the server's loop. -/
theorem serveOnce_frame {handler : Server.Handler σ ε} {packet reply : Packet} {server server' : σ}
    (fits : packet.Short)
    (answered : Server.processRequest handler packet.normalise server = (reply, server'))
    (small : reply.Short) :
    serveOnce handler (frame 4 packet.body) server = some (frame 4 reply.body, server') := by
  have response : Server.respond handler packet.body server = (reply, server') := by
    have wire := fits.wire
    rw [Server.respond, tryFrom_body _ (by omega)]
    exact answered
  have round := Server.processHandler_frame handler
    ⟨frame 4 packet.body, .earlyEof, [], []⟩ server packet.body []
    (by have wire := fits.wire; rw [body_length]; omega) (List.append_nil _).symm rfl
    (by
      have wire := small.wire
      rw [response]
      show reply.body.length < 2 ^ 32
      rw [body_length]
      omega)
  rw [serveOnce, round, response]
  rfl

/-- The frames of a call fit: its request, and what the handler makes of it. -/
structure Peer.Fits (handler : Server.Handler σ ε) (job : Job) (p : Peer σ) : Prop where
  request : (job.packet (job.keyAt p.nextReqId)).Short
  reply : (Server.processRequest handler (job.packet (job.keyAt p.nextReqId)).normalise
    p.server).1.Short

theorem Peer.exchange_limited {handler : Server.Handler σ ε} {job : Job} {p : Peer σ}
    {err : Client.Error} (limited : job.limited p.limits p.handles = some err) :
    p.exchange handler job = (.error err, p) := by
  simp only [exchange, limited]

theorem Peer.exchange_free {handler : Server.Handler σ ε} {job : Job} {p : Peer σ}
    (free : job.limited p.limits p.handles = none) {reply : Packet} {server : σ}
    (answered : Server.processRequest handler (job.packet (job.keyAt p.nextReqId)).normalise
      p.server = (reply, server)) :
    p.exchange handler job =
      if reply.replyKey? = some (job.keyAt p.nextReqId) then
        ((validate p.version (job.keyAt p.nextReqId)).map fun _ => reply.normalise,
          { p with
            nextReqId := job.idAfter p.nextReqId, server
            version := versionAfter p.version (job.keyAt p.nextReqId) reply.normalise
            handles := job.counted ((validate p.version (job.keyAt p.nextReqId)).map fun _ =>
              reply.normalise) p.handles })
      else (.error .timeout, { p with nextReqId := job.idAfter p.nextReqId, server }) := by
  simp only [exchange, receive, free, Link.answer, answered, normalise_replyKey]

theorem decodeReply_other {p : Packet} {key : Key} (fits : p.Short)
    (other : p.replyKey? ≠ some key) (packet : Packet) :
    decodeReply p.body ≠ some (key, packet) := by
  have wire := fits.wire
  rw [decodeReply, tryFrom_body p (by omega)]
  intro decoded
  obtain ⟨key', replyKey, same⟩ := Option.map_eq_some_iff.mp decoded
  rw [normalise_replyKey] at replyKey
  exact other (by rw [replyKey, (Prod.mk.inj same).1])

theorem Wire.exchange_of_parts {handler : Server.Handler σ ε} {job : Job} {w : Wire σ}
    {entered sent done : State} {call last : Call} {output body : Bytes} {server : σ}
    {result : SftpResult Packet} (enter : Run.exec step w.client (job.enter w.next) = some entered)
    (present : entered.calls w.next = some call) (waiting : ∀ result, call.phase ≠ .finished result)
    (post : Run.exec step entered (job.post w.next) = some sent)
    (served : serveOnce handler (sent.written.drop w.client.written.length).flatten w.server =
      some (output, server))
    (framed : firstFrame output = some body)
    (back : Run.exec step sent (awaitReply w.next (job.keyAt w.client.nextReqId) sent.frames body) =
      some done)
    (at_c : done.calls w.next = some last) (finished : last.phase = .finished result) :
    w.exchange handler job = some (result, ⟨done, w.next + 1, server⟩) := by
  have goes : ∀ phase : Phase, (∀ result, phase ≠ .finished result) → call.phase = phase →
      w.exchange handler job = some (result, ⟨done, w.next + 1, server⟩) := by
    intro phase unfinished same
    rw [exchange, enter, Option.bind_eq_bind, Option.bind_some, present, Option.bind_eq_bind,
      Option.bind_some, same]
    cases phase with
    | finished result => exact absurd rfl (unfinished result)
    | _ => simp [post, served, framed, back, at_c, finished, Phase.result?]
  exact goes call.phase waiting rfl

theorem Wire.Idle.returned {w : Wire σ} (idle : w.Idle) (job : Job) (bytes : Bytes)
    (result : SftpResult Packet) (answer : Option Answer) (version : Option UInt32)
    (handles : UInt64) (server : σ) :
    Wire.Idle ⟨{ RusshSftp.returned (posted w.client w.next job bytes) w.next job
      (job.keyAt w.client.nextReqId) result answer with version, handles }, w.next + 1,
      server⟩ where
  fresh c later := by
    have other : c ≠ w.next := by
      rintro rfl
      exact Nat.not_succ_le_self _ later
    show Function.update (Function.update w.client.calls w.next _) w.next _ c = none
    rw [Function.update_of_ne other, Function.update_of_ne other]
    exact idle.fresh c (Nat.le_of_succ_le later)
  requests key := by
    show Function.update (Function.update w.client.requests _ _) _ _ key = none
    rw [Function.update_idem, Function.update_apply]
    split
    · rfl
    · exact idle.requests key
  reader := idle.reader
  inbox := idle.inbox
  writer := idle.writer
  queue := rfl

theorem Wire.exchange_free {handler : Server.Handler σ ε} {job : Job} {w : Wire σ} (idle : w.Idle)
    (free : job.limited w.client.limits w.client.handles = none)
    (short : (job.packet (job.keyAt w.client.nextReqId)).Short) {reply : Packet} {server : σ}
    (answered : Server.processRequest handler
      (job.packet (job.keyAt w.client.nextReqId)).normalise w.server = (reply, server))
    (small : reply.Short) :
    ∃ w', w.exchange handler job = some ((w.peer.exchange handler job).1, w') ∧ w'.Idle ∧
      w'.peer = (w.peer.exchange handler job).2 := by
  have same := Peer.exchange_free (p := w.peer) free answered
  have encoded := Server.toBytes_eq_frame (job.packet (job.keyAt w.client.nextReqId))
    (by have wire := short.wire; rw [body_length]; omega)
  obtain ⟨entered, call, enter, present, waiting, post⟩ := exec_post
    (idle.fresh w.next (Nat.le_refl _)) idle.writer idle.queue free encoded
    (by simp [frame, Packet.body, putU8])
  generalize packetIs : job.packet (job.keyAt w.client.nextReqId) = packet at *
  have wire : ((posted w.client w.next job (frame 4 packet.body)).written.drop
      w.client.written.length).flatten = frame 4 packet.body := by
    rw [posted, List.drop_left]
    exact List.append_nil _
  have served := serveOnce_frame short answered small
  rw [← wire] at served
  have framed := firstFrame_frame reply.body
    (by have wire := small.wire; rw [body_length]; omega)
  have atCall : (posted w.client w.next job (frame 4 packet.body)).calls w.next =
      some ⟨job, some (job.keyAt w.client.nextReqId), .recv, none⟩ := Function.update_self ..
  by_cases addressed : reply.replyKey? = some (job.keyAt w.client.nextReqId)
  · rw [if_pos (show reply.replyKey? = some (job.keyAt w.peer.nextReqId) from addressed)] at same
    have decoded := decodeReply_body (by have wire := small.wire; omega) addressed
    have back := exec_await_addressed atCall (Function.update_self ..) idle.reader idle.inbox
      decoded rfl
    have all := Wire.exchange_of_parts enter present waiting post served framed back
      (Function.update_self ..) rfl
    rw [same, all]
    exact ⟨_, rfl, idle.returned .., rfl⟩
  · rw [if_neg (show reply.replyKey? ≠ some (job.keyAt w.peer.nextReqId) from addressed)] at same
    have others : ∀ other, other ≠ job.keyAt w.client.nextReqId →
        (posted w.client w.next job (frame 4 packet.body)).requests other = none := by
      intro other different
      exact (Function.update_of_ne different _ _).trans (idle.requests other)
    have back := exec_await_unaddressed atCall others idle.reader idle.inbox
      (decodeReply_other small addressed)
    have all := Wire.exchange_of_parts enter present waiting post served framed back
      (Function.update_self ..) rfl
    rw [same, all]
    exact ⟨_, rfl, idle.returned .., rfl⟩

/-- One call over the wire gives what the call of the method gives, and leaves the wire idle. -/
theorem Wire.exchange_eq (handler : Server.Handler σ ε) (job : Job) {w : Wire σ} (idle : w.Idle)
    (fits : job.limited w.client.limits w.client.handles = none → w.peer.Fits handler job) :
    ∃ w', w.exchange handler job = some ((w.peer.exchange handler job).1, w') ∧ w'.Idle ∧
      w'.peer = (w.peer.exchange handler job).2 := by
  cases limited : job.limited w.client.limits w.client.handles with
  | none => exact exchange_free idle limited (fits limited).request rfl (fits limited).reply
  | some err =>
      obtain ⟨key, entered⟩ := exec_enter_limited (idle.fresh w.next (Nat.le_refl _)) limited
      have same : w.peer.exchange handler job = (.error err, w.peer) :=
        Peer.exchange_limited limited
      rw [same]
      refine ⟨⟨w.client.setCall w.next ⟨job, key, .finished (.error err), none⟩, w.next + 1,
        w.server⟩, ?_, ?_, rfl⟩
      · rw [exchange, entered, Option.bind_eq_bind, Option.bind_some, State.setCall_same]
        rfl
      · exact { idle with
          fresh := fun c later => by
            rw [State.setCall_other _ _ (by rintro rfl; exact Nat.not_succ_le_self _ later)]
            exact idle.fresh c (Nat.le_of_succ_le later) }

/-! ## Programs -/

/-- The frames of a call fit, if the call sends any. -/
def Client.SessionCall.Fits (handler : Server.Handler σ ε) : SessionCall → Peer σ → Prop
  | .init, p => p.Fits handler .init
  | .setLimits _, _ => True
  | .request r, p => r.operation.limited p.limits p.handles = none → p.Fits handler (.request r)

instance (p : Packet) : Decidable p.Short :=
  decidable_of_iff (p.wire.length < 2 ^ 32 - 1) ⟨.of_wire, Packet.Short.wire⟩

instance (handler : Server.Handler σ ε) (job : Job) (p : Peer σ) :
    Decidable (p.Fits handler job) :=
  decidable_of_iff _ ⟨fun fits => ⟨fits.1, fits.2⟩, fun fits => And.intro fits.request fits.reply⟩

instance (handler : Server.Handler σ ε) : (c : SessionCall) → (p : Peer σ) →
    Decidable (c.Fits handler p)
  | .init, p => inferInstanceAs (Decidable (p.Fits handler .init))
  | .setLimits _, _ => inferInstanceAs (Decidable True)
  | .request r, p => inferInstanceAs (Decidable
      (r.operation.limited p.limits p.handles = none → p.Fits handler (.request r)))

theorem Wire.serve_eq (handler : Server.Handler σ ε) (c : SessionCall) {w : Wire σ} (idle : w.Idle)
    (fits : c.Fits handler w.peer) :
    ∃ w', w.serve handler c = some ((w.peer.serve handler c).1, w') ∧ w'.Idle ∧
      w'.peer = (w.peer.serve handler c).2 := by
  cases c with
  | init =>
      obtain ⟨w', exchanged, idle', same⟩ := Wire.exchange_eq handler .init idle fun _ => fits
      exact ⟨w', by rw [serve, exchanged]; rfl, idle', same⟩
  | setLimits limits => exact ⟨_, rfl, { idle with }, rfl⟩
  | request r =>
      obtain ⟨w', exchanged, idle', same⟩ := Wire.exchange_eq handler (.request r) idle fits
      exact ⟨w', by rw [serve, exchanged]; rfl, idle', same⟩

/-- A program over the wire gives what it gives when it calls the handler's methods, which are
called in the same order and with the same arguments. -/
theorem program_over_wire {α : Type} (handler : Server.Handler σ ε)
    (program : Program SessionCall SessionCall.Reply α) (w : Wire σ) (idle : w.Idle)
    (fits : program.Meets (SessionCall.Fits handler) (Peer.serve handler) w.peer) :
    ∃ w', program.attempt (Wire.serve handler) w =
        some ((program.run (Peer.serve handler) w.peer).1, w') ∧
      w'.Idle ∧ w'.peer = (program.run (Peer.serve handler) w.peer).2 := by
  refine Program.simulates (R := fun p (w : Wire σ) => w.Idle ∧ w.peer = p) ?_ program fits
    ⟨idle, rfl⟩
  rintro c p w fits ⟨idle, rfl⟩
  exact Wire.serve_eq handler c idle fits

/-- `init`, and then a `stat`. -/
def askStat : Program SessionCall SessionCall.Reply (SftpResult Attrs) :=
  .call .init fun _ => .call (.request (.stat "a")) .done

theorem program_over_wire_stat :
    ∃ w, askStat.attempt (Wire.serve countingHandler) (Wire.new 0) = some (.ok ⟨1, .empty⟩, w) ∧
      w.server = 1 := by
  obtain ⟨w, ran, -, peer⟩ := program_over_wire countingHandler askStat (Wire.new 0)
    (Wire.idle_new 0) (by decide +kernel)
  exact ⟨w, ran, congrArg Peer.server peer⟩

end RusshSftp
