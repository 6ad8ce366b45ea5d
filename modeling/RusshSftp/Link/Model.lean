import RusshSftp.Lib.AtomicObject
import RusshSftp.Lib.Pipe
import RusshSftp.Rpc

/-!
# A session and a server on one stream

`client::run` and `server::run` at the two ends of a byte stream.  The bytes are cut on their way
wherever the network likes, and the connection may break at any time.  The client's calls, its two
tasks, the server's loop and the network take their steps in any order.
-/

set_option autoImplicit false

namespace RusshSftp

/-- Attributes of a request as they are after a passage over the wire. -/
def Client.Request.normalise : Request → Request
  | .open filename flags attrs => .open filename flags attrs.normalise
  | .setstat path attrs => .setstat path attrs.normalise
  | .fsetstat handle attrs => .fsetstat handle attrs.normalise
  | .mkdir path attrs => .mkdir path attrs.normalise
  | r => r

theorem packet_normalise (r : Client.Request) (id : UInt32) :
    (r.operation.packet id).normalise = r.normalise.operation.packet id := by
  cases r <;> rfl

/-- Each reply of the handler has a type that is a reply, and the id that the handler was given. -/
def Server.Handler.Addresses {σ ε : Type} (handler : Server.Handler σ ε) : Prop :=
  ∀ (r : Client.Request) id s reply s', r.method handler id s = (.ok reply, s') →
    (r.toPacket reply).replyKey? = some (some id)

namespace Link

open Framing Client

structure State (σ : Type) where
  client : Client.State
  /-- From the client to the server. -/
  up : Pipe
  down : Pipe
  /-- The loop of the server has not ended. -/
  serving : Bool
  server : σ

inductive Event where
  | client (action : Client.Action)
  | carryUp (n : Nat)
  | carryDown (n : Nat)
  /-- A round of the server's loop. -/
  | serve
  /-- The client's next frame has come as a whole. -/
  | arrive
  | hangUp
deriving DecidableEq

variable {σ ε : Type}

def State.new (limits : Limits) (start : σ) : State σ :=
  ⟨Client.State.new limits, Pipe.new, Pipe.new, true, start⟩

/-! ## Steps -/

/-- What an action of the client does to its end of the stream: the write task writes the next of
its queue, and shuts the stream down where that is empty. -/
def toStream (s : Client.State) (action : Client.Action) (up : Pipe) : Pipe :=
  match action, s.queue with
  | .write, data :: _ => if data.isEmpty then up.close else up.send data
  | _, _ => up

def clientStep (s : State σ) (action : Client.Action) : Option (State σ) :=
  match action with
  -- frames come from the stream only
  | .arrive _ => none
  | action =>
      if action = .eof ∧ ¬ s.down.Ended 4 then none
      else (Client.step s.client action).map fun client =>
        { s with client, up := toStream s.client action s.up }

/-- The round begins when there is a frame to read, or no more will come. -/
def serve (handler : Server.Handler σ ε) (s : State σ) : Option (State σ) :=
  if s.serving = true ∧ (Incomplete 4 s.up.arrived → s.up.Ended 4) then
    match Server.processHandler ⟨s.up.arrived, .earlyEof, [], []⟩ handler s.server with
    | (.error .unexpectedEof, stream, server) =>
        -- the loop is left, and its stream is dropped
        some { s with
          up := { s.up with arrived := stream.input }, down := (s.down.send stream.output).close
          serving := false, server }
    | (_, stream, server) =>
        some { s with
          up := { s.up with arrived := stream.input }, down := s.down.send stream.output, server }
  else none

def arrive (s : State σ) : Option (State σ) :=
  if Incomplete 4 s.down.arrived then none
  else
    match Stream.readPacket ⟨s.down.arrived, .earlyEof, [], []⟩ with
    | (.error _, _) => none
    | (.ok bytes, stream) =>
        (Client.step s.client (.arrive bytes)).map fun client =>
          { s with client, down := { s.down with arrived := stream.input } }

def step (handler : Server.Handler σ ε) (s : State σ) : Event → Option (State σ)
  | .client action => clientStep s action
  | .carryUp n => some { s with up := s.up.carry n }
  | .carryDown n => some { s with down := s.down.carry n }
  | .serve => serve handler s
  | .arrive => arrive s
  | .hangUp => some { s with up := s.up.hangUp, down := s.down.hangUp }

/-! ## What is seen of it -/

/-- A request on its way: its call, its key and its job. -/
abbrev Post := AtomicObject.Service CallId Key Job

abbrev Label := AtomicObject.Label CallId Job Packet

/-- What a caller sees of its call when it comes to a phase. -/
def ending (c : CallId) : Phase → Option Label
  | .finished (.ok packet) => some (.returns c packet)
  | .finished (.error _) => some (.fails c)
  | .dropped => some (.fails c)
  | _ => none

/-- What a caller sees of an action, by where it leaves the call. -/
def shown (action : Client.Action) (s' : Client.State) : Option Label :=
  match action with
  | .start c job => some (.invoke c job)
  | action => action.call?.bind fun c => (s'.calls c).bind fun call => ending c call.phase

def label : State σ → Event → State σ → Option Label
  | _, .client action, s' => shown action s'.client
  | _, _, _ => none

/-- What the handler makes of a request that has passed over the wire, and what is left of its
answer there. -/
def answer (handler : Server.Handler σ ε) (key : Key) (job : Job) (server : σ) : Packet × σ :=
  let (reply, server) := Server.processRequest handler (job.packet key).normalise server
  (reply.normalise, server)

/-! ## The cases of a step -/

inductive Stepped (handler : Server.Handler σ ε) (s : State σ) : Event → State σ → Prop
  | client {action client} (taken : Client.step s.client action = some client)
      (own : ∀ bytes, action ≠ .arrive bytes) (ended : action = .eof → s.down.Ended 4) :
      Stepped handler s (.client action)
        { s with client, up := toStream s.client action s.up }
  | carryUp {n} : Stepped handler s (.carryUp n) { s with up := s.up.carry n }
  | carryDown {n} : Stepped handler s (.carryDown n) { s with down := s.down.carry n }
  | serve {body rest} (serving : s.serving = true) (arrived : s.up.arrived = frame 4 body ++ rest)
      (fits : body.length < 2 ^ 32)
      (short : (Server.respond handler body s.server).1.body.length < 2 ^ 32) :
      Stepped handler s .serve { s with
        up := { s.up with arrived := rest }
        down := s.down.send (frame 4 (Server.respond handler body s.server).1.body)
        server := (Server.respond handler body s.server).2 }
  | ends (serving : s.serving = true) (ended : s.up.Ended 4) :
      Stepped handler s .serve { s with
        up := { s.up with arrived := [] }, down := (s.down.send []).close, serving := false }
  | arrive {body rest} (arrived : s.down.arrived = frame 4 body ++ rest)
      (fits : body.length < 2 ^ 32) :
      Stepped handler s .arrive { s with
        client := { s.client with inbox := s.client.inbox ++ [body] }
        down := { s.down with arrived := rest } }
  | hangUp : Stepped handler s .hangUp { s with up := s.up.hangUp, down := s.down.hangUp }

/-- The response to the frame that the server reads next fits in a frame. -/
def ShortReply (handler : Server.Handler σ ε) (s : State σ) (event : Event) : Prop :=
  event = .serve → ∀ body rest, s.up.arrived = frame 4 body ++ rest →
    (Server.respond handler body s.server).1.Short

theorem stepped {handler : Server.Handler σ ε} {s s' : State σ} {event : Event}
    (short : ShortReply handler s event) (taken : step handler s event = some s') :
    Stepped handler s event s' := by
  cases event with
  | client action =>
      rw [step, clientStep.eq_def] at taken
      split at taken
      · cases taken
      · rename_i own
        split at taken
        · cases taken
        · rename_i guard
          obtain ⟨client, moved, rfl⟩ := Option.map_eq_some_iff.mp taken
          refine .client moved own fun same => ?_
          rw [not_and, not_not] at guard
          exact guard same
  | carryUp n => cases taken; exact .carryUp
  | carryDown n => cases taken; exact .carryDown
  | serve =>
      rw [step, serve] at taken
      split at taken
      · rename_i guards
        by_cases incomplete : Incomplete 4 s.up.arrived
        · have last := Server.processHandler_incomplete handler ⟨s.up.arrived, .earlyEof, [], []⟩
            s.server incomplete
          rw [last] at taken
          cases taken
          exact .ends guards.1 (guards.2 incomplete)
        · obtain ⟨body, rest, arrived, fits⟩ := exists_frame incomplete
          have small : (Server.respond handler body s.server).1.body.length < 2 ^ 32 := by
            have wire := (short rfl body rest arrived).wire
            rw [body_length]
            omega
          have round := Server.processHandler_frame handler ⟨s.up.arrived, .earlyEof, [], []⟩
            s.server body rest fits arrived rfl small
          rw [round] at taken
          cases taken
          exact .serve guards.1 arrived fits small
      · cases taken
  | arrive =>
      rw [step, arrive] at taken
      split at taken
      · cases taken
      · rename_i complete
        obtain ⟨body, rest, arrived, fits⟩ := exists_frame complete
        have read := Stream.readPacket_frame ⟨s.down.arrived, .earlyEof, [], []⟩ body rest fits
          arrived
        rw [read] at taken
        cases taken
        exact .arrive arrived fits
  | hangUp => cases taken; exact .hangUp

/-! ## Replies -/

/-- The handler's method of a request is called, with what has come over the wire. -/
theorem processRequest_request (handler : Server.Handler σ ε) (r : Request) (id : UInt32)
    (server : σ) :
    Server.processRequest handler ((Job.request r).packet (some id)).normalise server =
      Server.intoWrap id handler r.normalise.toPacket (r.normalise.method handler id server) := by
  have same : ((Job.request r).packet (some id)).normalise = r.normalise.operation.packet id :=
    packet_normalise r id
  rw [same, processRequest_method]

/-- A reply has the key of its request, but for the error that refuses an `init`. -/
theorem reply_key {handler : Server.Handler σ ε} (addresses : handler.Addresses) {key : Key}
    {job : Job} (initKey : key = none ↔ job = .init) (server : σ) :
    (Server.processRequest handler (job.packet key).normalise server).1.replyKey? = some key ∨
      job = .init ∧ (Server.processRequest handler (job.packet key).normalise server).1.replyKey? =
        some (some 0) := by
  cases job with
  | init =>
      have called : Server.processRequest handler (Job.init.packet key).normalise server =
          Server.intoWrap 0 handler .version (handler.init 3 .empty server) := rfl
      rw [called, initKey.mpr rfl]
      rcases handler.init 3 .empty server with ⟨err | version, server'⟩
      · exact .inr ⟨rfl, rfl⟩
      · exact .inl rfl
  | request r =>
      cases key with
      | none => cases initKey.mp rfl
      | some id =>
          rw [processRequest_request]
          rcases called : r.normalise.method handler id server with ⟨err | reply, server'⟩
          · exact .inl rfl
          · exact .inl (addresses r.normalise id server reply server' called)

/-! ## What a client's step shows -/

/-- The job of each call, and whether it is in flight. -/
def progress (s : Client.State) (c : CallId) : Option (Job × Bool) :=
  (s.calls c).map fun call => (call.job, call.phase.inFlight)

theorem progress_setCall (s : Client.State) (c : CallId) (call : Call) :
    progress (s.setCall c call) =
      Function.update (progress s) c (some (call.job, call.phase.inFlight)) := by
  funext d
  rw [progress, State.setCall_calls, Function.update_apply]
  split
  · rfl
  · rfl

theorem progress_still {s : Client.State} {c : CallId} {old call : Call}
    (present : s.calls c = some old) (job : call.job = old.job)
    (inFlight : call.phase.inFlight = old.phase.inFlight) :
    progress (s.setCall c call) = progress s := by
  rw [progress_setCall, Function.update_eq_self_iff, progress, present, job, inFlight]
  rfl

/-- What a step shows, and what it changes. -/
inductive Shows (s s' : Client.State) : Option Label → Prop
  | invoke {c job} (fresh : s.calls c = none)
      (after : progress s' = Function.update (progress s) c (some (job, true))) :
      Shows s s' (some (.invoke c job))
  | returns {c call packet} (present : s.calls c = some call)
      (phase : call.phase = .complete (.ok packet))
      (after : progress s' = Function.update (progress s) c (some (call.job, false))) :
      Shows s s' (some (.returns c packet))
  | fails {c call} (present : s.calls c = some call) (flying : call.phase.inFlight = true)
      (after : progress s' = Function.update (progress s) c (some (call.job, false))) :
      Shows s s' (some (.fails c))
  | silent (after : progress s' = progress s) : Shows s s' none

theorem shows_call {s s' : Client.State} {action : Client.Action} {c : CallId} {call new : Call}
    (own : action.call? = some c) (present : s.calls c = some call)
    (flying : call.phase.inFlight = true) (calls : s'.calls = (s.setCall c new).calls)
    (job : new.job = call.job)
    (result : ∀ packet, new.phase = .finished (.ok packet) → call.phase = .complete (.ok packet)) :
    Shows s s' (shown action s') := by
  have after : progress s' =
      Function.update (progress s) c (some (call.job, new.phase.inFlight)) := by
    rw [← job, ← progress_setCall]
    funext d
    rw [progress, progress, calls]
  have seen : shown action s' = ending c new.phase := by
    have at_c : s'.calls c = some new := by
      rw [calls]
      exact State.setCall_same s c new
    cases action <;> cases own <;>
      exact congrArg (Option.bind · fun call => ending c call.phase) at_c
  rw [seen]
  cases phase : new.phase with
  | finished got =>
      rw [phase] at after
      cases got with
      | ok packet => exact .returns present (result packet phase) after
      | error err => exact .fails present flying after
  | dropped =>
      rw [phase] at after
      exact .fails present flying after
  | _ =>
      refine .silent (after.trans ?_)
      rw [Function.update_eq_self_iff, progress, present, Option.map_some, flying, phase]
      rfl

theorem shows {s s' : Client.State} {action : Client.Action}
    (taken : Client.step s action = some s') : Shows s s' (shown action s') := by
  cases Client.stepped taken with
  | @start c job fresh =>
      refine .invoke fresh ?_
      rw [progress_setCall]
      cases job <;> rfl
  | limited present phase | unlimited present phase | useNextId present phase
  | closed present phase | opened present phase | insert present phase | notEncoded present phase
  | notSent present phase | enqueue present phase | recv present phase | recvNone present phase
  | elapse present phase | cleanup present phase | drop present phase =>
      exact shows_call rfl present (by rw [phase]; rfl) rfl rfl (by simp)
  | complete present phase =>
      refine shows_call rfl present (by rw [phase]; rfl) rfl rfl ?_
      rintro packet ⟨⟩
      exact phase
  | delivered busy present => exact .silent (progress_still present rfl rfl)
  | _ => exact .silent rfl

end Link

end RusshSftp
