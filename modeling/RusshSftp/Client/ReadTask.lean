import RusshSftp.Stream
import RusshSftp.Client.Session

/-!
# The read task

`client::run` reads frames from its stream and gives the packets in them to a handler, until a read
ends in an end of file.  The session's own handler is one of the handlers.
-/

set_option autoImplicit false

namespace RusshSftp.Client

structure Handler (σ ε : Type) where
  /-- `Into<Error>` of the handler's errors. -/
  into : ε → Error
  version : Version → σ → Except ε Unit × σ := fun _ s => (.ok (), s)
  status : Status → σ → Except ε Unit × σ := fun _ s => (.ok (), s)
  handle : Handle → σ → Except ε Unit × σ := fun _ s => (.ok (), s)
  data : Data → σ → Except ε Unit × σ := fun _ s => (.ok (), s)
  name : Name → σ → Except ε Unit × σ := fun _ s => (.ok (), s)
  attrs : Attrs → σ → Except ε Unit × σ := fun _ s => (.ok (), s)
  extendedReply : ExtendedReply → σ → Except ε Unit × σ := fun _ s => (.ok (), s)

namespace Handler

variable {σ ε : Type}

/-- `into_wrap!` -/
def intoWrap (handler : Handler σ ε) : Except ε Unit × σ → SftpResult Unit × σ
  | (.error error, s) => (.error (handler.into error), s)
  | (.ok (), s) => (.ok (), s)

def executeHandler (bytes : Bytes) (handler : Handler σ ε) (s : σ) : SftpResult Unit × σ :=
  match Packet.tryFrom.run bytes with
  | .error err => (.error (Error.ofError err), s)
  | .ok (packet, _) =>
      match packet with
      | .version p => handler.intoWrap (handler.version p s)
      | .status p => handler.intoWrap (handler.status p s)
      | .handle p => handler.intoWrap (handler.handle p s)
      | .data p => handler.intoWrap (handler.data p s)
      | .name p => handler.intoWrap (handler.name p s)
      | .attrs p => handler.intoWrap (handler.attrs p s)
      | .extendedReply p => handler.intoWrap (handler.extendedReply p s)
      | _ => (.error (.unexpectedBehavior "A packet was received that could not be processed."), s)

def processHandler (stream : Stream) (handler : Handler σ ε) (s : σ) :
    Except RusshSftp.Error Unit × Stream × σ :=
  match stream.readPacket with
  | (.error err, stream) => (.error err, stream, s)
  | (.ok bytes, stream) =>
      match executeHandler bytes handler s with
      | (.error err, s) => (.error (RusshSftp.Error.ofClient err), stream, s)
      | (.ok (), s) => (.ok (), stream, s)

/-- At most `fuel` rounds of the read task's loop, which nobody cancels; the flag tells whether it
has stopped. -/
def run (handler : Handler σ ε) : Nat → Stream → σ → Bool × Stream × σ
  | 0, stream, s => (false, stream, s)
  | fuel + 1, stream, s =>
      match processHandler stream handler s with
      | (.error .unexpectedEof, stream, s) => (true, stream, s)
      | (_, stream, s) => run handler fuel stream s

end Handler

/-! ## The session's handler -/

def SessionInner.handler (frame : Nat) : Handler State Error where
  into := id
  version := SessionInner.version frame
  status := SessionInner.status frame
  handle := SessionInner.handle frame
  data := SessionInner.data frame
  name := SessionInner.name frame
  attrs := SessionInner.attrs frame
  extendedReply := SessionInner.extendedReply frame

theorem SessionInner.intoWrap_handler (frame : Nat) (done : SftpResult Unit × State) :
    (SessionInner.handler frame).intoWrap done = done := by
  rcases done with ⟨_ | _, s⟩
  · rfl
  · rfl

/-- The step relation of the session executes this handler. -/
theorem executeHandler_session (frame : Nat) (bytes : Bytes) (s : State) :
    Handler.executeHandler bytes (SessionInner.handler frame) s = executeHandler frame bytes s := by
  rw [Handler.executeHandler, executeHandler]
  cases Packet.tryFrom.run bytes with
  | error err => rfl
  | ok got =>
      obtain ⟨packet, rest⟩ := got
      cases packet <;> first | exact SessionInner.intoWrap_handler frame _ | rfl

/-! ## One round -/

namespace Handler

variable {σ ε : Type} (handler : Handler σ ε) (stream : Stream) (s : σ)

/-- No error of a handler ends the loop. -/
theorem processHandler_frame (bytes rest : Bytes) (fits : bytes.length < 2 ^ 32)
    (shape : stream.input = Framing.frame 4 bytes ++ rest) :
    (processHandler stream handler s).1 ≠ .error .unexpectedEof ∧
      (processHandler stream handler s).2 =
        ({ stream with input := rest }, (executeHandler bytes handler s).2) := by
  have packet := stream.readPacket_frame bytes rest fits shape
  rcases executed : executeHandler bytes handler s with ⟨err | _, next⟩
  · simp [processHandler, packet, executed, RusshSftp.Error.ofClient]
  · simp [processHandler, packet, executed]

theorem processHandler_incomplete (incomplete : Framing.Incomplete 4 stream.input) :
    processHandler stream handler s =
      (.error (RusshSftp.Error.ofIo stream.ending), { stream with input := [] }, s) := by
  simp only [processHandler, stream.readPacket_incomplete incomplete]

end Handler

end RusshSftp.Client
