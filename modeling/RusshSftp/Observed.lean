import RusshSftp.Handshake

/-!
# Handlers that are observed

A record beside the handler's state notes what the methods are called with and what they answer.
It changes nothing else, so a session on such a handler is a session on the handler itself.
-/

set_option autoImplicit false

namespace RusshSftp

open Client

variable {σ τ ε : Type}

namespace Server.Handler

/-- A method that notes its answer. -/
def noting {ρ : Type} (note : Except ε ρ → τ → τ) (method : σ → Except ε ρ × σ) :
    σ × τ → Except ε ρ × (σ × τ) := fun (s, record) =>
  ((method s).1, ((method s).2, note (method s).1 record))

theorem noting_eq {ρ : Type} {note : Except ε ρ → τ → τ} {method : σ → Except ε ρ × σ} {s : σ × τ}
    {answer : Except ε ρ} {s' : σ} (answered : method s.1 = (answer, s')) :
    noting note method s = (answer, (s', note answer s.2)) := by
  simp only [noting, answered]

/-- The handler, with a record of the requests that have reached it and its answers. -/
def observed (handler : Handler σ ε) (note : (r : Request) → Except ε r.Reply → τ → τ) :
    Handler (σ × τ) ε where
  into := handler.into
  unimplemented s := handler.unimplemented s.1
  init version extensions := fun (s, record) =>
    ((handler.init version extensions s).1, ((handler.init version extensions s).2, record))
  «open» id filename flags attrs :=
    noting (note (.open filename flags attrs)) (handler.open id filename flags attrs)
  close id handle := noting (note (.close handle)) (handler.close id handle)
  read id handle offset len :=
    noting (note (.read handle offset len)) (handler.read id handle offset len)
  write id handle offset data :=
    noting (note (.write handle offset data)) (handler.write id handle offset data)
  lstat id path := noting (note (.lstat path)) (handler.lstat id path)
  fstat id handle := noting (note (.fstat handle)) (handler.fstat id handle)
  setstat id path attrs := noting (note (.setstat path attrs)) (handler.setstat id path attrs)
  fsetstat id handle attrs :=
    noting (note (.fsetstat handle attrs)) (handler.fsetstat id handle attrs)
  opendir id path := noting (note (.opendir path)) (handler.opendir id path)
  readdir id handle := noting (note (.readdir handle)) (handler.readdir id handle)
  remove id filename := noting (note (.remove filename)) (handler.remove id filename)
  mkdir id path attrs := noting (note (.mkdir path attrs)) (handler.mkdir id path attrs)
  rmdir id path := noting (note (.rmdir path)) (handler.rmdir id path)
  realpath id path := noting (note (.realpath path)) (handler.realpath id path)
  stat id path := noting (note (.stat path)) (handler.stat id path)
  rename id oldpath newpath :=
    noting (note (.rename oldpath newpath)) (handler.rename id oldpath newpath)
  readlink id path := noting (note (.readlink path)) (handler.readlink id path)
  symlink id path target := noting (note (.symlink path target)) (handler.symlink id path target)
  extended id request data :=
    noting (note (.extended request data)) (handler.extended id request data)

theorem method_observed (handler : Handler σ ε) (note : (r : Request) → Except ε r.Reply → τ → τ)
    (r : Request) (id : UInt32) (s : σ) (record : τ) :
    r.method (handler.observed note) id (s, record) =
      ((r.method handler id s).1,
        ((r.method handler id s).2, note r (r.method handler id s).1 record)) := by
  cases r <;> rfl

/-- The requests that have reached a handler, each with what it has answered. -/
abbrev Transcript (ε : Type) := List ((r : Request) × Except ε r.Reply)

/-- The handler, with a transcript. -/
def transcribing (handler : Handler σ ε) : Handler (σ × Transcript ε) ε :=
  handler.observed fun r answer transcript => transcript ++ [⟨r, answer⟩]

end Server.Handler

/-! ## A call of the peer -/

def Peer.map (f : σ → τ) (p : Peer σ) : Peer τ :=
  ⟨p.limits, p.nextReqId, p.handles, p.version, f p.server⟩

theorem Peer.receive_map (f : σ → τ) (job : Job) (reply : Packet) (server : σ) (p : Peer σ) :
    (p.map f).receive job reply (f server) =
      ((p.receive job reply server).1, (p.receive job reply server).2.map f) := by
  by_cases own : reply.replyKey? = some (job.keyAt p.nextReqId)
  · simp only [receive, map, own, if_true]
  · simp only [receive, map, own, if_false]

theorem Peer.receive_server (job : Job) (reply : Packet) (server : σ) (p : Peer σ) :
    (p.receive job reply server).2.server = server := by
  by_cases own : reply.replyKey? = some (job.keyAt p.nextReqId)
  · simp only [receive, own, if_true]
  · simp only [receive, own, if_false]

section
variable (handler : Server.Handler σ ε) (note : (r : Request) → Except ε r.Reply → τ → τ)

/-- What is noted of a job that reaches the handler: the request as it comes off the wire. -/
def Client.Job.noted (id : UInt32) (s : σ) (record : τ) : Job → τ
  | .init => record
  | .request r => note r.normalise (r.normalise.method handler id s).1 record

/-- What is on record after a call. -/
def Client.SessionCall.noted (p : Peer (σ × τ)) : SessionCall → τ
  | .request r =>
      if r.operation.limited p.limits p.handles = none then
        (Job.request r).noted handler note p.nextReqId p.server.1 p.server.2
      else p.server.2
  | _ => p.server.2

theorem intoWrap_observed (r : Request) (id : UInt32) (s : σ × τ) :
    Server.intoWrap id (handler.observed note) r.toPacket
        (r.method (handler.observed note) id s) =
      ((Server.intoWrap id handler r.toPacket (r.method handler id s.1)).1,
        ((Server.intoWrap id handler r.toPacket (r.method handler id s.1)).2,
          note r (r.method handler id s.1).1 s.2)) := by
  obtain ⟨s, record⟩ := s
  rw [Server.Handler.method_observed]
  rcases r.method handler id s with ⟨err | reply, s'⟩ <;> rfl

theorem answer_observed (job : Job) (id : UInt32) (s : σ × τ) :
    Link.answer (handler.observed note) (job.keyAt id) job s =
      ((Link.answer handler (job.keyAt id) job s.1).1,
        ((Link.answer handler (job.keyAt id) job s.1).2, job.noted handler note id s.1 s.2)) := by
  cases job with
  | init =>
      obtain ⟨s, record⟩ := s
      have called : Server.processRequest handler (Job.init.packet none).normalise s =
          Server.intoWrap 0 handler .version (handler.init 3 .empty s) := rfl
      have noted : Server.processRequest (handler.observed note) (Job.init.packet none).normalise
          (s, record) = Server.intoWrap 0 (handler.observed note) .version
            ((handler.init 3 .empty s).1, ((handler.init 3 .empty s).2, record)) := rfl
      simp only [Link.answer, Job.keyAt, called, noted, Job.noted]
      rcases handler.init 3 .empty s with ⟨err | version, s'⟩ <;> rfl
  | request r =>
      have called := Link.processRequest_request handler r id s.1
      have noted := Link.processRequest_request (handler.observed note) r id s
      rw [intoWrap_observed] at noted
      simp only [Link.answer, Job.keyAt, called, noted, Job.noted]

/-- The record changes nothing else. -/
theorem Peer.exchange_observed (job : Job) (p : Peer (σ × τ)) :
    (p.map Prod.fst).exchange handler job =
      ((p.exchange (handler.observed note) job).1,
        (p.exchange (handler.observed note) job).2.map Prod.fst) ∧
    (p.exchange (handler.observed note) job).2.server.2 =
      if job.limited p.limits p.handles = none then
        job.noted handler note p.nextReqId p.server.1 p.server.2
      else p.server.2 := by
  have same : job.limited (p.map Prod.fst).limits (p.map Prod.fst).handles =
      job.limited p.limits p.handles := rfl
  cases limited : job.limited p.limits p.handles with
  | some err =>
      rw [exchange_limited limited, exchange_limited (same.trans limited)]
      exact ⟨rfl, rfl⟩
  | none =>
      have answered := answer_observed handler note job p.nextReqId p.server
      rcases called : Link.answer handler (job.keyAt p.nextReqId) job p.server.1 with
        ⟨reply, server⟩
      have plain : Link.answer handler (job.keyAt (p.map Prod.fst).nextReqId) job
          (p.map Prod.fst).server = (reply, server) := called
      rw [called] at answered
      simp only [exchange, limited, same, answered, plain, if_true]
      exact ⟨receive_map Prod.fst job reply (server, _) p,
        congrArg Prod.snd (receive_server job reply (server, _) p)⟩

theorem Peer.serve_observed (c : SessionCall) (p : Peer (σ × τ)) :
    Peer.serve handler c (p.map Prod.fst) =
      ((p.serve (handler.observed note) c).1,
        (p.serve (handler.observed note) c).2.map Prod.fst) ∧
    (p.serve (handler.observed note) c).2.server.2 = c.noted handler note p := by
  cases c with
  | init =>
      obtain ⟨same, noted⟩ := p.exchange_observed handler note .init
      exact ⟨by rw [serve, same]; rfl, noted⟩
  | setLimits limits => exact ⟨rfl, rfl⟩
  | request r =>
      obtain ⟨same, noted⟩ := p.exchange_observed handler note (.request r)
      exact ⟨by rw [serve, same]; rfl, noted⟩

end

/-- A request that the session lets pass is on the transcript, as it comes off the wire. -/
theorem Peer.serve_transcribing {handler : Server.Handler σ ε}
    {p : Peer (σ × Server.Handler.Transcript ε)} (r : Request)
    (free : r.operation.limited p.limits p.handles = none) {answer : Except ε r.normalise.Reply}
    (answered : (r.normalise.method handler.transcribing p.nextReqId p.server).1 = answer) :
    (p.serve handler.transcribing (.request r)).2.server.2 =
      p.server.2 ++ [⟨r.normalise, answer⟩] := by
  have same : (r.normalise.method handler p.nextReqId p.server.1).1 = answer :=
    (congrArg Prod.fst (Server.Handler.method_observed handler _ r.normalise p.nextReqId
      p.server.1 p.server.2)).symm.trans answered
  subst same
  exact (serve_observed handler _ (.request r) p).2.trans (if_pos free)

end RusshSftp
