import RusshSftp.Link.Settle

/-!
# Closing a session

`close_session` puts an empty packet in the write queue, and the write task shuts the stream down
when it comes to it.  What was queued before is written before, and the server's loop does not end
before it has served it.
-/

set_option autoImplicit false

namespace RusshSftp.Link

open Framing Client

variable {σ ε : Type}

/-- A session that has been closed: the write task still has to write `asked`, or it has written
that and has shut the stream down. -/
structure Closing (asked : List Bytes) (s : State σ) : Prop where
  lost : s.up.lost = false
  running : s.client.writer = .running → s.up.closed = false ∧ s.down.closed = false ∧
    s.client.cancelled = false ∧ ∃ rest more, s.client.queue = rest ++ [] :: more ∧ [] ∉ rest ∧
      s.client.written ++ rest = asked
  left : s.client.writer ≠ .running → s.up.closed = true ∧ s.client.written = asked
  ended : s.serving = false → s.up.closed = true ∧ s.up.content = []

namespace Closing

variable {asked : List Bytes} {s s' : State σ}

theorem first (opened : Open s) (up : s'.up = s.up) (down : s'.down = s.down)
    (serving : s'.serving = s.serving) (writer : s'.client.writer = s.client.writer)
    (cancelled : s'.client.cancelled = s.client.cancelled)
    (written : s'.client.written = s.client.written)
    (queue : s'.client.queue = s.client.queue ++ [[]]) :
    Closing (s.client.written ++ s.client.queue) s' where
  lost := up ▸ s.up.sound opened.up
  running _ := ⟨up ▸ opened.up, down ▸ opened.down, cancelled ▸ opened.cancelled,
    s.client.queue, [], queue, opened.queue, by rw [written]⟩
  left stopped := absurd (writer.trans opened.writer) stopped
  ended closed := by
    rw [serving, opened.serving] at closed
    cases closed

theorem client {action : Client.Action} {client : Client.State} (closing : Closing asked s)
    (taken : Client.step s.client action = some client)
    (ended : action = .eof → s.down.Ended 4) :
    Closing asked { s with client, up := toStream s.client action s.up } := by
  have same (writer : client.writer = s.client.writer)
      (cancelled : client.cancelled = s.client.cancelled)
      (written : client.written = s.client.written)
      (queue : ∃ more, client.queue = s.client.queue ++ more)
      (up : toStream s.client action s.up = s.up) :
      Closing asked { s with client, up := toStream s.client action s.up } := by
    rw [up]
    refine ⟨closing.lost, fun running => ?_, fun stopped => ?_, closing.ended⟩
    · obtain ⟨open_up, open_down, going, rest, more, left, nonempty, all⟩ :=
        closing.running (writer.symm.trans running)
      obtain ⟨added, queue⟩ := queue
      refine ⟨open_up, open_down, cancelled.trans going, rest, more ++ added, ?_, nonempty, ?_⟩
      · rw [queue, left, List.append_assoc, List.cons_append]
      · rw [written, all]
    · obtain ⟨closed, all⟩ := closing.left fun running => stopped (writer.trans running)
      exact ⟨closed, written.trans all⟩
  have quiet : ∃ more, s.client.queue = s.client.queue ++ more := ⟨[], (List.append_nil _).symm⟩
  cases Client.stepped taken with
  | enqueue | closeSession => exact same rfl rfl rfl ⟨_, rfl⟩ rfl
  | @write data queue running next nonempty =>
      obtain ⟨open_up, open_down, going, rest, more, left, noEnd, all⟩ := closing.running running
      have up : toStream s.client .write s.up = s.up.send data := by
        simp only [toStream, next]
        rw [if_neg (by simpa using nonempty)]
      rw [up]
      refine ⟨(Pipe.send_lost data open_up).trans closing.lost, fun _ => ?_,
        fun stopped => absurd running stopped, fun stopped => ?_⟩
      · rw [left] at next
        cases rest with
        | nil => exact absurd (List.cons.inj next).1.symm nonempty
        | cons first rest =>
            obtain ⟨rfl, later⟩ := List.cons.inj next
            refine ⟨(Pipe.send_closed _ _).trans open_up, open_down, going, rest, more, later.symm,
              fun member => noEnd (List.mem_cons_of_mem _ member), ?_⟩
            rw [← all]
            simp
      · have closed := (closing.ended stopped).1
        rw [open_up] at closed
        cases closed
  | @shutdown data queue running next empty =>
      obtain ⟨open_up, open_down, going, rest, more, left, noEnd, all⟩ := closing.running running
      have up : toStream s.client .write s.up = s.up.close := by
        simp only [toStream, next, empty]
        rfl
      rw [up]
      refine ⟨closing.lost, (fun running => by cases running), fun _ => ⟨rfl, ?_⟩,
        fun stopped => ⟨rfl, (closing.ended stopped).2⟩⟩
      rw [left] at next
      cases rest with
      | nil => rw [← all, List.append_nil]
      | cons first rest =>
          obtain ⟨rfl, later⟩ := List.cons.inj next
          exact absurd (by simp [empty]) noEnd
  | writeCancelled running cancelled =>
      obtain ⟨_, _, going, _⟩ := closing.running running
      rw [going] at cancelled
      cases cancelled
  | writeEnd stopped =>
      exact ⟨closing.lost, (fun running => by cases running),
        fun _ => closing.left (by rw [stopped]; simp), closing.ended⟩
  | eof idle finished =>
      refine ⟨closing.lost, fun running => ?_, closing.left, closing.ended⟩
      have down := (ended rfl).1
      rw [(closing.running running).2.1] at down
      cases down
  | _ => exact same rfl rfl rfl quiet rfl

theorem step {handler : Server.Handler σ ε} {event : Event} (closing : Closing asked s)
    (unbroken : event ≠ .hangUp) (taken : Stepped handler s event s') : Closing asked s' := by
  have content (n : Nat) : (s.up.carry n).content = s.up.content := by
    rw [Pipe.content, Pipe.carry, List.append_assoc, List.take_append_drop]
    rfl
  cases taken with
  | client moved own ended => exact closing.client moved ended
  | carryUp =>
      refine ⟨closing.lost, closing.running, closing.left, fun stopped => ?_⟩
      rw [content]
      exact closing.ended stopped
  | carryDown => exact ⟨closing.lost, closing.running, closing.left, closing.ended⟩
  | serve serving =>
      refine ⟨closing.lost, fun running => ?_, closing.left, fun stopped => ?_⟩
      · obtain ⟨up, down, rest⟩ := closing.running running
        exact ⟨up, (Pipe.send_closed _ _).trans down, rest⟩
      · rw [serving] at stopped
        cases stopped
  | ends serving ended =>
      refine ⟨closing.lost, fun running => ?_, closing.left, fun _ => ⟨ended.1, ended.2.1⟩⟩
      have closed := ended.1
      rw [(closing.running running).1] at closed
      cases closed
  | arrive => exact ⟨closing.lost, closing.running, closing.left, closing.ended⟩
  | hangUp => exact absurd rfl unbroken

end Closing

/-- A session that is closed while its link is open, and what has become of it since. -/
theorem closing_of_run {handler : Server.Handler σ ε} {limits : Limits} {start : σ}
    {before after : List Event} {t s : State σ}
    (within : Within handler limits start (before ++ .client .closeSession :: after))
    (opened : ∀ event ∈ before, event.Keeps) (unbroken : .hangUp ∉ after)
    (early : Run.exec (step handler) (State.new limits start) before = some t)
    (late : Run.exec (step handler) t (.client .closeSession :: after) = some s) :
    Closing (t.client.written ++ t.client.queue) s := by
  have openT := open_of_run within.front.replies opened early
  rw [Run.exec] at late
  cases taken : step handler t (.client .closeSession) with
  | none => rw [taken] at late; cases late
  | some u =>
      rw [taken] at late
      have first : Closing (t.client.written ++ t.client.queue) u := by
        have moved := stepped (fun serve => by cases serve) taken
        cases moved with
        | client moved own ended =>
            cases Client.stepped moved with
            | closedAlready closed =>
                rw [State.isClosed, openT.writer] at closed
                cases closed
            | closeSession => exact .first openT rfl rfl rfl rfl rfl rfl rfl
      have meets : Run.Meets (step handler) (fun v event => event ≠ .hangUp ∧
          ShortReply handler v event) u after := by
        intro front event back v shape reached
        refine ⟨?_, within.replies (before ++ .client .closeSession :: front) event back v
          (by rw [shape]; simp) ?_⟩
        · rintro rfl
          exact unbroken (by simp [shape])
        · rw [Run.exec_append, early, Option.bind_some, Run.exec, taken]
          exact reached
      exact (Run.along_of_meets first
        (fun _ _ _ held meets taken => held.step meets.1 (stepped meets.2 taken)) meets).last late

/-- Where the connection does not break, the server's loop ends after it has served the requests
that were queued before the session was closed, all of them in their order, and no others. -/
theorem close_flushes (handler : Server.Handler σ ε) (addresses : handler.Addresses)
    (limits : Limits) (start : σ) (before after : List Event) (s : State σ)
    (within : Within handler limits start (before ++ .client .closeSession :: after))
    (opened : ∀ event ∈ before, event.Keeps) (unbroken : .hangUp ∉ after)
    (run : Run.exec (step handler) (State.new limits start)
      (before ++ .client .closeSession :: after) = some s)
    (ended : s.serving = false) :
    ∃ order : List Post,
      AtomicObject.Explains (answer handler) start (Run.trace (step handler) label
        (State.new limits start) (before ++ .client .closeSession :: after)) order ∧
      s.server = AtomicObject.after (answer handler) start order ∧
      order.map (·.call) = before.flatMap queued := by
  obtain ⟨t, early, late⟩ := Run.exec_append_inv run
  obtain ⟨_, _, b₁, _, carries₁, _, filed₁, _⟩ := exists_object addresses within.front early
  obtain ⟨actions, o, b, served, carries, matched, filed, _, seen⟩ :=
    exists_object addresses within run
  have log := AtomicObject.log_of_exec served
  refine ⟨o.served, seen ▸ AtomicObject.explains served, matched.object ▸ log.object, ?_⟩
  have openT := open_of_run within.front.replies opened early
  have closing := closing_of_run within opened unbroken early late
  obtain ⟨closed, content⟩ := closing.ended ended
  have written := (closing.left fun running => by
    rw [(closing.running running).1] at closed
    cases closed).2
  -- all that was to be written has been read by the server
  have read : b.up = [] := by
    obtain ⟨arrived, transit⟩ := List.append_eq_nil_iff.mp content
    refine List.map_eq_nil_iff.mp (carries.wired.up.eq_nil closing.lost transit ?_)
    rw [arrived]
    exact .inl (by decide)
  have length : (b.served.map Exchange.post).length = (before.flatMap queued).length := by
    have all := congrArg List.length carries.wired.written
    have asked := congrArg List.length carries₁.wired.written
    have waits := congrArg List.length carries₁.wired.queue
    have whole : t.client.queue.filter (fun data => !data.isEmpty) = t.client.queue := by
      rw [List.filter_eq_self]
      rintro data member
      cases data with
      | nil => exact absurd member openT.queue
      | cons => rfl
    rw [written, read, List.append_nil, List.length_map, List.length_append] at all
    rw [List.length_map, List.length_append] at asked
    rw [whole, List.length_map] at waits
    rw [List.length_map] at all asked
    simp only [← filed₁.all opened, Belt.posts, List.length_map, List.length_append]
    omega
  have served_front : o.served.map (·.call) <+: b.posts.map (·.call) := by
    rw [matched.served, Belt.posts, List.append_assoc, List.map_append]
    exact List.prefix_append _ _
  have front := filed.front before _ rfl opened
  have same := List.prefix_of_prefix_length_le served_front front
    (by rw [matched.served, List.length_map, length])
  exact same.eq_of_length (by rw [matched.served, List.length_map, length])

/-- A request that waits in the queue when the session is closed. -/
def lastRequest : List Event :=
  initLinked ++ clients [.start 1 (.request (.stat "a")), .checkLimit 1, .useNextId 1, .isClosed 1,
    .insert 1, .enqueue 1]

/-- It is written, and then the stream is shut down. -/
def shutDown : List Event :=
  clients [.write, .write] ++ ([.carryUp 20, .serve, .serve] : List Event)

theorem close_flushes_last :
    ∃ s order, Run.exec (step ticking) (State.new Limits.default 0)
        (lastRequest ++ .client .closeSession :: shutDown) = some s ∧
      s.server = AtomicObject.after (answer ticking) 0 order ∧
      order.map (·.call) = [0, 1] := by
  obtain ⟨s, run⟩ : ∃ s, Run.exec (step ticking) (State.new Limits.default 0)
      (lastRequest ++ .client .closeSession :: shutDown) = some s :=
    Option.isSome_iff_exists.mp (by decide +kernel)
  have ended : s.serving = false := Run.exec_map run (by decide +kernel)
  obtain ⟨order, _, server, calls⟩ := close_flushes ticking ticking_addresses Limits.default 0
    lastRequest shutDown s (within_small (by decide) (by decide)) (by decide) (by decide) run ended
  exact ⟨s, order, run, server, calls⟩

end RusshSftp.Link
