import RusshSftp.Link.Belt

/-!
# Links that are open

A link is open until its session is closed or its connection breaks.  While it is, the belt has
the requests in the order in which they were queued.
-/

set_option autoImplicit false

namespace RusshSftp.Link

open Framing Client

variable {σ ε : Type}

/-- Neither end has been closed. -/
structure Open (s : State σ) : Prop where
  reader : s.client.reader ≠ .ended
  writer : s.client.writer = .running
  cancelled : s.client.cancelled = false
  queue : [] ∉ s.client.queue
  up : s.up.closed = false
  down : s.down.closed = false
  serving : s.serving = true

/-- The event closes nothing. -/
def Event.Keeps (event : Event) : Prop := event ≠ .hangUp ∧ event ≠ .client .closeSession

instance (event : Event) : Decidable event.Keeps := inferInstanceAs (Decidable (_ ∧ _))

theorem Open.new (limits : Limits) (start : σ) : Open (State.new limits start) :=
  ⟨by simp [State.new, Client.State.new], rfl, rfl, by simp [State.new, Client.State.new], rfl, rfl,
    rfl⟩

theorem Open.client {s : State σ} {action : Client.Action} {client : Client.State}
    (opened : Open s) (keeps : action ≠ .closeSession)
    (taken : Client.step s.client action = some client)
    (ended : action = .eof → s.down.Ended 4) :
    Open { s with client, up := toStream s.client action s.up } := by
  have same (reader : client.reader ≠ .ended) (writer : client.writer = s.client.writer)
      (cancelled : client.cancelled = s.client.cancelled) (queue : [] ∉ client.queue)
      (up : (toStream s.client action s.up).closed = false) :
      Open { s with client, up := toStream s.client action s.up } :=
    ⟨reader, writer.trans opened.writer, cancelled.trans opened.cancelled, queue, up, opened.down,
      opened.serving⟩
  cases Client.stepped taken with
  | eof =>
      have closed := (ended rfl).1
      rw [opened.down] at closed
      cases closed
  | readCancelled _ cancelled | writeCancelled _ cancelled =>
      rw [opened.cancelled] at cancelled
      cases cancelled
  | @shutdown data queue running next empty =>
      refine absurd ?_ opened.queue
      rw [next, empty]
      exact List.mem_cons_self
  | writeEnd stopped =>
      rw [opened.writer] at stopped
      cases stopped
  | closedAlready | closeSession => exact absurd rfl keeps
  | @enqueue c call key bytes present phase keyed encoded =>
      refine same opened.reader rfl rfl ?_ opened.up
      intro member
      rcases List.mem_append.mp member with earlier | now
      · exact opened.queue earlier
      · rw [← List.mem_singleton.mp now, Packet.toBytes_eq] at encoded
        have empty := congrArg List.length (Except.ok.inj encoded)
        rw [List.length_append, putU32_length] at empty
        simp at empty
  | @write data queue running next nonempty =>
      refine same opened.reader rfl rfl ?_ ?_
      · intro member
        exact opened.queue (next ▸ List.mem_cons_of_mem _ member)
      · have up : toStream s.client .write s.up = s.up.send data := by
          simp only [toStream, next]
          rw [if_neg (by simpa using nonempty)]
        rw [up, Pipe.send_closed, opened.up]
  | readReply | found | unknown | delivered | refused =>
      exact same (by simp) rfl rfl opened.queue opened.up
  | _ => exact same opened.reader rfl rfl opened.queue opened.up

theorem Open.step {handler : Server.Handler σ ε} {s s' : State σ} {event : Event} (opened : Open s)
    (keeps : event.Keeps) (taken : Stepped handler s event s') : Open s' := by
  obtain ⟨reader, writer, cancelled, queue, up, down, serving⟩ := opened
  cases taken with
  | client moved own ended =>
      exact Open.client ⟨reader, writer, cancelled, queue, up, down, serving⟩
        (fun same => keeps.2 (by rw [same])) moved ended
  | ends _ ended =>
      have closed := ended.1
      rw [up] at closed
      cases closed
  | serve => exact ⟨reader, writer, cancelled, queue, up, by rw [Pipe.send_closed, down], serving⟩
  | hangUp => exact absurd rfl keeps.1
  | carryUp | carryDown | arrive => exact ⟨reader, writer, cancelled, queue, up, down, serving⟩

theorem open_of_run {handler : Server.Handler σ ε} {limits : Limits} {start : σ}
    {events : List Event} {s : State σ}
    (replies : Run.Meets (step handler) (ShortReply handler) (State.new limits start) events)
    (keeps : ∀ event ∈ events, event.Keeps)
    (run : Run.exec (step handler) (State.new limits start) events = some s) : Open s := by
  have meets : Run.Meets (step handler) (fun t event => event.Keeps ∧ ShortReply handler t event)
      (State.new limits start) events :=
    fun before event after t shape first =>
      ⟨keeps event (by simp [shape]), replies before event after t shape first⟩
  exact (Run.along_of_meets (.new limits start)
    (fun _ _ _ held meets taken => held.step meets.1 (stepped meets.2 taken)) meets).last run

/-! ## The order of the requests -/

/-- The belt has the requests that were queued while the link was open, in their order, before all
others. -/
structure Filed (events : List Event) (b : Belt) : Prop where
  all : (∀ event ∈ events, event.Keeps) → b.posts.map (·.call) = events.flatMap queued
  front : ∀ before after, events = before ++ after → (∀ event ∈ before, event.Keeps) →
    before.flatMap queued <+: b.posts.map (·.call)

theorem Filed.new : Filed [] ⟨[], [], [], [], []⟩ where
  all _ := rfl
  front before after shape _ := by
    rw [(List.append_eq_nil_iff.mp shape.symm).1]
    exact List.nil_prefix

theorem Filed.step {events : List Event} {b b' : Belt} {s : State σ} {event : Event}
    (filed : Filed events b) (opened : (∀ event ∈ events, event.Keeps) → Open s)
    (takes : Takes b b' s.client event) : Filed (events ++ [event]) b' := by
  obtain ⟨more, posts, which⟩ := takes
  have all : (∀ other ∈ events ++ [event], other.Keeps) →
      b'.posts.map (·.call) = (events ++ [event]).flatMap queued := by
    intro keeps
    have earlier : ∀ other ∈ events, other.Keeps := fun other member =>
      keeps other (List.mem_append_left _ member)
    rw [posts, List.map_append, filed.all earlier, List.flatMap_append, List.flatMap_singleton]
    rcases which with same | ⟨_, closed⟩
    · rw [same]
    · rw [State.isClosed, (opened earlier).writer] at closed
      cases closed
  refine ⟨all, fun before after shape keeps => ?_⟩
  rcases List.eq_nil_or_concat after with rfl | ⟨after, last, rfl⟩
  · rw [List.append_nil] at shape
    rw [← shape] at keeps ⊢
    exact all keeps ▸ List.prefix_rfl
  · rw [List.concat_eq_append, ← List.append_assoc] at shape
    obtain ⟨same, _⟩ := List.append_inj' shape rfl
    rw [posts, List.map_append]
    exact (filed.front before after same keeps).trans (List.prefix_append _ _)

end RusshSftp.Link
