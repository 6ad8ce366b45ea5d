import RusshSftp.Link.Atomic

/-!
# Every call of a link ends

Left to itself, with no new call, no timeout and no failure of the network, a link whose
session is open works off what it has to do, in whatever order its parts take their steps.  Then
every call has ended, but for an `init` that the server has refused: the refusal has the id 0,
which is no call's.  Nothing of this waits for the map to reclaim a sender.
-/

set_option autoImplicit false

namespace RusshSftp

open Framing Client

/-- The action is not a caller's, and not the end of a wait or of the session. -/
def Client.Action.own : Client.Action → Bool
  | .start .. | .elapse _ | .drop _ | .closeSession => false
  | _ => true

def Client.Reader.rank : Client.Reader → Nat
  | .replying .. => 2
  | .sending .. => 1
  | .idle | .ended => 0

namespace Link

variable {σ ε : Type}

/-- A step by which the link works off what it has to do. -/
def Works (s : State σ) : Event → Prop
  | .client action => action.own = true
  | .carryUp n => n ≠ 0 ∧ s.up.transit ≠ []
  | .carryDown n => n ≠ 0 ∧ s.down.transit ≠ []
  | .serve | .arrive => True
  | .hangUp => False

/-- A round of the server's loop has found the request of this `init`, and the handler has refused
it in the state that the run had come to. -/
def InitRefused (handler : Server.Handler σ ε) (limits : Limits) (start : σ) (events : List Event)
    (c : CallId) : Prop :=
  ∃ earlier later t err server', events = earlier ++ .serve :: later ∧
    Run.exec (step handler) (State.new limits start) earlier = some t ∧
    (∃ rest, t.up.arrived = frame 4 (requestBody ⟨c, none, .init⟩) ++ rest) ∧
    handler.init 3 .empty t.server = (.error err, server')

/-- At the end of a run nothing is on its way, and no call waits for what will not come. -/
structure Settled (handler : Server.Handler σ ε) (limits : Limits) (start : σ)
    (events : List Event) (s : State σ) : Prop where
  queue : s.client.queue = []
  up : s.up.transit = [] ∧ Incomplete 4 s.up.arrived
  down : s.down.transit = [] ∧ Incomplete 4 s.down.arrived
  inbox : s.client.inbox = []
  reader : s.client.reader = .idle
  calls : ∀ c call, s.client.calls c = some call → call.phase.inFlight = true →
    call.job = .init ∧ InitRefused handler limits start events c

/-! ## The work that is left -/

/-- The steps that a call has left, at most. -/
def left (s : Client.State) (c : CallId) : Nat :=
  (s.calls c).elim 0 fun call => 7 - call.phase.rank

def remaining (ids : List CallId) (s : Client.State) : Nat := (ids.map (left s)).sum

/-- A call, the queue, the way up, the way down and the map, in the order in which they feed one
another. -/
def work (ids : List CallId) (s : State σ) :
    Nat ×ₗ Nat ×ₗ Nat ×ₗ Nat ×ₗ Nat ×ₗ Nat ×ₗ Nat ×ₗ Nat :=
  toLex (remaining ids s.client, toLex (s.client.queue.length, toLex (s.up.transit.length,
    toLex (s.up.arrived.length, toLex (s.down.transit.length, toLex (s.down.arrived.length,
      toLex (3 * s.client.inbox.length + s.client.reader.rank, s.client.retired.length)))))))

theorem left_le {s s' : Client.State} {action : Client.Action}
    (taken : Client.step s action = some s') (own : action.own = true) (c : CallId) :
    left s' c ≤ left s c := by
  cases after : s'.calls c with
  | none => simp [left, after]
  | some call' =>
      have known (call : Call) (present : s.calls c = some call)
          (further : call.phase.rank ≤ call'.phase.rank) : left s' c ≤ left s c := by
        simp only [left, after, present, Option.elim_some]
        omega
      cases evolves taken after with
      | same present => exact known call' present le_rfl
      | started action_eq => rw [action_eq] at own; cases own
      | keyed _ present phase call_eq =>
          exact known _ present (by rw [call_eq, phase]; simp [Phase.rank])
      | moved _ present ahead call_eq => exact known _ present (by rw [call_eq]; exact ahead.le)
      | answered _ _ present _ _ _ call_eq => exact known _ present (by rw [call_eq])

theorem remaining_le {s s' : Client.State} {action : Client.Action}
    (taken : Client.step s action = some s') (own : action.own = true) (ids : List CallId) :
    remaining ids s' ≤ remaining ids s :=
  List.sum_le_sum fun c _ => left_le taken own c

theorem remaining_lt {s s' : Client.State} {action : Client.Action} {c : CallId}
    (taken : Client.step s action = some s') (own : action.own = true)
    (mine : action.call? = some c) {ids : List CallId} (member : c ∈ ids) :
    remaining ids s' < remaining ids s := by
  obtain ⟨call, present, moved⟩ := step_of_call mine taken
  obtain ⟨call', after, further⟩ := rank_lt mine taken present
  refine List.sum_lt_sum (left s') (left s) (fun d _ => left_le taken own d) ⟨c, member, ?_⟩
  simp only [left, after, present, Option.elim_some]
  have last : call'.phase.rank ≤ 7 := by cases call'.phase <;> simp [Phase.rank]
  omega

theorem Works.keeps {s : State σ} {event : Event} (works : Works s event) : event.Keeps := by
  refine ⟨?_, ?_⟩
  · rintro rfl
    exact works
  · rintro rfl
    cases works

theorem carry_lt {p : Pipe} {n : Nat} (some : n ≠ 0) (nonempty : p.transit ≠ []) :
    (p.carry n).transit.length < p.transit.length := by
  have positive := List.length_pos_of_ne_nil nonempty
  rw [Pipe.carry, List.length_drop]
  omega

theorem frame_lt (body rest : Bytes) : rest.length < (frame 4 body ++ rest).length := by
  rw [List.length_append, frame, List.length_append, BigEndian.beBytes_length]
  omega

/-- Each step by which the link works leaves less to do. -/
theorem work_lt {handler : Server.Handler σ ε} {s s' : State σ} {event : Event} {ids : List CallId}
    (listed : ∀ c call, s.client.calls c = some call → c ∈ ids) (opened : Open s)
    (works : Works s event) (taken : Stepped handler s event s') : work ids s' < work ids s := by
  have opened' := opened.step works.keeps taken
  cases taken with
  | @client action client moved own ended =>
      have fewer := remaining_le moved works ids
      cases mine : action.call? with
      | some c =>
          obtain ⟨call, present, _⟩ := step_of_call mine moved
          have less := remaining_lt moved works mine (listed c call present)
          exact Prod.Lex.toLex_lt_toLex.mpr (.inl less)
      | none =>
          -- the reader has taken a step, and the rest is as it was
          have reads (queue : client.queue = s.client.queue)
              (up : toStream s.client action s.up = s.up)
              (less : 3 * client.inbox.length + client.reader.rank <
                3 * s.client.inbox.length + s.client.reader.rank) :
              work ids { s with client, up := toStream s.client action s.up } < work ids s := by
            simp only [work, Prod.Lex.toLex_lt_toLex, queue, up, true_and]
            omega
          cases Client.stepped moved with
          | start | closedAlready | closeSession => cases works
          | arrive => exact absurd rfl (own _)
          | eof | readCancelled => exact absurd rfl opened'.reader
          | shutdown | writeCancelled | writeEnd => cases opened'.writer
          | readReply idle next | readOther idle next =>
              refine reads rfl rfl ?_
              rw [next, idle, List.length_cons]
              simp only [Reader.rank]
              omega
          | found busy | unknown busy | delivered busy | refused busy =>
              refine reads rfl rfl ?_
              rw [busy]
              simp [Reader.rank]
          | @reclaim c member free =>
              have calls : remaining ids { s.client with retired := s.client.retired.erase c } =
                  remaining ids s.client := rfl
              have shorter : (s.client.retired.erase c).length < s.client.retired.length := by
                have positive := List.length_pos_of_mem member
                rw [List.length_erase_of_mem member]
                omega
              have same : toStream s.client (.reclaim c) s.up = s.up := rfl
              simp only [work, Prod.Lex.toLex_lt_toLex, true_and, calls, same]
              omega
          | @write data queue running next =>
              have fewer' : queue.length < s.client.queue.length := by
                rw [next, List.length_cons]
                omega
              simp only [work, Prod.Lex.toLex_lt_toLex, true_and]
              omega
          | _ => cases mine
  | carryUp =>
      have less := carry_lt works.1 works.2
      simp only [work, Prod.Lex.toLex_lt_toLex, true_and]
      omega
  | carryDown =>
      have less := carry_lt works.1 works.2
      simp only [work, Prod.Lex.toLex_lt_toLex, true_and]
      omega
  | @serve body rest serving arrived =>
      have less := frame_lt body rest
      rw [← arrived] at less
      simp only [work, Prod.Lex.toLex_lt_toLex, true_and]
      omega
  | ends => cases opened'.serving
  | @arrive body rest arrived =>
      have less := frame_lt body rest
      rw [← arrived] at less
      have calls : remaining ids { s.client with inbox := s.client.inbox ++ [body] } =
        remaining ids s.client := rfl
      simp only [work, Prod.Lex.toLex_lt_toLex, true_and, calls]
      omega
  | hangUp => cases works

/-! ## Where no work is left -/

theorem step_client (handler : Server.Handler σ ε) {s : State σ} {action : Client.Action}
    {client : Client.State} (taken : Client.step s.client action = some client)
    (own : ∀ bytes, action ≠ .arrive bytes) (ended : action ≠ .eof) :
    step handler s (.client action) =
      some { s with client, up := toStream s.client action s.up } := by
  rw [step, clientStep.eq_def]
  split
  · exact absurd rfl (own _)
  · rw [if_neg fun guard => ended guard.1, taken]
    rfl

/-- A link has no step to take, or only the map has one. -/
def Stuck (handler : Server.Handler σ ε) (s : State σ) : Prop :=
  ∀ event, Works s event → (∀ c, event ≠ .client (.reclaim c)) → step handler s event = none

/-- A link that has no step to take has nothing on its way. -/
theorem quiet_of_stuck {handler : Server.Handler σ ε} {s : State σ} (opened : Open s)
    (phased : Phased s.client) (stuck : Stuck handler s) :
    s.client.queue = [] ∧ (s.up.transit = [] ∧ Incomplete 4 s.up.arrived) ∧
      (s.down.transit = [] ∧ Incomplete 4 s.down.arrived) ∧ s.client.inbox = [] ∧
      s.client.reader = .idle ∧ ∀ c call, s.client.calls c = some call →
        call.phase.inFlight = true → call.phase = .recv ∧ call.answer = none := by
  have halted {action : Client.Action} (own : action.own = true)
      (other : ∀ bytes, action ≠ .arrive bytes) (ended : action ≠ .eof)
      (reclaim : ∀ c, action ≠ .reclaim c) :
      (Client.step s.client action).isSome = false := by
    rw [Bool.eq_false_iff]
    intro possible
    obtain ⟨client, taken⟩ := Option.isSome_iff_exists.mp possible
    have none := stuck (.client action) own fun c same => reclaim c (Event.client.inj same)
    rw [step_client handler taken other ended] at none
    cases none
  have reader : s.client.reader = .idle := by
    cases busy : s.client.reader with
    | idle => rfl
    | replying frame key packet =>
        have none := halted (rfl : (Action.lookup key).own = true) (by simp) (by simp) (by simp)
        cases entry : s.client.requests key <;> simp [Client.step, busy, entry] at none
    | sending frame key packet c =>
        have none := halted (rfl : (Action.deliver c frame).own = true) (by simp) (by simp)
          (by simp)
        simp [Client.step, busy] at none
    | ended => exact absurd busy opened.reader
  have transit {p : Pipe} (closed : ∀ n, n ≠ 0 ∧ p.transit ≠ [] → False) : p.transit = [] := by
    by_contra nonempty
    exact closed 1 ⟨by decide, nonempty⟩
  refine ⟨?_, ⟨?_, ?_⟩, ⟨?_, ?_⟩, ?_, reader, ?_⟩
  · have none := halted (rfl : Action.write.own = true) (by simp) (by simp) (by simp)
    cases next : s.client.queue with
    | nil => rfl
    | cons data queue =>
        cases empty : data.isEmpty <;> simp [Client.step, opened.writer, next, empty] at none
  · exact transit fun n works => by cases stuck (.carryUp n) works (by simp)
  · by_contra complete
    have none := stuck .serve trivial (by simp)
    rw [step, serve, if_pos ⟨opened.serving, fun cut => absurd cut complete⟩] at none
    split at none <;> cases none
  · exact transit fun n works => by cases stuck (.carryDown n) works (by simp)
  · by_contra complete
    have none := stuck .arrive trivial (by simp)
    obtain ⟨body, rest, arrived, fits⟩ := exists_frame complete
    have read := Stream.readPacket_frame ⟨s.down.arrived, .earlyEof, [], []⟩ body rest fits arrived
    rw [step, arrive, if_neg complete, read] at none
    cases none
  · have none := halted (rfl : Action.read.own = true) (by simp) (by simp) (by simp)
    cases next : s.client.inbox with
    | nil => rfl
    | cons bytes inbox => simp [Client.step, reader, next] at none
  · intro c call present flying
    have phase : call.phase = .recv := by
      by_contra other
      obtain ⟨action, client, own, taken, calm⟩ := exists_step phased present flying other
      have ours : action.own = true := by cases action <;> cases own <;> first | rfl | simp at calm
      have none := halted ours (by rintro bytes rfl; cases own) (by rintro rfl; cases own)
        (by rintro d rfl; cases own)
      rw [taken] at none
      cases none
    refine ⟨phase, ?_⟩
    cases answered : call.answer with
    | none => rfl
    | some answer =>
        have none := halted (rfl : (Action.recv c answer.frame).own = true) (by simp) (by simp)
          (by simp)
        simp [Client.step, present, callStep, phase, answered] at none

/-- A link with nothing on its way and no call in flight has no step to take. -/
theorem stuck_of_quiet {handler : Server.Handler σ ε} {s : State σ} (opened : Open s)
    (queue : s.client.queue = []) (up : s.up.transit = [] ∧ Incomplete 4 s.up.arrived)
    (down : s.down.transit = [] ∧ Incomplete 4 s.down.arrived) (inbox : s.client.inbox = [])
    (reader : s.client.reader = .idle)
    (calls : ∀ c call, s.client.calls c = some call → call.phase.inFlight = false) :
    Stuck handler s := by
  have still {action : Client.Action} (own : action.own = true) (arrive : ∀ b, action ≠ .arrive b)
      (ended : action = .eof → s.down.Ended 4) (reclaim : ∀ c, action ≠ .reclaim c) :
      Client.step s.client action = none := by
    cases taken : Client.step s.client action with
    | none => rfl
    | some client =>
        cases mine : action.call? with
        | some c =>
            obtain ⟨call, present, _⟩ := step_of_call mine taken
            obtain ⟨call', _, further⟩ := rank_lt mine taken present
            have finished := calls c call present
            have most : call'.phase.rank ≤ 7 := by cases call'.phase <;> simp [Phase.rank]
            have flying := (Phase.inFlight_iff call.phase).mpr (by omega)
            rw [finished] at flying
            cases flying
        | none =>
            cases Client.stepped taken with
            | start | closedAlready | closeSession => cases own
            | arrive => exact absurd rfl (arrive _)
            | reclaim => exact absurd rfl (reclaim _)
            | readReply _ next | readOther _ next => rw [inbox] at next; cases next
            | found busy | unknown busy | delivered busy | refused busy =>
                rw [reader] at busy
                cases busy
            | eof =>
                have closed := (ended rfl).1
                rw [opened.down] at closed
                cases closed
            | readCancelled _ cancelled | writeCancelled _ cancelled =>
                rw [opened.cancelled] at cancelled
                cases cancelled
            | shutdown _ next | write _ next => rw [queue] at next; cases next
            | writeEnd stopped => rw [opened.writer] at stopped; cases stopped
            | _ => cases mine
  intro event works other
  cases event with
  | client action =>
      rw [step, clientStep.eq_def]
      split
      · rfl
      · rename_i arrive
        split
        · rfl
        · rename_i guard
          rw [still works arrive (fun same => by_contra fun open' => guard ⟨same, open'⟩)
            fun c same => other c (by rw [same])]
          rfl
  | carryUp => exact absurd up.1 works.2
  | carryDown => exact absurd down.1 works.2
  | serve =>
      refine if_neg fun guards => ?_
      have closed := (guards.2 up.2).1
      rw [opened.up] at closed
      cases closed
  | arrive => exact if_pos down.2
  | hangUp => cases works

theorem settled_of_stuck {handler : Server.Handler σ ε} {limits : Limits} {start : σ}
    {events : List Event} {b : Belt} {s : State σ} (carries : Carries handler b s)
    (made : Made handler limits start events b) (sound : Sound s.client) (opened : Open s)
    (stuck : Stuck handler s) : Settled handler limits start events s := by
  obtain ⟨queue, up, down, inbox, reader, calls⟩ := quiet_of_stuck opened sound.phased stuck
  obtain ⟨wired, posted, given, served⟩ := carries
  refine ⟨queue, up, down, inbox, reader, fun c call present flying => ?_⟩
  obtain ⟨phase, unanswered⟩ := calls c call present flying
  obtain ⟨post, listed, own⟩ := posted.waiting c call present phase
  obtain ⟨other, at_post, key, job, _⟩ := posted.known post listed
  rw [own, present] at at_post
  cases at_post
  -- the reply has been taken, as nothing is left anywhere else
  have none : b.queue = [] ∧ b.up = [] ∧ b.down = [] ∧ b.inbox = [] := by
    have queued := wired.queue
    have waits := wired.inbox
    rw [queue] at queued
    rw [inbox] at waits
    exact ⟨List.map_eq_nil_iff.mp queued.symm,
      List.map_eq_nil_iff.mp (wired.up.eq_nil (s.up.sound opened.up) up.1 up.2),
      List.map_eq_nil_iff.mp (wired.down.eq_nil (s.down.sound opened.down) down.1 down.2),
      List.map_eq_nil_iff.mp waits.symm⟩
  obtain ⟨noQueue, noUp, noDown, noInbox⟩ := none
  simp only [Belt.posts, Belt.served, noQueue, noUp, noDown, noInbox, List.append_nil] at listed
  obtain ⟨e, taken, rfl⟩ := List.mem_map.mp listed
  obtain ⟨i, found⟩ := List.getElem?_of_mem taken
  have inServed : e ∈ b.served := by simp [Belt.served, taken]
  rcases (served e inServed).key with addressed | ⟨init, refused⟩
  · have gone := given.looked i e found addressed fun packet busy => by
      rw [reader] at busy
      cases busy
    have kept := sound.kept c call e.post.tag present (.inr phase) key
    rcases kept with there | ⟨_, _, busy⟩ | answered
    · rw [own] at gone
      exact absurd there gone
    · rw [reader] at busy
      cases busy
    · exact absurd unanswered answered
  · obtain ⟨earlier, later, t, shape, run, ⟨rest, arrived⟩, reply⟩ := made e inServed
    have tag : e.post.tag = none := by
      have initKey := (sound.consistent.initKey _ call present).mpr (job.trans init)
      rw [key] at initKey
      exact Option.some.inj initKey
    have post : e.post = ⟨c, none, .init⟩ := by rw [← own, ← tag, ← init]
    refine ⟨job.trans init, earlier, later, t, ?_⟩
    rw [reply, init] at refused
    have called : Server.processRequest handler (Job.init.packet e.post.tag).normalise t.server =
        Server.intoWrap 0 handler .version (handler.init 3 .empty t.server) := rfl
    rw [called] at refused
    rcases result : handler.init 3 .empty t.server with ⟨err | version, server'⟩
    · refine ⟨err, server', shape, run, ⟨rest, ?_⟩, rfl⟩
      rw [post] at arrived
      exact arrived
    · rw [result] at refused
      cases refused

/-! ## Every run -/

/-- What is asked of the calls of a run and of the handler. -/
structure Bounded (handler : Server.Handler σ ε) (events : List Event) : Prop where
  init : ∀ c d, .client (.start c .init) ∈ events → .client (.start d .init) ∈ events → c = d
  calls : (starts (events.filterMap Event.action?)).length < 2 ^ 32
  requests : ∀ c job key, .client (.start c job) ∈ events → (job.packet key).Short
  replies : ∀ bytes server, (Server.respond handler bytes server).1.Short

theorem Bounded.within {handler : Server.Handler σ ε} {limits : Limits} {start : σ}
    {events : List Event} {s : State σ} (bounded : Bounded handler events)
    (run : Run.exec (step handler) (State.new limits start) events = some s) :
    Within handler limits start events := by
  have replies : Run.Meets (step handler) (ShortReply handler) (State.new limits start) events :=
    Run.meets_of_all fun event _ t _ body rest _ => bounded.replies body t.server
  obtain ⟨actions, client, drawn, begun, _⟩ := client_run run replies
  have few := draws_le_starts client
  rw [drawn, begun] at few
  exact ⟨bounded.init, lt_of_le_of_lt few bounded.calls, bounded.requests, replies⟩

/-- The state is one of a run of a session that is open. -/
structure Reached (handler : Server.Handler σ ε) (limits : Limits) (start : σ)
    (events : List Event) (s : State σ) : Prop where
  run : Run.exec (step handler) (State.new limits start) events = some s
  bounded : Bounded handler events
  keeps : ∀ event ∈ events, event.Keeps

namespace Reached

variable {handler : Server.Handler σ ε} {limits : Limits} {start : σ} {events : List Event}
  {s s' : State σ}

theorem opened (reached : Reached handler limits start events s) : Open s :=
  open_of_run (reached.bounded.within reached.run).replies reached.keeps reached.run

theorem work {event : Event} (reached : Reached handler limits start events s)
    (works : Works s event) (taken : step handler s event = some s') :
    Reached handler limits start (events ++ [event]) s' ∧
      starts ((events ++ [event]).filterMap Event.action?) =
        starts (events.filterMap Event.action?) := by
  obtain ⟨run, bounded, keeps⟩ := reached
  have old {c : CallId} {job : Job} (member : .client (.start c job) ∈ events ++ [event]) :
      .client (.start c job) ∈ events := by
    rcases List.mem_append.mp member with earlier | now
    · exact earlier
    · rw [← List.mem_singleton.mp now] at works
      cases works
  have same : starts ((events ++ [event]).filterMap Event.action?) =
      starts (events.filterMap Event.action?) := by
    have none : starts ([event].filterMap Event.action?) = [] := by
      cases event with
      | client action => cases action <;> first | rfl | cases works
      | _ => rfl
    rw [List.filterMap_append, starts, List.filterMap_append, ← starts, ← starts, none,
      List.append_nil]
  refine ⟨⟨Run.exec_snoc run taken, ⟨?_, ?_, ?_, bounded.replies⟩, ?_⟩, same⟩
  · exact fun c d one other => bounded.init c d (old one) (old other)
  · rw [same]
    exact bounded.calls
  · exact fun c job key member => bounded.requests c job key (old member)
  · intro other member
    rcases List.mem_append.mp member with earlier | now
    · exact keeps other earlier
    · rw [List.mem_singleton.mp now]
      exact works.keeps

theorem works {more : List Event} (reached : Reached handler limits start events s)
    (meets : Run.Meets (step handler) Works s more)
    (further : Run.exec (step handler) s more = some s') :
    Reached handler limits start (events ++ more) s' := by
  revert meets
  refine Run.exec_induction (P := fun more t => Run.Meets (step handler) Works s more →
    Reached handler limits start (events ++ more) t) ?_ ?_ more s' further
  · intro _
    rw [List.append_nil]
    exact reached
  · intro more t event t' early ih taken meets
    rw [← List.append_assoc]
    exact ((ih meets.front).work (meets.last early) taken).1

end Reached

/-- The run has gone on, with no new calls. -/
def Continues (handler : Server.Handler σ ε) (limits : Limits) (start : σ) (events : List Event)
    (s : State σ) : Prop :=
  ∃ events', Reached handler limits start events' s ∧
    starts (events'.filterMap Event.action?) = starts (events.filterMap Event.action?)

theorem Continues.work {handler : Server.Handler σ ε} {limits : Limits} {start : σ}
    {events : List Event} {s s' : State σ} {event : Event}
    (continues : Continues handler limits start events s) (works : Works s event)
    (taken : step handler s event = some s') : Continues handler limits start events s' := by
  obtain ⟨events', reached, same⟩ := continues
  obtain ⟨reached', more⟩ := reached.work works taken
  exact ⟨_, reached', more.trans same⟩

/-- In whatever order the link works off what it has to do, it comes to an end, and it can only
stop where every call has ended. -/
theorem link_settles (handler : Server.Handler σ ε) (addresses : handler.Addresses)
    (limits : Limits) (start : σ) (events : List Event) (s : State σ)
    (bounded : Bounded handler events) (keeps : ∀ event ∈ events, event.Keeps)
    (run : Run.exec (step handler) (State.new limits start) events = some s) :
    Acc (fun t' t => ∃ event, Works t event ∧ step handler t event = some t') s ∧
      ∀ more s', Run.Meets (step handler) Works s more →
        Run.exec (step handler) s more = some s' →
        Stuck handler s' → Settled handler limits start (events ++ more) s' := by
  have first : Continues handler limits start events s := ⟨events, ⟨run, bounded, keeps⟩, rfl⟩
  refine ⟨?_, fun more s' meets further stuck => ?_⟩
  · refine Run.ends (I := Continues handler limits start events) wellFounded_lt
      (work (starts (events.filterMap Event.action?))) ?_ s first
    intro t event t' continues works taken
    refine ⟨continues.work works taken, ?_⟩
    obtain ⟨events', reached, same⟩ := continues
    have replies := (reached.bounded.within reached.run).replies
    refine work_lt (fun c call present => ?_) reached.opened works
      (stepped (fun _ body rest _ => reached.bounded.replies body t.server) taken)
    obtain ⟨actions, client, _, begun, _⟩ := client_run reached.run replies
    rw [← same, ← begun]
    exact List.mem_filterMap.mpr ⟨_, call_started client c call present, rfl⟩
  · have reached := Reached.works ⟨run, bounded, keeps⟩ meets further
    have within := reached.bounded.within reached.run
    obtain ⟨_, _, b, _, carries, _, _, made, _⟩ := exists_object addresses within reached.run
    exact settled_of_stuck carries made (sound within reached.run) reached.opened stuck

/-- A call has just begun, and another has queued its request. -/
def begun : List Event :=
  initLinked ++ clients [.start 1 (.request (.stat "a"))] ++
    clients (sendActions 2 (.stat "a"))

/-- What is left to do of both. -/
def begunLeft : List Event :=
  clients [.checkLimit 1, .useNextId 1, .isClosed 1, .insert 1, .enqueue 1, .write] ++
    (.carryUp 28 :: ([.serve, .serve] ++ .carryDown 60 :: ([.arrive, .arrive] ++
      clients (handleReply 2 (some 1) 1) ++ clients (handleReply 1 (some 2) 2))))

instance (s : State σ) : (event : Event) → Decidable (Works s event)
  | .client action => inferInstanceAs (Decidable (action.own = true))
  | .carryUp n => inferInstanceAs (Decidable (n ≠ 0 ∧ s.up.transit ≠ []))
  | .carryDown n => inferInstanceAs (Decidable (n ≠ 0 ∧ s.down.transit ≠ []))
  | .serve | .arrive => inferInstanceAs (Decidable True)
  | .hangUp => inferInstanceAs (Decidable False)

theorem begunLeft_works {s : State UInt64}
    (run : Run.exec (step ticking) (State.new Limits.default 0) begun = some s) :
    Run.Meets (step ticking) Works s begunLeft :=
  Run.meets_of_decide run (by decide +kernel)

theorem ticking_shortReply (events : List Event) :
    Run.Meets (step ticking) (ShortReply ticking) (State.new Limits.default 0) events :=
  fun _ _ _ _ _ _ _ _ _ _ => ticking_short _ _

theorem begunLeft_ended {s : State UInt64}
    (run : Run.exec (step ticking) (State.new Limits.default 0) (begun ++ begunLeft) = some s)
    {c : CallId} {call : Call} (present : s.client.calls c = some call) :
    call.phase.inFlight = false := by
  obtain ⟨actions, client, _, same, _⟩ := client_run run (ticking_shortReply _)
  have listed : c ∈ starts actions :=
    List.mem_filterMap.mpr ⟨_, call_started client c call present, rfl⟩
  have three : starts ((begun ++ begunLeft).filterMap Event.action?) = [0, 1, 2] := by decide
  rw [same, three] at listed
  have all : ([0, 1, 2].map fun d => (progress s.client d).map Prod.snd) =
      [some false, some false, some false] :=
    Run.exec_map (f := fun s : State UInt64 => [0, 1, 2].map fun d =>
      (progress s.client d).map Prod.snd) run (by decide +kernel)
  have ended : (progress s.client c).map Prod.snd = some false := by
    have member := List.mem_map_of_mem (f := fun d => (progress s.client d).map Prod.snd) listed
    rw [all] at member
    simpa using member
  rw [progress, present] at ended
  exact Option.some.inj ended

theorem link_settles_begun :
    ∃ s s', Run.exec (step ticking) (State.new Limits.default 0) begun = some s ∧
      Acc (fun t' t => ∃ event, Works t event ∧ step ticking t event = some t') s ∧
      Run.exec (step ticking) s begunLeft = some s' ∧
      Settled ticking Limits.default 0 (begun ++ begunLeft) s' := by
  have all : ∀ event ∈ begun, small event = true := by decide
  obtain ⟨s', whole⟩ : ∃ s', Run.exec (step ticking) (State.new Limits.default 0)
      (begun ++ begunLeft) = some s' := Option.isSome_iff_exists.mp (by decide +kernel)
  obtain ⟨s, run, further⟩ := Run.exec_append_inv whole
  have settles := link_settles ticking ticking_addresses Limits.default 0 begun s
    ⟨small_init all, by decide, small_requests all, ticking_short⟩ (by decide) run
  refine ⟨s, s', run, settles.1, further,
    settles.2 begunLeft s' (begunLeft_works run) further ?_⟩
  have up : s'.up.arrived = [] := Run.exec_map (f := fun s => s.up.arrived) whole
    (by decide +kernel)
  have down : s'.down.arrived = [] := Run.exec_map (f := fun s => s.down.arrived) whole
    (by decide +kernel)
  refine stuck_of_quiet (open_of_run (ticking_shortReply _) (by decide) whole)
    (Run.exec_map (f := fun s => s.client.queue) whole (by decide +kernel))
    ⟨Run.exec_map (f := fun s => s.up.transit) whole (by decide +kernel), ?_⟩
    ⟨Run.exec_map (f := fun s => s.down.transit) whole (by decide +kernel), ?_⟩
    (Run.exec_map (f := fun s => s.client.inbox) whole (by decide +kernel))
    (Run.exec_map (f := fun s => s.client.reader) whole (by decide +kernel)) ?_
  · rw [up]
    exact .inl (by decide)
  · rw [down]
    exact .inl (by decide)
  · intro c call present
    exact begunLeft_ended whole present

end Link

end RusshSftp
