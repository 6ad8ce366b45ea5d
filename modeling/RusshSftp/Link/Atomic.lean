import RusshSftp.Client.Progress
import RusshSftp.Link.Open

/-!
# A link is a handler that is called directly

To its callers a link is one object that serves their requests one at a time, each by a call of
the handler: the steps of the network, of the two tasks and of the server's loop are not seen.
-/

set_option autoImplicit false

namespace RusshSftp.Link

open Framing Client

variable {σ ε : Type}

/-- The action of an event of the client. -/
def Event.action? : Event → Option Client.Action
  | .client action => some action
  | _ => none

/-- What is asked of a run: `init` is called once, there are no more requests than ids, and
requests and replies fit in their frames. -/
structure Within (handler : Server.Handler σ ε) (limits : Limits) (start : σ)
    (events : List Event) : Prop where
  init : ∀ c d, .client (.start c .init) ∈ events → .client (.start d .init) ∈ events → c = d
  ids : draws (events.filterMap Event.action?) < 2 ^ 32
  requests : ∀ c job key, .client (.start c job) ∈ events → (job.packet key).Short
  replies : Run.Meets (step handler) (ShortReply handler) (State.new limits start) events

theorem Within.front {handler : Server.Handler σ ε} {limits : Limits} {start : σ}
    {before after : List Event} (within : Within handler limits start (before ++ after)) :
    Within handler limits start before where
  init c d one other :=
    within.init c d (List.mem_append_left _ one) (List.mem_append_left _ other)
  ids := by
    have few := within.ids
    rw [List.filterMap_append, draws, List.countP_append] at few
    exact lt_of_le_of_lt (Nat.le_add_right _ _) few
  requests c job key member := within.requests c job key (List.mem_append_left _ member)
  replies := within.replies.front

/-! ## The client's part of a run -/

theorem client_run {handler : Server.Handler σ ε} {limits : Limits} {start : σ}
    {events : List Event} {s : State σ}
    (run : Run.exec (step handler) (State.new limits start) events = some s) :
    Run.Meets (step handler) (ShortReply handler) (State.new limits start) events →
    ∃ actions, Run.exec Client.step (Client.State.new limits) actions = some s.client ∧
      draws actions = draws (events.filterMap Event.action?) ∧
      starts actions = starts (events.filterMap Event.action?) ∧
      ∀ action ∈ actions, (∃ bytes, action = .arrive bytes) ∨ .client action ∈ events := by
  refine Run.exec_induction (P := fun events s =>
    Run.Meets (step handler) (ShortReply handler) (State.new limits start) events →
    ∃ actions, Run.exec Client.step (Client.State.new limits) actions = some s.client ∧
      draws actions = draws (events.filterMap Event.action?) ∧
      starts actions = starts (events.filterMap Event.action?) ∧
      ∀ action ∈ actions, (∃ bytes, action = .arrive bytes) ∨ .client action ∈ events)
    ?_ ?_ events s run
  · intro _
    exact ⟨[], rfl, rfl, rfl, fun action member => by cases member⟩
  · intro events s event s' before ih taken replies
    obtain ⟨actions, first, drawn, begun, known⟩ := ih replies.front
    have earlier : ∀ action ∈ actions,
        (∃ bytes, action = .arrive bytes) ∨ .client action ∈ events ++ [event] := by
      intro action member
      exact (known action member).imp_right (List.mem_append_left _)
    rw [List.filterMap_append]
    cases stepped (replies.last before) taken with
    | @client action client moved own ended =>
        refine ⟨actions ++ [action], Run.exec_snoc first moved, ?_, ?_, ?_⟩
        · rw [draws_snoc, drawn]
          exact (draws_snoc _ action).symm
        · rw [starts, List.filterMap_append, ← starts, begun]
          exact (List.filterMap_append ..).symm
        · intro other member
          rcases List.mem_append.mp member with old | now
          · exact earlier other old
          · rw [List.mem_singleton.mp now]
            exact .inr (by simp)
    | @arrive body rest arrived fits =>
        refine ⟨actions ++ [.arrive body], Run.exec_snoc first rfl, ?_, ?_, ?_⟩
        · rw [draws_snoc, drawn]
          exact (congrArg draws (List.append_nil _)).symm
        · rw [starts, List.filterMap_append, ← starts, begun]
          exact (List.append_nil _).trans (congrArg starts (List.append_nil _)).symm
        · intro other member
          rcases List.mem_append.mp member with old | now
          · exact earlier other old
          · rw [List.mem_singleton.mp now]
            exact .inl ⟨body, rfl⟩
    | carryUp | carryDown | serve | ends | hangUp =>
        refine ⟨actions, first, ?_, ?_, earlier⟩
        · rw [drawn]
          exact (congrArg draws (List.append_nil _)).symm
        · rw [begun]
          exact (congrArg starts (List.append_nil _)).symm

/-- What holds of the client in every state that a link comes to. -/
structure Sound (s : Client.State) : Prop where
  consistent : Consistent s
  distinct : Distinct s
  short : ShortRequests s
  kept : SendersKept s
  phased : Phased s

theorem sound {handler : Server.Handler σ ε} {limits : Limits} {start : σ} {events : List Event}
    {s : State σ} (within : Within handler limits start events)
    (run : Run.exec (step handler) (State.new limits start) events = some s) : Sound s.client := by
  obtain ⟨actions, client, drawn, _, known⟩ := client_run run within.replies
  have started {c : CallId} {job : Job} (member : .start c job ∈ actions) :
      .client (.start c job) ∈ events := by
    rcases known _ member with ⟨bytes, same⟩ | there
    · cases same
    · exact there
  have few : draws actions < 2 ^ 32 := drawn ▸ within.ids
  have once (c d : CallId) (one : .start c .init ∈ actions) (other : .start d .init ∈ actions) :
      c = d := within.init c d (started one) (started other)
  refine ⟨Consistent.of_exec client, Distinct.of_exec client few once, fun c call key present => ?_,
    SendersKept.of_exec client few once, Phased.of_exec client⟩
  exact within.requests c call.job key (started (call_started client c call present))

/-! ## The object -/

namespace Belt

/-- What is left on the wire of the reply to a call. -/
def answer? (b : Belt) (c : CallId) : Option Packet :=
  (b.served.find? fun e => e.post.call == c).map fun e => e.reply.normalise

variable {b b' : Belt}

theorem answer?_none {c : CallId} (unserved : ∀ e ∈ b.served, e.post.call ≠ c) :
    b.answer? c = none := by
  rw [answer?, Option.map_eq_none_iff, List.find?_eq_none]
  intro e member same
  exact unserved e member (beq_iff_eq.mp same)

theorem answer?_snoc {e : Exchange} (served : b'.served = b.served ++ [e])
    (first : ∀ other ∈ b.served, other.post.call ≠ e.post.call) (c : CallId) :
    b'.answer? c = if c = e.post.call then some e.reply.normalise else b.answer? c := by
  rw [answer?, served, List.find?_append]
  by_cases same : c = e.post.call
  · have none := answer?_none first
    rw [answer?, Option.map_eq_none_iff] at none
    rw [if_pos same, same, none]
    simp
  · rw [if_neg same, answer?, List.find?_cons_of_neg (by simpa using Ne.symm same)]
    simp

theorem answer?_of_mem {e : Exchange} (once : (b.posts.map (·.call)).Nodup)
    (member : e ∈ b.served) : b.answer? e.post.call = some e.reply.normalise := by
  have calls : (b.served.map (·.post.call)).Nodup := by
    rw [posts, List.map_append, List.map_append, List.map_map] at once
    exact once.of_append_left.of_append_left
  cases found : b.served.find? fun other => other.post.call == e.post.call with
  | none => exact absurd (beq_self_eq_true _) (List.find?_eq_none.mp found e member)
  | some other =>
      have same : other.post.call = e.post.call := by simpa using List.find?_some found
      have eq := List.inj_on_of_nodup_map calls (List.mem_of_find?_eq_some found) member same
      rw [answer?, found, eq]
      rfl

end Belt

/-- The result of a call is its reply on the belt. -/
theorem Carries.answer?_eq {handler : Server.Handler σ ε} {b : Belt} {s : State σ}
    (carries : Carries handler b s) (consistent : Consistent s.client) {c : CallId} {call : Call}
    {packet : Packet} (present : s.client.calls c = some call)
    (result : call.phase = .complete (.ok packet) ∨ call.phase = .finished (.ok packet)) :
    b.answer? c = some packet := by
  obtain ⟨got, answered, ok⟩ := consistent.results c call (.ok packet) present
    (result.imp_right fun phase => ⟨packet, rfl, phase⟩)
  obtain ⟨e, found, own_call, value⟩ := carries.given.answered c call got present answered
  have listed : e ∈ b.served := by simp [Belt.served, List.mem_of_getElem? found]
  rw [← own_call, Belt.answer?_of_mem carries.posted.once listed, value packet ok]

/-- The object's calls are the client's, with the answers on the belt. -/
structure Matched (b : Belt) (s : State σ) (o : AtomicObject.State CallId Key Job Packet σ) :
    Prop where
  object : o.object = s.server
  served : o.served = b.served.map Exchange.post
  calls : ∀ c, o.calls c = (progress s.client c).map fun call => ⟨call.1, b.answer? c, !call.2⟩

namespace Matched

variable {b b' : Belt} {s s' : State σ} {o o' : AtomicObject.State CallId Key Job Packet σ}

theorem new (limits : Limits) (start : σ) :
    Matched ⟨[], [], [], [], []⟩ (State.new limits start) (AtomicObject.State.new start) :=
  ⟨rfl, rfl, fun _ => rfl⟩

theorem present (matched : Matched b s o) {c : CallId} {call : Call}
    (present : s.client.calls c = some call) :
    o.calls c = some ⟨call.job, b.answer? c, !call.phase.inFlight⟩ := by
  rw [matched.calls, progress, present]
  rfl

theorem still (matched : Matched b s o) (served : b'.served = b.served)
    (server : s'.server = s.server) (same : progress s'.client = progress s.client) :
    Matched b' s' o where
  object := matched.object.trans server.symm
  served := by rw [matched.served, served]
  calls c := by rw [matched.calls, same, Belt.answer?, Belt.answer?, served]

theorem update (matched : Matched b s o) (served : b'.served = b.served)
    (server : s'.server = s.server) {c : CallId} {job : Job} {flying : Bool}
    (after : progress s'.client = Function.update (progress s.client) c (some (job, flying))) :
    Matched b' s' (o.setCall c ⟨job, b.answer? c, !flying⟩) where
  object := matched.object.trans server.symm
  served := by rw [served]; exact matched.served
  calls d := by
    have same : b'.answer? d = b.answer? d := by rw [Belt.answer?, Belt.answer?, served]
    rw [after, AtomicObject.State.setCall_calls, Function.update_apply, same]
    split
    · rename_i own
      rw [own]
      rfl
    · exact matched.calls d

end Matched

/-- Each step of a link is one of the object, or none. -/
theorem follows {handler : Server.Handler σ ε} {b b' : Belt} {s s' : State σ} {event : Event}
    {o : AtomicObject.State CallId Key Job Packet σ} (carries : Carries handler b s)
    (consistent : Consistent s.client) (taken : Stepped handler s event s')
    (advances : Advances handler b b' s event s') (matched : Matched b s o) :
    ∃ actions o', Run.exec (AtomicObject.step (answer handler)) o actions = some o' ∧
      Matched b' s' o' ∧
      Run.trace (AtomicObject.step (answer handler)) (fun _ a _ => a.label) o actions =
        (label s event s').toList := by
  have one {action : AtomicObject.Action CallId Key Job Packet}
      {o' : AtomicObject.State CallId Key Job Packet σ}
      (moved : AtomicObject.step (answer handler) o action = some o')
      (matched' : Matched b' s' o') (seen : action.label = label s event s') :
      ∃ actions o', Run.exec (AtomicObject.step (answer handler)) o actions = some o' ∧
        Matched b' s' o' ∧
        Run.trace (AtomicObject.step (answer handler)) (fun _ a _ => a.label) o actions =
          (label s event s').toList :=
    ⟨[action], o', by rw [Run.exec, moved]; rfl, matched', by rw [Run.trace_single moved, seen]⟩
  cases advances with
  | @serves post event_eq client first _ served server =>
      subst event_eq
      have member : post ∈ b.posts := by simp [Belt.posts, first]
      obtain ⟨call, present, _, job, _⟩ := carries.posted.known post member
      have unserved : ∀ e ∈ b.served, e.post.call ≠ post.call := by
        have once := carries.posted.once
        rw [Belt.posts, List.map_append, List.map_append, List.map_map] at once
        intro e listed same
        exact List.disjoint_of_nodup_append once.of_append_left
          (List.mem_map.mpr ⟨e, listed, same⟩) (List.mem_map.mpr ⟨post, first, rfl⟩)
      have at_post := matched.present present
      rw [Belt.answer?_none unserved, job] at at_post
      have moved : AtomicObject.step (answer handler) o (.serve post) =
          some { o.setCall post.call ⟨post.request,
              some (answer handler post.tag post.request s.server).1, !call.phase.inFlight⟩ with
            object := (answer handler post.tag post.request s.server).2
            served := o.served ++ [post] } := by
        simp only [AtomicObject.step, at_post, and_self, if_true, matched.object]
      have order : o.served ++ [post] = b'.served.map Exchange.post := by
        rw [served, matched.served, List.map_append]
        rfl
      refine one moved ⟨server.symm, order, fun d => ?_⟩ rfl
      rw [client, Belt.answer?_snoc served unserved]
      show (o.setCall post.call _).calls d = _
      rw [AtomicObject.State.setCall_calls]
      split
      · rename_i own
        rw [own, progress, present, ← job]
        rfl
      · exact matched.calls d
  | still served server =>
      have silent (same : progress s'.client = progress s.client) (seen : label s event s' = none) :
          ∃ actions o', Run.exec (AtomicObject.step (answer handler)) o actions = some o' ∧
            Matched b' s' o' ∧
            Run.trace (AtomicObject.step (answer handler)) (fun _ a _ => a.label) o actions =
              (label s event s').toList :=
        ⟨[], o, rfl, matched.still served server same, by rw [seen]; rfl⟩
      cases taken with
      | @client action client moved own ended =>
          have seen := shows moved
          generalize shows_eq : shown action client = what at seen
          cases seen with
          | silent after => exact silent after shows_eq
          | @invoke c job fresh after =>
              have absent : o.calls c = none := by
                rw [matched.calls, progress, fresh]
                rfl
              have invoked : AtomicObject.step (answer handler) o (.invoke c job) =
                  some (o.setCall c ⟨job, none, false⟩) := by
                simp only [AtomicObject.step, absent]
              have unserved : b.answer? c = none := by
                refine Belt.answer?_none fun e listed same => ?_
                obtain ⟨call, present, _⟩ := carries.posted.known e.post
                  (by simp only [Belt.posts, List.mem_append, List.mem_map]
                      exact .inl (.inl ⟨e, listed, rfl⟩))
                rw [same, fresh] at present
                cases present
              have matched' := matched.update served server after
              rw [unserved] at matched'
              exact one invoked matched' shows_eq.symm
          | @returns c call packet present phase after =>
              have reply := carries.answer?_eq consistent present (.inl phase)
              have at_c := matched.present present
              rw [phase, reply] at at_c
              have returned : AtomicObject.step (answer handler) o (.returns c packet) =
                  some (o.setCall c ⟨call.job, some packet, true⟩) := by
                simp only [AtomicObject.step, at_c]
                rfl
              have matched' := matched.update served server after
              rw [reply] at matched'
              exact one returned matched' shows_eq.symm
          | @fails c call present flying after =>
              have at_c := matched.present present
              rw [flying] at at_c
              have failed : AtomicObject.step (answer handler) o (.fails c) =
                  some (o.setCall c ⟨call.job, b.answer? c, true⟩) := by
                simp only [AtomicObject.step, at_c]
                rfl
              exact one failed (matched.update served server after) shows_eq.symm
      | _ => exact silent rfl rfl

/-- A run of the handler's object. -/
abbrev Served (handler : Server.Handler σ ε) (start : σ)
    (actions : List (AtomicObject.Action CallId Key Job Packet))
    (o : AtomicObject.State CallId Key Job Packet σ) : Prop :=
  Run.exec (AtomicObject.step (answer handler)) (AtomicObject.State.new start) actions = some o

/-- Each reply on the belt was made by a step of the run: the request was the next to be read, and
the handler was called in the state that the run had come to. -/
def Made (handler : Server.Handler σ ε) (limits : Limits) (start : σ) (events : List Event)
    (b : Belt) : Prop :=
  ∀ e ∈ b.served, ∃ earlier later t, events = earlier ++ .serve :: later ∧
    Run.exec (step handler) (State.new limits start) earlier = some t ∧
    (∃ rest, t.up.arrived = frame 4 (requestBody e.post) ++ rest) ∧
    e.reply = (Server.processRequest handler (e.post.request.packet e.post.tag).normalise
      t.server).1

theorem Made.step {handler : Server.Handler σ ε} {limits : Limits} {start : σ}
    {events : List Event} {event : Event} {b b' : Belt} {s s' : State σ}
    (made : Made handler limits start events b)
    (run : Run.exec (Link.step handler) (State.new limits start) events = some s)
    (advances : Advances handler b b' s event s') :
    Made handler limits start (events ++ [event]) b' := by
  have old (e : Exchange) (member : e ∈ b.served) : ∃ earlier later t,
      events ++ [event] = earlier ++ .serve :: later ∧
      Run.exec (Link.step handler) (State.new limits start) earlier = some t ∧
      (∃ rest, t.up.arrived = frame 4 (requestBody e.post) ++ rest) ∧
      e.reply = (Server.processRequest handler (e.post.request.packet e.post.tag).normalise
        t.server).1 := by
    obtain ⟨earlier, later, t, rfl, rest⟩ := made e member
    exact ⟨earlier, later ++ [event], t, by simp, rest⟩
  intro e member
  cases advances with
  | still served => exact old e (served ▸ member)
  | serves event_eq _ _ arrived served _ =>
      rw [served] at member
      rcases List.mem_append.mp member with earlier | now
      · exact old e earlier
      · rw [List.mem_singleton.mp now, event_eq]
        exact ⟨events, [], s, rfl, run, arrived, rfl⟩

/-- The object of a run, with the run's belt. -/
theorem exists_object {handler : Server.Handler σ ε} (addresses : handler.Addresses)
    {limits : Limits} {start : σ} {events : List Event} {s : State σ}
    (within : Within handler limits start events)
    (run : Run.exec (step handler) (State.new limits start) events = some s) :
    ∃ actions o b, Served handler start actions o ∧ Carries handler b s ∧ Matched b s o ∧
      Filed events b ∧ Made handler limits start events b ∧
      actions.filterMap AtomicObject.Action.label =
        Run.trace (step handler) label (State.new limits start) events := by
  have simulated : ∃ actions o, Served handler start actions o ∧
      (∃ b, Carries handler b s ∧ Matched b s o ∧ Filed events b ∧
        Made handler limits start events b) ∧
      Run.trace (AtomicObject.step (answer handler)) (fun _ a _ => a.label)
        (AtomicObject.State.new start) actions =
          Run.trace (step handler) label (State.new limits start) events := by
    refine Run.refines
      (R := fun events s o => ∃ b, Carries handler b s ∧ Matched b s o ∧ Filed events b ∧
        Made handler limits start events b)
      ⟨_, .new handler limits start, .new limits start, .new, fun _ member => by cases member⟩
      events ?_ s run
    rintro before event after t t' o shape first ⟨b, carries, matched, filed, made⟩ taken
    subst shape
    obtain ⟨consistent, distinct, short, _⟩ := sound within.front first
    have moved := stepped (within.replies before event after t rfl first) taken
    obtain ⟨b', carries', advances, takes⟩ :=
      carries.step addresses consistent distinct short moved
    obtain ⟨actions, o', run', matched', seen⟩ :=
      follows carries consistent moved advances matched
    have opened (keeps : ∀ event ∈ before, event.Keeps) : Open t :=
      open_of_run within.front.replies keeps first
    exact ⟨actions, o', run', ⟨b', carries', matched', filed.step opened takes,
      made.step first advances⟩, seen⟩
  obtain ⟨actions, o, run', ⟨b, carries, matched, filed, made⟩, same⟩ := simulated
  exact ⟨actions, o, b, run', carries, matched, filed, made,
    by rw [← same, Run.trace_eq_filterMap run']⟩

/-! ## Two calls at the same time -/

/-- A handler that gives a file the size of the number of `stat`s so far. -/
def ticking : Server.Handler UInt64 Unit where
  into _ := .opUnsupported
  unimplemented _ := ()
  stat id _ n := (.ok ⟨id, { FileAttributes.empty with size := some n }⟩, n + 1)

theorem ticking_addresses : ticking.Addresses := by
  intro r id n reply n' called
  cases r <;> cases called
  rfl

theorem ticking_short (bytes : Bytes) (n : UInt64) : (Server.respond ticking bytes n).1.Short := by
  have error (id : UInt32) (code : StatusCode) : (Packet.error id code).Short :=
    .of_wire (error_small id code)
  rw [Server.respond]
  cases Packet.tryFrom.run bytes with
  | error err => exact error 0 .badMessage
  | ok got =>
      obtain ⟨request, rest⟩ := got
      show (Server.processRequest ticking request n).1.Short
      cases request with
      | init p => exact .of_wire (show (Packet.version Version.new).wire.length < _ by decide)
      | stat p =>
          refine .of_wire ?_
          show (putU32 p.id ++ (putU32 1 ++ putU64 n)).length < _
          simp [putU32_length, putU64_length]
      | _ => exact error _ _

def clients (actions : List Client.Action) : List Event := actions.map .client

/-- A session's call of `init`, with its way to the server and back. -/
def initLinked : List Event :=
  clients [.start 0 .init, .isClosed 0, .insert 0, .enqueue 0, .write] ++
    ([.carryUp 3, .carryUp 6, .serve, .carryDown 9, .arrive] : List Event) ++
    clients (handleReply 0 none 0)

/-- The requests of two calls reach the server, and their replies come back. -/
def bothServed : List Event :=
  [.carryUp 20, .serve, .carryUp 8, .serve, .carryDown 60, .arrive, .arrive]

/-- Two calls of `stat`: the first to be called is the second to queue its request. -/
def ticks : List Event :=
  initLinked ++
    clients [.start 1 (.request (.stat "a")), .checkLimit 1, .useNextId 1, .isClosed 1] ++
    clients (sendActions 2 (.stat "a")) ++ clients [.insert 1, .enqueue 1, .write] ++ bothServed ++
    clients (handleReply 2 (some 2) 1) ++ clients (handleReply 1 (some 1) 2)

/-- The only calls that an event starts are the first `init` and `stat`s of "a". -/
def small : Event → Bool
  | .client (.start c .init) => c == 0
  | .client (.start _ (.request (.stat path))) => path == "a"
  | .client (.start ..) => false
  | _ => true

theorem small_start {events : List Event} (all : ∀ event ∈ events, small event = true)
    {c : CallId} {job : Job} (member : .client (.start c job) ∈ events) :
    c = 0 ∧ job = .init ∨ job = .request (.stat "a") := by
  have fits := all _ member
  cases job with
  | init => exact .inl ⟨by simpa [small] using fits, rfl⟩
  | request r =>
      cases r with
      | stat path => exact .inr (by rw [show path = "a" by simpa [small] using fits])
      | _ => cases fits

theorem small_init {events : List Event} (all : ∀ event ∈ events, small event = true) (c d : CallId)
    (one : .client (.start c .init) ∈ events) (other : .client (.start d .init) ∈ events) :
    c = d := by
  rcases small_start all one with ⟨rfl, _⟩ | job
  · rcases small_start all other with ⟨rfl, _⟩ | job
    · rfl
    · cases job
  · cases job

theorem small_requests {events : List Event} (all : ∀ event ∈ events, small event = true)
    (c : CallId) (job : Job) (key : Key) (member : .client (.start c job) ∈ events) :
    (job.packet key).Short := by
  refine .of_wire ?_
  rcases small_start all member with ⟨_, rfl⟩ | rfl
  · show (Packet.init Init.new).wire.length < _
    decide
  · show (putU32 (key.getD 0) ++ strWire "a").length < _
    rw [List.length_append, putU32_length]
    decide +kernel

theorem within_small {events : List Event} (all : ∀ event ∈ events, small event = true)
    (few : draws (events.filterMap Event.action?) < 2 ^ 32) :
    Within ticking Limits.default 0 events where
  init := small_init all
  ids := few
  requests := small_requests all
  replies _ _ _ _ _ _ _ _ _ _ := ticking_short _ _

theorem ticks_small : ∀ event ∈ ticks, small event = true := by decide

theorem exists_ticks :
    ∃ s, Run.exec (step ticking) (State.new Limits.default 0) ticks = some s :=
  Option.isSome_iff_exists.mp (by decide +kernel)

/-! ## What the callers see -/

/-- Whatever the order of the steps, the callers of a link see what they could see of one object
that serves requests one at a time. -/
theorem link_refines_object (handler : Server.Handler σ ε) (addresses : handler.Addresses)
    (limits : Limits) (start : σ) (events : List Event) (s : State σ)
    (within : Within handler limits start events)
    (run : Run.exec (step handler) (State.new limits start) events = some s) :
    ∃ actions o, Served handler start actions o ∧ o.object = s.server ∧
      (∀ c, (o.calls c).map (fun entry => (entry.request, !entry.ended)) = progress s.client c) ∧
      actions.filterMap AtomicObject.Action.label =
        Run.trace (step handler) label (State.new limits start) events := by
  obtain ⟨actions, o, b, run', _, matched, _, _, same⟩ := exists_object addresses within run
  refine ⟨actions, o, run', matched.object, fun c => ?_, same⟩
  rw [matched.calls, Option.map_map]
  cases progress s.client c with
  | none => rfl
  | some call => simp

theorem link_refines_object_ticks :
    ∃ s actions o, Run.exec (step ticking) (State.new Limits.default 0) ticks = some s ∧
      Served ticking 0 actions o ∧ o.object = s.server := by
  obtain ⟨s, run⟩ := exists_ticks
  obtain ⟨actions, o, served, object, _⟩ := link_refines_object ticking ticking_addresses
    Limits.default 0 ticks s (within_small ticks_small (by decide)) run
  exact ⟨s, actions, o, run, served, object⟩

/-- There is an order in which the server has served the requests of a link, each at most once and
after its call began, that explains all that the callers have seen: a call that has returned
before another began is served before it, and what a call returns is what the handler answers to
its request after the requests served so far. -/
theorem link_linearizable (handler : Server.Handler σ ε) (addresses : handler.Addresses)
    (limits : Limits) (start : σ) (events : List Event) (s : State σ)
    (within : Within handler limits start events)
    (run : Run.exec (step handler) (State.new limits start) events = some s) :
    ∃ order : List Post,
      AtomicObject.Explains (answer handler) start
        (Run.trace (step handler) label (State.new limits start) events) order ∧
      s.server = AtomicObject.after (answer handler) start order ∧
      ∀ c call r packet, s.client.calls c = some call → call.job = .request r →
        call.phase = .finished (.ok packet) → ∃ id front back,
          call.key = some (some id) ∧ order = front ++ ⟨c, some id, .request r⟩ :: back ∧
          packet = (Server.intoWrap id handler r.normalise.toPacket (r.normalise.method handler id
            (AtomicObject.after (answer handler) start front))).1.normalise := by
  obtain ⟨actions, o, b, run', carries, matched, _, _, same⟩ := exists_object addresses within run
  have consistent := (sound within run).consistent
  have log := AtomicObject.log_of_exec run'
  refine ⟨o.served, same ▸ AtomicObject.explains run', matched.object ▸ log.object, ?_⟩
  intro c call r packet present job phase
  have at_c := matched.present present
  rw [carries.answer?_eq consistent present (.inr phase)] at at_c
  obtain ⟨front, service, back, order, own, value⟩ := log.answered c _ packet at_c rfl
  have listed : service ∈ b.posts := by
    have member : service ∈ o.served := by simp [order]
    rw [matched.served] at member
    simp only [Belt.posts, List.mem_append]
    exact .inl (.inl member)
  obtain ⟨other, at_service, key, job', _⟩ := carries.posted.known service listed
  rw [own, present] at at_service
  cases at_service
  have initKey := consistent.initKey c call present
  rw [job, key] at initKey
  obtain ⟨call', tag, request⟩ := service
  subst own
  rw [job] at job'
  cases job'
  cases tag with
  | none => cases initKey.mp rfl
  | some id =>
      refine ⟨id, front, back, key, order, ?_⟩
      rw [← processRequest_request]
      exact value

theorem link_linearizable_ticks :
    ∃ s order, Run.exec (step ticking) (State.new Limits.default 0) ticks = some s ∧
      AtomicObject.Explains (answer ticking) 0
        (Run.trace (step ticking) label (State.new Limits.default 0) ticks) order ∧
      s.server = AtomicObject.after (answer ticking) 0 order := by
  obtain ⟨s, run⟩ := exists_ticks
  obtain ⟨order, explains, server, _⟩ := link_linearizable ticking ticking_addresses
    Limits.default 0 ticks s (within_small ticks_small (by decide)) run
  exact ⟨s, order, run, explains, server⟩

end RusshSftp.Link
