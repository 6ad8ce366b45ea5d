import RusshSftp.Client.HandleLimit
import RusshSftp.Client.Senders
import RusshSftp.Link.Model

/-!
# Where each request of a link is

A request goes from the write queue into the stream and to the server, and its reply comes back
through the stream and the inbox to the reader.  `Belt` is the list of the requests that were
queued, in their order, cut where they are; a step of the link moves one of them across a cut.
-/

set_option autoImplicit false

namespace RusshSftp.Link

open Framing Client

/-- A request and the handler's reply. -/
structure Exchange where
  post : Post
  reply : Packet

structure Belt where
  /-- The reader has taken the reply from the inbox. -/
  taken : List Exchange
  inbox : List Exchange
  down : List Exchange
  up : List Post
  queue : List Post

namespace Belt

/-- The requests that the server has answered, in this order. -/
def served (b : Belt) : List Exchange := b.taken ++ b.inbox ++ b.down

def posts (b : Belt) : List Post := b.served.map Exchange.post ++ b.up ++ b.queue

end Belt

def requestBody (post : Post) : Bytes := (post.request.packet post.tag).body

def Exchange.body (e : Exchange) : Bytes := e.reply.body

variable {σ ε : Type}

/-- The bytes of a link are those of the belt. -/
structure Wired (b : Belt) (s : State σ) : Prop where
  queue : s.client.queue.filter (fun data => !data.isEmpty) =
    b.queue.map fun post => frame 4 (requestBody post)
  written : s.client.written =
    (b.served.map Exchange.post ++ b.up).map fun post => frame 4 (requestBody post)
  up : s.up.Holds 4 (b.up.map requestBody)
  down : s.down.Holds 4 (b.down.map Exchange.body)
  inbox : s.client.inbox = b.inbox.map Exchange.body
  frames : s.client.frames = b.taken.length

/-- The calls that have queued their requests. -/
structure Posted (posts : List Post) (s : Client.State) : Prop where
  once : (posts.map (·.call)).Nodup
  known : ∀ post ∈ posts, ∃ call, s.calls post.call = some call ∧ call.key = some post.tag ∧
    call.job = post.request ∧ 5 ≤ call.phase.rank
  waiting : ∀ c call, s.calls c = some call → call.phase = .recv → ∃ post ∈ posts, post.call = c

/-- What has become of the replies that were taken. -/
structure Given (taken : List Exchange) (s : Client.State) : Prop where
  replying : ∀ frame key packet, s.reader = .replying frame key packet → ∃ e,
    taken[frame]? = some e ∧ e.reply.replyKey? = some key ∧ packet = e.reply.normalise
  sending : ∀ frame key packet c, s.reader = .sending frame key packet c → ∃ e,
    taken[frame]? = some e ∧ e.reply.replyKey? = some key ∧ packet = e.reply.normalise ∧
      e.post.call = c
  answered : ∀ c call answer, s.calls c = some call → call.answer = some answer → ∃ e,
    taken[answer.frame]? = some e ∧ e.post.call = c ∧
      ∀ packet, answer.result = .ok packet → packet = e.reply.normalise
  looked : ∀ frame e, taken[frame]? = some e → e.reply.replyKey? = some e.post.tag →
    (∀ packet, s.reader ≠ .replying frame e.post.tag packet) →
    s.requests e.post.tag ≠ some e.post.call

/-- What the server sends for a request: it has the request's key, or it is the error that
refuses an `init`. -/
structure Exchange.Served (handler : Server.Handler σ ε) (e : Exchange) : Prop where
  reply : ∃ server, e.reply =
    (Server.processRequest handler (e.post.request.packet e.post.tag).normalise server).1
  key : e.reply.replyKey? = some e.post.tag ∨
    e.post.request = .init ∧ e.reply.replyKey? = some (some 0)
  fits : e.reply.wire.length < 2 ^ 32

theorem Exchange.Served.replyKey {handler : Server.Handler σ ε} {e : Exchange}
    (served : e.Served handler) : ∃ key, e.reply.replyKey? = some key := by
  rcases served.key with own | ⟨_, zero⟩
  · exact ⟨_, own⟩
  · exact ⟨_, zero⟩

structure Carries (handler : Server.Handler σ ε) (b : Belt) (s : State σ) : Prop where
  wired : Wired b s
  posted : Posted b.posts s.client
  given : Given b.taken s.client
  served : ∀ e ∈ b.served, e.Served handler

/-! ## The calls -/

namespace Posted

variable {posts : List Post} {s s' : Client.State} {action : Client.Action}

theorem new (limits : Limits) : Posted [] (Client.State.new limits) where
  once := List.nodup_nil
  known _ member := by cases member
  waiting _ _ present := by cases present

/-- A request that was queued stays the one of its call. -/
theorem known_after (posted : Posted posts s) (taken : Client.step s action = some s') :
    ∀ post ∈ posts, ∃ call, s'.calls post.call = some call ∧ call.key = some post.tag ∧
      call.job = post.request ∧ 5 ≤ call.phase.rank := by
  intro post member
  obtain ⟨call, present, key, job, late⟩ := posted.known post member
  obtain ⟨call', after, further⟩ := rank_after taken present
  exact ⟨call', after, (late_key taken present after (by omega)).trans key,
    (job_kept taken present after).trans job, late.trans further⟩

theorem step (posted : Posted posts s) (taken : Client.step s action = some s')
    (none : ∀ c call, action = .enqueue c → s'.calls c = some call → call.phase ≠ .recv) :
    Posted posts s' where
  once := posted.once
  known := posted.known_after taken
  waiting := by
    intro c call' after waiting
    rcases recv_before taken after waiting with ⟨call, present, phase, _⟩ | ⟨call, queues, _⟩
    · exact posted.waiting c call present phase
    · exact absurd waiting (none c call' queues after)

theorem enqueue (posted : Posted posts s) {c : CallId} {call : Call} {key : Key}
    (present : s.calls c = some call) (phase : call.phase = .enqueue)
    (keyed : call.key = some key) (taken : Client.step s (.enqueue c) = some s')
    (after : s'.calls c = some { call with phase := .recv }) :
    Posted (posts ++ [⟨c, key, call.job⟩]) s' where
  once := by
    rw [List.map_append]
    refine List.nodup_append.mpr ⟨posted.once, List.nodup_singleton _, ?_⟩
    rintro d member _ single rfl
    obtain ⟨post, listed, rfl⟩ := List.mem_map.mp member
    obtain ⟨other, at_d, _, _, late⟩ := posted.known post listed
    rw [List.mem_singleton.mp single, present] at at_d
    cases at_d
    rw [phase] at late
    simp [Phase.rank] at late
  known := by
    intro post member
    rcases List.mem_append.mp member with earlier | now
    · exact posted.known_after taken post earlier
    · rw [List.mem_singleton.mp now]
      exact ⟨_, after, keyed, rfl, le_rfl⟩
  waiting := by
    intro d other at_d waiting
    rcases recv_before taken at_d waiting with ⟨old, was, phase', _⟩ | ⟨old, queues, _⟩
    · obtain ⟨post, listed, same⟩ := posted.waiting d old was phase'
      exact ⟨post, List.mem_append_left _ listed, same⟩
    · cases queues
      exact ⟨_, List.mem_append_right _ (List.mem_singleton_self _), rfl⟩

end Posted

/-! ## The reader -/

namespace Given

variable {taken : List Exchange} {s s' : Client.State} {action : Client.Action}

theorem new (limits : Limits) : Given [] (Client.State.new limits) where
  replying _ _ _ busy := by cases busy
  sending _ _ _ _ busy := by cases busy
  answered _ _ _ present := by cases present
  looked frame _ found := by simp at found

/-- A reply of the belt goes to the call that has asked for it. -/
theorem call_eq {posts : List Post} {handler : Server.Handler σ ε} {e : Exchange} {key : Key}
    {c : CallId} {call : Call} (posted : Posted posts s) (distinct : Distinct s)
    (listed : e.post ∈ posts) (served : e.Served handler) (replyKey : e.reply.replyKey? = some key)
    (present : s.calls c = some call) (keyed : call.key = some key) :
    e.post.tag = key ∧ e.post.call = c := by
  obtain ⟨other, at_post, tag, _, _⟩ := posted.known e.post listed
  rcases served.key with own | ⟨_, zero⟩
  · rw [own] at replyKey
    cases replyKey
    exact ⟨rfl, distinct.keys _ _ _ _ _ at_post present tag keyed⟩
  · rw [zero] at replyKey
    cases replyKey
    exact absurd keyed (distinct.nonzero c call present)

/-- An answer was taken from the inbox for its call. -/
theorem answered_after (given : Given taken s) (moved : Client.step s action = some s') :
    ∀ c call answer, s'.calls c = some call → call.answer = some answer → ∃ e,
      taken[answer.frame]? = some e ∧ e.post.call = c ∧
        ∀ packet, answer.result = .ok packet → packet = e.reply.normalise := by
  intro c call' answer after answered
  cases evolves moved after with
  | same present => exact given.answered c call' answer present answered
  | @started job _ _ call_eq =>
      rw [call_eq] at answered
      cases answered
  | keyed _ present _ call_eq | moved _ present _ call_eq =>
      rw [call_eq] at answered
      exact given.answered c _ answer present answered
  | answered _ busy _ _ _ _ call_eq =>
      rw [call_eq] at answered
      cases answered
      obtain ⟨e, found, _, packet_eq, same⟩ := given.sending _ _ _ _ busy
      refine ⟨e, found, same, ?_⟩
      intro p result
      cases valid : validate s.version _ with
      | error err => rw [valid] at result; cases result
      | ok got =>
          rw [valid] at result
          cases result
          exact packet_eq

/-- A call whose reply has been looked up has no entry in the map. -/
theorem looked_after {posts : List Post} (given : Given taken s) (posted : Posted posts s)
    (listed : ∀ e ∈ taken, e.post ∈ posts) (moved : Client.step s action = some s')
    (other : action ≠ .read) :
    ∀ frame e, taken[frame]? = some e → e.reply.replyKey? = some e.post.tag →
      (∀ packet, s'.reader ≠ .replying frame e.post.tag packet) →
      s'.requests e.post.tag ≠ some e.post.call := by
  intro frame e found replyKey free
  -- the reader was with another reply, or it has not moved
  have kept (busy : ∀ packet, s.reader ≠ .replying frame e.post.tag packet) :
      s.requests e.post.tag ≠ some e.post.call := given.looked frame e found replyKey busy
  cases Client.stepped moved with
  | @insert d old key present phase keyed =>
      rw [State.setCall_requests, State.setRequest_requests]
      split
      · rintro ⟨⟩
        obtain ⟨call, at_post, _, _, late⟩ := posted.known e.post
          (listed e (List.mem_of_getElem? found))
        rw [present] at at_post
        cases at_post
        rw [phase] at late
        simp [Phase.rank] at late
      · exact kept free
  | cleanup present phase keyed =>
      rw [State.setCall_requests, State.setRequest_requests]
      split
      · exact fun same => by cases same
      · exact kept free
  | @found frame' key packet c busy entry =>
      show (s.setRequest key none).requests e.post.tag ≠ some e.post.call
      rw [State.setRequest_requests]
      split
      · exact fun same => by cases same
      · rename_i apart
        refine kept fun packet' same => ?_
        rw [busy] at same
        cases same
        exact apart rfl
  | @unknown frame' key packet busy entry =>
      show s.requests e.post.tag ≠ some e.post.call
      by_cases same : e.post.tag = key
      · rw [same, entry]
        exact fun absent => by cases absent
      · refine kept fun packet' reading => ?_
        rw [busy] at reading
        cases reading
        exact same rfl
  | delivered busy | refused busy =>
      exact kept fun packet' reading => by rw [busy] at reading; cases reading
  | eof idle | readCancelled idle =>
      exact kept fun packet' reading => by rw [idle] at reading; cases reading
  | readReply | readOther => exact absurd rfl other
  | _ => exact kept free

theorem step {posts : List Post} {handler : Server.Handler σ ε} (given : Given taken s)
    (inv : Consistent s) (distinct : Distinct s) (posted : Posted posts s)
    (listed : ∀ e ∈ taken, e.post ∈ posts ∧ e.Served handler)
    (moved : Client.step s action = some s') (other : action ≠ .read) : Given taken s' where
  replying := by
    intro frame key packet busy
    cases Client.stepped moved with
    | readReply | readOther => exact absurd rfl other
    | found | unknown | delivered | refused | eof | readCancelled => cases busy
    | _ => exact given.replying frame key packet busy
  sending := by
    intro frame key packet c busy
    cases Client.stepped moved with
    | found reading entry =>
        cases busy
        obtain ⟨e, found, replyKey, same⟩ := given.replying _ _ _ reading
        obtain ⟨inPosts, served⟩ := listed e (List.mem_of_getElem? found)
        obtain ⟨call, present, registered⟩ := inv.entry key c entry
        exact ⟨e, found, replyKey, same,
          (call_eq posted distinct inPosts served replyKey present registered.key).2⟩
    | readReply | readOther => exact absurd rfl other
    | unknown | delivered | refused | eof | readCancelled => cases busy
    | _ => exact given.sending frame key packet c busy
  answered := given.answered_after moved
  looked := given.looked_after posted (fun e member => (listed e member).1) moved other

/-- The reader takes the next reply. -/
theorem read {e : Exchange} {inbox : List Bytes} {key : Key} (given : Given taken s)
    (frames : s.frames = taken.length) (idle : s.reader = .idle)
    (replyKey : e.reply.replyKey? = some key) :
    Given (taken ++ [e]) { s with
      inbox, frames := s.frames + 1, reader := .replying s.frames key e.reply.normalise } where
  replying := by
    rintro _ _ _ ⟨⟩
    exact ⟨e, by rw [frames, List.getElem?_concat_length], replyKey, rfl⟩
  sending := by rintro _ _ _ _ ⟨⟩
  answered := by
    intro c call answer present answered
    obtain ⟨other, found, same⟩ := given.answered c call answer present answered
    refine ⟨other, ?_, same⟩
    rwa [List.getElem?_append_left (List.getElem?_eq_some_iff.mp found).1]
  looked := by
    intro frame other found own free
    by_cases last : frame = taken.length
    · rw [last, List.getElem?_concat_length] at found
      cases found
      rw [own] at replyKey
      cases replyKey
      exact absurd (by rw [last, frames]) (free e.reply.normalise)
    · have earlier : taken[frame]? = some other := by
        have less := (List.getElem?_eq_some_iff.mp found).1
        rw [List.length_append, List.length_singleton] at less
        rwa [List.getElem?_append_left (by omega)] at found
      exact given.looked frame other earlier own fun packet busy => by
        rw [idle] at busy
        cases busy

end Given

/-! ## A step -/

theorem requestBody_frame {post : Post} (fits : (requestBody post).length < 2 ^ 32) :
    (post.request.packet post.tag).toBytes = .ok (frame 4 (requestBody post)) :=
  Server.toBytes_eq_frame _ fits

/-- The requests of the client's calls fit in a frame. -/
def ShortRequests (s : Client.State) : Prop :=
  ∀ c call key, s.calls c = some call → (call.job.packet key).Short

/-- The call whose request an event puts on the belt, if the queue still takes it. -/
def queued : Event → List CallId
  | .client (.enqueue c) => [c]
  | _ => []

/-- The belt takes the request that an event queues, and no other. -/
def Takes (b b' : Belt) (s : Client.State) (event : Event) : Prop :=
  ∃ more, b'.posts = b.posts ++ more ∧
    (more.map (·.call) = queued event ∨ more = [] ∧ s.isClosed = true)

theorem takes_none {b b' : Belt} {s : Client.State} {event : Event} (same : b'.posts = b.posts)
    (none : queued event = [] ∨ s.isClosed = true) : Takes b b' s event :=
  ⟨[], by rw [same, List.append_nil],
    none.imp (fun empty => empty.symm) fun closed => ⟨rfl, closed⟩⟩

theorem carries_client {handler : Server.Handler σ ε} {b : Belt} {s : State σ}
    {client : Client.State} {action : Client.Action} (carries : Carries handler b s)
    (inv : Consistent s.client) (distinct : Distinct s.client) (short : ShortRequests s.client)
    (taken : Client.step s.client action = some client)
    (own : ∀ bytes, action ≠ .arrive bytes) :
    ∃ b', Carries handler b' { s with client, up := toStream s.client action s.up } ∧
      b'.served = b.served ∧ Takes b b' s.client (.client action) := by
  have listed : ∀ e ∈ b.taken, e.post ∈ b.posts ∧ e.Served handler := by
    intro e member
    have inServed : e ∈ b.served := by simp [Belt.served, member]
    refine ⟨?_, carries.served e inServed⟩
    simp only [Belt.posts, List.mem_append, List.mem_map]
    exact .inl (.inl ⟨e, inServed, rfl⟩)
  have given (other : action ≠ .read) : Given b.taken client :=
    carries.given.step inv distinct carries.posted listed taken other
  have wired := carries.wired
  -- nothing crosses a cut
  have same (queue : client.queue.filter (fun data => !data.isEmpty) =
        s.client.queue.filter (fun data => !data.isEmpty))
      (written : client.written = s.client.written) (inbox : client.inbox = s.client.inbox)
      (frames : client.frames = s.client.frames)
      (up : (toStream s.client action s.up).Holds 4 (b.up.map requestBody))
      (other : action ≠ .read)
      (none : ∀ c call, action = .enqueue c → client.calls c = some call → call.phase ≠ .recv)
      (takes : queued (.client action) = [] ∨ s.client.isClosed = true) :
      ∃ b', Carries handler b' { s with client, up := toStream s.client action s.up } ∧
        b'.served = b.served ∧ Takes b b' s.client (.client action) :=
    ⟨b, ⟨⟨queue.trans wired.queue, written.trans wired.written, up, wired.down,
      inbox.trans wired.inbox, frames.trans wired.frames⟩, carries.posted.step taken none,
      given other, carries.served⟩, rfl, takes_none rfl takes⟩
  cases Client.stepped taken with
  | @enqueue c call key bytes present phase keyed encoded opened =>
      have small := (short c call key present).wire
      have length : (requestBody ⟨c, key, call.job⟩).length = _ := body_length _
      have fits : (requestBody ⟨c, key, call.job⟩).length < 2 ^ 32 := by
        rw [length]
        exact Nat.add_lt_of_lt_sub small
      have bytes_eq : bytes = frame 4 (requestBody ⟨c, key, call.job⟩) :=
        Except.ok.inj (encoded.symm.trans (requestBody_frame fits))
      refine ⟨{ b with queue := b.queue ++ [⟨c, key, call.job⟩] },
        ⟨⟨?_, wired.written, wired.up, wired.down, wired.inbox, wired.frames⟩, ?_,
          given (by simp), carries.served⟩, rfl, [⟨c, key, call.job⟩], ?_, .inl rfl⟩
      · show (s.client.queue ++ [bytes]).filter _ = _
        rw [List.filter_append, wired.queue, List.map_append, bytes_eq]
        simp [frame_ne_nil (by decide : 0 < 4)]
      · have posted := carries.posted.enqueue present phase keyed taken (State.setCall_same _ _ _)
        simpa only [Belt.posts, Belt.served, List.append_assoc] using posted
      · simp only [Belt.posts, Belt.served, List.append_assoc]
  | @write data queue running next nonempty =>
      have queued := wired.queue
      rw [next, List.filter_cons_of_pos (by simpa using nonempty)] at queued
      cases waits : b.queue with
      | nil => rw [waits] at queued; cases queued
      | cons post rest =>
          rw [waits, List.map_cons] at queued
          obtain ⟨sent, later⟩ := List.cons.inj queued
          have fits : (requestBody post).length < 2 ^ 32 := by
            have member : post ∈ b.posts := by simp [Belt.posts, waits]
            obtain ⟨call, present, key, job, _⟩ := carries.posted.known post member
            have small := (short _ call post.tag present).wire
            rw [job] at small
            rw [requestBody, body_length]
            exact Nat.add_lt_of_lt_sub small
          have up : toStream s.client .write s.up = s.up.send (frame 4 (requestBody post)) := by
            simp only [toStream, next, ← sent]
            rw [if_neg (by simpa using nonempty)]
          refine ⟨{ b with up := b.up ++ [post], queue := rest },
            ⟨⟨later, ?_, ?_, wired.down, wired.inbox, wired.frames⟩, ?_, given (by simp),
              carries.served⟩, rfl, takes_none ?_ (.inl rfl)⟩
          · show s.client.written ++ [data] = _
            rw [wired.written, sent]
            simp [Belt.served]
          · rw [up, List.map_append]
            exact wired.up.send fits (by decide)
          · have posted := carries.posted.step taken fun _ _ same => by cases same
            simpa only [Belt.posts, Belt.served, waits, List.append_assoc, List.singleton_append]
              using posted
          · simp only [Belt.posts, Belt.served, waits, List.append_assoc, List.singleton_append]
  | @shutdown data queue running next empty =>
      subst empty
      refine same ?_ rfl rfl rfl ?_ (by simp) (fun _ _ same => by cases same) (.inl rfl)
      · rw [next]
        rfl
      · have up : toStream s.client .write s.up = s.up.close := by
          simp only [toStream, next]
          rfl
        rw [up]
        exact wired.up.close
  | @readReply bytes inbox key packet idle next decoded =>
      have waits := wired.inbox
      rw [next] at waits
      obtain ⟨e, rest, inbox_eq, body, later⟩ := List.map_eq_cons_iff.mp waits.symm
      have served := carries.served e (by simp [Belt.served, inbox_eq])
      obtain ⟨key', replyKey⟩ := served.replyKey
      have got := decodeReply_body served.fits replyKey
      rw [← Exchange.body, body, decoded] at got
      cases got
      refine ⟨{ b with taken := b.taken ++ [e], inbox := rest },
        ⟨⟨wired.queue, ?_, wired.up, wired.down, later.symm, ?_⟩, ?_,
          carries.given.read wired.frames idle replyKey, ?_⟩, ?_, takes_none ?_ (.inl rfl)⟩
      · simpa [Belt.served, inbox_eq] using wired.written
      · rw [List.length_append, ← wired.frames]
        rfl
      · have posted := carries.posted.step taken fun _ _ same => by cases same
        simpa [Belt.posts, Belt.served, inbox_eq] using posted
      · intro other member
        refine carries.served other ?_
        simpa [Belt.served, inbox_eq] using member
      · simp [Belt.served, inbox_eq]
      · simp [Belt.posts, Belt.served, inbox_eq]
  | @readOther bytes inbox idle next decoded =>
      -- each reply of the handler is one that the reader knows
      have waits := wired.inbox
      rw [next] at waits
      obtain ⟨e, rest, inbox_eq, body, later⟩ := List.map_eq_cons_iff.mp waits.symm
      have served := carries.served e (by simp [Belt.served, inbox_eq])
      obtain ⟨key, replyKey⟩ := served.replyKey
      have got := decodeReply_body served.fits replyKey
      rw [← Exchange.body, body, decoded] at got
      cases got
  | closeSession opened =>
      refine same ?_ rfl rfl rfl wired.up (by simp) (fun _ _ same => by cases same) (.inl rfl)
      rw [List.filter_append]
      exact List.append_nil _
  | arrive => exact absurd rfl (own _)
  | notEncoded present phase keyed encoded =>
      rw [Packet.toBytes_eq] at encoded
      cases encoded
  | notSent present phase keyed encoded closed =>
      refine same rfl rfl rfl rfl wired.up (by simp) ?_ (.inr closed)
      rintro _ call ⟨⟩ present
      rw [State.setCall_same] at present
      cases present
      simp
  | _ =>
      exact same rfl rfl rfl rfl wired.up (by simp) (fun _ _ same => by cases same) (.inl rfl)

/-- What the server has done by a step: nothing, or it has answered the request that came first. -/
inductive Advances (handler : Server.Handler σ ε) (b b' : Belt) (s : State σ) (event : Event)
    (s' : State σ) : Prop
  | still (served : b'.served = b.served) (server : s'.server = s.server)
  | serves {post} (event_eq : event = .serve) (client : s'.client = s.client)
      (first : post ∈ b.up) (arrived : ∃ rest, s.up.arrived = frame 4 (requestBody post) ++ rest)
      (served : b'.served = b.served ++
        [⟨post, (Server.processRequest handler (post.request.packet post.tag).normalise
          s.server).1⟩])
      (server : s'.server = (Server.processRequest handler
        (post.request.packet post.tag).normalise s.server).2)

theorem Carries.new (handler : Server.Handler σ ε) (limits : Limits) (start : σ) :
    Carries handler ⟨[], [], [], [], []⟩ (State.new limits start) where
  wired := ⟨rfl, rfl, .new, .new, rfl, rfl⟩
  posted := .new limits
  given := .new limits
  served _ member := by cases member

theorem Carries.step {handler : Server.Handler σ ε} (addresses : handler.Addresses) {b : Belt}
    {s s' : State σ} {event : Event} (carries : Carries handler b s) (inv : Consistent s.client)
    (distinct : Distinct s.client) (short : ShortRequests s.client)
    (taken : Stepped handler s event s') :
    ∃ b', Carries handler b' s' ∧ Advances handler b b' s event s' ∧
      Takes b b' s.client event := by
  obtain ⟨wired, posted, given, served⟩ := carries
  cases taken with
  | client moved own ended =>
      obtain ⟨b', carries', same, takes⟩ :=
        carries_client ⟨wired, posted, given, served⟩ inv distinct short moved own
      exact ⟨b', carries', .still same rfl, takes⟩
  | carryUp =>
      exact ⟨b, ⟨⟨wired.queue, wired.written, wired.up.carry _, wired.down, wired.inbox,
        wired.frames⟩, posted, given, served⟩, .still rfl rfl, takes_none rfl (.inl rfl)⟩
  | carryDown =>
      exact ⟨b, ⟨⟨wired.queue, wired.written, wired.up, wired.down.carry _, wired.inbox,
        wired.frames⟩, posted, given, served⟩, .still rfl rfl, takes_none rfl (.inl rfl)⟩
  | hangUp =>
      exact ⟨b, ⟨⟨wired.queue, wired.written, wired.up.hangUp, wired.down.hangUp, wired.inbox,
        wired.frames⟩, posted, given, served⟩, .still rfl rfl, takes_none rfl (.inl rfl)⟩
  | ends serving ended =>
      exact ⟨b, ⟨⟨wired.queue, wired.written, wired.up.drain ended, wired.down.send_nil.close,
        wired.inbox, wired.frames⟩, posted, given, served⟩, .still rfl rfl,
        takes_none rfl (.inl rfl)⟩
  | @serve body rest serving arrived fits small =>
      obtain ⟨later, bodies, holds⟩ := wired.up.take arrived fits (by decide)
      obtain ⟨post, ups, up_eq, rfl, rfl⟩ := List.map_eq_cons_iff.mp bodies
      have length : (requestBody post).length = _ := body_length _
      have answered : Server.respond handler (requestBody post) s.server =
          Server.processRequest handler (post.request.packet post.tag).normalise s.server := by
        rw [Server.respond, requestBody, tryFrom_body _ (by omega)]
      have member : post ∈ b.posts := by simp [Belt.posts, up_eq]
      obtain ⟨call, present, key, job, _⟩ := posted.known post member
      have initKey : post.tag = none ↔ post.request = .init := by
        rw [← job, ← inv.initKey _ call present, key, Option.some_inj]
      rw [answered] at small ⊢
      refine ⟨{ b with
          down := b.down ++ [⟨post, (Server.processRequest handler
            (post.request.packet post.tag).normalise s.server).1⟩]
          up := ups }, ⟨⟨wired.queue, ?_, holds, ?_, wired.inbox, wired.frames⟩, ?_, given, ?_⟩,
        .serves rfl rfl (by simp [up_eq]) ⟨_, arrived⟩ (List.append_assoc _ _ _).symm rfl,
        takes_none ?_ (.inl rfl)⟩
      · simpa [Belt.served, up_eq] using wired.written
      · rw [List.map_append]
        exact wired.down.send small (by decide)
      · simpa [Belt.posts, Belt.served, up_eq] using posted
      · intro e listed
        simp only [Belt.served, ← List.append_assoc] at listed
        rcases List.mem_append.mp listed with earlier | now
        · exact served e earlier
        · rw [List.mem_singleton.mp now]
          refine ⟨⟨s.server, rfl⟩, reply_key addresses initKey s.server, ?_⟩
          rw [body_length] at small
          exact Nat.lt_of_succ_lt small
      · simp [Belt.posts, Belt.served, up_eq]
  | @arrive body rest arrived fits =>
      obtain ⟨later, bodies, holds⟩ := wired.down.take arrived fits (by decide)
      obtain ⟨e, coming, down_eq, rfl, rfl⟩ := List.map_eq_cons_iff.mp bodies
      have same :
          ({ b with inbox := b.inbox ++ [e], down := coming } : Belt).served = b.served := by
        simp [Belt.served, down_eq]
      refine ⟨{ b with inbox := b.inbox ++ [e], down := coming },
        ⟨⟨wired.queue, ?_, wired.up, holds, ?_, wired.frames⟩, ?_, ?_, ?_⟩, .still same rfl,
        takes_none (by rw [Belt.posts, same]; rfl) (.inl rfl)⟩
      · rw [same]
        exact wired.written
      · rw [List.map_append, ← wired.inbox]
        rfl
      · rw [Belt.posts, same]
        exact ⟨posted.once, posted.known, posted.waiting⟩
      · exact ⟨given.replying, given.sending, given.answered, given.looked⟩
      · rw [same]
        exact served

end RusshSftp.Link
