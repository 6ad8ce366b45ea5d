import RusshSftp.Client.Session

/-!
# What one action of the session does

`Stepped` lists the cases of `step`, each with what it asks of the state and what it
makes of it.  Invariants go over these cases and do not unfold `step`.  The reader's
three actions, taken one after the other, are `executeHandler`.
-/

set_option autoImplicit false

namespace RusshSftp.Client

/-! ## Updates -/

namespace State

theorem setCall_calls (s : State) (c d : CallId) (call : Call) :
    (s.setCall c call).calls d = if d = c then some call else s.calls d := by
  exact Function.update_apply s.calls c (some call) d

@[simp] theorem setCall_same (s : State) (c : CallId) (call : Call) :
    (s.setCall c call).calls c = some call := by
  rw [setCall_calls, if_pos rfl]

theorem setCall_other (s : State) {c d : CallId} (call : Call) (other : d ≠ c) :
    (s.setCall c call).calls d = s.calls d := by
  rw [setCall_calls, if_neg other]

theorem setRequest_requests (s : State) (key other : Key) (entry : Option CallId) :
    (s.setRequest key entry).requests other = if other = key then entry else s.requests other := by
  exact Function.update_apply s.requests key entry other

section Frame
variable (s : State) (c : CallId) (call : Call) (key : Key) (entry : Option CallId)

@[simp] theorem setCall_limits : (s.setCall c call).limits = s.limits := rfl
@[simp] theorem setCall_nextReqId : (s.setCall c call).nextReqId = s.nextReqId := rfl
@[simp] theorem setCall_handles : (s.setCall c call).handles = s.handles := rfl
@[simp] theorem setCall_requests : (s.setCall c call).requests = s.requests := rfl
@[simp] theorem setCall_retired : (s.setCall c call).retired = s.retired := rfl
@[simp] theorem setCall_version : (s.setCall c call).version = s.version := rfl
@[simp] theorem setCall_inbox : (s.setCall c call).inbox = s.inbox := rfl
@[simp] theorem setCall_frames : (s.setCall c call).frames = s.frames := rfl
@[simp] theorem setCall_reader : (s.setCall c call).reader = s.reader := rfl
@[simp] theorem setCall_queue : (s.setCall c call).queue = s.queue := rfl
@[simp] theorem setCall_written : (s.setCall c call).written = s.written := rfl
@[simp] theorem setCall_writer : (s.setCall c call).writer = s.writer := rfl
@[simp] theorem setCall_cancelled : (s.setCall c call).cancelled = s.cancelled := rfl
@[simp] theorem setRequest_limits : (s.setRequest key entry).limits = s.limits := rfl
@[simp] theorem setRequest_nextReqId : (s.setRequest key entry).nextReqId = s.nextReqId := rfl
@[simp] theorem setRequest_handles : (s.setRequest key entry).handles = s.handles := rfl
@[simp] theorem setRequest_calls : (s.setRequest key entry).calls = s.calls := rfl
@[simp] theorem setRequest_version : (s.setRequest key entry).version = s.version := rfl
@[simp] theorem setRequest_inbox : (s.setRequest key entry).inbox = s.inbox := rfl
@[simp] theorem setRequest_frames : (s.setRequest key entry).frames = s.frames := rfl
@[simp] theorem setRequest_reader : (s.setRequest key entry).reader = s.reader := rfl
@[simp] theorem setRequest_queue : (s.setRequest key entry).queue = s.queue := rfl
@[simp] theorem setRequest_written : (s.setRequest key entry).written = s.written := rfl
@[simp] theorem setRequest_writer : (s.setRequest key entry).writer = s.writer := rfl
@[simp] theorem setRequest_cancelled : (s.setRequest key entry).cancelled = s.cancelled := rfl

end Frame

end State

/-! ## Handing a reply over -/

/-- The version once a reply has been put in a channel. -/
def versionAfter (version : Option UInt32) (key : Key) (packet : Packet) : Option UInt32 :=
  match validate version key, packet with
  | .ok (), .version p => some p.version
  | _, _ => version

section Deliver
variable (frame : Nat) (key : Key) (packet : Packet) (c : CallId) (s : State)

theorem deliver_accepted {call : Call} (present : s.calls c = some call)
    (receiving : call.phase.receiving = true) (empty : call.answer = none) :
    (deliver frame key packet c s).2 =
      { s.setCall c { call with
          answer := some ⟨frame, (validate s.version key).map fun _ => packet⟩ } with
        version := versionAfter s.version key packet } := by
  have put : trySend c ⟨frame, (validate s.version key).map fun _ => packet⟩ s =
      (.ok (), s.setCall c { call with
        answer := some ⟨frame, (validate s.version key).map fun _ => packet⟩ }) := by
    simp only [trySend, present, receiving, empty, Option.isNone_none, if_true]
  rw [deliver, sendReply]
  simp only [put]
  cases valid : validate s.version key with
  | error err => simp only [versionAfter, valid]; rfl
  | ok got => cases packet <;> simp only [versionAfter, valid] <;> rfl

theorem deliver_refused
    (unable : ∀ call, s.calls c = some call → call.phase.receiving = true → call.answer ≠ none) :
    (deliver frame key packet c s).2 = s := by
  have put (answer : Answer) : ∃ err, trySend c answer s = (.error err, s) := by
    cases present : s.calls c with
    | none => exact ⟨channelClosed, by simp only [trySend, present]⟩
    | some call =>
        cases receiving : call.phase.receiving with
        | false => exact ⟨channelClosed, by simp [trySend, present, receiving]⟩
        | true =>
            have full : call.answer.isNone = false := by
              rw [Option.isNone_eq_false_iff, Option.isSome_iff_ne_none]
              exact unable call present receiving
            exact ⟨channelFull, by simp [trySend, present, receiving, full]⟩
  obtain ⟨err, failed⟩ := put ⟨frame, (validate s.version key).map fun _ => packet⟩
  simp only [deliver, sendReply, failed]

end Deliver

/-! ## The cases of a step -/

inductive Stepped (s : State) : Action → State → Prop
  | start {c job} (fresh : s.calls c = none) :
      Stepped s (.start c job) (s.setCall c (Call.new job))
  | limited {c call r err} (present : s.calls c = some call) (phase : call.phase = .checkLimit)
      (job : call.job = .request r) (reached : r.operation.limited s.limits s.handles = some err) :
      Stepped s (.checkLimit c) (s.setCall c { call with phase := .finished (.error err) })
  | unlimited {c call r} (present : s.calls c = some call) (phase : call.phase = .checkLimit)
      (job : call.job = .request r) (free : r.operation.limited s.limits s.handles = none) :
      Stepped s (.checkLimit c) (s.setCall c { call with phase := .useNextId })
  | useNextId {c call} (present : s.calls c = some call) (phase : call.phase = .useNextId) :
      Stepped s (.useNextId c)
        { s.setCall c { call with key := some (some s.nextReqId), phase := .isClosed } with
          nextReqId := s.nextReqId + 1 }
  | closed {c call} (present : s.calls c = some call) (phase : call.phase = .isClosed)
      (closed : s.isClosed = true) :
      Stepped s (.isClosed c) (s.setCall c { call with
        phase := .finished (.error (.unexpectedBehavior "session closed")) })
  | opened {c call} (present : s.calls c = some call) (phase : call.phase = .isClosed)
      (opened : s.isClosed = false) :
      Stepped s (.isClosed c) (s.setCall c { call with phase := .insert })
  | insert {c call key} (present : s.calls c = some call) (phase : call.phase = .insert)
      (keyed : call.key = some key) :
      Stepped s (.insert c)
        ((s.setRequest key (some c)).setCall c { call with phase := .enqueue })
  | notEncoded {c call key err} (present : s.calls c = some call) (phase : call.phase = .enqueue)
      (keyed : call.key = some key) (encoded : (call.job.packet key).toBytes = .error err) :
      Stepped s (.enqueue c)
        (s.setCall c { call with phase := .finished (.error (Error.ofError err)) })
  | notSent {c call key bytes} (present : s.calls c = some call) (phase : call.phase = .enqueue)
      (keyed : call.key = some key) (encoded : (call.job.packet key).toBytes = .ok bytes)
      (closed : s.isClosed = true) :
      Stepped s (.enqueue c)
        (s.setCall c { call with phase := .finished (.error Error.sendError) })
  | enqueue {c call key bytes} (present : s.calls c = some call) (phase : call.phase = .enqueue)
      (keyed : call.key = some key) (encoded : (call.job.packet key).toBytes = .ok bytes)
      (opened : s.isClosed = false) :
      Stepped s (.enqueue c)
        { s.setCall c { call with phase := .recv } with queue := s.queue ++ [bytes] }
  | recv {c call answer} (present : s.calls c = some call) (phase : call.phase = .recv)
      (answered : call.answer = some answer) :
      Stepped s (.recv c answer.frame)
        (s.setCall c { call with phase := .complete answer.result })
  | recvNone {c call} (present : s.calls c = some call) (phase : call.phase = .recv)
      (unanswered : call.answer = none) (gone : s.senderLeft c call = false) :
      Stepped s (.recvNone c) (s.setCall c { call with
        phase := .cleanup (.unexpectedBehavior "recv none message") })
  | elapse {c call} (present : s.calls c = some call) (phase : call.phase = .recv) :
      Stepped s (.elapse c) (s.setCall c { call with phase := .cleanup .timeout })
  | cleanup {c call err key} (present : s.calls c = some call) (phase : call.phase = .cleanup err)
      (keyed : call.key = some key) :
      Stepped s (.cleanup c)
        ((s.setRequest key none).setCall c { call with phase := .finished (.error err) })
  | complete {c call result} (present : s.calls c = some call)
      (phase : call.phase = .complete result) :
      Stepped s (.complete c)
        { s.setCall c { call with phase := .finished result } with
          handles := call.job.counted result s.handles }
  | drop {c call} (present : s.calls c = some call) (phase : call.phase = .recv) :
      Stepped s (.drop c) (s.setCall c { call with phase := .dropped })
  | arrive {bytes} : Stepped s (.arrive bytes) { s with inbox := s.inbox ++ [bytes] }
  | readReply {bytes inbox key packet} (idle : s.reader = .idle) (next : s.inbox = bytes :: inbox)
      (decoded : decodeReply bytes = some (key, packet)) :
      Stepped s .read { s with
        inbox, frames := s.frames + 1, reader := .replying s.frames key packet }
  | readOther {bytes inbox} (idle : s.reader = .idle) (next : s.inbox = bytes :: inbox)
      (decoded : decodeReply bytes = none) :
      Stepped s .read { s with inbox, frames := s.frames + 1 }
  | found {frame key packet c} (busy : s.reader = .replying frame key packet)
      (entry : s.requests key = some c) :
      Stepped s (.lookup key) { s.setRequest key none with reader := .sending frame key packet c }
  | unknown {frame key packet} (busy : s.reader = .replying frame key packet)
      (entry : s.requests key = none) : Stepped s (.lookup key) { s with reader := .idle }
  | delivered {frame key packet c call} (busy : s.reader = .sending frame key packet c)
      (present : s.calls c = some call) (receiving : call.phase.receiving = true)
      (empty : call.answer = none) :
      Stepped s (.deliver c frame)
        { s.setCall c { call with
            answer := some ⟨frame, (validate s.version key).map fun _ => packet⟩ } with
          version := versionAfter s.version key packet, reader := .idle }
  | refused {frame key packet c} (busy : s.reader = .sending frame key packet c)
      (unable : ∀ call, s.calls c = some call → call.phase.receiving = true → call.answer ≠ none) :
      Stepped s (.deliver c frame) { s with reader := .idle }
  | reclaim {c} (retired : c ∈ s.retired) (free : s.reader.holds c = false) :
      Stepped s (.reclaim c) { s with retired := s.retired.erase c }
  | eof (idle : s.reader = .idle) (finished : s.inbox = []) :
      Stepped s .eof { s with reader := .ended, cancelled := true }
  | readCancelled (idle : s.reader = .idle) (cancelled : s.cancelled = true) :
      Stepped s .readCancelled { s with reader := .ended }
  | shutdown {data queue} (running : s.writer = .running) (next : s.queue = data :: queue)
      (empty : data = []) :
      Stepped s .write { s with queue, writer := .stopped, cancelled := true }
  | write {data queue} (running : s.writer = .running) (next : s.queue = data :: queue)
      (nonempty : data ≠ []) :
      Stepped s .write { s with queue, written := s.written ++ [data] }
  | writeCancelled (running : s.writer = .running) (cancelled : s.cancelled = true) :
      Stepped s .writeCancelled { s with writer := .stopped }
  | writeEnd (stopped : s.writer = .stopped) : Stepped s .writeEnd { s with writer := .ended }
  | closedAlready (closed : s.isClosed = true) : Stepped s .closeSession s
  | closeSession (opened : s.isClosed = false) :
      Stepped s .closeSession { s with queue := s.queue ++ [[]] }

/-- The call that an action of a call is about. -/
def Action.call? : Action → Option CallId
  | .checkLimit c | .useNextId c | .isClosed c | .insert c | .enqueue c | .recv c _
  | .recvNone c | .elapse c | .cleanup c | .complete c | .drop c => some c
  | _ => none

theorem stepped_call {s s' : State} {c : CallId} {call : Call} {action : Action}
    (own : action.call? = some c) (present : s.calls c = some call)
    (taken : callStep s c call action = some s') : Stepped s action s' := by
  cases action with
  | checkLimit c' =>
      cases own
      simp only [callStep] at taken
      split at taken
      · rename_i r phase job
        split at taken
        · cases taken; exact .limited present phase job ‹_›
        · cases taken; exact .unlimited present phase job ‹_›
      · cases taken
  | useNextId c' =>
      cases own
      simp only [callStep] at taken
      split at taken
      · cases taken; exact .useNextId present ‹_›
      · cases taken
  | isClosed c' =>
      cases own
      simp only [callStep] at taken
      split at taken
      · rename_i phase
        split at taken
        · cases taken; exact .closed present phase ‹_›
        · rename_i opened
          cases taken; exact .opened present phase (Bool.eq_false_of_not_eq_true opened)
      · cases taken
  | insert c' =>
      cases own
      simp only [callStep] at taken
      split at taken
      · cases taken; exact .insert present ‹_› ‹_›
      · cases taken
  | enqueue c' =>
      cases own
      simp only [callStep] at taken
      split at taken
      · rename_i key phase keyed
        split at taken
        · cases taken; exact .notEncoded present phase keyed ‹_›
        · rename_i bytes encoded
          split at taken
          · cases taken; exact .notSent present phase keyed encoded ‹_›
          · rename_i opened
            cases taken
            exact .enqueue present phase keyed encoded (Bool.eq_false_of_not_eq_true opened)
      · cases taken
  | recv c' frame =>
      cases own
      simp only [callStep] at taken
      split at taken
      · rename_i answer phase answered
        split at taken
        · rename_i same
          subst same
          cases taken; exact .recv present phase answered
        · cases taken
      · cases taken
  | recvNone c' =>
      cases own
      simp only [callStep] at taken
      split at taken
      · rename_i guards
        cases taken; exact .recvNone present guards.1 guards.2.1 guards.2.2
      · cases taken
  | elapse c' =>
      cases own
      simp only [callStep] at taken
      split at taken
      · cases taken; exact .elapse present ‹_›
      · cases taken
  | cleanup c' =>
      cases own
      simp only [callStep] at taken
      split at taken
      · cases taken; exact .cleanup present ‹_› ‹_›
      · cases taken
  | complete c' =>
      cases own
      simp only [callStep] at taken
      split at taken
      · cases taken; exact .complete present ‹_›
      · cases taken
  | drop c' =>
      cases own
      simp only [callStep] at taken
      split at taken
      · cases taken; exact .drop present ‹_›
      · cases taken
  | _ => cases own

/-- The actions of a call are taken where the call is there. -/
theorem step_of_call {s s' : State} {c : CallId} {action : Action} (own : action.call? = some c)
    (taken : step s action = some s') :
    ∃ call, s.calls c = some call ∧ callStep s c call action = some s' := by
  cases action <;> cases own <;>
  · simp only [step] at taken
    split at taken
    · exact ⟨_, ‹_›, taken⟩
    · cases taken

theorem stepped_deliver {s : State} {frame : Nat} {key : Key} {packet : Packet} {c : CallId}
    (busy : s.reader = .sending frame key packet c) :
    Stepped s (.deliver c frame)
      { (deliver frame key packet c s).2 with reader := .idle } := by
  by_cases able : ∃ call, s.calls c = some call ∧ call.phase.receiving = true ∧ call.answer = none
  · obtain ⟨call, present, receiving, empty⟩ := able
    rw [deliver_accepted frame key packet c s present receiving empty]
    exact .delivered busy present receiving empty
  · have unable : ∀ call, s.calls c = some call → call.phase.receiving = true →
        call.answer ≠ none :=
      fun call present receiving empty => able ⟨call, present, receiving, empty⟩
    rw [deliver_refused frame key packet c s unable]
    exact .refused busy unable

theorem stepped {s s' : State} {action : Action} (taken : step s action = some s') :
    Stepped s action s' := by
  cases own : action.call? with
  | some c =>
      obtain ⟨call, present, moved⟩ := step_of_call own taken
      exact stepped_call own present moved
  | none =>
      cases action with
      | start c job =>
          simp only [step] at taken
          split at taken
          · cases taken; exact .start ‹_›
          · cases taken
      | arrive bytes => cases taken; exact .arrive
      | read =>
          simp only [step] at taken
          split at taken
          · rename_i bytes inbox idle next
            cases decoded : decodeReply bytes with
            | some got => rw [decoded] at taken; cases taken; exact .readReply idle next decoded
            | none =>
                rw [decoded] at taken
                cases taken
                rw [← idle]
                exact .readOther idle next decoded
          · cases taken
      | lookup key =>
          simp only [step] at taken
          split at taken
          · rename_i frame key' packet busy
            split at taken
            · rename_i same
              subst same
              split at taken
              · cases taken; exact .found busy ‹_›
              · cases taken; exact .unknown busy ‹_›
            · cases taken
          · cases taken
      | deliver c frame =>
          simp only [step] at taken
          split at taken
          · rename_i frame' key packet c' busy
            split at taken
            · rename_i same
              obtain ⟨rfl, rfl⟩ := same
              cases taken
              exact stepped_deliver busy
            · cases taken
          · cases taken
      | reclaim c =>
          simp only [step] at taken
          split at taken
          · rename_i guards
            cases taken; exact .reclaim guards.1 guards.2
          · cases taken
      | eof =>
          simp only [step] at taken
          split at taken
          · rename_i guards
            cases taken; exact .eof guards.1 guards.2
          · cases taken
      | readCancelled =>
          simp only [step] at taken
          split at taken
          · rename_i guards
            cases taken; exact .readCancelled guards.1 guards.2
          · cases taken
      | write =>
          simp only [step] at taken
          split at taken
          · rename_i data queue running next
            split at taken
            · rename_i empty
              cases taken; exact .shutdown running next (List.isEmpty_iff.mp empty)
            · rename_i nonempty
              cases taken
              exact .write running next fun empty => nonempty (List.isEmpty_iff.mpr empty)
          · cases taken
      | writeCancelled =>
          simp only [step] at taken
          split at taken
          · rename_i guards
            cases taken; exact .writeCancelled guards.1 guards.2
          · cases taken
      | writeEnd =>
          simp only [step] at taken
          split at taken
          · cases taken; exact .writeEnd ‹_›
          · cases taken
      | closeSession =>
          simp only [step] at taken
          split at taken
          · cases taken; exact .closedAlready ‹_›
          · rename_i opened
            cases taken; exact .closeSession (Bool.eq_false_of_not_eq_true opened)
      | _ => cases own

/-! ## What a step does to one call -/

/-- How far a call has come; a call never goes back. -/
def Phase.rank : Phase → Nat
  | .checkLimit => 0
  | .useNextId => 1
  | .isClosed => 2
  | .insert => 3
  | .enqueue => 4
  | .recv => 5
  | .cleanup _ => 6
  | .complete _ => 6
  | .finished _ => 7
  | .dropped => 7

inductive Evolves (s s' : State) (action : Action) (c : CallId) (call' : Call) : Prop
  | same (present : s.calls c = some call')
  | started {job} (action_eq : action = .start c job) (fresh : s.calls c = none)
      (call_eq : call' = Call.new job)
  | keyed {call} (action_eq : action = .useNextId c) (present : s.calls c = some call)
      (phase : call.phase = .useNextId)
      (call_eq : call' = { call with key := some (some s.nextReqId), phase := .isClosed })
  | moved {call phase} (own : action.call? = some c) (present : s.calls c = some call)
      (ahead : call.phase.rank < phase.rank) (call_eq : call' = { call with phase })
  | answered {call frame key packet} (action_eq : action = .deliver c frame)
      (busy : s.reader = .sending frame key packet c) (present : s.calls c = some call)
      (receiving : call.phase.receiving = true) (empty : call.answer = none)
      (version : s'.version = versionAfter s.version key packet)
      (call_eq : call' = { call with
        answer := some ⟨frame, (validate s.version key).map fun _ => packet⟩ })

theorem evolves_setCall {s s' : State} {action : Action} {c d : CallId} {call call' : Call}
    (after : (s.setCall c call).calls d = some call')
    (changed : d = c → Evolves s s' action d call) : Evolves s s' action d call' := by
  rw [State.setCall_calls] at after
  split at after
  · cases after
    exact changed ‹_›
  · exact .same after

theorem evolves {s s' : State} {action : Action} {d : CallId} {call' : Call}
    (taken : step s action = some s') (after : s'.calls d = some call') :
    Evolves s s' action d call' := by
  cases stepped taken with
  | start fresh => exact evolves_setCall after fun same => .started (same ▸ rfl) (same ▸ fresh) rfl
  | useNextId present phase =>
      exact evolves_setCall after fun same => .keyed (same ▸ rfl) (same ▸ present) phase rfl
  | delivered busy present receiving empty =>
      exact evolves_setCall after fun same =>
        .answered (same ▸ rfl) (same ▸ busy) (same ▸ present) receiving empty rfl rfl
  | limited present phase | unlimited present phase | closed present phase
  | opened present phase | insert present phase | notEncoded present phase
  | notSent present phase | enqueue present phase | recv present phase | recvNone present phase
  | elapse present phase | cleanup present phase | complete present phase | drop present phase =>
      exact evolves_setCall after fun same =>
        .moved (same ▸ rfl) (same ▸ present) (by rw [phase]; simp [Phase.rank]) rfl
  | _ => exact .same after

theorem setCall_rank {s : State} {c d : CallId} {old new call : Call}
    (present : s.calls d = some old) (at_c : s.calls c = some call)
    (further : call.phase.rank ≤ new.phase.rank) :
    ∃ call', (s.setCall c new).calls d = some call' ∧ old.phase.rank ≤ call'.phase.rank := by
  rw [State.setCall_calls]
  split
  · rename_i same
    rw [same, at_c] at present
    cases present
    exact ⟨new, rfl, further⟩
  · exact ⟨old, present, le_rfl⟩

/-- A call stays, and never goes back. -/
theorem rank_after {s s' : State} {action : Action} {d : CallId} {old : Call}
    (taken : step s action = some s') (present : s.calls d = some old) :
    ∃ call', s'.calls d = some call' ∧ old.phase.rank ≤ call'.phase.rank := by
  cases stepped taken with
  | start fresh =>
      rename_i c job
      have other : d ≠ c := by
        rintro rfl
        rw [present] at fresh
        cases fresh
      exact ⟨old, (s.setCall_other _ other).trans present, le_rfl⟩
  | delivered _ at_c => exact setCall_rank present at_c le_rfl
  | limited at_c phase | unlimited at_c phase | useNextId at_c phase | closed at_c phase
  | opened at_c phase | insert at_c phase | notEncoded at_c phase | notSent at_c phase
  | enqueue at_c phase | recv at_c phase | recvNone at_c phase | elapse at_c phase
  | cleanup at_c phase | complete at_c phase | drop at_c phase =>
      exact setCall_rank present at_c (by rw [phase]; simp [Phase.rank])
  | _ => exact ⟨old, present, le_rfl⟩

theorem call_started {limits : Limits} {actions : List Action} {s : State}
    (run : Run.exec step (State.new limits) actions = some s) :
    ∀ c call, s.calls c = some call → .start c call.job ∈ actions := by
  refine Run.exec_induction (P := fun actions s =>
    ∀ c call, s.calls c = some call → .start c call.job ∈ actions) ?_ ?_ actions s run
  · intro c call present
    cases present
  · intro actions s action s' _ ih taken c call after
    rw [List.mem_append, List.mem_singleton]
    cases evolves taken after with
    | same present => exact .inl (ih c call present)
    | started action_eq _ call_eq =>
        rw [call_eq]
        exact .inr action_eq.symm
    | keyed _ present _ call_eq | moved _ present _ call_eq | answered _ _ present _ _ _ call_eq =>
        have earlier := ih c _ present
        rw [call_eq]
        exact .inl earlier

/-- A step puts an answer in the channel of a call. -/
def Placed (s s' : State) (c : CallId) (answer : Answer) : Prop :=
  ∃ call call', s.calls c = some call ∧ call.answer = none ∧
    s'.calls c = some call' ∧ call'.answer = some answer

/-- Only the reader puts answers in channels. -/
theorem placed_by_deliver {s s' : State} {action : Action} {c : CallId} {answer : Answer}
    (taken : step s action = some s') (placed : Placed s s' c answer) :
    ∃ key packet, action = .deliver c answer.frame ∧
      s.reader = .sending answer.frame key packet c ∧
      answer.result = (validate s.version key).map (fun _ => packet) ∧
      s'.version = versionAfter s.version key packet ∧
      ∃ call, s.calls c = some call ∧ call.phase.receiving = true := by
  obtain ⟨call, call', present, empty, after, answered⟩ := placed
  cases evolves taken after with
  | same present' =>
      rw [present] at present'
      cases present'
      rw [empty] at answered
      cases answered
  | started _ fresh _ => rw [present] at fresh; cases fresh
  | keyed _ present' _ call_eq =>
      rw [present] at present'
      cases present'
      rw [call_eq, empty] at answered
      cases answered
  | moved _ present' _ call_eq =>
      rw [present] at present'
      cases present'
      rw [call_eq, empty] at answered
      cases answered
  | answered action_eq busy there receiving _ version call_eq =>
      rw [call_eq] at answered
      cases answered
      exact ⟨_, _, action_eq, busy, rfl, version, _, there, receiving⟩

/-! ## The reader's actions are `executeHandler` -/

theorem executeHandler_other {bytes : Bytes} (frame : Nat) (s : State)
    (decoded : decodeReply bytes = none) : (executeHandler frame bytes s).2 = s := by
  rw [executeHandler]
  rw [decodeReply] at decoded
  cases read : Packet.tryFrom.run bytes with
  | error err => rfl
  | ok got =>
      obtain ⟨packet, rest⟩ := got
      rw [read] at decoded
      cases packet <;> first | rfl | cases decoded

theorem reply_eq_deliver (frame : Nat) (key : Key) (packet : Packet) (s : State)
    (other : ∀ v, packet ≠ .version v) :
    (SessionInner.reply frame key packet s).2 =
      match s.requests key with
      | some c => (deliver frame key packet c (s.setRequest key none)).2
      | none => s := by
  rw [SessionInner.reply]
  cases s.requests key with
  | none => rfl
  | some c =>
      simp only [deliver]
      rcases sendReply frame key packet c (s.setRequest key none) with ⟨_ | _, next⟩
      · rfl
      · cases packet with
        | version v => exact absurd rfl (other v)
        | _ => rfl

theorem version_eq_deliver (frame : Nat) (p : Version) (s : State) :
    (SessionInner.version frame p s).2 =
      match s.requests none with
      | some c => (deliver frame none (.version p) c (s.setRequest none none)).2
      | none => s := by
  simp only [SessionInner.version, SessionInner.reply]
  cases s.requests none with
  | none => rfl
  | some c =>
      simp only [deliver]

theorem executeHandler_reply {bytes : Bytes} {key : Key} {packet : Packet} (frame : Nat)
    (s : State) (decoded : decodeReply bytes = some (key, packet)) :
    (executeHandler frame bytes s).2 =
      match s.requests key with
      | some c => (deliver frame key packet c (s.setRequest key none)).2
      | none => s := by
  rw [executeHandler]
  rw [decodeReply] at decoded
  cases read : Packet.tryFrom.run bytes with
  | error err => rw [read] at decoded; cases decoded
  | ok got =>
      obtain ⟨packet', rest⟩ := got
      rw [read] at decoded
      cases packet' with
      | version p => cases decoded; exact version_eq_deliver frame p s
      | _ => first
          | cases decoded; exact reply_eq_deliver frame _ _ s fun _ same => by cases same
          | cases decoded

theorem deliver_reader (frame : Nat) (key : Key) (packet : Packet) (c : CallId) (s : State)
    (reader : Reader) :
    (deliver frame key packet c { s with reader }).2 =
      { (deliver frame key packet c s).2 with reader } := by
  by_cases able : ∃ call, s.calls c = some call ∧ call.phase.receiving = true ∧ call.answer = none
  · obtain ⟨call, present, receiving, empty⟩ := able
    rw [deliver_accepted frame key packet c s present receiving empty,
      deliver_accepted frame key packet c { s with reader } present receiving empty]
    rfl
  · have unable : ∀ call, s.calls c = some call → call.phase.receiving = true →
        call.answer ≠ none :=
      fun call present receiving empty => able ⟨call, present, receiving, empty⟩
    rw [deliver_refused frame key packet c s unable,
      deliver_refused frame key packet c { s with reader } unable]

/-- With nothing in between, the reader's three actions take a frame from the inbox and
run `executeHandler` on it. -/
theorem exec_executeHandler {s : State} {bytes : Bytes} {inbox : List Bytes}
    (idle : s.reader = .idle) (next : s.inbox = bytes :: inbox) :
    ∃ actions, Run.exec step s actions =
      some (executeHandler s.frames bytes { s with inbox, frames := s.frames + 1 }).2 := by
  cases decoded : decodeReply bytes with
  | none =>
      refine ⟨[.read], ?_⟩
      rw [executeHandler_other _ _ decoded]
      simp only [Run.exec, step, idle, next, decoded]
  | some got =>
      obtain ⟨key, packet⟩ := got
      rw [executeHandler_reply _ _ decoded]
      cases entry : s.requests key with
      | none =>
          refine ⟨[.read, .lookup key], ?_⟩
          simp only [Run.exec, step, idle, next, decoded, entry, if_true]
      | some c =>
          refine ⟨[.read, .lookup key, .deliver c s.frames], ?_⟩
          generalize base :
            ({ s with inbox, frames := s.frames + 1 } : State).setRequest key none = b
          have settled : b = { b with reader := .idle } := by
            rw [← idle, ← base]
            rfl
          have kept := deliver_reader s.frames key packet c b .idle
          rw [← settled] at kept
          simp only [Run.exec, step, idle, next, decoded, entry, and_self, if_true]
          have moved : ({ ({ s with
                inbox, frames := s.frames + 1, reader := .replying s.frames key packet } :
                State).setRequest key none with
              reader := .sending s.frames key packet c } : State) =
              { b with reader := .sending s.frames key packet c } := by
            rw [← base]
            rfl
          rw [moved, deliver_reader, kept]

/-! ## A session after its `init` -/

/-- A `Version` packet with version 3 and no extensions. -/
def versionBody : Bytes := [2, 0, 0, 0, 3]

/-- A frame is read and goes to a call, which returns. -/
def handleReply (c : CallId) (key : Key) (frame : Nat) : List Action :=
  [.read, .lookup key, .deliver c frame, .recv c frame, .complete c]

def initialised : List Action :=
  [.start 0 .init, .isClosed 0, .insert 0, .enqueue 0, .write, .arrive versionBody] ++
    handleReply 0 none 0

end RusshSftp.Client
