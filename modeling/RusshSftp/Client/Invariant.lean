import RusshSftp.Client.Steps

/-!
# The invariant of the session

`Consistent` ties the request map, the reader and the channels of the calls together.
It holds in every reachable state, with no bound on the number of calls or ids.
-/

set_option autoImplicit false

namespace RusshSftp.Client

namespace Phase

/-- The sender of the call has not been moved into the map yet. -/
def early : Phase → Bool
  | .checkLimit | .useNextId | .isClosed | .insert => true
  | _ => false

end Phase

/-- The frame that the reader is busy with. -/
def Reader.frame? : Reader → Option Nat
  | .replying frame _ _ | .sending frame _ _ _ => some frame
  | _ => none

/-- The call has moved its sender into the map under this key and has got nothing yet. -/
structure Registered (key : Key) (call : Call) : Prop where
  key : call.key = some key
  unanswered : call.answer = none
  late : call.phase.early = false

structure Consistent (s : State) : Prop where
  initKey : ∀ c call, s.calls c = some call → (call.key = some none ↔ call.job = .init)
  unkeyed : ∀ c call, s.calls c = some call →
    call.phase = .checkLimit ∨ call.phase = .useNextId → call.key = none
  fresh : ∀ c call, s.calls c = some call → call.phase.early = true → call.answer = none
  entry : ∀ key c, s.requests key = some c → ∃ call, s.calls c = some call ∧ Registered key call
  replying : ∀ frame key packet, s.reader = .replying frame key packet →
    packet.replyKey? = some key
  sending : ∀ frame key packet c, s.reader = .sending frame key packet c →
    packet.replyKey? = some key ∧ s.requests key ≠ some c ∧
      ∃ call, s.calls c = some call ∧ Registered key call
  busy : ∀ frame, s.reader.frame? = some frame → frame < s.frames
  answered : ∀ c call answer, s.calls c = some call → call.answer = some answer →
    answer.frame < s.frames ∧ s.reader.frame? ≠ some answer.frame ∧
      ∃ key, call.key = some key ∧ ∀ p, answer.result = .ok p → p.replyKey? = some key
  results : ∀ c call result, s.calls c = some call →
    call.phase = .complete result ∨ (∃ p, result = .ok p ∧ call.phase = .finished result) →
      ∃ answer, call.answer = some answer ∧ answer.result = result
  single : ∀ c d call other answer answer', s.calls c = some call → s.calls d = some other →
    call.answer = some answer → other.answer = some answer' → answer.frame = answer'.frame → c = d

namespace Consistent

theorem new (limits : Limits) : Consistent (State.new limits) where
  initKey _ _ h := by cases h
  unkeyed _ _ h := by cases h
  fresh _ _ h := by cases h
  entry _ _ h := by cases h
  replying _ _ _ h := by cases h
  sending _ _ _ _ h := by cases h
  busy _ h := by cases h
  answered _ _ _ h := by cases h
  results _ _ _ h := by cases h
  single _ _ _ _ _ _ h := by cases h

variable {s s' : State}

theorem of_same (inv : Consistent s) (calls : s'.calls = s.calls)
    (requests : s'.requests = s.requests) (reader : s'.reader = s.reader)
    (frames : s'.frames = s.frames) : Consistent s' where
  initKey := by rw [calls]; exact inv.initKey
  unkeyed := by rw [calls]; exact inv.unkeyed
  fresh := by rw [calls]; exact inv.fresh
  entry := by rw [calls, requests]; exact inv.entry
  replying := by rw [reader]; exact inv.replying
  sending := by rw [calls, requests, reader]; exact inv.sending
  busy := by rw [reader, frames]; exact inv.busy
  answered := by rw [calls, reader, frames]; exact inv.answered
  results := by rw [calls]; exact inv.results
  single := by rw [calls]; exact inv.single

/-- The reader lets go of what it had. -/
theorem of_quiet (inv : Consistent s) (calls : s'.calls = s.calls)
    (requests : s'.requests = s.requests) (frames : s.frames ≤ s'.frames)
    (quiet : s'.reader = .idle ∨ s'.reader = .ended) : Consistent s' where
  initKey := by rw [calls]; exact inv.initKey
  unkeyed := by rw [calls]; exact inv.unkeyed
  fresh := by rw [calls]; exact inv.fresh
  entry := by rw [calls, requests]; exact inv.entry
  replying frame key packet reading := by
    rcases quiet with h | h <;> rw [h] at reading <;> cases reading
  sending frame key packet c reading := by
    rcases quiet with h | h <;> rw [h] at reading <;> cases reading
  busy frame reading := by rcases quiet with h | h <;> rw [h] at reading <;> cases reading
  answered := by
    intro c call answer present answered
    rw [calls] at present
    obtain ⟨before, _, keyed⟩ := inv.answered c call answer present answered
    refine ⟨by omega, ?_, keyed⟩
    rcases quiet with h | h <;> rw [h] <;> exact fun reading => by cases reading
  results := by rw [calls]; exact inv.results
  single := by rw [calls]; exact inv.single

/-- A call moves on, to a phase that its key and its answer allow. -/
theorem of_move (inv : Consistent s) {c : CallId} {call : Call} (phase : Phase)
    (present : s.calls c = some call)
    (unkeyed : phase = .checkLimit ∨ phase = .useNextId → call.key = none)
    (later : phase.early = true → call.phase.early = true)
    (results : ∀ result,
      phase = .complete result ∨ (∃ p, result = .ok p ∧ phase = .finished result) →
      ∃ answer, call.answer = some answer ∧ answer.result = result)
    (calls : s'.calls = (s.setCall c { call with phase }).calls)
    (requests : s'.requests = s.requests) (reader : s'.reader = s.reader)
    (frames : s'.frames = s.frames) : Consistent s' := by
  have back : ∀ d other, s'.calls d = some other →
      ∃ old, s.calls d = some old ∧ other.job = old.job ∧ other.key = old.key ∧
        other.answer = old.answer ∧
        ((d = c ∧ old = call ∧ other.phase = phase) ∨ other.phase = old.phase) := by
    intro d other at_d
    rw [calls, State.setCall_calls] at at_d
    split at at_d
    · rename_i same
      cases at_d
      exact ⟨call, same ▸ present, rfl, rfl, rfl, .inl ⟨same, rfl, rfl⟩⟩
    · exact ⟨other, at_d, rfl, rfl, rfl, .inr rfl⟩
  have stays : ∀ key d old, s.calls d = some old → Registered key old →
      ∃ other, s'.calls d = some other ∧ Registered key other := by
    intro key d old at_d registered
    rw [calls, State.setCall_calls]
    split
    · rename_i same
      rw [same, present] at at_d
      cases at_d
      refine ⟨_, rfl, registered.key, registered.unanswered, ?_⟩
      rw [Bool.eq_false_iff]
      intro early
      have was := later early
      rw [registered.late] at was
      cases was
    · exact ⟨old, at_d, registered⟩
  refine ⟨?_, ?_, ?_, ?_, ?_, ?_, ?_, ?_, ?_, ?_⟩
  · intro d other at_d
    obtain ⟨old, was, job, key, _⟩ := back d other at_d
    rw [job, key]
    exact inv.initKey d old was
  · intro d other at_d early
    obtain ⟨old, was, _, key, _, ⟨rfl, rfl, moved⟩ | same⟩ := back d other at_d
    · rw [key]
      exact unkeyed (moved ▸ early)
    · rw [key]
      exact inv.unkeyed d old was (same ▸ early)
  · intro d other at_d early
    obtain ⟨old, was, _, _, answer, ⟨rfl, rfl, moved⟩ | same⟩ := back d other at_d
    · rw [answer]
      exact inv.fresh _ _ was (later (moved ▸ early))
    · rw [answer]
      exact inv.fresh d old was (same ▸ early)
  · intro key d entry
    rw [requests] at entry
    obtain ⟨old, was, registered⟩ := inv.entry key d entry
    exact stays key d old was registered
  · rw [reader]
    exact inv.replying
  · intro frame key packet d reading
    rw [reader] at reading
    obtain ⟨replyKey, gone, old, was, registered⟩ := inv.sending frame key packet d reading
    exact ⟨replyKey, requests ▸ gone, stays key d old was registered⟩
  · rw [reader, frames]
    exact inv.busy
  · intro d other answer at_d answered
    obtain ⟨old, was, _, key, same, _⟩ := back d other at_d
    rw [key, reader, frames]
    exact inv.answered d old answer was (same ▸ answered)
  · intro d other result at_d ended
    obtain ⟨old, was, _, _, answer, ⟨rfl, rfl, moved⟩ | same⟩ := back d other at_d
    · rw [answer]
      exact results result (moved ▸ ended)
    · rw [answer]
      exact inv.results d old result was (same ▸ ended)
  · intro d e one other answer answer' at_d at_e answered answered' frame
    obtain ⟨old, was, _, _, same, _⟩ := back d one at_d
    obtain ⟨old', was', _, _, same', _⟩ := back e other at_e
    exact inv.single d e old old' answer answer' was was' (same ▸ answered) (same' ▸ answered')
      frame

/-- A call that has not registered its sender is set up or gets its key. -/
theorem of_early (inv : Consistent s) {c : CallId} (call : Call)
    (before : ∀ old, s.calls c = some old → old.phase.early = true)
    (initKey : call.key = some none ↔ call.job = .init)
    (unkeyed : call.phase = .checkLimit ∨ call.phase = .useNextId → call.key = none)
    (early : call.phase.early = true) (fresh : call.answer = none)
    (calls : s'.calls = (s.setCall c call).calls) (requests : s'.requests = s.requests)
    (reader : s'.reader = s.reader) (frames : s'.frames = s.frames) : Consistent s' := by
  have cases_at : ∀ d other, s'.calls d = some other →
      (d = c ∧ other = call) ∨ (d ≠ c ∧ s.calls d = some other) := by
    intro d other at_d
    rw [calls, State.setCall_calls] at at_d
    split at at_d
    · cases at_d
      exact .inl ⟨‹_›, rfl⟩
    · exact .inr ⟨‹_›, at_d⟩
  have stays : ∀ key d, (∃ old, s.calls d = some old ∧ Registered key old) →
      ∃ other, s'.calls d = some other ∧ Registered key other := by
    rintro key d ⟨old, at_d, registered⟩
    have other : d ≠ c := by
      rintro rfl
      have was := before old at_d
      rw [registered.late] at was
      cases was
    rw [calls, State.setCall_other s call other]
    exact ⟨old, at_d, registered⟩
  refine ⟨?_, ?_, ?_, ?_, ?_, ?_, ?_, ?_, ?_, ?_⟩
  · intro d other at_d
    obtain ⟨-, rfl⟩ | ⟨-, was⟩ := cases_at d other at_d
    · exact initKey
    · exact inv.initKey d other was
  · intro d other at_d
    obtain ⟨-, rfl⟩ | ⟨-, was⟩ := cases_at d other at_d
    · exact unkeyed
    · exact inv.unkeyed d other was
  · intro d other at_d
    obtain ⟨-, rfl⟩ | ⟨-, was⟩ := cases_at d other at_d
    · exact fun _ => fresh
    · exact inv.fresh d other was
  · intro key d entry
    rw [requests] at entry
    exact stays key d (inv.entry key d entry)
  · rw [reader]
    exact inv.replying
  · intro frame key packet d reading
    rw [reader] at reading
    obtain ⟨replyKey, gone, there⟩ := inv.sending frame key packet d reading
    exact ⟨replyKey, requests ▸ gone, stays key d there⟩
  · rw [reader, frames]
    exact inv.busy
  · intro d other answer at_d answered
    obtain ⟨-, rfl⟩ | ⟨-, was⟩ := cases_at d other at_d
    · rw [fresh] at answered
      cases answered
    · rw [reader, frames]
      exact inv.answered d other answer was answered
  · intro d other result at_d ended
    obtain ⟨-, rfl⟩ | ⟨-, was⟩ := cases_at d other at_d
    · rcases ended with h | ⟨p, -, h⟩ <;> rw [h] at early <;> cases early
    · exact inv.results d other result was ended
  · intro d e one other answer answer' at_d at_e answered answered' frame
    obtain ⟨-, rfl⟩ | ⟨-, was⟩ := cases_at d one at_d
    · rw [fresh] at answered
      cases answered
    · obtain ⟨-, rfl⟩ | ⟨-, was'⟩ := cases_at e other at_e
      · rw [fresh] at answered'
        cases answered'
      · exact inv.single d e one other answer answer' was was' answered answered' frame

theorem setRequest (inv : Consistent s) (key : Key) (entry : Option CallId)
    (registered : ∀ c, entry = some c → (∃ call, s.calls c = some call ∧ Registered key call) ∧
      ∀ frame key packet, s.reader ≠ .sending frame key packet c) :
    Consistent (s.setRequest key entry) where
  initKey := inv.initKey
  unkeyed := inv.unkeyed
  fresh := inv.fresh
  entry := by
    intro other c there
    rw [State.setRequest_requests] at there
    split at there
    · rename_i same
      subst same
      exact (registered c there).1
    · exact inv.entry other c there
  replying := inv.replying
  sending := by
    intro frame other packet c reading
    obtain ⟨replyKey, gone, there⟩ := inv.sending frame other packet c reading
    refine ⟨replyKey, ?_, there⟩
    rw [State.setRequest_requests]
    split
    · intro same
      exact (registered c same).2 frame other packet reading
    · exact gone
  busy := inv.busy
  answered := inv.answered
  results := inv.results
  single := inv.single

theorem startReply (inv : Consistent s) {bytes : Bytes} {inbox : List Bytes} {key : Key}
    {packet : Packet} (decoded : decodeReply bytes = some (key, packet)) :
    Consistent { s with
      inbox, frames := s.frames + 1, reader := .replying s.frames key packet } where
  initKey := inv.initKey
  unkeyed := inv.unkeyed
  fresh := inv.fresh
  entry := inv.entry
  replying := by
    rintro _ _ _ ⟨⟩
    rw [decodeReply] at decoded
    cases read : Packet.tryFrom.run bytes with
    | error err => rw [read] at decoded; cases decoded
    | ok got =>
        rw [read] at decoded
        obtain ⟨key', same, pair⟩ := Option.map_eq_some_iff.mp decoded
        cases pair
        exact same
  sending := by rintro _ _ _ _ ⟨⟩
  busy := by
    rintro _ ⟨⟩
    exact Nat.lt_succ_self _
  answered := by
    intro c call answer present answered
    obtain ⟨before, _, keyed⟩ := inv.answered c call answer present answered
    refine ⟨Nat.lt_succ_of_lt before, ?_, keyed⟩
    intro same
    have frame := Option.some.inj same
    omega
  results := inv.results
  single := inv.single

theorem takeSender (inv : Consistent s) {frame : Nat} {key : Key} {packet : Packet} {c : CallId}
    (busy : s.reader = .replying frame key packet) (entry : s.requests key = some c) :
    Consistent { s.setRequest key none with reader := .sending frame key packet c } := by
  have erased := inv.setRequest key none (fun c same => by cases same)
  exact
    { initKey := erased.initKey
      unkeyed := erased.unkeyed
      fresh := erased.fresh
      entry := erased.entry
      replying := by rintro _ _ _ ⟨⟩
      sending := by
        rintro _ _ _ _ ⟨⟩
        refine ⟨inv.replying frame key packet busy, ?_, inv.entry key c entry⟩
        show (s.setRequest key none).requests key ≠ some c
        rw [State.setRequest_requests, if_pos rfl]
        exact fun h => by cases h
      busy := by
        rintro _ ⟨⟩
        exact inv.busy frame (by rw [busy]; rfl)
      answered := by
        intro d call answer present answered
        obtain ⟨before, other, keyed⟩ := inv.answered d call answer present answered
        rw [busy] at other
        exact ⟨before, other, keyed⟩
      results := erased.results
      single := erased.single }

theorem putReply (inv : Consistent s) {frame : Nat} {key : Key} {packet : Packet} {c : CallId}
    {call : Call} (busy : s.reader = .sending frame key packet c)
    (present : s.calls c = some call) (version : Option UInt32) :
    Consistent { s.setCall c { call with
        answer := some ⟨frame, (validate s.version key).map fun _ => packet⟩ } with
      version, reader := .idle } := by
  obtain ⟨replyKey, gone, old, was, registered⟩ := inv.sending frame key packet c busy
  rw [present] at was
  cases was
  have before := inv.busy frame (by rw [busy]; rfl)
  have back : ∀ d other, (s.setCall c { call with
        answer := some ⟨frame, (validate s.version key).map fun _ => packet⟩ }).calls d =
          some other →
      (d = c ∧ other = { call with
        answer := some ⟨frame, (validate s.version key).map fun _ => packet⟩ }) ∨
      (d ≠ c ∧ s.calls d = some other) := by
    intro d other at_d
    rw [State.setCall_calls] at at_d
    split at at_d
    · cases at_d
      exact .inl ⟨‹_›, rfl⟩
    · exact .inr ⟨‹_›, at_d⟩
  have unseen : ∀ d other answer, s.calls d = some other → other.answer = some answer →
      answer.frame ≠ frame := by
    intro d other answer at_d answered same
    have idle := (inv.answered d other answer at_d answered).2.1
    rw [busy, same] at idle
    exact idle rfl
  refine ⟨?_, ?_, ?_, ?_, ?_, ?_, ?_, ?_, ?_, ?_⟩
  · intro d other at_d
    obtain ⟨-, rfl⟩ | ⟨-, was⟩ := back d other at_d
    · exact inv.initKey c call present
    · exact inv.initKey d other was
  · intro d other at_d
    obtain ⟨-, rfl⟩ | ⟨-, was⟩ := back d other at_d
    · exact inv.unkeyed c call present
    · exact inv.unkeyed d other was
  · intro d other at_d early
    obtain ⟨-, rfl⟩ | ⟨-, was⟩ := back d other at_d
    · have late := registered.late
      rw [early] at late
      cases late
    · exact inv.fresh d other was early
  · intro other d there
    obtain ⟨old, was, found⟩ := inv.entry other d there
    have apart : d ≠ c := by
      rintro rfl
      rw [present] at was
      cases was
      have same : key = other := Option.some.inj (registered.key.symm.trans found.key)
      exact gone (same ▸ there)
    exact ⟨old, (s.setCall_other _ apart).trans was, found⟩
  · rintro _ _ _ ⟨⟩
  · rintro _ _ _ _ ⟨⟩
  · rintro _ ⟨⟩
  · intro d other answer at_d answered
    obtain ⟨-, rfl⟩ | ⟨-, was⟩ := back d other at_d
    · cases answered
      refine ⟨before, (fun h => by cases h), key, registered.key, ?_⟩
      intro p result
      cases valid : validate s.version key with
      | error err => rw [valid] at result; cases result
      | ok got => rw [valid] at result; cases result; exact replyKey
    · obtain ⟨small, _, keyed⟩ := inv.answered d other answer was answered
      exact ⟨small, (fun h => by cases h), keyed⟩
  · intro d other result at_d ended
    obtain ⟨-, rfl⟩ | ⟨-, was⟩ := back d other at_d
    · obtain ⟨answer, answered, _⟩ := inv.results c call result present ended
      rw [registered.unanswered] at answered
      cases answered
    · exact inv.results d other result was ended
  · intro d e one other answer answer' at_d at_e answered answered' same
    obtain ⟨rfl, rfl⟩ | ⟨-, was⟩ := back d one at_d
    · obtain ⟨rfl, rfl⟩ | ⟨-, was'⟩ := back e other at_e
      · rfl
      · cases answered
        exact absurd same.symm (unseen e other answer' was' answered')
    · obtain ⟨rfl, rfl⟩ | ⟨-, was'⟩ := back e other at_e
      · cases answered'
        exact absurd same (unseen d one answer was answered)
      · exact inv.single d e one other answer answer' was was' answered answered' same

theorem step {action : Action} (inv : Consistent s) (taken : Client.step s action = some s') :
    Consistent s' := by
  cases stepped taken with
  | start fresh =>
      rename_i c job
      refine inv.of_early (Call.new job) (fun old was => by rw [fresh] at was; cases was) ?_ ?_ ?_
        rfl rfl rfl rfl rfl
      · cases job <;> simp [Call.new, Job.key]
      · cases job <;> simp [Call.new, Job.key, Job.firstPhase]
      · cases job <;> rfl
  | limited present phase job reached =>
      exact inv.of_move _ present (by simp) (by simp [Phase.early]) (by simp) rfl rfl rfl rfl
  | unlimited present phase job free =>
      exact inv.of_move _ present (fun _ => inv.unkeyed _ _ present (.inl phase))
        (fun _ => by rw [phase]; rfl) (by simp) rfl rfl rfl rfl
  | useNextId present phase =>
      rename_i c call
      have unkeyed := inv.unkeyed _ _ present (.inr phase)
      have initKey := inv.initKey _ _ present
      rw [unkeyed] at initKey
      have request : call.job ≠ .init := fun init => by cases initKey.mpr init
      have before : ∀ old, s.calls c = some old → old.phase.early = true := by
        intro old was
        rw [present] at was
        cases was
        rw [phase]
        rfl
      have fresh := inv.fresh _ _ present (before call present)
      have drawn : Consistent
          (s.setCall c { call with key := some (some s.nextReqId), phase := .isClosed }) :=
        inv.of_early { call with key := some (some s.nextReqId), phase := .isClosed } before
          (by simp [request]) (by simp) rfl fresh rfl rfl rfl rfl
      exact drawn.of_same rfl rfl rfl rfl
  | closed present phase closed =>
      exact inv.of_move _ present (by simp) (by simp [Phase.early]) (by simp) rfl rfl rfl rfl
  | opened present phase opened =>
      exact inv.of_move _ present (by simp) (fun _ => by rw [phase]; rfl) (by simp) rfl rfl rfl rfl
  | insert present phase keyed =>
      rename_i c call key
      have fresh := inv.fresh _ _ present (by rw [phase]; rfl)
      have moved : Consistent (s.setCall c { call with phase := .enqueue }) :=
        inv.of_move .enqueue present (by simp) (by simp [Phase.early]) (by simp) rfl rfl rfl rfl
      refine moved.setRequest key (some c) ?_
      rintro _ ⟨⟩
      refine ⟨⟨_, State.setCall_same _ _ _, keyed, fresh, rfl⟩, ?_⟩
      intro frame other packet reading
      obtain ⟨_, _, old, was, registered⟩ := inv.sending frame other packet c reading
      rw [present] at was
      cases was
      have late := registered.late
      rw [phase] at late
      cases late
  | notEncoded present phase keyed encoded =>
      exact inv.of_move _ present (by simp) (by simp [Phase.early]) (by simp) rfl rfl rfl rfl
  | notSent present phase keyed encoded closed =>
      exact inv.of_move _ present (by simp) (by simp [Phase.early]) (by simp) rfl rfl rfl rfl
  | enqueue present phase keyed encoded opened =>
      exact inv.of_move .recv present (by simp) (by simp [Phase.early]) (by simp) rfl rfl rfl rfl
  | recv present phase answered =>
      rename_i c call answer
      refine inv.of_move (.complete answer.result) present (by simp) (by simp [Phase.early]) ?_
        rfl rfl rfl rfl
      intro result ended
      rcases ended with same | ⟨p, -, same⟩
      · cases same
        exact ⟨_, answered, rfl⟩
      · cases same
  | recvNone present phase unanswered gone =>
      exact inv.of_move _ present (by simp) (by simp [Phase.early]) (by simp) rfl rfl rfl rfl
  | elapse present phase =>
      exact inv.of_move _ present (by simp) (by simp [Phase.early]) (by simp) rfl rfl rfl rfl
  | cleanup present phase keyed =>
      rename_i c call err key
      have moved : Consistent (s.setCall c { call with phase := .finished (.error err) }) :=
        inv.of_move _ present (by simp) (by simp [Phase.early]) (by simp) rfl rfl rfl rfl
      exact moved.setRequest key none fun c same => by cases same
  | complete present phase =>
      rename_i c call result
      refine inv.of_move (.finished result) present (by simp) (by simp [Phase.early]) ?_ rfl rfl rfl
        rfl
      intro got ended
      rcases ended with same | ⟨p, -, same⟩
      · cases same
      · cases same
        exact inv.results _ _ _ present (.inl phase)
  | drop present phase =>
      exact inv.of_move _ present (by simp) (by simp [Phase.early]) (by simp) rfl rfl rfl rfl
  | arrive => exact inv.of_same rfl rfl rfl rfl
  | readReply idle next decoded => exact inv.startReply decoded
  | readOther idle next decoded => exact inv.of_quiet rfl rfl (Nat.le_succ _) (.inl idle)
  | found busy entry => exact inv.takeSender busy entry
  | unknown busy entry => exact inv.of_quiet rfl rfl le_rfl (.inl rfl)
  | delivered busy present receiving empty => exact inv.putReply busy present _
  | refused busy unable => exact inv.of_quiet rfl rfl le_rfl (.inl rfl)
  | reclaim retired free => exact inv.of_same rfl rfl rfl rfl
  | eof idle finished => exact inv.of_quiet rfl rfl le_rfl (.inr rfl)
  | readCancelled idle cancelled => exact inv.of_quiet rfl rfl le_rfl (.inr rfl)
  | shutdown running next empty => exact inv.of_same rfl rfl rfl rfl
  | write running next nonempty => exact inv.of_same rfl rfl rfl rfl
  | writeCancelled running cancelled => exact inv.of_same rfl rfl rfl rfl
  | writeEnd stopped => exact inv.of_same rfl rfl rfl rfl
  | closedAlready closed => exact inv
  | closeSession opened => exact inv.of_same rfl rfl rfl rfl

/-- Every state that a run reaches is consistent. -/
theorem of_exec {limits : Limits} {actions : List Action}
    (run : Run.exec Client.step (State.new limits) actions = some s) : Consistent s :=
  (Run.along_of_keeps (new limits) (fun _ _ _ inv taken => inv.step taken) actions).last run

end Consistent

end RusshSftp.Client
