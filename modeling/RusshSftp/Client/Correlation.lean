import RusshSftp.Client.Invariant

/-!
# Replies reach the calls they answer

While fewer than 2^32 ids are drawn, no two calls have the same id, and a reply goes
to the call that has its id.  `init` has no id; its reply goes to the `init` that is
in flight.
-/

set_option autoImplicit false

namespace RusshSftp.Client

/-- How many ids a run draws. -/
def draws (actions : List Action) : Nat :=
  actions.countP fun
    | .useNextId _ => true
    | _ => false

/-- The calls that took a result from their channel, each with the number of the frame. -/
def completions (actions : List Action) : List (CallId × Nat) :=
  actions.filterMap fun
    | .recv c frame => some (c, frame)
    | _ => none

/-- An `init` is started when no other is in flight. -/
def SingleInit (s : State) (action : Action) : Prop :=
  ∀ c, action = .start c .init →
    ∀ d other, s.calls d = some other → other.job = .init → other.phase.inFlight = false

/-- At most one `init` is in flight. -/
def OneInit (s : State) : Prop :=
  ∀ c d call other, s.calls c = some call → s.calls d = some other → call.job = .init →
    other.job = .init → call.phase.inFlight = true → other.phase.inFlight = true → c = d

/-- The packet that a call sends, once it has its key. -/
def Call.sent (call : Call) : Option Packet := call.key.map fun key => call.job.packet key

/-! ## Ids -/

theorem request_packet_id (r : Request) (id : UInt32) :
    (r.operation.packet id).getRequestId = id := by
  cases r <;> rfl

theorem draws_snoc (actions : List Action) (action : Action) :
    draws (actions ++ [action]) =
      draws actions + (match action with | .useNextId _ => 1 | _ => 0) := by
  rw [draws, List.countP_append]
  cases action <;> rfl

/-- The ids of a run are the first numbers, and each is one call's only. -/
structure Numbered (actions : List Action) (s : State) : Prop where
  next : s.nextReqId = UInt32.ofNat (draws actions + 1)
  drawn : ∀ c call id, s.calls c = some call → call.key = some (some id) →
    ∃ j < draws actions, id = UInt32.ofNat (j + 1)
  distinct : ∀ c d call other id, s.calls c = some call → s.calls d = some other →
    call.key = some (some id) → other.key = some (some id) → c = d

theorem ofNat_ne {j n : Nat} (less : j < n) (few : n < 2 ^ 32) :
    UInt32.ofNat (j + 1) ≠ UInt32.ofNat (n + 1) := by
  intro same
  have values := congrArg UInt32.toNat same
  rw [UInt32.toNat_ofNat', UInt32.toNat_ofNat'] at values
  omega

/-- The key of a call after a step: as before, or the next id. -/
theorem key_after {s s' : State} {action : Action} {c : CallId} {call' : Call} {id : UInt32}
    (taken : step s action = some s') (after : s'.calls c = some call')
    (key : call'.key = some (some id)) :
    (∃ call, s.calls c = some call ∧ call.key = some (some id)) ∨
      (action = .useNextId c ∧ id = s.nextReqId) := by
  cases evolves taken after with
  | same present => exact .inl ⟨_, present, key⟩
  | @started job _ _ call_eq =>
      rw [call_eq] at key
      cases job <;> cases key
  | keyed action_eq _ _ call_eq =>
      rw [call_eq] at key
      cases key
      exact .inr ⟨action_eq, rfl⟩
  | moved _ present _ call_eq => exact .inl ⟨_, present, by rw [← key, call_eq]⟩
  | answered _ _ present _ _ _ call_eq => exact .inl ⟨_, present, by rw [← key, call_eq]⟩

theorem nextReqId_after {s s' : State} {action : Action} (taken : step s action = some s') :
    s'.nextReqId = s.nextReqId + (match action with | .useNextId _ => 1 | _ => 0) := by
  cases stepped taken <;> simp

theorem numbered {limits : Limits} {actions : List Action} {s : State}
    (run : Run.exec step (State.new limits) actions = some s) (few : draws actions < 2 ^ 32) :
    Numbered actions s := by
  revert few
  refine Run.exec_induction (P := fun actions s => draws actions < 2 ^ 32 → Numbered actions s)
    ?_ ?_ actions s run
  · intro _
    exact ⟨rfl, (fun _ _ _ h => by cases h), fun _ _ _ _ _ h => by cases h⟩
  · intro actions s action s' _ ih taken few
    rw [draws_snoc] at few
    have before := ih (by omega)
    have next := nextReqId_after taken
    have fewer : draws actions < 2 ^ 32 := by omega
    refine ⟨?_, ?_, ?_⟩
    · rw [next, before.next, draws_snoc]
      cases action <;> simp [UInt32.ofNat_add]
    · intro c call id at_c key
      rw [draws_snoc]
      rcases key_after taken at_c key with ⟨old, was, key⟩ | ⟨rfl, rfl⟩
      · obtain ⟨j, small, same⟩ := before.drawn c old id was key
        exact ⟨j, by omega, same⟩
      · exact ⟨draws actions, Nat.lt_succ_self _, before.next⟩
    · intro c d call other id at_c at_d key key'
      rcases key_after taken at_c key with ⟨old, was, key⟩ | ⟨rfl, rfl⟩
      · rcases key_after taken at_d key' with ⟨old', was', key'⟩ | ⟨rfl, rfl⟩
        · exact before.distinct c d old old' id was was' key key'
        · obtain ⟨j, small, same⟩ := before.drawn c old _ was key
          exact absurd (same.symm.trans before.next) (ofNat_ne small fewer)
      · rcases key_after taken at_d key' with ⟨old', was', key'⟩ | ⟨same, _⟩
        · obtain ⟨j, small, same⟩ := before.drawn d old' _ was' key'
          exact absurd (same.symm.trans before.next) (ofNat_ne small fewer)
        · cases same
          rfl

/-! ## One `init` at a time -/

theorem Phase.inFlight_iff (phase : Phase) : phase.inFlight = true ↔ phase.rank < 7 := by
  cases phase <;> simp [Phase.inFlight, Phase.rank]

theorem Phase.inFlight_of_receiving (phase : Phase) (receiving : phase.receiving = true) :
    phase.inFlight = true := by
  cases phase <;> first | rfl | cases receiving

theorem inFlight_before {s s' : State} {action : Action} {c : CallId} {call' : Call}
    (taken : step s action = some s') (after : s'.calls c = some call')
    (inFlight : call'.phase.inFlight = true) :
    (∃ call, s.calls c = some call ∧ call.job = call'.job ∧ call.phase.inFlight = true) ∨
      action = .start c call'.job := by
  rw [Phase.inFlight_iff] at inFlight
  cases evolves taken after with
  | same present => exact .inl ⟨_, present, rfl, (Phase.inFlight_iff _).mpr inFlight⟩
  | started action_eq _ call_eq =>
      refine .inr ?_
      rw [action_eq, call_eq]
      rfl
  | keyed _ present phase call_eq =>
      exact .inl ⟨_, present, by rw [call_eq], by rw [phase]; rfl⟩
  | moved _ present ahead call_eq =>
      rw [call_eq] at inFlight
      exact .inl ⟨_, present, by rw [call_eq], (Phase.inFlight_iff _).mpr (ahead.trans inFlight)⟩
  | answered _ _ present _ _ _ call_eq =>
      rw [call_eq] at inFlight
      exact .inl ⟨_, present, by rw [call_eq], (Phase.inFlight_iff _).mpr inFlight⟩

theorem OneInit.step {s s' : State} {action : Action} (one : OneInit s)
    (single : SingleInit s action) (taken : step s action = some s') : OneInit s' := by
  intro c d call other at_c at_d init init' flying flying'
  rcases inFlight_before taken at_c flying with ⟨old, was, job, flew⟩ | started
  · rcases inFlight_before taken at_d flying' with ⟨old', was', job', flew'⟩ | started'
    · exact one c d old old' was was' (job.trans init) (job'.trans init') flew flew'
    · rw [init'] at started'
      have idle := single d started' c old was (job.trans init)
      rw [flew] at idle
      cases idle
  · rcases inFlight_before taken at_d flying' with ⟨old', was', job', flew'⟩ | started'
    · rw [init] at started
      have idle := single c started d old' was' (job'.trans init')
      rw [flew'] at idle
      cases idle
    · rw [init] at started
      rw [init', started] at started'
      cases started'
      rfl

theorem oneInit_along {limits : Limits} {actions : List Action}
    (single : Run.Meets step SingleInit (State.new limits) actions) :
    Run.Along step OneInit (State.new limits) actions :=
  Run.along_of_meets (fun _ _ _ _ h => by cases h)
    (fun _ _ _ one meets taken => one.step meets taken) single

/-- Calls in flight never share a key. -/
theorem key_unique {actions : List Action} {s : State} (inv : Consistent s)
    (numbers : Numbered actions s) (one : OneInit s) {c d : CallId} {call other : Call} {key : Key}
    (at_c : s.calls c = some call) (at_d : s.calls d = some other) (key_c : call.key = some key)
    (key_d : other.key = some key) (flying : call.phase.inFlight = true)
    (flying' : other.phase.inFlight = true) : c = d := by
  cases key with
  | some id => exact numbers.distinct c d call other id at_c at_d key_c key_d
  | none =>
      exact one c d call other at_c at_d ((inv.initKey c call at_c).mp key_c)
        ((inv.initKey d other at_d).mp key_d) flying flying'

/-! ## No lost reply -/

/-- A call that has registered its sender is past that point for good. -/
theorem inserted_late {limits : Limits} {actions : List Action} {s : State}
    (run : Run.exec step (State.new limits) actions = some s) :
    ∀ c, .insert c ∈ actions → ∃ call, s.calls c = some call ∧ 4 ≤ call.phase.rank := by
  refine Run.exec_induction (P := fun actions s => ∀ c, .insert c ∈ actions →
    ∃ call, s.calls c = some call ∧ 4 ≤ call.phase.rank) ?_ ?_ actions s run
  · intro c member
    cases member
  · intro actions s action s' _ ih taken c member
    rcases List.mem_append.mp member with earlier | now
    · obtain ⟨call, present, late⟩ := ih c earlier
      obtain ⟨call', after, further⟩ := rank_after taken present
      exact ⟨call', after, late.trans further⟩
    · cases List.mem_singleton.mp now
      cases stepped taken with
      | insert present phase keyed => exact ⟨_, State.setCall_same _ _ _, le_rfl⟩

/-- What can become of an entry of the request map in one step. -/
theorem entry_after {s s' : State} {action : Action} {key : Key} {c : CallId}
    (taken : step s action = some s') (entry : s.requests key = some c) :
    s'.requests key = some c ∨ action = .lookup key ∨
      ∃ d other, s.calls d = some other ∧ other.key = some key ∧
        ((action = .insert d ∧ other.phase = .insert) ∨
          (action = .cleanup d ∧ ∃ err, other.phase = .cleanup err)) := by
  cases stepped taken with
  | insert present phase keyed =>
      rename_i d other key'
      by_cases same : key = key'
      · subst same
        exact .inr (.inr ⟨d, other, present, keyed, .inl ⟨rfl, phase⟩⟩)
      · left
        rw [State.setCall_requests, State.setRequest_requests, if_neg same, entry]
  | cleanup present phase keyed =>
      rename_i d other err key'
      by_cases same : key = key'
      · subst same
        exact .inr (.inr ⟨d, other, present, keyed, .inr ⟨rfl, err, phase⟩⟩)
      · left
        rw [State.setCall_requests, State.setRequest_requests, if_neg same, entry]
  | found busy there =>
      rename_i frame key' packet d
      by_cases same : key = key'
      · subst same
        exact .inr (.inl rfl)
      · left
        show (s.setRequest key' none).requests key = some c
        rw [State.setRequest_requests, if_neg same, entry]
  | _ => exact .inl entry

theorem Phase.waiting_of_rank {phase : Phase} (late : 4 ≤ phase.rank) (upper : phase.rank ≤ 5) :
    phase = .enqueue ∨ phase = .recv := by
  cases phase <;> simp [Phase.rank] at late upper ⊢

/-- A call that has registered its sender keeps its key. -/
theorem late_key {s s' : State} {action : Action} {c : CallId} {call call' : Call}
    (taken : step s action = some s') (present : s.calls c = some call)
    (after : s'.calls c = some call') (late : 4 ≤ call.phase.rank) : call'.key = call.key := by
  cases evolves taken after with
  | same there =>
      rw [present] at there
      cases there
      rfl
  | started _ fresh _ => rw [present] at fresh; cases fresh
  | keyed _ there phase call_eq =>
      rw [present] at there
      cases there
      rw [phase] at late
      simp [Phase.rank] at late
  | moved _ there _ call_eq | answered _ _ there _ _ _ call_eq =>
      rw [present] at there
      cases there
      rw [call_eq]

/-- From its insertion on, a waiting call has its entry until its key is looked up. -/
theorem entry_until_lookup {limits : Limits} {actions : List Action} {s : State}
    (run : Run.exec step (State.new limits) actions = some s) (few : draws actions < 2 ^ 32)
    (single : Run.Meets step SingleInit (State.new limits) actions) :
    ∀ pre mid c call key, actions = pre ++ .insert c :: mid → s.calls c = some call →
      call.key = some key → call.phase = .enqueue ∨ call.phase = .recv →
      .lookup key ∈ mid ∨ s.requests key = some c := by
  revert few single
  refine Run.exec_induction (P := fun actions s => draws actions < 2 ^ 32 →
    Run.Meets step SingleInit (State.new limits) actions →
    ∀ pre mid c call key, actions = pre ++ .insert c :: mid → s.calls c = some call →
      call.key = some key → call.phase = .enqueue ∨ call.phase = .recv →
      .lookup key ∈ mid ∨ s.requests key = some c) ?_ ?_ actions s run
  · intro _ _ pre mid c call key shape
    cases pre <;> cases shape
  · intro actions s action s' before ih taken few single pre mid c call' key shape after key_c phase
    rw [draws_snoc] at few
    have inv := Consistent.of_exec before
    have numbers := numbered before (by omega)
    have one := (oneInit_along single.front).last before
    rcases List.eq_nil_or_concat mid with rfl | ⟨mid, last, rfl⟩
    · -- the step is the insertion itself
      obtain ⟨-, lastAction⟩ := List.append_inj' shape rfl
      cases lastAction
      cases stepped taken with
      | insert present insertPhase keyed =>
          rename_i call key'
          rw [State.setCall_same] at after
          cases after
          rw [keyed] at key_c
          cases key_c
          right
          rw [State.setCall_requests, State.setRequest_requests, if_pos rfl]
    · rw [List.concat_eq_append, ← List.cons_append, ← List.append_assoc] at shape
      obtain ⟨earlier, lastAction⟩ := List.append_inj' shape rfl
      cases lastAction
      rw [List.concat_eq_append, List.mem_append]
      obtain ⟨call, present, late⟩ := inserted_late before c (by rw [earlier]; simp)
      obtain ⟨call'', after', further⟩ := rank_after taken present
      rw [after] at after'
      cases after'
      have upper : call'.phase.rank ≤ 5 := by rcases phase with h | h <;> rw [h] <;> decide
      have waiting := Phase.waiting_of_rank late (further.trans upper)
      have key_before : call.key = some key := by
        rw [← key_c]
        exact (late_key taken present after late).symm
      rcases ih (by omega) single.front pre mid c call key earlier present key_before waiting with
        looked | entry
      · exact .inl (.inl looked)
      · rcases entry_after taken entry with kept | rfl | ⟨d, other, at_d, key_d, why⟩
        · exact .inr kept
        · exact .inl (.inr (List.mem_singleton_self _))
        · exfalso
          have flying : call.phase.inFlight = true := by
            rcases waiting with h | h <;> rw [h] <;> rfl
          have flying' : other.phase.inFlight = true := by
            rcases why with ⟨_, h⟩ | ⟨_, err, h⟩ <;> rw [h] <;> rfl
          have same := key_unique inv numbers one present at_d key_before key_d flying flying'
          subst same
          rw [present] at at_d
          cases at_d
          rcases waiting with w | w <;> rcases why with ⟨_, h⟩ | ⟨_, err, h⟩ <;> rw [w] at h <;>
            cases h

/-! ## Each call once, each frame once -/

theorem answer_kept {s s' : State} {action : Action} {c : CallId} {call call' : Call}
    {answer : Answer} (taken : step s action = some s') (present : s.calls c = some call)
    (after : s'.calls c = some call') (answered : call.answer = some answer) :
    call'.answer = some answer := by
  cases evolves taken after with
  | same there =>
      rw [present] at there
      cases there
      exact answered
  | started _ fresh _ => rw [present] at fresh; cases fresh
  | keyed _ there _ call_eq | moved _ there _ call_eq =>
      rw [present] at there
      cases there
      rw [call_eq]
      exact answered
  | answered _ _ there _ empty _ call_eq =>
      rw [present] at there
      cases there
      rw [empty] at answered
      cases answered

theorem completions_snoc (actions : List Action) (action : Action) :
    completions (actions ++ [action]) =
      completions actions ++ (match action with | .recv c frame => [(c, frame)] | _ => []) := by
  rw [completions, List.filterMap_append]
  cases action <;> rfl

theorem completed {limits : Limits} {actions : List Action} {s : State}
    (run : Run.exec step (State.new limits) actions = some s) :
    ∀ pair ∈ completions actions, ∃ call answer, s.calls pair.1 = some call ∧
      call.answer = some answer ∧ answer.frame = pair.2 ∧ 6 ≤ call.phase.rank := by
  refine Run.exec_induction (P := fun actions s => ∀ pair ∈ completions actions,
    ∃ call answer, s.calls pair.1 = some call ∧ call.answer = some answer ∧
      answer.frame = pair.2 ∧ 6 ≤ call.phase.rank) ?_ ?_ actions s run
  · intro pair member
    cases member
  · intro actions s action s' _ ih taken pair member
    rw [completions_snoc] at member
    rcases List.mem_append.mp member with earlier | now
    · obtain ⟨call, answer, present, answered, frame, late⟩ := ih pair earlier
      obtain ⟨call', after, further⟩ := rank_after taken present
      exact ⟨call', answer, after, answer_kept taken present after answered, frame,
        late.trans further⟩
    · cases stepped taken with
      | recv present phase answered =>
          cases List.mem_singleton.mp now
          exact ⟨_, _, State.setCall_same _ _ _, answered, rfl, le_rfl⟩
      | _ => cases now

theorem completions_nodup {limits : Limits} {actions : List Action} {s : State}
    (run : Run.exec step (State.new limits) actions = some s) :
    ((completions actions).map Prod.fst).Nodup ∧ ((completions actions).map Prod.snd).Nodup := by
  refine Run.exec_induction (P := fun actions _ =>
    ((completions actions).map Prod.fst).Nodup ∧ ((completions actions).map Prod.snd).Nodup)
    ⟨List.nodup_nil, List.nodup_nil⟩ ?_ actions s run
  intro actions s action s' before ih taken
  have inv := Consistent.of_exec before
  have done := completed before
  rw [completions_snoc]
  cases stepped taken with
  | recv present phase answered =>
      rename_i c call answer
      simp only [List.map_append, List.map_cons, List.map_nil]
      refine ⟨List.nodup_append.mpr ⟨ih.1, List.nodup_singleton _, ?_⟩,
        List.nodup_append.mpr ⟨ih.2, List.nodup_singleton _, ?_⟩⟩
      · rintro d member _ single rfl
        obtain ⟨pair, taken, rfl⟩ := List.mem_map.mp member
        obtain ⟨other, _, at_d, _, _, late⟩ := done pair taken
        rw [List.mem_singleton.mp single, present] at at_d
        cases at_d
        rw [phase] at late
        simp [Phase.rank] at late
      · rintro frame member _ single rfl
        obtain ⟨pair, taken, rfl⟩ := List.mem_map.mp member
        obtain ⟨other, answer', at_d, answered', same, late⟩ := done pair taken
        have one := inv.single _ _ _ _ _ _ at_d present answered' answered
          (same.trans (List.mem_singleton.mp single))
        rw [one, present] at at_d
        cases at_d
        rw [phase] at late
        simp [Phase.rank] at late
  | _ => simpa using ih

/-! ## Correlation -/

theorem requests_correlated (limits : Limits) (actions : List Action) (s : State)
    (run : Run.exec step (State.new limits) actions = some s) (few : draws actions < 2 ^ 32)
    (single : Run.Meets step SingleInit (State.new limits) actions) :
    (∀ c call p, s.calls c = some call → call.phase = .finished (.ok p) →
      (call.job = .init → ∃ v, p = .version v) ∧
      (∀ r, call.job = .request r → ∃ id, call.sent = some (r.operation.packet id) ∧
        (r.operation.packet id).getRequestId = id ∧ p.replyKey? = some (some id))) ∧
    ((completions actions).map Prod.fst).Nodup ∧
    ((completions actions).map Prod.snd).Nodup ∧
    (∀ t action t' c answer, Run.Takes step (State.new limits) actions t action t' →
      Placed t t' c answer → ∃ key packet call,
        t.reader = .sending answer.frame key packet c ∧ packet.replyKey? = some key ∧
        t.calls c = some call ∧ call.key = some key ∧ call.phase.inFlight = true ∧
        (key = none → call.job = .init) ∧
        ∀ id, key = some id → ∀ d other, t.calls d = some other →
          other.key = some (some id) → d = c) ∧
    (∀ pre mid post c key call t, actions = pre ++ .insert c :: (mid ++ .lookup key :: post) →
      .lookup key ∉ mid →
      Run.exec step (State.new limits) (pre ++ .insert c :: mid) = some t →
      t.calls c = some call → call.key = some key →
      call.phase = .enqueue ∨ call.phase = .recv → t.requests key = some c) := by
  have inv := Consistent.of_exec run
  obtain ⟨callsOnce, framesOnce⟩ := completions_nodup run
  refine ⟨?_, callsOnce, framesOnce, ?_, ?_⟩
  · intro c call p present phase
    obtain ⟨answer, answered, result⟩ := inv.results c call _ present (.inr ⟨p, rfl, phase⟩)
    obtain ⟨-, -, key, key_c, replyKey⟩ := inv.answered c call answer present answered
    have replied := replyKey p result
    have initKey := inv.initKey c call present
    constructor
    · intro init
      rw [initKey.mpr init] at key_c
      cases key_c
      cases p with
      | version v => exact ⟨v, rfl⟩
      | _ => cases replied
    · intro r job
      cases key with
      | none => rw [job] at initKey; cases initKey.mp key_c
      | some id =>
          refine ⟨id, ?_, request_packet_id r id, replied⟩
          rw [Call.sent, key_c, job]
          rfl
  · intro t action t' c answer takes placed
    obtain ⟨before, after, shape, first, taken⟩ := takes
    obtain ⟨key, packet, _, busy, _, _, receiver, there, receiving⟩ :=
      placed_by_deliver taken placed
    have early := Consistent.of_exec first
    obtain ⟨replyKey, _, call, present, registered⟩ := early.sending _ _ _ _ busy
    have fewer : draws before < 2 ^ 32 := by
      rw [shape, draws, List.countP_append] at few
      exact lt_of_le_of_lt (Nat.le_add_right _ _) few
    refine ⟨key, packet, call, busy, replyKey, present, registered.key, ?_, ?_, ?_⟩
    · rw [present] at there
      cases there
      exact receiver.phase.inFlight_of_receiving receiving
    · rintro rfl
      exact (early.initKey c call present).mp registered.key
    · rintro id rfl d other at_d key_d
      exact (numbered first fewer).distinct d c other call id at_d present key_d registered.key
  · intro pre mid post c key call t shape first_lookup before present key_c phase
    have split : actions = (pre ++ .insert c :: mid) ++ .lookup key :: post := by
      rw [shape]
      simp
    subst split
    have fewer : draws (pre ++ .insert c :: mid) < 2 ^ 32 := by
      rw [draws, List.countP_append] at few
      exact lt_of_le_of_lt (Nat.le_add_right _ _) few
    rcases entry_until_lookup before fewer single.front pre mid c call key rfl present key_c phase
      with looked | entry
    · exact absurd looked first_lookup
    · exact entry

/-- A `Status` packet with code `Failure` and no texts. -/
def failureBody (id : UInt8) : Bytes := [101, 0, 0, 0, id, 0, 0, 0, 4, 0, 0, 0, 0, 0, 0, 0, 0]

def sendRequest (c : CallId) (r : Request) : List Action :=
  [.start c (.request r), .checkLimit c, .useNextId c, .isClosed c, .insert c, .enqueue c]

/-- Two requests are answered in the other order, the second of them twice. -/
theorem requests_correlated_crossed :
    let actions := .start 0 .init :: ([.isClosed 0, .insert 0, .enqueue 0, .arrive versionBody] ++
      handleReply 0 none 0 ++ sendRequest 1 (.stat "") ++ sendRequest 2 (.lstat "") ++
      [.arrive (failureBody 2), .arrive (failureBody 2), .arrive (failureBody 1)] ++
      handleReply 2 (some 2) 1 ++ [.read, .lookup (some 2)] ++ handleReply 1 (some 1) 3)
    ∃ s, Run.exec step (State.new Limits.default) actions = some s ∧
      completions actions = [(0, 0), (2, 1), (1, 3)] ∧
      ∀ call p, s.calls 1 = some call → call.phase = .finished (.ok p) →
        ∃ id, p.replyKey? = some (some id) := by
  intro actions
  obtain ⟨s, run⟩ : ∃ s, Run.exec step (State.new Limits.default) actions = some s :=
    Option.isSome_iff_exists.mp (by decide +kernel)
  have single : Run.Meets step SingleInit (State.new Limits.default) actions := by
    refine Run.Meets.cons (fun c _ d other present => by cases present) fun next _ => ?_
    refine Run.meets_of_all fun action member s c started => ?_
    rw [started] at member
    simp [handleReply, sendRequest] at member
  have correlated := requests_correlated Limits.default actions s run (by decide) single
  refine ⟨s, run, by decide, fun call p present phase => ?_⟩
  have started := call_started run 1 call present
  obtain ⟨r, job⟩ : ∃ r, call.job = .request r := by
    simp [actions, handleReply, sendRequest] at started
    exact ⟨_, started⟩
  obtain ⟨id, -, -, replied⟩ := (correlated.1 1 call p present phase).2 r job
  exact ⟨id, replied⟩

/-- A reply that arrives for a call that has ended, the only one so far with that key, is
handed to no other call later on. -/
def LateRepliesStay (limits : Limits) (actions : List Action) : Prop :=
  ∀ before bytes after s key packet c call, actions = before ++ .arrive bytes :: after →
    Run.exec step (State.new limits) before = some s → decodeReply bytes = some (key, packet) →
    s.calls c = some call → call.key = some key → call.phase.inFlight = false →
    (∀ d other, s.calls d = some other → other.key = some key → d = c) →
    ∀ d, .recv d (s.frames + s.inbox.length) ∈ after → d = c

def firstInit : List Action :=
  [.start 0 .init, .isClosed 0, .insert 0, .enqueue 0, .write, .elapse 0, .cleanup 0]

def secondInit : List Action :=
  [.start 1 .init, .isClosed 1, .insert 1, .enqueue 1, .read, .lookup none, .deliver 1 0,
    .recv 1 0, .complete 1]

/-- The reply to an `init` that has timed out goes to the next one: a `Version` packet has
no id that would tell them apart. -/
theorem late_version_reaches_next_init :
    let actions := firstInit ++ .arrive versionBody :: secondInit
    (∃ s, Run.exec step (State.new Limits.default) actions = some s) ∧ draws actions < 2 ^ 32 ∧
      Run.Meets step SingleInit (State.new Limits.default) actions ∧
      ¬ LateRepliesStay Limits.default actions := by
  obtain ⟨s, run⟩ : ∃ s, Run.exec step (State.new Limits.default) firstInit = some s :=
    Option.isSome_iff_exists.mp (by decide)
  have ended : s.calls 0 = some ⟨.init, some none, .finished (.error .timeout), none⟩ :=
    Run.exec_map (f := fun s => s.calls 0) run (by decide)
  have frames : s.frames = 0 := Run.exec_map run (by decide)
  have inbox : s.inbox = [] := Run.exec_map run (by decide)
  have only : ∀ d other, s.calls d = some other → d = 0 := by
    intro d other present
    have started := call_started run d other present
    simp [firstInit] at started
    exact started.1
  refine ⟨Option.isSome_iff_exists.mp (by decide), by decide, ?_, ?_⟩
  · have others : ∀ action ∈ firstInit.tail ++ .arrive versionBody :: secondInit.tail, ∀ s,
        SingleInit s action := by
      intro action member s c started
      rw [started] at member
      simp [firstInit, secondInit] at member
    refine Run.Meets.append (Run.Meets.cons ?_ fun next _ => ?_) fun t first => ?_
    · intro c _ d other present
      cases present
    · exact Run.meets_of_all fun action member => others action (List.mem_append_left _ member)
    · rw [run] at first
      cases first
      refine Run.Meets.cons ?_ fun next arrived => Run.Meets.cons ?_ fun last _ => ?_
      · exact others (.arrive versionBody) (by simp) s
      · intro c _ d other present _
        cases arrived
        obtain rfl := only d other present
        rw [ended] at present
        cases present
        rfl
      · exact Run.meets_of_all fun action member =>
          others action (List.mem_append_right _ (List.mem_cons_of_mem _ member))
  · intro stays
    have wrong := stays firstInit versionBody secondInit s none
      (.version ⟨3, .empty⟩) 0 _ rfl run (by rfl) ended rfl rfl
      (fun d other present _ => only d other present) 1
    rw [frames, inbox] at wrong
    cases wrong (by decide)

end RusshSftp.Client
