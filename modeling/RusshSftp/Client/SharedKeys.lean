import RusshSftp.Client.Disconnect

/-!
# Calls that share a key

`send` takes its key as it comes: `insert` replaces what is there, and a failing call
removes what is there.  The counter of ids wraps after 2^32 draws and `init` has no id.
Over runs of any length these are the only two ways for calls to meet under one key.
-/

set_option autoImplicit false

namespace RusshSftp.Client

/-- The id of `d` is drawn a multiple of 2^32 draws after the id of `c`. -/
def LapsBehind (actions : List Action) (c d : CallId) : Prop :=
  ∃ pre mid post, actions = pre ++ .useNextId c :: (mid ++ .useNextId d :: post) ∧
    2 ^ 32 ∣ draws mid + 1

def State.isInit (s : State) (c : CallId) : Prop :=
  ∃ call, s.calls c = some call ∧ call.job = .init

/-- The calls are given the same key: both are `init`, or the counter has wrapped in between. -/
def Clash (s : State) (actions : List Action) (c d : CallId) : Prop :=
  (s.isInit c ∧ s.isInit d) ∨ LapsBehind actions c d ∨ LapsBehind actions d c

def SameKey (s : State) (c d : CallId) : Prop :=
  ∃ call other key, s.calls c = some call ∧ s.calls d = some other ∧
    call.key = some key ∧ other.key = some key

/-! ## Which id a call has -/

theorem ofNat_eq_iff {first second : Nat} (ordered : first ≤ second) :
    UInt32.ofNat (first + 1) = UInt32.ofNat (second + 1) ↔ 2 ^ 32 ∣ second - first := by
  rw [← UInt32.toNat_inj, UInt32.toNat_ofNat', UInt32.toNat_ofNat']
  omega

theorem draws_append (first second : List Action) :
    draws (first ++ second) = draws first + draws second := List.countP_append

theorem draws_useNextId (c : CallId) (actions : List Action) :
    draws (.useNextId c :: actions) = draws actions + 1 := by
  rw [draws, List.countP_cons_of_pos (by rfl)]
  rfl

/-- A call keeps the key it has. -/
theorem key_kept {s s' : State} {action : Action} {c : CallId} {call : Call} {key : Key}
    (inv : Consistent s) (taken : step s action = some s') (present : s.calls c = some call)
    (keyed : call.key = some key) : ∃ call', s'.calls c = some call' ∧ call'.key = some key := by
  obtain ⟨call', after, -⟩ := rank_after taken present
  refine ⟨call', after, ?_⟩
  cases evolves taken after with
  | same there =>
      rw [present] at there
      cases there
      exact keyed
  | started _ fresh _ => rw [present] at fresh; cases fresh
  | keyed _ there phase _ =>
      rw [present] at there
      cases there
      rw [inv.unkeyed c call present (.inr phase)] at keyed
      cases keyed
  | moved _ there _ call_eq | answered _ _ there _ _ _ call_eq =>
      rw [present] at there
      cases there
      rw [call_eq]
      exact keyed

/-- The id of a call is the number of the draw that gave it, whatever the number of draws. -/
structure Drawn (actions : List Action) (s : State) : Prop where
  next : s.nextReqId = UInt32.ofNat (draws actions + 1)
  split : ∀ c call id, s.calls c = some call → call.key = some (some id) →
    ∃ pre post, actions = pre ++ .useNextId c :: post ∧ id = UInt32.ofNat (draws pre + 1)
  keyed : ∀ c pre post, actions = pre ++ .useNextId c :: post →
    ∃ call, s.calls c = some call ∧ call.key = some (some (UInt32.ofNat (draws pre + 1)))

theorem drawn {limits : Limits} {actions : List Action} {s : State}
    (run : Run.exec step (State.new limits) actions = some s) : Drawn actions s := by
  refine Run.exec_induction (P := Drawn) ?_ ?_ actions s run
  · refine ⟨rfl, (fun _ _ _ present => by cases present), fun c pre post shape => ?_⟩
    simp at shape
  · intro actions s action s' before ih taken
    have inv := Consistent.of_exec before
    refine ⟨?_, ?_, ?_⟩
    · rw [nextReqId_after taken, ih.next, draws_snoc]
      cases action <;> simp [UInt32.ofNat_add]
    · intro c call id after key
      rcases key_after taken after key with ⟨old, present, key⟩ | ⟨rfl, rfl⟩
      · obtain ⟨pre, post, rfl, same⟩ := ih.split c old id present key
        exact ⟨pre, post ++ [action], by simp, same⟩
      · exact ⟨actions, [], rfl, ih.next⟩
    · intro c pre post shape
      rcases List.eq_nil_or_concat post with rfl | ⟨post, last, rfl⟩
      · -- the step is the draw itself
        obtain ⟨rfl, lastAction⟩ := List.append_inj' shape rfl
        cases lastAction
        cases stepped taken with
        | useNextId present phase =>
            exact ⟨_, State.setCall_same _ _ _, by rw [← ih.next]⟩
      · rw [List.concat_eq_append, ← List.cons_append, ← List.append_assoc] at shape
        obtain ⟨earlier, -⟩ := List.append_inj' shape rfl
        obtain ⟨call, present, key⟩ := ih.keyed c pre post earlier
        exact key_kept inv taken present key

/-- Two draws of one run, in the order in which they were made. -/
theorem draws_ordered {actions pre post pre' post' : List Action} {c d : CallId} (apart : c ≠ d)
    (at_c : actions = pre ++ .useNextId c :: post)
    (at_d : actions = pre' ++ .useNextId d :: post') :
    (∃ mid, actions = pre ++ .useNextId c :: (mid ++ .useNextId d :: post') ∧
        draws pre' = draws pre + draws mid + 1) ∨
      ∃ mid, actions = pre' ++ .useNextId d :: (mid ++ .useNextId c :: post) ∧
        draws pre = draws pre' + draws mid + 1 := by
  have order (first second later later' : List Action) (a b : CallId) (other : a ≠ b)
      (rest : List Action) (back : second = first ++ rest)
      (front : .useNextId a :: later = rest ++ .useNextId b :: later') :
      ∃ mid, later = mid ++ .useNextId b :: later' ∧
        draws second = draws first + draws mid + 1 := by
    cases rest with
    | nil =>
        cases front
        exact absurd rfl other
    | cons x mid =>
        obtain ⟨rfl, rfl⟩ := List.cons.inj front
        refine ⟨mid, rfl, ?_⟩
        rw [back, draws_append, draws_useNextId, Nat.add_assoc]
  rcases List.append_eq_append_iff.mp (at_c.symm.trans at_d) with
    ⟨rest, back, front⟩ | ⟨rest, back, front⟩
  · obtain ⟨mid, rfl, count⟩ := order pre pre' post post' c d apart rest back front
    exact .inl ⟨mid, at_c, count⟩
  · obtain ⟨mid, rfl, count⟩ := order pre' pre post' post d c apart.symm rest back front
    exact .inr ⟨mid, at_d, count⟩

/-- The counter has to wrap for ids to meet. -/
theorem LapsBehind.many {actions : List Action} {c d : CallId} (laps : LapsBehind actions c d) :
    2 ^ 32 < draws actions := by
  obtain ⟨pre, mid, post, rfl, wraps⟩ := laps
  have lap := Nat.le_of_dvd (Nat.succ_pos _) wraps
  simp only [draws_append, draws_useNextId]
  omega

/-! ## When two calls have one key -/

theorem sameKey_of_laps {actions : List Action} {s : State} {c d : CallId}
    (ids : Drawn actions s) (laps : LapsBehind actions c d) : SameKey s c d := by
  obtain ⟨pre, mid, post, shape, wraps⟩ := laps
  obtain ⟨call, present, key⟩ := ids.keyed c pre _ shape
  obtain ⟨other, present', key'⟩ := ids.keyed d (pre ++ .useNextId c :: mid) post
    (by rw [shape]; simp)
  have same : UInt32.ofNat (draws (pre ++ .useNextId c :: mid) + 1) =
      UInt32.ofNat (draws pre + 1) := by
    rw [draws_append, draws_useNextId, eq_comm, ofNat_eq_iff (Nat.le_add_right _ _),
      Nat.add_sub_cancel_left]
    exact wraps
  rw [same] at key'
  exact ⟨call, other, _, present, present', key, key'⟩

theorem SameKey.symm {s : State} {c d : CallId} (same : SameKey s c d) : SameKey s d c := by
  obtain ⟨call, other, key, present, present', key_c, key_d⟩ := same
  exact ⟨other, call, key, present', present, key_d, key_c⟩

theorem sameKey_iff_clash {limits : Limits} {actions : List Action} {s : State} {c d : CallId}
    (run : Run.exec step (State.new limits) actions = some s) (apart : c ≠ d) :
    SameKey s c d ↔ Clash s actions c d := by
  have inv := Consistent.of_exec run
  have ids := drawn run
  constructor
  · rintro ⟨call, other, key, present, present', key_c, key_d⟩
    cases key with
    | none =>
        exact .inl ⟨⟨call, present, (inv.initKey c call present).mp key_c⟩,
          other, present', (inv.initKey d other present').mp key_d⟩
    | some id =>
        obtain ⟨pre, post, shape, first⟩ := ids.split c call id present key_c
        obtain ⟨pre', post', shape', second⟩ := ids.split d other id present' key_d
        have same := first.symm.trans second
        rcases draws_ordered apart shape shape' with ⟨mid, order, count⟩ | ⟨mid, order, count⟩
        · refine .inr (.inl ⟨pre, mid, post', order, ?_⟩)
          rw [ofNat_eq_iff (by omega)] at same
          rwa [count, Nat.add_assoc, Nat.add_sub_cancel_left] at same
        · refine .inr (.inr ⟨pre', mid, post, order, ?_⟩)
          rw [eq_comm, ofNat_eq_iff (by omega)] at same
          rwa [count, Nat.add_assoc, Nat.add_sub_cancel_left] at same
  · rintro (⟨⟨call, present, init⟩, other, present', init'⟩ | laps | laps)
    · exact ⟨call, other, none, present, present', (inv.initKey c call present).mpr init,
        (inv.initKey d other present').mpr init'⟩
    · exact sameKey_of_laps ids laps
    · exact (sameKey_of_laps ids laps).symm

/-- In any run, two calls have the same key just when both are `init` or their ids are drawn a
multiple of 2^32 draws apart, and a call loses its entry to another call's insertion or cleanup
only if they are such a pair. -/
theorem shared_key_iff (limits : Limits) (actions : List Action) (s : State)
    (run : Run.exec step (State.new limits) actions = some s) :
    (∀ c d, c ≠ d → (SameKey s c d ↔ Clash s actions c d)) ∧
      ∀ action s' key d, step s action = some s' → s.requests key = some d →
        s'.requests key = some d ∨ action = .lookup key ∨ action = .cleanup d ∨
          ∃ c, c ≠ d ∧ (action = .insert c ∨ action = .cleanup c) ∧ Clash s actions c d := by
  refine ⟨fun c d apart => sameKey_iff_clash run apart, ?_⟩
  intro action s' key d taken entry
  obtain ⟨call, present, registered⟩ := (Consistent.of_exec run).entry key d entry
  rcases entry_after taken entry with kept | looked | ⟨c, other, at_c, key_c, why⟩
  · exact .inl kept
  · exact .inr (.inl looked)
  · right; right
    by_cases same : c = d
    · subst same
      rw [present] at at_c
      cases at_c
      rcases why with ⟨-, phase⟩ | ⟨cleans, -⟩
      · have late := registered.late
        rw [phase] at late
        cases late
      · exact .inl cleans
    · have shared : SameKey s c d := ⟨other, call, key, at_c, present, key_c, registered.key⟩
      refine .inr ⟨c, same, ?_, (sameKey_iff_clash run same).mp shared⟩
      rcases why with ⟨inserts, -⟩ | ⟨cleans, -⟩
      · exact .inl inserts
      · exact .inr cleans

/-! ## Runs in which calls meet -/

/-- A request up to the draw of its id. -/
def drawActions (c : CallId) : List Action :=
  [.start c (.request (.stat "")), .checkLimit c, .useNextId c]

/-- The rest of its way into the map and the queue. -/
def registerActions (c : CallId) : List Action := [.isClosed c, .insert c, .enqueue c]

/-- Two requests in a row. -/
theorem shared_key_iff_two :
    ∃ s, Run.exec step (State.new Limits.default) (drawActions 0 ++ drawActions 1) = some s ∧
      ¬ SameKey s 0 1 := by
  refine ⟨_, rfl, fun same => ?_⟩
  rcases ((shared_key_iff Limits.default (drawActions 0 ++ drawActions 1) _ rfl).1 0 1
    (by decide)).mp same with ⟨⟨call, present, init⟩, -⟩ | laps | laps
  · cases present
    cases init
  · exact absurd laps.many (by decide)
  · exact absurd laps.many (by decide)

/-- A request that is waiting under the first id, and the number of requests since. -/
structure Overtaken (n : Nat) (s : State) : Prop where
  next : s.nextReqId = UInt32.ofNat (n + 2)
  running : s.writer = .running
  fresh : ∀ c, n < c → s.calls c = none
  first : s.calls 0 = some ⟨.request (.stat ""), some (some 1), .recv, none⟩
  entry : s.requests (some 1) = some 0

theorem exec_register {s : State} {c : CallId} (fresh : s.calls c = none)
    (running : s.writer = .running) :
    ∃ t, Run.exec step s (drawActions c ++ registerActions c) = some t ∧
      t.nextReqId = s.nextReqId + 1 ∧ t.writer = .running ∧
      t.calls = Function.update s.calls c
        (some ⟨.request (.stat ""), some (some s.nextReqId), .recv, none⟩) ∧
      t.requests = Function.update s.requests (some s.nextReqId) (some c) := by
  obtain ⟨bytes, encoded⟩ : ∃ bytes, (Packet.stat ⟨s.nextReqId, ""⟩).toBytes = .ok bytes :=
    ⟨_, Packet.toBytes_eq _⟩
  simp [drawActions, registerActions, Run.exec, step, callStep, fresh, running, Call.new,
    Job.firstPhase, Job.key, Job.packet, Request.operation, Operation.stat, State.isClosed,
    encoded, State.setCall, State.setRequest]

/-- One more request, which gives up before the first one does. -/
theorem Overtaken.more {n : Nat} {s : State} (past : Overtaken n s) (few : n + 1 < 2 ^ 32) :
    ∃ t, Run.exec step s (drawActions (n + 1) ++ registerActions (n + 1) ++
      [.elapse (n + 1), .cleanup (n + 1)]) = some t ∧ Overtaken (n + 1) t := by
  obtain ⟨t, run, next, running, calls, requests⟩ :=
    exec_register (past.fresh (n + 1) (Nat.lt_succ_self n)) past.running
  have other : (some 1 : Key) ≠ some s.nextReqId := by
    rw [past.next]
    exact fun same => ofNat_ne (j := 0) (n := n + 1) (Nat.succ_pos n) few (Option.some.inj same)
  have present : t.calls (n + 1) =
      some ⟨.request (.stat ""), some (some s.nextReqId), .recv, none⟩ := by
    rw [calls, Function.update_self]
  refine ⟨(t.setRequest (some s.nextReqId) none).setCall (n + 1)
    ⟨.request (.stat ""), some (some s.nextReqId), .finished (.error .timeout), none⟩,
    ?_, ?_, running, ?_, ?_, ?_⟩
  · rw [Run.exec_append, run]
    simp [Run.exec, step, callStep, present, State.setCall, State.setRequest]
  · rw [State.setCall_nextReqId, State.setRequest_nextReqId, next, past.next]
    simp [UInt32.ofNat_add, add_assoc]
  · intro c later
    have apart : c ≠ n + 1 := Nat.ne_of_gt later
    rw [State.setCall_other _ _ apart, State.setRequest_calls, calls,
      Function.update_of_ne apart]
    exact past.fresh c (Nat.lt_of_succ_lt later)
  · have apart : 0 ≠ n + 1 := (Nat.succ_ne_zero n).symm
    rw [State.setCall_other _ _ apart, State.setRequest_calls, calls,
      Function.update_of_ne apart]
    exact past.first
  · rw [State.setCall_requests, State.setRequest_requests, if_neg other, requests,
      Function.update_of_ne other]
    exact past.entry

theorem exec_overtaken (n : Nat) (few : n < 2 ^ 32) :
    ∃ actions s, Run.exec step (State.new Limits.default) actions = some s ∧ Overtaken n s := by
  induction n with
  | zero =>
      obtain ⟨t, run, next, running, calls, requests⟩ :=
        exec_register (s := State.new Limits.default) (c := 0) rfl rfl
      refine ⟨_, t, run, next, running, ?_, ?_, ?_⟩
      · intro c later
        rw [calls, Function.update_of_ne (Nat.pos_iff_ne_zero.mp later)]
        rfl
      · rw [calls, Function.update_self]
        rfl
      · rw [requests]
        exact Function.update_self ..
  | succ n ih =>
      obtain ⟨actions, s, run, past⟩ := ih (by omega)
      obtain ⟨t, more, further⟩ := past.more few
      refine ⟨actions ++ (drawActions (n + 1) ++ registerActions (n + 1) ++
        [.elapse (n + 1), .cleanup (n + 1)]), t, ?_, further⟩
      rw [Run.exec_append, run]
      exact more

/-- Two `init` that wait together, and two requests that wait together with one id: each time
the second call has taken the entry of the first. -/
theorem waiting_calls_share_key :
    (∃ s, Run.exec step (State.new Limits.default)
        [.start 0 .init, .isClosed 0, .insert 0, .enqueue 0, .start 1 .init, .isClosed 1,
          .insert 1, .enqueue 1] = some s ∧
        s.calls 0 = some ⟨.init, some none, .recv, none⟩ ∧
        s.calls 1 = some ⟨.init, some none, .recv, none⟩ ∧ s.requests none = some 1) ∧
      ∃ actions s, Run.exec step (State.new Limits.default) actions = some s ∧
        s.calls 0 = some ⟨.request (.stat ""), some (some 1), .recv, none⟩ ∧
        s.calls (2 ^ 32) = some ⟨.request (.stat ""), some (some 1), .recv, none⟩ ∧
        s.requests (some 1) = some (2 ^ 32) := by
  refine ⟨⟨_, rfl, rfl, rfl, rfl⟩, ?_⟩
  obtain ⟨actions, s, run, past⟩ := exec_overtaken (2 ^ 32 - 1) (by omega)
  obtain ⟨t, more, -, -, calls, requests⟩ :=
    exec_register (c := 2 ^ 32) (past.fresh (2 ^ 32) (by omega)) past.running
  have wrapped : s.nextReqId = 1 := by
    rw [past.next, ← UInt32.toNat_inj, UInt32.toNat_ofNat']
    rfl
  rw [wrapped] at calls requests
  refine ⟨actions ++ (drawActions (2 ^ 32) ++ registerActions (2 ^ 32)), t, ?_, ?_, ?_, ?_⟩
  · rw [Run.exec_append, run]
    exact more
  · rw [calls, Function.update_of_ne (Nat.two_pow_pos 32).ne]
    exact past.first
  · rw [calls, Function.update_self]
  · rw [requests, Function.update_self]

end RusshSftp.Client
