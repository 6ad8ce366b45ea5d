import RusshSftp.Client.Senders

/-!
# What the calls of a session have left to do

A call takes a handful of steps and ends.  Each of its steps raises its rank, and one step of it
is possible at any time, but for the wait for its reply.
-/

set_option autoImplicit false

namespace RusshSftp.Client

/-! ## Ids and calls -/

/-- The calls that a run starts. -/
def starts (actions : List Action) : List CallId :=
  actions.filterMap fun
    | .start c _ => some c
    | _ => none

/-- The calls that draw their ids in a run. -/
def drawers (actions : List Action) : List CallId :=
  actions.filterMap fun
    | .useNextId c => some c
    | _ => none

theorem drawers_length (actions : List Action) : (drawers actions).length = draws actions := by
  rw [drawers, List.length_filterMap_eq_countP, draws]
  refine List.countP_congr fun action _ => ?_
  cases action <;> simp

theorem drawers_snoc (actions : List Action) (action : Action) :
    drawers (actions ++ [action]) =
      drawers actions ++ (match action with | .useNextId c => [c] | _ => []) := by
  rw [drawers, List.filterMap_append]
  cases action <;> rfl

/-- A call draws one id. -/
theorem drawers_nodup {limits : Limits} {actions : List Action} {s : State}
    (run : Run.exec step (State.new limits) actions = some s) :
    (drawers actions).Nodup ∧ ∀ c ∈ drawers actions, ∃ call, s.calls c = some call ∧
      2 ≤ call.phase.rank := by
  refine Run.exec_induction (P := fun actions s => (drawers actions).Nodup ∧
    ∀ c ∈ drawers actions, ∃ call, s.calls c = some call ∧ 2 ≤ call.phase.rank)
    ⟨List.nodup_nil, fun c member => by cases member⟩ ?_ actions s run
  intro actions s action s' _ ⟨once, late⟩ taken
  have later : ∀ c ∈ drawers actions, ∃ call, s'.calls c = some call ∧ 2 ≤ call.phase.rank := by
    intro c member
    obtain ⟨call, present, far⟩ := late c member
    obtain ⟨call', after, further⟩ := rank_after taken present
    exact ⟨call', after, far.trans further⟩
  rw [drawers_snoc]
  cases stepped taken with
  | @useNextId c call present phase =>
      refine ⟨List.nodup_append.mpr ⟨once, List.nodup_singleton _, ?_⟩, ?_⟩
      · rintro d member _ single rfl
        obtain ⟨other, at_d, far⟩ := late d member
        rw [List.mem_singleton.mp single, present] at at_d
        cases at_d
        rw [phase] at far
        simp [Phase.rank] at far
      · intro d member
        rcases List.mem_append.mp member with earlier | now
        · exact later d earlier
        · rw [List.mem_singleton.mp now]
          exact ⟨_, State.setCall_same _ _ _, le_rfl⟩
  | _ => exact ⟨by simpa using once, by simpa using later⟩

theorem draws_le_starts {limits : Limits} {actions : List Action} {s : State}
    (run : Run.exec step (State.new limits) actions = some s) :
    draws actions ≤ (starts actions).length := by
  obtain ⟨once, late⟩ := drawers_nodup run
  rw [← drawers_length]
  refine (once.subperm fun c member => ?_).length_le
  obtain ⟨call, present, _⟩ := late c member
  exact List.mem_filterMap.mpr ⟨_, call_started run c call present, rfl⟩

/-! ## The next step of a call -/

/-- What a call has at hand in each phase. -/
structure Phased (s : State) : Prop where
  limited : ∀ c call, s.calls c = some call → call.phase = .checkLimit →
    ∃ r, call.job = .request r
  keyed : ∀ c call, s.calls c = some call → 2 ≤ call.phase.rank → call.phase.inFlight = true →
    ∃ key, call.key = some key

theorem Phased.new (limits : Limits) : Phased (State.new limits) where
  limited _ _ present := by cases present
  keyed _ _ present := by cases present

theorem Phased.step {s s' : State} {action : Action} (phased : Phased s)
    (taken : Client.step s action = some s') : Phased s' := by
  have moves {d : CallId} {new : Call} (calls : s'.calls = (s.setCall d new).calls)
      (limited : new.phase = .checkLimit → ∃ r, new.job = .request r)
      (keyed : 2 ≤ new.phase.rank → new.phase.inFlight = true → ∃ key, new.key = some key) :
      Phased s' := by
    refine ⟨fun c call present phase => ?_, fun c call present late flying => ?_⟩
    · rw [calls, State.setCall_calls] at present
      split at present
      · cases present
        exact limited phase
      · exact phased.limited c call present phase
    · rw [calls, State.setCall_calls] at present
      split at present
      · cases present
        exact keyed late flying
      · exact phased.keyed c call present late flying
  cases stepped taken with
  | @start c job fresh =>
      refine moves rfl ?_ ?_ <;> cases job <;> simp [Call.new, Job.firstPhase, Job.key, Phase.rank]
  | limited | closed | notEncoded | notSent | cleanup | complete | drop =>
      exact moves rfl (by simp) (by simp [Phase.inFlight])
  | unlimited => exact moves rfl (by simp) (by simp [Phase.rank])
  | useNextId => exact moves rfl (by simp) fun _ _ => ⟨_, rfl⟩
  | insert present phase keyed => exact moves rfl (by simp) fun _ _ => ⟨_, keyed⟩
  | enqueue present phase keyed => exact moves rfl (by simp) fun _ _ => ⟨_, keyed⟩
  | opened present phase | recv present phase | recvNone present phase | elapse present phase =>
      have keyed := phased.keyed _ _ present (by rw [phase]; simp [Phase.rank]) (by rw [phase]; rfl)
      exact moves rfl (by simp) fun _ _ => keyed
  | delivered busy present =>
      have limited := phased.limited _ _ present
      have keyed := phased.keyed _ _ present
      exact moves rfl limited keyed
  | _ => exact ⟨phased.limited, phased.keyed⟩

theorem Phased.of_exec {limits : Limits} {actions : List Action} {s : State}
    (run : Run.exec Client.step (State.new limits) actions = some s) : Phased s :=
  (Run.along_of_keeps (new limits) (fun _ _ _ phased taken => phased.step taken) actions).last run

/-- A step of a call takes it on. -/
theorem rank_lt {s s' : State} {action : Action} {c : CallId} {call : Call}
    (own : action.call? = some c) (taken : step s action = some s')
    (present : s.calls c = some call) :
    ∃ call', s'.calls c = some call' ∧ call.phase.rank < call'.phase.rank := by
  cases stepped taken with
  | limited at_c phase | unlimited at_c phase | useNextId at_c phase | closed at_c phase
  | opened at_c phase | insert at_c phase | notEncoded at_c phase | notSent at_c phase
  | enqueue at_c phase | recv at_c phase | recvNone at_c phase | elapse at_c phase
  | cleanup at_c phase | complete at_c phase | drop at_c phase =>
      cases own
      rw [present] at at_c
      cases at_c
      exact ⟨_, State.setCall_same _ _ _, by rw [phase]; simp [Phase.rank]⟩
  | _ => cases own

/-- A call that does not wait for its reply has a step to take. -/
theorem exists_step {s : State} {c : CallId} {call : Call} (phased : Phased s)
    (present : s.calls c = some call) (flying : call.phase.inFlight = true)
    (other : call.phase ≠ .recv) :
    ∃ action s', action.call? = some c ∧ step s action = some s' ∧
      action ≠ .elapse c ∧ action ≠ .drop c := by
  have keyed (late : 2 ≤ call.phase.rank) : ∃ key, call.key = some key :=
    phased.keyed c call present late flying
  have found {action : Action} (own : action.call? = some c)
      (possible : (step s action).isSome = true) (calm : action ≠ .elapse c ∧ action ≠ .drop c) :
      ∃ action s', action.call? = some c ∧ step s action = some s' ∧
        action ≠ .elapse c ∧ action ≠ .drop c := by
    obtain ⟨s', taken⟩ := Option.isSome_iff_exists.mp possible
    exact ⟨action, s', own, taken, calm⟩
  cases phase : call.phase with
  | checkLimit =>
      obtain ⟨r, job⟩ := phased.limited c call present phase
      refine found (rfl : (Action.checkLimit c).call? = some c) ?_ (by simp)
      cases reached : r.operation.limited s.limits s.handles <;>
        simp [step, present, callStep, phase, job, reached]
  | useNextId =>
      exact found (rfl : (Action.useNextId c).call? = some c)
        (by simp [step, present, callStep, phase]) (by simp)
  | isClosed =>
      refine found (rfl : (Action.isClosed c).call? = some c) ?_ (by simp)
      cases closed : s.isClosed <;> simp [step, present, callStep, phase, closed]
  | insert =>
      obtain ⟨key, key_eq⟩ := keyed (by rw [phase]; simp [Phase.rank])
      exact found (rfl : (Action.insert c).call? = some c)
        (by simp [step, present, callStep, phase, key_eq]) (by simp)
  | enqueue =>
      obtain ⟨key, key_eq⟩ := keyed (by rw [phase]; simp [Phase.rank])
      refine found (rfl : (Action.enqueue c).call? = some c) ?_ (by simp)
      cases encoded : (call.job.packet key).toBytes with
      | error err => simp [step, present, callStep, phase, key_eq, encoded]
      | ok bytes =>
          cases closed : s.isClosed <;>
            simp [step, present, callStep, phase, key_eq, encoded, closed]
  | recv => exact absurd phase other
  | cleanup err =>
      obtain ⟨key, key_eq⟩ := keyed (by rw [phase]; simp [Phase.rank])
      exact found (rfl : (Action.cleanup c).call? = some c)
        (by simp [step, present, callStep, phase, key_eq]) (by simp)
  | complete result =>
      exact found (rfl : (Action.complete c).call? = some c)
        (by simp [step, present, callStep, phase]) (by simp)
  | finished result => rw [phase] at flying; cases flying
  | dropped => rw [phase] at flying; cases flying

end RusshSftp.Client
