import RusshSftp.Client.Correlation

/-!
# The limit on open handles

`open` and `opendir` compare the counter of open handles with the limit when they are called,
and add to it when their reply is there.  The bound holds over runs in which each of them
finds room for itself and for those that are still on their way.
-/

set_option autoImplicit false

namespace RusshSftp.Client

/-- The call asks for a handle. -/
def Call.opens (call : Call) : Bool :=
  match call.job with
  | .request (.open ..) | .request (.opendir ..) => true
  | _ => false

/-- The handle that the call closes. -/
def Call.closes? (call : Call) : Option String :=
  match call.job with
  | .request (.close handle) => some handle
  | _ => none

/-- The calls that have passed the limit check and are on their way to a handle. -/
def Opening (s : State) : Set CallId :=
  { c | ∃ call, s.calls c = some call ∧ call.opens = true ∧ 0 < call.phase.rank ∧
    call.phase.inFlight = true }

/-- The handles granted to callers and not successfully closed, after an action. -/
def grantedAfter (s : State) (granted : List String) : Action → List String
  | .complete c =>
      match s.calls c with
      | none => granted
      | some call =>
          match call.phase with
          | .complete (.ok (.handle p)) => if call.opens then p.handle :: granted else granted
          | .complete (.ok (.status p)) =>
              match call.closes? with
              | some handle => if p.statusCode = .ok then granted.erase handle else granted
              | none => granted
          | _ => granted
  | _ => granted

/-- The session with a record of the granted handles beside it. -/
structure Observed where
  session : State
  granted : List String

def observe (o : Observed) (action : Action) : Option Observed :=
  (step o.session action).map fun s => ⟨s, grantedAfter o.session o.granted action⟩

/-- `CLOSE` is answered with `Ok` only for a handle that is granted and not closed. -/
def ClosesLive (o : Observed) (action : Action) : Prop :=
  ∀ c call handle p, action = .complete c → o.session.calls c = some call →
    call.closes? = some handle → call.phase = .complete (.ok (.status p)) → p.statusCode = .ok →
    handle ∈ o.granted

/-- An `open` or `opendir` that passes the check finds room beside the granted handles and
the calls that are on their way to one. -/
def ChecksWithRoom (h : UInt64) (o : Observed) (action : Action) : Prop :=
  ∀ c call, action = .checkLimit c → o.session.calls c = some call → call.opens = true →
    o.session.handles < h → o.granted.length + (Opening o.session).ncard < h.toNat

structure Bounded (h : UInt64) (o : Observed) : Prop where
  limit : o.session.limits.openHandles = some h
  counter : o.session.handles.toNat = o.granted.length
  finite : (Opening o.session).Finite
  room : o.granted.length + (Opening o.session).ncard ≤ h.toNat

/-! ## What a step does to the counter -/

theorem limits_after {s s' : State} {action : Action} (taken : step s action = some s') :
    s'.limits = s.limits := by
  cases stepped taken <;> rfl

theorem handles_after {s s' : State} {action : Action} (taken : step s action = some s')
    (other : ∀ c, action ≠ .complete c) : s'.handles = s.handles := by
  cases stepped taken with
  | complete => exact absurd rfl (other _)
  | _ => rfl

theorem granted_after {s : State} {granted : List String} {action : Action}
    (other : ∀ c, action ≠ .complete c) : grantedAfter s granted action = granted := by
  cases action with
  | complete c => exact absurd rfl (other c)
  | _ => rfl

theorem checkLimit_of_phase {s s' : State} {action : Action} {c : CallId} {call : Call}
    (taken : step s action = some s') (own : action.call? = some c)
    (present : s.calls c = some call) (phase : call.phase = .checkLimit) :
    action = .checkLimit c := by
  obtain ⟨there, at_c, moved⟩ := step_of_call own taken
  rw [present] at at_c
  cases at_c
  cases action with
  | checkLimit d => cases own; rfl
  | _ => simp [callStep, phase] at moved

theorem job_kept {s s' : State} {action : Action} {c : CallId} {call call' : Call}
    (taken : step s action = some s') (present : s.calls c = some call)
    (after : s'.calls c = some call') : call'.job = call.job := by
  cases evolves taken after with
  | same there =>
      rw [present] at there
      cases there
      rfl
  | started _ fresh _ => rw [present] at fresh; cases fresh
  | keyed _ there _ call_eq | moved _ there _ call_eq | answered _ _ there _ _ _ call_eq =>
      rw [present] at there
      cases there
      rw [call_eq]

/-- A call gets among those on their way by the limit check only. -/
theorem opening_before {s s' : State} {action : Action} {c : CallId}
    (taken : step s action = some s') (opening : c ∈ Opening s') :
    c ∈ Opening s ∨ action = .checkLimit c := by
  obtain ⟨call', after, opens, past, flying⟩ := opening
  cases evolves taken after with
  | same present => exact .inl ⟨call', present, opens, past, flying⟩
  | started _ _ call_eq =>
      rename_i job _ _
      rw [call_eq] at opens past
      cases job with
      | init => cases opens
      | request r => simp [Call.new, Job.firstPhase, Phase.rank] at past
  | keyed _ present phase call_eq =>
      rw [call_eq] at opens
      exact .inl ⟨_, present, opens, by rw [phase]; decide, by rw [phase]; rfl⟩
  | answered _ _ present _ _ _ call_eq =>
      rw [call_eq] at opens past flying
      exact .inl ⟨_, present, opens, past, flying⟩
  | moved own present ahead call_eq =>
      rw [call_eq] at opens flying
      rename_i call phase
      by_cases past : 0 < call.phase.rank
      · exact .inl ⟨call, present, opens, past,
          (Phase.inFlight_iff _).mpr (ahead.trans ((Phase.inFlight_iff _).mp flying))⟩
      · refine .inr (checkLimit_of_phase taken own present ?_)
        cases at_c : call.phase <;> rw [at_c] at past <;> simp [Phase.rank] at past

/-- The calls that ask for a handle are checked against the limit. -/
theorem limited_of_opens {r : Request} {limits : Limits} {handles h : UInt64}
    (opens : Call.opens ⟨.request r, none, .checkLimit, none⟩ = true)
    (limit : limits.openHandles = some h) (free : r.operation.limited limits handles = none) :
    handles < h := by
  have below : ∀ message, exceeds limits.openHandles message (fun h => handles ≥ h) = none →
      handles < h := by
    intro message passed
    simp only [exceeds, limit, Option.any_some] at passed
    by_cases full : handles ≥ h
    · simp [full] at passed
    · exact UInt64.not_le.mp full
  cases r with
  | «open» => exact below _ free
  | opendir => exact below _ free
  | _ => cases opens

/-- A completed call that neither asks for a handle nor closes one leaves the counter. -/
theorem counted_other {job : Job} {handles : UInt64} {result : SftpResult Packet}
    (opens : Call.opens ⟨job, none, .checkLimit, none⟩ = false)
    (closes : Call.closes? ⟨job, none, .checkLimit, none⟩ = none) :
    job.counted result handles = handles := by
  cases job with
  | init => rfl
  | request r =>
      cases result with
      | error err => rfl
      | ok packet =>
          cases r with
          | «open» | opendir => cases opens
          | close => cases closes
          | _ => rfl

theorem closes_of_opens {call : Call} (opens : call.opens = true) : call.closes? = none := by
  obtain ⟨job, _, _, _⟩ := call
  cases job with
  | init => cases opens
  | request r => cases r <;> first | rfl | cases opens

theorem counted_opens {job : Job} {handles : UInt64} {result : SftpResult Packet}
    (opens : Call.opens ⟨job, none, .checkLimit, none⟩ = true) :
    job.counted result handles =
      match result with
      | .ok (.handle _) => handles + 1
      | _ => handles := by
  cases job with
  | init => cases opens
  | request r =>
      cases r with
      | «open» | opendir =>
          cases result with
          | error err => rfl
          | ok packet => cases packet <;> rfl
      | _ => cases opens

theorem counted_closes {job : Job} {handles : UInt64} {result : SftpResult Packet}
    {handle : String} (closes : Call.closes? ⟨job, none, .checkLimit, none⟩ = some handle) :
    job.counted result handles =
      match result with
      | .ok (.status p) =>
          if p.statusCode = .ok then (if handles > 0 then handles - 1 else handles) else handles
      | _ => handles := by
  cases job with
  | init => cases closes
  | request r =>
      cases r with
      | close =>
          cases result with
          | error err => rfl
          | ok packet => cases packet <;> rfl
      | _ => cases closes

/-- The counter follows the granted handles, if no `CLOSE` is answered with `Ok` out of turn. -/
theorem counter_complete {h : UInt64} {o : Observed} {c : CallId} {call : Call}
    {result : SftpResult Packet} (inv : Bounded h o) (live : ClosesLive o (.complete c))
    (present : o.session.calls c = some call) (phase : call.phase = .complete result) :
    (call.job.counted result o.session.handles).toNat =
        (grantedAfter o.session o.granted (.complete c)).length ∧
      (grantedAfter o.session o.granted (.complete c)).length ≤
        o.granted.length + (if call.opens then 1 else 0) := by
  have counter := inv.counter
  have small := o.session.handles.toNat_lt
  cases opens : call.opens with
  | true =>
      have closes := closes_of_opens opens
      have here : c ∈ Opening o.session :=
        ⟨call, present, opens, by rw [phase]; simp [Phase.rank], by rw [phase]; rfl⟩
      have some_room : 0 < (Opening o.session).ncard :=
        (Set.ncard_pos inv.finite).mpr ⟨c, here⟩
      have room := inv.room
      have bound := h.toNat_lt
      rw [counted_opens opens]
      simp only [grantedAfter, present, phase, closes, opens, if_true]
      cases result with
      | error err => exact ⟨counter, Nat.le_succ _⟩
      | ok packet =>
          cases packet with
          | handle p =>
              refine ⟨?_, le_rfl⟩
              rw [UInt64.toNat_add, List.length_cons, counter]
              exact Nat.mod_eq_of_lt (show o.granted.length + 1 < 2 ^ 64 by omega)
          | _ => exact ⟨counter, Nat.le_succ _⟩
  | false =>
      cases closes : call.closes? with
      | none =>
          rw [counted_other opens closes]
          simp only [grantedAfter, present, phase, closes, opens, Bool.false_eq_true, if_false]
          cases result with
          | error err => exact ⟨counter, le_rfl⟩
          | ok packet => cases packet <;> exact ⟨counter, le_rfl⟩
      | some handle =>
          rw [counted_closes closes]
          simp only [grantedAfter, present, phase, closes, opens, Bool.false_eq_true, if_false]
          cases result with
          | error err => exact ⟨counter, le_rfl⟩
          | ok packet =>
              cases packet with
              | status p =>
                  by_cases ok : p.statusCode = .ok
                  · have member := live c call handle p rfl present closes phase ok
                    have nonempty := List.length_pos_of_mem member
                    have positive : o.session.handles > 0 := by
                      rw [gt_iff_lt, UInt64.lt_iff_toNat_lt, counter]
                      exact nonempty
                    simp only [ok, if_true, positive]
                    rw [List.length_erase_of_mem member]
                    refine ⟨?_, Nat.sub_le _ _⟩
                    rw [UInt64.toNat_sub_of_le _ _ (by
                      rw [UInt64.le_iff_toNat_le, counter]
                      exact nonempty), counter]
                    rfl
                  · simp only [ok, if_false]
                    exact ⟨counter, le_rfl⟩
              | _ => exact ⟨counter, le_rfl⟩

/-- A passed check has found the counter below the limit. -/
theorem checked {h : UInt64} {s s' : State} {c : CallId} {call : Call}
    (taken : step s (.checkLimit c) = some s') (limit : s.limits.openHandles = some h)
    (present : s.calls c = some call) (opens : call.opens = true) (passed : c ∈ Opening s') :
    s.handles < h := by
  cases stepped taken with
  | limited there phase job reached =>
      obtain ⟨call', after, _, _, flying⟩ := passed
      rw [State.setCall_same] at after
      cases after
      cases flying
  | unlimited there phase job free =>
      rw [present] at there
      cases there
      refine limited_of_opens ?_ limit free
      simpa only [Call.opens, job] using opens

theorem Bounded.complete {h : UInt64} {o : Observed} {c : CallId} {s' : State}
    (inv : Bounded h o) (live : ClosesLive o (.complete c))
    (moved : Client.step o.session (.complete c) = some s') :
    Bounded h ⟨s', grantedAfter o.session o.granted (.complete c)⟩ := by
  have subset : Opening s' ⊆ Opening o.session := by
    intro d opening
    exact (opening_before moved opening).resolve_right fun same => by cases same
  have finite := inv.finite.subset subset
  have limits := limits_after moved
  have room := inv.room
  cases stepped moved with
  | complete present phase =>
      rename_i call result
      obtain ⟨counter, grown⟩ := counter_complete inv live present phase
      refine ⟨inv.limit, counter, finite, ?_⟩
      have fewer : ∀ t : State, t.calls = (o.session.setCall c
          { call with phase := .finished result }).calls → c ∉ Opening t := by
        rintro t calls ⟨call', after, _, _, flying⟩
        rw [calls, State.setCall_same] at after
        cases after
        cases flying
      cases opens : call.opens with
      | false =>
          have less := Set.ncard_le_ncard subset inv.finite
          rw [opens] at grown
          simp only [Bool.false_eq_true, if_false] at grown
          exact le_trans (Nat.add_le_add grown less) room
      | true =>
          have here : c ∈ Opening o.session :=
            ⟨call, present, opens, by rw [phase]; simp [Phase.rank], by rw [phase]; rfl⟩
          have less := Set.ncard_lt_ncard
            (Set.ssubset_iff_of_subset subset |>.mpr ⟨c, here, fewer _ rfl⟩) inv.finite
          rw [opens] at grown
          simp only [if_true] at grown
          simp only at grown less ⊢
          omega

theorem Bounded.step {h : UInt64} {o o' : Observed} {action : Action} (inv : Bounded h o)
    (room : ChecksWithRoom h o action) (live : ClosesLive o action)
    (taken : observe o action = some o') : Bounded h o' := by
  obtain ⟨s', moved, rfl⟩ := Option.map_eq_some_iff.mp taken
  by_cases completes : ∃ c, action = .complete c
  · obtain ⟨c, rfl⟩ := completes
    exact inv.complete live moved
  · rw [not_exists] at completes
    have limits := limits_after moved
    have handles := handles_after moved completes
    rw [granted_after completes]
    by_cases passes : ∃ c, action = .checkLimit c ∧ c ∈ Opening s' ∧ c ∉ Opening o.session
    · obtain ⟨c, rfl, passed, new⟩ := passes
      obtain ⟨call, present, _⟩ := step_of_call rfl moved
      have opens : call.opens = true := by
        obtain ⟨call', after, opens, _⟩ := passed
        rw [← opens, Call.opens, Call.opens, job_kept moved present after]
      have below := checked moved inv.limit present opens passed
      have enough := room c call rfl present opens below
      have subset : Opening s' ⊆ insert c (Opening o.session) := by
        intro d opening
        rcases opening_before moved opening with old | same
        · exact Set.mem_insert_of_mem _ old
        · cases same
          exact Set.mem_insert _ _
      have finite := (inv.finite.insert c)
      have more := (Set.ncard_le_ncard subset finite).trans (Set.ncard_insert_le c _)
      exact ⟨limits ▸ inv.limit, handles ▸ inv.counter, finite.subset subset, by
        simp only at more ⊢
        omega⟩
    · have subset : Opening s' ⊆ Opening o.session := by
        intro d opening
        rcases opening_before moved opening with old | same
        · exact old
        · by_contra new
          exact passes ⟨d, same, opening, new⟩
      exact ⟨limits ▸ inv.limit, handles ▸ inv.counter, inv.finite.subset subset,
        le_trans (Nat.add_le_add_left (Set.ncard_le_ncard subset inv.finite) _) inv.room⟩

/-- In a run in which every `open` and `opendir` finds room when it is checked, and no
`CLOSE` succeeds for a handle that is not held, the limit is never exceeded. -/
theorem handles_within_limit (limits : Limits) (h : UInt64) (limit : limits.openHandles = some h)
    (actions : List Action)
    (live : Run.Meets observe ClosesLive ⟨State.new limits, []⟩ actions)
    (room : Run.Meets observe (ChecksWithRoom h) ⟨State.new limits, []⟩ actions) :
    Run.Along observe (fun o => o.granted.length ≤ h.toNat) ⟨State.new limits, []⟩ actions := by
  have start : Bounded h ⟨State.new limits, []⟩ := by
    have empty : Opening (State.new limits) = ∅ := by
      ext c
      simp [Opening, State.new]
    refine ⟨limit, rfl, ?_, ?_⟩
    · rw [empty]
      exact Set.finite_empty
    · rw [empty, Set.ncard_empty]
      exact Nat.zero_le _
  have both : Run.Meets observe (fun o action => ChecksWithRoom h o action ∧ ClosesLive o action)
      ⟨State.new limits, []⟩ actions := fun before action after s shape run =>
    ⟨room before action after s shape run, live before action after s shape run⟩
  have bounded : Run.Along observe (Bounded h) ⟨State.new limits, []⟩ actions :=
    Run.along_of_meets start (fun _ _ _ inv meets taken => inv.step meets.1 meets.2 taken) both
  intro before after o shape run
  exact le_trans (Nat.le_add_right _ _) (bounded before after o shape run).room

/-! ## Runs that are computed -/

theorem observe_session {o o' : Observed} {actions : List Action}
    (run : Run.exec observe o actions = some o') :
    Run.exec step o.session actions = some o'.session := by
  refine Run.exec_project (f := Observed.session) ?_ run
  intro u action u' taken
  obtain ⟨s', moved, rfl⟩ := Option.map_eq_some_iff.mp taken
  exact moved

def closesLive (o : Observed) : Action → Bool
  | .complete c =>
      match o.session.calls c with
      | none => true
      | some call =>
          match call.closes?, call.phase with
          | some handle, .complete (.ok (.status p)) =>
              p.statusCode != .ok || o.granted.contains handle
          | _, _ => true
  | _ => true

theorem closesLive_of_check {o : Observed} {action : Action} (live : closesLive o action = true) :
    ClosesLive o action := by
  rintro c call handle p rfl present closes phase ok
  simpa [closesLive, present, closes, phase, ok] using live

/-- Those of these calls that are on their way to a handle. -/
def openingAmong (s : State) (calls : List CallId) : List CallId :=
  calls.filter fun c => (s.calls c).any fun call =>
    call.opens && decide (0 < call.phase.rank) && call.phase.inFlight

theorem ncard_opening_le {s : State} {calls : List CallId}
    (all : ∀ c call, s.calls c = some call → c ∈ calls) :
    (Opening s).ncard ≤ (openingAmong s calls).length := by
  have among : Opening s ⊆ ↑(openingAmong s calls).toFinset := by
    rintro c ⟨call, present, opens, past, flying⟩
    simp [openingAmong, all c call present, present, opens, past, flying]
  calc (Opening s).ncard
      ≤ (↑(openingAmong s calls).toFinset : Set CallId).ncard :=
        Set.ncard_le_ncard among (Finset.finite_toSet _)
    _ = (openingAmong s calls).toFinset.card := Set.ncard_coe_finset _
    _ ≤ (openingAmong s calls).length := List.toFinset_card_le _

def findsRoom (h : UInt64) (calls : List CallId) (o : Observed) : Action → Bool
  | .checkLimit c =>
      !(o.session.calls c).any Call.opens ||
        decide (o.granted.length + (openingAmong o.session calls).length < h.toNat)
  | _ => true

/-- The condition on a run whose calls are these. -/
theorem checksWithRoom_of_check {limits : Limits} {h : UInt64} {actions : List Action}
    (calls : List CallId) (all : ∀ c job, .start c job ∈ actions → c ∈ calls)
    (computed : Run.checks observe (findsRoom h calls) ⟨State.new limits, []⟩ actions = true) :
    Run.Meets observe (ChecksWithRoom h) ⟨State.new limits, []⟩ actions := by
  rintro before action after o rfl run c call rfl present opens below
  have room := Run.meets_of_checks (fun _ _ => id) computed before _ after o rfl run
  simp only [findsRoom, present, Option.any_some, opens, Bool.not_true, Bool.false_or,
    decide_eq_true_eq] at room
  have among : ∀ d other, o.session.calls d = some other → d ∈ calls := fun d other there =>
    all d other.job (List.mem_append_left _ (call_started (observe_session run) d other there))
  exact Nat.lt_of_le_of_lt (Nat.add_le_add_left (ncard_opening_le among) _) room

def twoHandles : Limits := ⟨none, none, some 2⟩

/-- A `Handle` packet with a handle of one letter. -/
def handleBody (id letter : UInt8) : Bytes := [102, 0, 0, 0, id, 0, 0, 0, 1, letter]

def sendChecked (c : CallId) : List Action := [.useNextId c, .isClosed c, .insert c, .enqueue c]

/-- A `Status` packet with the code `Ok` and no texts. -/
def okBody (id : UInt8) : Bytes := [101, 0, 0, 0, id, 0, 0, 0, 0, 0, 0, 0, 0, 0, 0, 0, 0]

/-- Two calls take both places at the same time; once one of the handles is closed, there is room
for a third. -/
theorem handles_within_limit_two :
    let actions := initialised ++
      [.start 1 (.request (.open "" .read .empty)), .start 2 (.request (.opendir "")),
        .checkLimit 1, .checkLimit 2] ++ sendChecked 1 ++ sendChecked 2 ++
      [.write, .write, .arrive (handleBody 1 97), .arrive (handleBody 2 98)] ++
      handleReply 1 (some 1) 1 ++ handleReply 2 (some 2) 2 ++
      .start 3 (.request (.close "a")) :: .checkLimit 3 :: sendChecked 3 ++
      [.write, .arrive (okBody 3)] ++
      handleReply 3 (some 3) 3 ++
      .start 4 (.request (.open "" .read .empty)) :: .checkLimit 4 :: sendChecked 4 ++
      [.write, .arrive (handleBody 4 99)] ++ handleReply 4 (some 4) 4
    (∃ o, Run.exec observe ⟨State.new twoHandles, []⟩ actions = some o ∧
      o.granted = ["c", "b"]) ∧
    Run.Along observe (fun o => o.granted.length ≤ (2 : UInt64).toNat)
      ⟨State.new twoHandles, []⟩ actions := by
  intro actions
  obtain ⟨o, run⟩ : ∃ o, Run.exec observe ⟨State.new twoHandles, []⟩ actions = some o :=
    Option.isSome_iff_exists.mp (by decide +kernel)
  have live : Run.Meets observe ClosesLive ⟨State.new twoHandles, []⟩ actions :=
    Run.meets_of_checks (fun _ _ => closesLive_of_check) (by decide +kernel)
  have calls (c : CallId) (job : Job) (started : .start c job ∈ actions) :
      c ∈ [0, 1, 2, 3, 4] := by
    simp [actions, initialised, handleReply, sendChecked] at started
    rcases started with ⟨rfl, -⟩ | ⟨rfl, -⟩ | ⟨rfl, -⟩ | ⟨rfl, -⟩ | ⟨rfl, -⟩ <;> decide
  have room : Run.Meets observe (ChecksWithRoom 2) ⟨State.new twoHandles, []⟩ actions :=
    checksWithRoom_of_check [0, 1, 2, 3, 4] calls (by decide +kernel)
  exact ⟨⟨o, run, Run.exec_map (f := Observed.granted) run (by decide +kernel)⟩,
    handles_within_limit twoHandles 2 rfl actions live room⟩

def oneHandle : Limits := ⟨none, none, some 1⟩

/-- Two calls that are both checked before the first of them has its reply. -/
theorem handles_exceed_limit :
    let actions := initialised ++
      [.start 1 (.request (.open "" .read .empty)), .start 2 (.request (.opendir "")),
        .checkLimit 1, .checkLimit 2] ++ sendChecked 1 ++ sendChecked 2 ++
      [.arrive (handleBody 1 97), .arrive (handleBody 2 98)] ++
      handleReply 1 (some 1) 1 ++ handleReply 2 (some 2) 2
    ∃ o, Run.exec observe ⟨State.new oneHandle, []⟩ actions = some o ∧
      Run.Meets observe ClosesLive ⟨State.new oneHandle, []⟩ actions ∧
      o.granted = ["b", "a"] := by
  intro actions
  obtain ⟨o, run⟩ : ∃ o, Run.exec observe ⟨State.new oneHandle, []⟩ actions = some o :=
    Option.isSome_iff_exists.mp (by decide +kernel)
  refine ⟨o, run, Run.meets_of_checks (fun _ _ => closesLive_of_check) (by decide +kernel),
    Run.exec_map (f := Observed.granted) run (by decide +kernel)⟩

end RusshSftp.Client
