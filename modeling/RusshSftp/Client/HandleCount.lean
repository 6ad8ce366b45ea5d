import RusshSftp.Client.HandleLimit
import RusshSftp.Rpc

/-!
# The counter of open handles

A ledger beside the session counts the `HANDLE` replies that `open` and `opendir` have taken
and the `Ok` replies that `close` has taken, and keeps the handles that callers hold.
Where callers close only what they hold, the counter is the difference of the two counts
for as long as a `u64` can hold it.
-/

set_option autoImplicit false

namespace RusshSftp.Client

open ByteCodec

/-- The handle that an `open` or `opendir` takes from its reply. -/
def handleTaken (s : State) : Action → Option String
  | .complete c =>
      (s.calls c).bind fun call =>
        match call.phase with
        | .complete (.ok (.handle p)) => if call.opens then some p.handle else none
        | _ => none
  | _ => none

/-- A `close` takes a status `Ok` from its reply. -/
def closeTaken (s : State) : Action → Bool
  | .complete c =>
      (s.calls c).any fun call =>
        match call.phase with
        | .complete (.ok (.status p)) => call.closes?.isSome && p.statusCode == .ok
        | _ => false
  | _ => false

/-- The handle that a `close` is called with. -/
def handleGiven : Action → Option String
  | .start _ (.request (.close handle)) => some handle
  | _ => none

/-- The session, the counts of the replies taken, and the handles that callers hold. -/
structure Ledger where
  session : State
  opened : Nat
  closed : Nat
  held : List String

def Ledger.new (limits : Limits) : Ledger := ⟨State.new limits, 0, 0, []⟩

def record (l : Ledger) (action : Action) : Option Ledger :=
  (step l.session action).map fun s =>
    { session := s
      opened := l.opened + (handleTaken l.session action).toList.length
      closed := l.closed + (closeTaken l.session action).toNat
      held := (handleTaken l.session action).toList ++ l.held.diff (handleGiven action).toList }

/-- A `close` is called with a handle that is held, and the caller holds it no more. -/
def ClosesHeld (l : Ledger) (action : Action) : Prop :=
  ∀ handle, handleGiven action = some handle → handle ∈ l.held

def Exact (l : Ledger) : Prop := l.session.handles.toNat + l.closed = l.opened

def Fits (l : Ledger) : Prop := l.opened < l.closed + 2 ^ 64

/-- The calls of `close` that are on their way. -/
def Closing (s : State) : Set CallId :=
  { c | ∃ call, s.calls c = some call ∧ call.closes?.isSome = true ∧ call.phase.inFlight = true }

/-- Every `close` on its way and every handle held has its own reply to an `open`. -/
structure Backed (l : Ledger) : Prop where
  finite : (Closing l.session).Finite
  enough : l.closed + (Closing l.session).ncard + l.held.length ≤ l.opened

/-! ## What a step does -/

theorem handleTaken_other {s : State} {action : Action} (other : ∀ c, action ≠ .complete c) :
    handleTaken s action = none := by
  cases action with
  | complete c => exact absurd rfl (other c)
  | _ => rfl

theorem closeTaken_other {s : State} {action : Action} (other : ∀ c, action ≠ .complete c) :
    closeTaken s action = false := by
  cases action with
  | complete c => exact absurd rfl (other c)
  | _ => rfl

theorem closing_before {s s' : State} {action : Action} {c : CallId}
    (taken : step s action = some s') (closing : c ∈ Closing s') :
    c ∈ Closing s ∨ ∃ handle, action = .start c (.request (.close handle)) := by
  obtain ⟨call', after, closes, flying⟩ := closing
  rcases inFlight_before taken after flying with ⟨call, present, job, flew⟩ | started
  · refine .inl ⟨call, present, ?_, flew⟩
    rw [Call.closes?, job]
    exact closes
  · right
    rw [Call.closes?] at closes
    rw [started]
    cases job : call'.job with
    | init => rw [job] at closes; cases closes
    | request r =>
        rw [job] at closes
        cases r with
        | close handle => exact ⟨handle, rfl⟩
        | _ => cases closes

/-- A call that returns is on its way no more. -/
theorem completed_not_closing {s s' : State} {c : CallId}
    (taken : step s (.complete c) = some s') : c ∉ Closing s' := by
  rintro ⟨call, after, -, flying⟩
  cases stepped taken with
  | complete present phase =>
      rw [State.setCall_same] at after
      cases after
      cases flying

/-- The counter after a call returns, by the reply that it takes. -/
theorem handles_complete {s s' : State} {c : CallId} (taken : step s (.complete c) = some s') :
    s'.handles =
      if (handleTaken s (.complete c)).isSome then s.handles + 1
      else if closeTaken s (.complete c) then (if s.handles > 0 then s.handles - 1 else s.handles)
      else s.handles := by
  cases stepped taken with
  | complete present phase =>
      rename_i call result
      show call.job.counted result s.handles = _
      simp only [handleTaken, closeTaken, present, phase, Option.bind_some, Option.any_some]
      cases opens : call.opens with
      | true =>
          rw [counted_opens opens, closes_of_opens opens]
          cases result with
          | error err => rfl
          | ok packet => cases packet <;> rfl
      | false =>
          cases closes : call.closes? with
          | none =>
              rw [counted_other opens closes]
              cases result with
              | error err => rfl
              | ok packet => cases packet <;> rfl
          | some handle =>
              rw [counted_closes closes]
              cases result with
              | error err => rfl
              | ok packet =>
                  cases packet with
                  | status p => by_cases ok : p.statusCode = .ok <;> simp [ok]
                  | _ => rfl

theorem closing_of_closeTaken {s : State} {action : Action} (closes : closeTaken s action = true) :
    ∃ c, action = .complete c ∧ c ∈ Closing s := by
  cases action with
  | complete c =>
      refine ⟨c, rfl, ?_⟩
      cases present : s.calls c with
      | none => rw [closeTaken, present] at closes; cases closes
      | some call =>
          rw [closeTaken, present, Option.any_some] at closes
          refine ⟨call, present, ?_⟩
          split at closes
          · rename_i p phase
            rw [Bool.and_eq_true] at closes
            exact ⟨closes.1, by rw [phase]; rfl⟩
          · cases closes
  | _ => cases closes

/-- No reply counts twice. -/
theorem handleTaken_of_closeTaken {s : State} {action : Action}
    (closes : closeTaken s action = true) : handleTaken s action = none := by
  cases action with
  | complete c =>
      cases present : s.calls c with
      | none => rw [handleTaken, present]; rfl
      | some call =>
          rw [closeTaken, present, Option.any_some] at closes
          rw [handleTaken, present, Option.bind_some]
          split at closes
          · rename_i p phase
            rw [phase]
          · cases closes
  | _ => rfl

/-- A `close` that is called gets on its way with its handle. -/
theorem start_of_given {action : Action} {handle : String}
    (given : handleGiven action = some handle) :
    ∃ c, action = .start c (.request (.close handle)) := by
  cases action with
  | start c job =>
      cases job with
      | init => cases given
      | request r =>
          cases r with
          | close handle' =>
              cases given
              exact ⟨c, rfl⟩
          | _ => cases given
  | _ => cases given

/-! ## The ledger balances -/

theorem Backed.step {l l' : Ledger} {action : Action} (backed : Backed l)
    (held : ClosesHeld l action) (taken : record l action = some l') : Backed l' := by
  obtain ⟨s', moved, rfl⟩ := Option.map_eq_some_iff.mp taken
  have enough := backed.enough
  cases given : handleGiven action with
  | some handle =>
      obtain ⟨c, rfl⟩ := start_of_given given
      have subset : Closing s' ⊆ insert c (Closing l.session) := by
        intro d closing
        rcases closing_before moved closing with old | ⟨_, same⟩
        · exact Set.mem_insert_of_mem _ old
        · cases same
          exact Set.mem_insert _ _
      have finite := backed.finite.insert c
      have more := (Set.ncard_le_ncard subset finite).trans (Set.ncard_insert_le c _)
      have member := held handle given
      have nonempty := List.length_pos_of_mem member
      refine ⟨finite.subset subset, ?_⟩
      simp only [handleTaken, closeTaken, Option.toList_none, Option.toList_some,
        List.nil_append, List.length_nil, Bool.toNat_false, List.diff_cons, List.diff_nil,
        List.length_erase_of_mem member]
      omega
  | none =>
      have subset : Closing s' ⊆ Closing l.session := by
        intro d closing
        refine (closing_before moved closing).resolve_right ?_
        rintro ⟨handle, rfl⟩
        cases given
      refine ⟨backed.finite.subset subset, ?_⟩
      simp only [Option.toList_none, List.diff_nil, List.length_append]
      cases closes : closeTaken l.session action with
      | false =>
          have fewer := Set.ncard_le_ncard subset backed.finite
          simp only [Bool.toNat_false]
          omega
      | true =>
          obtain ⟨c, rfl, here⟩ := closing_of_closeTaken closes
          have fewer := Set.ncard_lt_ncard ((Set.ssubset_iff_of_subset subset).mpr
            ⟨c, here, completed_not_closing moved⟩) backed.finite
          simp only [Bool.toNat_true]
          omega

/-- A `close` that takes its `Ok` finds the counter above zero. -/
theorem handles_pos {l : Ledger} {action : Action} (backed : Backed l) (exact : Exact l)
    (closes : closeTaken l.session action = true) : 0 < l.session.handles := by
  obtain ⟨c, -, here⟩ := closing_of_closeTaken closes
  have some_left := (Set.ncard_pos backed.finite).mpr ⟨c, here⟩
  have enough := backed.enough
  rw [Exact] at exact
  rw [UInt64.lt_iff_toNat_lt, UInt64.toNat_zero]
  omega

theorem Exact.step {l l' : Ledger} {action : Action} (backed : Backed l) (exact : Exact l)
    (taken : record l action = some l') (fits : Fits l') : Exact l' := by
  obtain ⟨s', moved, rfl⟩ := Option.map_eq_some_iff.mp taken
  simp only [Exact, Fits] at exact fits ⊢
  by_cases complete : ∃ c, action = .complete c
  · obtain ⟨c, rfl⟩ := complete
    rw [handles_complete moved]
    cases closes : closeTaken l.session (.complete c) with
    | true =>
        have positive := handles_pos backed exact closes
        have one : (1 : UInt64) ≤ l.session.handles := by
          rw [UInt64.le_iff_toNat_le]
          exact UInt64.lt_iff_toNat_lt.mp positive
        rw [handleTaken_of_closeTaken closes]
        simp only [Option.isSome_none, Bool.false_eq_true, if_false, if_true, positive,
          UInt64.toNat_sub_of_le _ _ one, Option.toList_none, List.length_nil, Bool.toNat_true]
        have least := UInt64.lt_iff_toNat_lt.mp positive
        simp only [UInt64.toNat_zero, UInt64.toNat_one] at least ⊢
        omega
    | false =>
        rw [closes] at fits
        cases opens : handleTaken l.session (.complete c) with
        | none =>
            simp only [Option.isSome_none, Bool.false_eq_true, if_false, Option.toList_none,
              List.length_nil, Bool.toNat_false]
            exact exact
        | some handle =>
            rw [opens] at fits
            simp only [Option.toList_some, List.length_singleton, Bool.toNat_false] at fits
            simp only [Option.isSome_some, if_true, Option.toList_some, List.length_singleton,
              Bool.toNat_false, UInt64.toNat_add, UInt64.toNat_one]
            omega
  · have other : ∀ c, action ≠ .complete c := fun c same => complete ⟨c, same⟩
    rw [handles_after moved other, handleTaken_other other, closeTaken_other other]
    simpa using exact

theorem Backed.new (limits : Limits) : Backed (Ledger.new limits) := by
  have empty : Closing (State.new limits) = ∅ := by
    ext c
    simp [Closing, State.new]
  constructor
  · rw [Ledger.new, empty]
    exact Set.finite_empty
  · rw [Ledger.new, empty, Set.ncard_empty]
    exact le_rfl

theorem Exact.fits {l : Ledger} (balance : Exact l) : Fits l := by
  have small := l.session.handles.toNat_lt
  rw [Exact] at balance
  rw [Fits]
  omega

/-- The counter has room for a handle that is taken. -/
theorem Exact.room {l l' : Ledger} {action : Action} (before : Exact l)
    (taken : record l action = some l') (after : Fits l')
    (opens : (handleTaken l.session action).isSome = true) :
    l.session.handles.toNat + 1 < 2 ^ 64 := by
  obtain ⟨s', moved, rfl⟩ := Option.map_eq_some_iff.mp taken
  obtain ⟨handle, opened⟩ := Option.isSome_iff_exists.mp opens
  have noClose : closeTaken l.session action = false := by
    cases closes : closeTaken l.session action with
    | false => rfl
    | true =>
        rw [handleTaken_of_closeTaken closes] at opened
        cases opened
  simp only [Fits, opened, noClose, Option.toList_some, List.length_singleton,
    Bool.toNat_false] at after
  rw [Exact] at before
  omega

/-- Where callers close only what they hold, and each handle once, the counter is the number of
handles taken less the number of closes taken, in all states of a run, just when that
number is always below 2^64; and then no decrement finds it at zero and no increment
wraps. -/
theorem handles_exact (limits : Limits) (actions : List Action)
    (held : Run.Meets record ClosesHeld (Ledger.new limits) actions) :
    (Run.Along record Exact (Ledger.new limits) actions ↔
      Run.Along record Fits (Ledger.new limits) actions) ∧
    (Run.Along record Fits (Ledger.new limits) actions → ∀ l action l',
      Run.Takes record (Ledger.new limits) actions l action l' →
        (closeTaken l.session action = true → 0 < l.session.handles) ∧
        ((handleTaken l.session action).isSome = true → l.session.handles.toNat + 1 < 2 ^ 64)) := by
  have backed : Run.Along record Backed (Ledger.new limits) actions :=
    Run.along_of_meets (Backed.new limits) (fun _ _ _ inv meets taken => inv.step meets taken) held
  have exact_of_fits (fits : Run.Along record Fits (Ledger.new limits) actions) :
      Run.Along record Exact (Ledger.new limits) actions := by
    have both : Run.Meets record (fun l action => ∀ l', record l action = some l' → Fits l')
        (Ledger.new limits) actions := fun before action after l shape run l' taken =>
      fits.taken ⟨before, after, shape, run, taken⟩
    have first : Exact (Ledger.new limits) := rfl
    exact Run.along_of_meets_within backed first
      (fun _ _ _ inv balance small taken => balance.step inv taken (small _ taken)) both
  refine ⟨⟨fun exact before after l shape run => ?_, exact_of_fits⟩, ?_⟩
  · have balance : Exact l := exact before after l shape run
    exact balance.fits
  · intro fits l action l' taken
    have exact : Exact l := (exact_of_fits fits).takes taken
    constructor
    · intro closes
      exact handles_pos (backed.takes taken) exact closes
    · intro opens
      exact exact.room taken.stepped (fits.taken taken) opens

/-- A run takes no more handles than it has actions. -/
theorem opened_le_length {limits : Limits} {actions : List Action} {l : Ledger}
    (run : Run.exec record (Ledger.new limits) actions = some l) :
    l.opened ≤ actions.length := by
  refine Run.exec_induction (P := fun actions l => l.opened ≤ actions.length) le_rfl ?_ actions l
    run
  intro actions l action l' _ ih taken
  obtain ⟨s', -, rfl⟩ := Option.map_eq_some_iff.mp taken
  rw [List.length_append, List.length_singleton]
  refine Nat.add_le_add ih ?_
  cases handleTaken l.session action <;> simp

theorem fits_of_short {limits : Limits} {actions : List Action} (short : actions.length < 2 ^ 64) :
    Run.Along record Fits (Ledger.new limits) actions := by
  intro before after l shape run
  have few := opened_le_length run
  rw [shape, List.length_append] at short
  rw [Fits]
  omega

theorem closesHeld_of_none {l : Ledger} {actions : List Action}
    (none : ∀ action ∈ actions, handleGiven action = none) :
    Run.Meets record ClosesHeld l actions := by
  refine Run.meets_of_all fun action member l' handle given => ?_
  rw [none action member] at given
  cases given

/-- A directory that is opened and closed. -/
theorem handles_exact_close :
    let front := initialised ++ [.start 1 (.request (.opendir "")), .checkLimit 1] ++
      sendChecked 1 ++ [.arrive (handleBody 1 97)] ++ handleReply 1 (some 1) 1
    let back := .checkLimit 2 :: sendChecked 2 ++ [.arrive (okBody 2)] ++ handleReply 2 (some 2) 2
    let actions := front ++ .start 2 (.request (.close "a")) :: back
    (∃ l, Run.exec record (Ledger.new Limits.default) actions = some l ∧ l.opened = 1 ∧
      l.closed = 1) ∧ Run.Along record Exact (Ledger.new Limits.default) actions := by
  intro front back actions
  obtain ⟨l, run⟩ : ∃ l, Run.exec record (Ledger.new Limits.default) actions = some l :=
    Option.isSome_iff_exists.mp (by decide +kernel)
  refine ⟨⟨l, run, Run.exec_map run (by decide +kernel), Run.exec_map run (by decide +kernel)⟩,
    (handles_exact Limits.default actions (Run.Meets.append (closesHeld_of_none (by decide))
      fun t first => Run.Meets.cons ?_ fun next _ =>
        closesHeld_of_none (by decide))).1.mpr (fits_of_short (by decide))⟩
  intro handle given
  cases given
  have held : t.held = ["a"] := Run.exec_map first (by decide +kernel)
  rw [held]
  exact List.mem_singleton_self _

/-! ## Runs of many calls -/

theorem record_session {l l' : Ledger} {actions : List Action}
    (run : Run.exec record l actions = some l') :
    Run.exec step l.session actions = some l'.session := by
  refine Run.exec_project (f := Ledger.session) ?_ run
  intro u action u' taken
  obtain ⟨s', moved, rfl⟩ := Option.map_eq_some_iff.mp taken
  exact moved

/-- Actions that neither take a reply nor call `close`. -/
def quietAction : Action → Bool
  | .complete _ => false
  | action => (handleGiven action).isNone

theorem exec_quiet {l : Ledger} {actions : List Action}
    (quiet : ∀ action ∈ actions, quietAction action = true) :
    Run.exec record l actions =
      (Run.exec step l.session actions).map fun s => { l with session := s } := by
  induction actions generalizing l with
  | nil => rfl
  | cons action rest ih =>
      have first := quiet action List.mem_cons_self
      have other : ∀ c, action ≠ .complete c := by
        rintro c rfl
        cases first
      have given : handleGiven action = none := by
        cases action with
        | complete c => rfl
        | _ => exact Option.isNone_iff_eq_none.mp first
      rw [Run.exec, Run.exec, record, handleTaken_other other, closeTaken_other other, given]
      cases step l.session action with
      | none => rfl
      | some next =>
          exact ih fun later member => quiet later (List.mem_cons_of_mem _ member)

/-- An initialised session whose tasks have nothing to do, with no call from `c` on. -/
structure Quiet (s : State) (c : CallId) : Prop where
  fresh : ∀ d, c ≤ d → s.calls d = none
  unlimited : s.limits.openHandles = none
  initialised : ∃ v, s.version = some v
  reader : s.reader = .idle
  inbox : s.inbox = []
  writer : s.writer = .running
  queue : s.queue = []

/-- A call up to the moment it takes the reply from its channel. -/
def opening (c : CallId) (id : UInt32) (frame : Nat) : List Action :=
  sendActions c (.opendir "") ++
    ([.arrive (Packet.handle ⟨id, ""⟩).body, .read, .lookup (some id)] ++
      [.deliver c frame, .recv c frame])

def waiting (id : UInt32) : Call := ⟨.request (.opendir ""), some (some id), .recv, none⟩

theorem word_length (id : UInt32) (text : Bytes) :
    (putU32 id ++ text).length = 4 + text.length := by
  rw [List.length_append, putU32_length]

theorem exec_sendActions {s : State} {c : CallId} (quiet : Quiet s c) :
    Run.exec step s (sendActions c (.opendir "")) = some { s with
      nextReqId := s.nextReqId + 1
      requests := Function.update s.requests (some s.nextReqId) (some c)
      retired := (s.requests (some s.nextReqId)).toList ++ s.retired
      calls := Function.update s.calls c (some (waiting s.nextReqId))
      written := s.written ++ [Framing.frame 4 (Packet.openDir ⟨s.nextReqId, ""⟩).body] } := by
  have short : (Packet.openDir ⟨s.nextReqId, ""⟩).body.length < 2 ^ 32 := by
    rw [body_length]
    exact (congrArg (· + 1) (word_length s.nextReqId (strWire ""))).trans_lt (by decide)
  have encoded := Server.toBytes_eq_frame (Packet.openDir ⟨s.nextReqId, ""⟩) short
  have nonempty : Framing.frame 4 (Packet.openDir ⟨s.nextReqId, ""⟩).body ≠ [] := by
    simp [Framing.frame, Packet.body, putU8]
  have limited : (Request.opendir "").operation.limited s.limits s.handles = none := by
    simp [Request.operation, Operation.opendir, exceeds, quiet.unlimited]
  have packet : (Request.opendir "").operation.packet s.nextReqId =
      .openDir ⟨s.nextReqId, ""⟩ := rfl
  simp [sendActions, Run.exec, step, callStep, quiet.fresh c le_rfl, Call.new,
    Job.firstPhase, Job.key, limited, State.isClosed, quiet.writer, Job.packet, packet, encoded,
    quiet.queue, nonempty, State.setCall, State.setRequest, waiting]

def answered (id : UInt32) (frame : Nat) : Call :=
  ⟨.request (.opendir ""), some (some id), .complete (.ok (.handle ⟨id, ""⟩)),
    some ⟨frame, .ok (.handle ⟨id, ""⟩)⟩⟩

theorem decodeReply_handle (id : UInt32) :
    decodeReply (Packet.handle ⟨id, ""⟩).body = some (some id, .handle ⟨id, ""⟩) := by
  refine decodeReply_body (p := .handle ⟨id, ""⟩) ?_ rfl
  show (putU32 id ++ strWire "").length < 2 ^ 32
  rw [word_length]
  decide

theorem exec_lookup {s : State} {c : CallId} {key : Key} {packet : Packet} {body : Bytes}
    (decoded : decodeReply body = some (key, packet)) (entry : s.requests key = some c)
    (reader : s.reader = .idle) (inbox : s.inbox = []) :
    Run.exec step s [.arrive body, .read, .lookup key] = some { s with
      frames := s.frames + 1
      requests := Function.update s.requests key none
      retired := c :: s.retired
      reader := .sending s.frames key packet c } := by
  simp [Run.exec, step, reader, inbox, decoded, entry, State.setRequest]

theorem exec_deliver {s : State} {c : CallId} {call : Call} {id : UInt32} {frame : Nat}
    {packet : Packet} (present : s.calls c = some call) (phase : call.phase = .recv)
    (empty : call.answer = none) (initialised : s.version ≠ none)
    (reader : s.reader = .sending frame (some id) packet c)
    (other : ∀ p, packet ≠ .version p) :
    Run.exec step s [.deliver c frame, .recv c frame] = some { s with
      calls := Function.update s.calls c (some { call with
        phase := .complete (.ok packet), answer := some ⟨frame, .ok packet⟩ })
      reader := .idle } := by
  obtain ⟨v, version⟩ := Option.ne_none_iff_exists'.mp initialised
  have valid : validate s.version (some id) = .ok () := by
    rw [version]
    rfl
  have unversioned : versionAfter s.version (some id) packet = s.version := by
    rw [versionAfter.eq_def]
    split
    · exact absurd rfl (other _)
    · rfl
  have put := deliver_accepted frame (some id) packet c s present (by rw [phase]; rfl) empty
  rw [valid, unversioned] at put
  simp only [Run.exec, step, reader, and_self, if_true, put, callStep, State.setCall,
    Function.update_self, phase, Except.map, Function.update_idem]

theorem exec_opening {s : State} {c : CallId} (quiet : Quiet s c) :
    ∃ t call, Run.exec step s (opening c s.nextReqId s.frames) = some t ∧
      t.calls = Function.update s.calls c (some call) ∧ call.job = .request (.opendir "") ∧
      call.phase = .complete (.ok (.handle ⟨s.nextReqId, ""⟩)) ∧ t.handles = s.handles ∧
      t.limits = s.limits ∧ t.version = s.version ∧ t.reader = .idle ∧ t.inbox = [] ∧
      t.writer = .running ∧ t.queue = [] := by
  have initialised : s.version ≠ none := by
    obtain ⟨v, version⟩ := quiet.initialised
    rw [version]
    exact fun unset => by cases unset
  have sent := exec_sendActions quiet
  generalize stateOf : ({ s with
      nextReqId := s.nextReqId + 1
      requests := Function.update s.requests (some s.nextReqId) (some c)
      retired := (s.requests (some s.nextReqId)).toList ++ s.retired
      calls := Function.update s.calls c (some (waiting s.nextReqId))
      written := s.written ++ [Framing.frame 4 (Packet.openDir ⟨s.nextReqId, ""⟩).body] } :
    State) = m at sent
  have entry : m.requests (some s.nextReqId) = some c := by
    rw [← stateOf]
    exact Function.update_self ..
  have found := exec_lookup (decodeReply_handle _) entry (by rw [← stateOf]; exact quiet.reader)
    (by rw [← stateOf]; exact quiet.inbox)
  generalize stateOf' : ({ m with
      frames := m.frames + 1
      requests := Function.update m.requests (some s.nextReqId) none
      retired := c :: m.retired
      reader := .sending m.frames (some s.nextReqId) (.handle ⟨s.nextReqId, ""⟩) c } :
    State) = m' at found
  have present : m'.calls c = some (waiting s.nextReqId) := by
    rw [← stateOf', ← stateOf]
    exact Function.update_self ..
  have sending : m'.reader =
      .sending m.frames (some s.nextReqId) (.handle ⟨s.nextReqId, ""⟩) c := by rw [← stateOf']
  have delivered := exec_deliver present rfl rfl (by rw [← stateOf', ← stateOf]; exact initialised)
    sending (fun _ same => by cases same)
  have frames : m.frames = s.frames := by rw [← stateOf]
  rw [frames] at delivered
  rw [opening, Run.exec_append, sent, Option.bind_some, Run.exec_append, found, Option.bind_some,
    delivered]
  subst stateOf' stateOf
  exact ⟨_, _, rfl, Function.update_idem .., rfl, rfl, rfl, rfl, rfl, rfl, quiet.inbox,
    quiet.writer, quiet.queue⟩

/-- The ledger once `n` handles are open. -/
structure AfterOpens (n : Nat) (l : Ledger) : Prop where
  opened : l.opened = n
  closed : l.closed = 0
  handles : l.session.handles = UInt64.ofNat n
  quiet : Quiet l.session (n + 1)

theorem AfterOpens.more {n : Nat} {l : Ledger} (after : AfterOpens n l) :
    ∃ actions l', Run.exec record l actions = some l' ∧
      (∀ action ∈ actions, handleGiven action = none) ∧ AfterOpens (n + 1) l' := by
  obtain ⟨t, call, run, calls, job, phase, handles, limits, version, reader, inbox, writer,
    queue⟩ := exec_opening after.quiet
  have present : t.calls (n + 1) = some call := by
    rw [calls, Function.update_self]
  have opens : call.opens = true := by
    rw [Call.opens, job]
  have quiet : ∀ action ∈ opening (n + 1) l.session.nextReqId l.session.frames,
      quietAction action = true := by
    simp [opening, sendActions, quietAction, handleGiven]
  have taken : record { l with session := t } (.complete (n + 1)) = some
      { session := { t.setCall (n + 1)
            { call with phase := .finished (.ok (.handle ⟨l.session.nextReqId, ""⟩)) } with
          handles := t.handles + 1 }
        opened := l.opened + 1, closed := l.closed, held := "" :: l.held } := by
    simp [record, step, callStep, present, phase, handleTaken, closeTaken, handleGiven, opens, job,
      Job.counted, Request.operation, Operation.opendir, countHandle]
  refine ⟨opening (n + 1) l.session.nextReqId l.session.frames ++ [.complete (n + 1)], _,
    Run.exec_snoc (by rw [exec_quiet quiet, run]; rfl) taken, ?_, ?_⟩
  · simp [opening, sendActions, handleGiven]
  · refine ⟨by rw [after.opened], after.closed, ?_, ?_⟩
    · show t.handles + 1 = _
      rw [handles, after.handles, UInt64.ofNat_add]
      rfl
    · refine ⟨fun d later => ?_, ?_, ?_, reader, inbox, writer, queue⟩
      · have apart : d ≠ n + 1 := Nat.ne_of_gt later
        show (t.setCall (n + 1) _).calls d = none
        rw [State.setCall_other _ _ apart, calls, Function.update_of_ne apart]
        exact after.quiet.fresh d (Nat.le_of_succ_le later)
      · show t.limits.openHandles = none
        rw [limits]
        exact after.quiet.unlimited
      · show ∃ v, t.version = some v
        rw [version]
        exact after.quiet.initialised

theorem afterOpens_initialised :
    ∃ l, Run.exec record (Ledger.new Limits.default) initialised = some l ∧ AfterOpens 0 l := by
  obtain ⟨l, run⟩ : ∃ l, Run.exec record (Ledger.new Limits.default) initialised = some l :=
    Option.isSome_iff_exists.mp (by decide +kernel)
  have session := record_session run
  refine ⟨l, run, Run.exec_map run (by decide +kernel), Run.exec_map run (by decide +kernel),
    Run.exec_map (f := fun l => l.session.handles) run (by decide +kernel), ?_⟩
  refine ⟨fun d later => ?_,
    Run.exec_map (f := fun l => l.session.limits.openHandles) run (by decide +kernel),
    ⟨3, Run.exec_map (f := fun l => l.session.version) run (by decide +kernel)⟩,
    Run.exec_map (f := fun l => l.session.reader) run (by decide +kernel),
    Run.exec_map (f := fun l => l.session.inbox) run (by decide +kernel),
    Run.exec_map (f := fun l => l.session.writer) run (by decide +kernel),
    Run.exec_map (f := fun l => l.session.queue) run (by decide +kernel)⟩
  cases present : l.session.calls d with
  | none => rfl
  | some call =>
      have started := call_started session d call present
      simp [initialised, handleReply] at started
      rw [started.1] at later
      exact absurd later (by decide)

theorem exec_afterOpens (n : Nat) :
    ∃ actions l, Run.exec record (Ledger.new Limits.default) actions = some l ∧
      (∀ action ∈ actions, handleGiven action = none) ∧ AfterOpens n l := by
  induction n with
  | zero =>
      obtain ⟨l, run, after⟩ := afterOpens_initialised
      exact ⟨initialised, l, run, by simp [initialised, handleReply, handleGiven], after⟩
  | succ n ih =>
      obtain ⟨actions, l, run, quiet, after⟩ := ih
      obtain ⟨more, l', further, quiet', after'⟩ := after.more
      refine ⟨actions ++ more, l', ?_, ?_, after'⟩
      · rw [Run.exec_append, run]
        exact further
      · intro action member
        rcases List.mem_append.mp member with early | late
        · exact quiet action early
        · exact quiet' action late

/-- A session with 2^64 open handles counts none. -/
theorem handles_wrap :
    ∃ actions l, Run.exec record (Ledger.new Limits.default) actions = some l ∧
      Run.Meets record ClosesHeld (Ledger.new Limits.default) actions ∧
      l.opened = 2 ^ 64 ∧ l.closed = 0 ∧ l.session.handles = 0 := by
  obtain ⟨actions, l, run, quiet, after⟩ := exec_afterOpens (2 ^ 64)
  exact ⟨actions, l, run, closesHeld_of_none quiet, after.opened, after.closed, after.handles⟩

end RusshSftp.Client
