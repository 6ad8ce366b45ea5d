import RusshSftp.Client.Disconnect

/-!
# Entries that their calls leave behind

`send` removes its entry where the time is up and where its channel is closed.  It has
two more ways out once the entry is there: the `?` on the write queue, and the end of
its future at one of its awaits.  Neither removes anything.
-/

set_option autoImplicit false

namespace RusshSftp.Client

/-- The call is in `send`, between its insertion and its return. -/
def Phase.waits : Phase → Bool
  | .enqueue | .recv | .cleanup _ => true
  | _ => false

/-- Each key of the map belongs to a call that waits. -/
def NoneStale (s : State) : Prop :=
  ∀ key c, s.requests key = some c →
    ∃ call, s.calls c = some call ∧ call.key = some key ∧ call.phase.waits = true

/-- No sender in the map is the call's. -/
def State.Unregistered (s : State) (c : CallId) : Prop := ∀ key, s.requests key ≠ some c

/-- The call neither fails to queue its request nor is dropped while its sender is in the map. -/
def LeavesNoEntry (s : State) (action : Action) : Prop :=
  (∀ c, action = .enqueue c → s.isClosed = true → s.Unregistered c) ∧
  (∀ c, action = .drop c → s.Unregistered c)

/-- A waiting call goes on waiting, or it has taken one of its ways out. -/
theorem waits_after {s s' : State} {action : Action} {c : CallId} {call : Call} {key : Key}
    (taken : step s action = some s') (present : s.calls c = some call)
    (registered : Registered key call) (waits : call.phase.waits = true) :
    (∃ call', s'.calls c = some call' ∧ call'.key = some key ∧ call'.phase.waits = true) ∨
      (action = .enqueue c ∧ s.isClosed = true) ∨ action = .drop c ∨
      (action = .cleanup c ∧ s'.requests key = none) := by
  have keyed := registered.key
  have stays {d : CallId} {old new : Call} (at_d : s.calls d = some old)
      (apart : c = d → old.phase.waits = true → new.key = old.key ∧ new.phase.waits = true) :
      ∃ call', (s.setCall d new).calls c = some call' ∧ call'.key = some key ∧
        call'.phase.waits = true := by
    by_cases same : c = d
    · subst same
      rw [present] at at_d
      cases at_d
      obtain ⟨sameKey, waiting⟩ := apart rfl waits
      exact ⟨new, State.setCall_same _ _ _, sameKey.trans keyed, waiting⟩
    · exact ⟨call, (s.setCall_other _ same).trans present, keyed, waits⟩
  have other {d : CallId} {old : Call} (at_d : s.calls d = some old)
      (quiet : old.phase.waits = false) : c ≠ d := by
    rintro rfl
    rw [present] at at_d
    cases at_d
    rw [waits] at quiet
    cases quiet
  cases stepped taken with
  | start fresh =>
      rename_i d job
      have apart : c ≠ d := by
        rintro rfl
        rw [present] at fresh
        cases fresh
      exact .inl ⟨call, (s.setCall_other _ apart).trans present, keyed, waits⟩
  | insert at_d phase | limited at_d phase | unlimited at_d phase | useNextId at_d phase
  | closed at_d phase | opened at_d phase | complete at_d phase =>
      exact .inl (stays at_d fun same _ => absurd same (other at_d (by rw [phase]; rfl)))
  | notEncoded at_d phase keyed' encoded => rw [Packet.toBytes_eq] at encoded; cases encoded
  | notSent at_d phase keyed' encoded closed =>
      rename_i d old key' bytes
      by_cases same : c = d
      · subst same
        exact .inr (.inl ⟨rfl, closed⟩)
      · exact .inl (stays at_d fun same' _ => absurd same' same)
  | recv at_d phase answered =>
      refine .inl (stays at_d fun same _ => ?_)
      subst same
      rw [present] at at_d
      cases at_d
      rw [registered.unanswered] at answered
      cases answered
  | cleanup at_d phase keyed' =>
      rename_i d old err key'
      by_cases same : c = d
      · subst same
        rw [present] at at_d
        cases at_d
        rw [keyed] at keyed'
        cases keyed'
        refine .inr (.inr (.inr ⟨rfl, ?_⟩))
        rw [State.setCall_requests, State.setRequest_requests, if_pos rfl]
      · exact .inl (stays at_d fun same' _ => absurd same' same)
  | drop at_d phase =>
      rename_i d old
      by_cases same : c = d
      · subst same
        exact .inr (.inr (.inl rfl))
      · exact .inl (stays at_d fun same' _ => absurd same' same)
  | enqueue at_d | recvNone at_d | elapse at_d =>
      exact .inl (stays at_d fun _ _ => ⟨rfl, rfl⟩)
  | delivered _ at_d => exact .inl (stays at_d fun _ waiting => ⟨rfl, waiting⟩)
  | _ => exact .inl ⟨call, present, keyed, waits⟩

theorem NoneStale.step {s s' : State} {action : Action} (inv : Consistent s) (clean : NoneStale s)
    (leaves : LeavesNoEntry s action) (taken : step s action = some s') : NoneStale s' := by
  intro key c entry
  rcases entry_before taken entry with before | ⟨call, present, phase⟩
  · obtain ⟨call, present, registered⟩ := inv.entry key c before
    obtain ⟨old, there, -, waits⟩ := clean key c before
    rw [present] at there
    cases there
    rcases waits_after taken present registered waits with
      waiting | ⟨sends, closed⟩ | dropped | ⟨-, gone⟩
    · exact waiting
    · exact absurd before (leaves.1 c sends closed key)
    · exact absurd before (leaves.2 c dropped key)
    · rw [gone] at entry
      cases entry
  · obtain ⟨there, at_c, registered⟩ := (inv.step taken).entry key c entry
    rw [present] at at_c
    cases at_c
    exact ⟨call, present, registered.key, by rw [phase]; rfl⟩

/-- Only these steps leave an entry behind. -/
theorem leavesNoEntry_of_noneStale {s s' : State} {action : Action}
    (taken : step s action = some s') (after : NoneStale s') : LeavesNoEntry s action := by
  constructor
  · rintro c rfl closed key entry
    cases stepped taken with
    | notEncoded present phase keyed encoded => rw [Packet.toBytes_eq] at encoded; cases encoded
    | enqueue _ _ _ _ opened => rw [closed] at opened; cases opened
    | notSent present phase keyed encoded _ =>
        obtain ⟨call, at_c, -, waits⟩ := after key c entry
        rw [State.setCall_same] at at_c
        cases at_c
        cases waits
  · rintro c rfl key entry
    cases stepped taken with
    | drop present phase =>
        obtain ⟨call, at_c, -, waits⟩ := after key c entry
        rw [State.setCall_same] at at_c
        cases at_c
        cases waits

/-- The map has no stale entry in any state of a run just when no call fails to queue its
request, or is dropped, with its sender in the map. -/
theorem noneStale_along_iff (limits : Limits) (actions : List Action) (s : State)
    (run : Run.exec step (State.new limits) actions = some s) :
    Run.Along step NoneStale (State.new limits) actions ↔
      Run.Meets step LeavesNoEntry (State.new limits) actions := by
  have consistent : Run.Along step Consistent (State.new limits) actions :=
    Run.along_of_keeps (Consistent.new limits) (fun _ _ _ inv taken => inv.step taken) actions
  refine Run.along_iff_meets run consistent (fun key c entry => by cases entry) ?_ ?_
  · intro t action t' inv clean leaves taken
    exact clean.step inv leaves taken
  · intro t action t' _ taken after
    exact leavesNoEntry_of_noneStale taken after

/-- A call whose time is up removes its entry. -/
theorem noneStale_along_iff_timeout :
    Run.Along step NoneStale (State.new Limits.default)
      (initUnsent ++ [.enqueue 0, .elapse 0, .cleanup 0]) := by
  obtain ⟨s, run⟩ : ∃ s, Run.exec step (State.new Limits.default)
      (initUnsent ++ [.enqueue 0, .elapse 0, .cleanup 0]) = some s :=
    Option.isSome_iff_exists.mp (by decide +kernel)
  have others : ∀ action, (∀ c, action ≠ .enqueue c) → (∀ c, action ≠ .drop c) →
      ∀ s, LeavesNoEntry s action :=
    fun action noSend noDrop s =>
      ⟨fun c same => absurd same (noSend c), fun c same => absurd same (noDrop c)⟩
  refine (noneStale_along_iff Limits.default _ s run).mpr
    (Run.Meets.append ?_ fun t first => Run.Meets.cons ?_ fun next _ => ?_)
  · refine Run.meets_of_all fun action member => others action ?_ ?_ <;>
      simp [initUnsent] at member <;> rcases member with rfl | rfl | rfl <;> simp
  · refine ⟨fun c _ closed => ?_, fun c same => by cases same⟩
    have opened : t.isClosed = false := Run.exec_map first (by decide)
    rw [opened] at closed
    cases closed
  · refine Run.meets_of_all fun action member => others action ?_ ?_ <;>
      simp at member <;> rcases member with rfl | rfl <;> simp

/-- A session that is closed while a call is about to queue its request, and a call that is
dropped while it waits. -/
theorem entry_left_behind :
    (∃ s, Run.exec step (State.new Limits.default)
        (initUnsent ++ [.closeSession, .write, .writeEnd, .enqueue 0]) = some s ∧
        s.calls 0 = some ⟨.init, some none, .finished (.error Error.sendError), none⟩ ∧
        ¬ NoneStale s) ∧
      ∃ s, Run.exec step (State.new Limits.default) (initUnsent ++ [.enqueue 0, .drop 0]) =
        some s ∧ s.calls 0 = some ⟨.init, some none, .dropped, none⟩ ∧ ¬ NoneStale s := by
  constructor
  · refine ⟨_, rfl, rfl, fun clean => ?_⟩
    obtain ⟨call, present, -, waits⟩ := clean none 0 rfl
    cases present
    cases waits
  · refine ⟨_, rfl, rfl, fun clean => ?_⟩
    obtain ⟨call, present, -, waits⟩ := clean none 0 rfl
    cases present
    cases waits

end RusshSftp.Client
