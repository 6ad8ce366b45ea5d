import RusshSftp.Client.Correlation
import RusshSftp.Client.Disconnect

/-!
# Where the sender of a waiting call is

A session that calls `init` once gives each call a key of its own.  Then nothing but the reply to
a waiting call takes its sender from the map, and the sender is there, or the reader has it, or
the answer is in the channel.
-/

set_option autoImplicit false

namespace RusshSftp.Client

/-- No two calls have had one key, and none the id 0. -/
structure Distinct (s : State) : Prop where
  keys : ∀ c d call other key, s.calls c = some call → s.calls d = some other →
    call.key = some key → other.key = some key → c = d
  nonzero : ∀ c call, s.calls c = some call → call.key ≠ some (some 0)

theorem Distinct.of_exec {limits : Limits} {actions : List Action} {s : State}
    (run : Run.exec step (State.new limits) actions = some s) (few : draws actions < 2 ^ 32)
    (once : ∀ c d, .start c .init ∈ actions → .start d .init ∈ actions → c = d) : Distinct s := by
  have inv := Consistent.of_exec run
  have numbers := numbered run few
  refine ⟨?_, ?_⟩
  · intro c d call other key at_c at_d key_c key_d
    cases key with
    | some id => exact numbers.distinct c d call other id at_c at_d key_c key_d
    | none =>
        have started {e : CallId} {one : Call} (at_e : s.calls e = some one)
            (key_e : one.key = some none) : .start e .init ∈ actions := by
          have found := call_started run e one at_e
          rwa [(inv.initKey e one at_e).mp key_e] at found
        exact once c d (started at_c key_c) (started at_d key_d)
  · intro c call present zero
    obtain ⟨j, small, same⟩ := numbers.drawn c call 0 present zero
    have value := congrArg UInt32.toNat same
    rw [UInt32.toNat_ofNat'] at value
    have less : j + 1 < 2 ^ 32 := by omega
    rw [Nat.mod_eq_of_lt less] at value
    cases value

/-- A call that waits has its sender in the map or in the reader's hands, or it has its answer. -/
def SendersKept (s : State) : Prop :=
  ∀ c call key, s.calls c = some call → call.phase = .enqueue ∨ call.phase = .recv →
    call.key = some key → s.requests key = some c ∨
      (∃ frame packet, s.reader = .sending frame key packet c) ∨ call.answer ≠ none

theorem SendersKept.step {s s' : State} {action : Action} (kept : SendersKept s)
    (distinct : Distinct s) (taken : step s action = some s') : SendersKept s' := by
  -- a call that leaves its wait, or is not there yet
  have leaves {d : CallId} {new : Call} (calls : s'.calls = (s.setCall d new).calls)
      (requests : s'.requests = s.requests) (reader : s'.reader = s.reader)
      (ends : ¬ (new.phase = .enqueue ∨ new.phase = .recv)) : SendersKept s' := by
    intro c call key present waiting keyed
    rw [calls, State.setCall_calls] at present
    rw [requests, reader]
    split at present
    · cases present
      exact absurd waiting ends
    · exact kept c call key present waiting keyed
  -- the reader has no sender in its hands
  have quiet (calls : s'.calls = s.calls) (requests : s'.requests = s.requests)
      (free : ∀ frame key packet c, s.reader ≠ .sending frame key packet c) : SendersKept s' := by
    intro c call key present waiting keyed
    rw [calls] at present
    rw [requests]
    rcases kept c call key present waiting keyed with there | ⟨frame, packet, held⟩ | answered
    · exact .inl there
    · exact absurd held (free frame key packet c)
    · exact .inr (.inr answered)
  cases stepped taken with
  | @start c job fresh =>
      exact leaves rfl rfl rfl (by cases job <;> simp [Call.new, Job.firstPhase])
  | limited | unlimited | useNextId | closed | opened | notEncoded | notSent | recv | recvNone
  | elapse | complete | drop => exact leaves rfl rfl rfl (by simp)
  | @insert d old key' at_d phase keyed' =>
      intro c call key present waiting keyed
      rw [State.setCall_calls] at present
      rw [State.setCall_requests, State.setRequest_requests]
      split at present
      · rename_i same
        cases present
        rw [keyed'] at keyed
        cases keyed
        exact .inl (by rw [if_pos rfl, same])
      · rename_i apart
        have other : key ≠ key' := by
          rintro rfl
          exact apart (distinct.keys c d call old key present at_d keyed keyed')
        rw [if_neg other]
        exact kept c call key present waiting keyed
  | @enqueue d old key' bytes at_d phase keyed' =>
      intro c call key present waiting keyed
      replace present : (s.setCall d _).calls c = some call := present
      rw [State.setCall_calls] at present
      split at present
      · rename_i same
        cases present
        exact kept c old key (same ▸ at_d) (.inl phase) keyed
      · exact kept c call key present waiting keyed
  | @cleanup d old err key' at_d phase keyed' =>
      intro c call key present waiting keyed
      rw [State.setCall_calls] at present
      rw [State.setCall_requests, State.setRequest_requests]
      split at present
      · cases present
        simp at waiting
      · rename_i apart
        have other : key ≠ key' := by
          rintro rfl
          exact apart (distinct.keys c d call old key present at_d keyed keyed')
        rw [if_neg other]
        exact kept c call key present waiting keyed
  | readReply idle | readOther idle | eof idle | readCancelled idle =>
      exact quiet rfl rfl fun _ _ _ _ held => by rw [idle] at held; cases held
  | unknown busy => exact quiet rfl rfl fun _ _ _ _ held => by rw [busy] at held; cases held
  | @found frame key' packet d busy entry =>
      intro c call key present waiting keyed
      rcases kept c call key present waiting keyed with there | ⟨frame', packet', held⟩ | answered
      · by_cases same : key = key'
        · subst same
          rw [there] at entry
          cases entry
          exact .inr (.inl ⟨frame, packet, rfl⟩)
        · refine .inl ?_
          show (s.setRequest key' none).requests key = some c
          rw [State.setRequest_requests, if_neg same, there]
      · rw [busy] at held
        cases held
      · exact .inr (.inr answered)
  | @delivered frame key' packet d old busy at_d receiving empty =>
      intro c call key present waiting keyed
      replace present : (s.setCall d _).calls c = some call := present
      rw [State.setCall_calls] at present
      split at present
      · cases present
        exact .inr (.inr (by simp))
      · rename_i apart
        rcases kept c call key present waiting keyed with there | ⟨frame', packet', held⟩ | answered
        · exact .inl there
        · rw [busy] at held
          cases held
          exact absurd rfl apart
        · exact .inr (.inr answered)
  | @refused frame key' packet d busy unable =>
      intro c call key present waiting keyed
      rcases kept c call key present waiting keyed with there | ⟨frame', packet', held⟩ | answered
      · exact .inl there
      · rw [busy] at held
        cases held
        refine .inr (.inr (unable call present ?_))
        rcases waiting with phase | phase <;> rw [phase] <;> rfl
      · exact .inr (.inr answered)
  | arrive | reclaim | shutdown | write | writeCancelled | writeEnd | closedAlready
  | closeSession => exact kept

theorem SendersKept.of_exec {limits : Limits} {actions : List Action} {s : State}
    (run : Run.exec Client.step (State.new limits) actions = some s)
    (few : draws actions < 2 ^ 32)
    (once : ∀ c d, .start c .init ∈ actions → .start d .init ∈ actions → c = d) :
    SendersKept s := by
  revert few once
  refine Run.exec_induction (P := fun actions s => draws actions < 2 ^ 32 →
    (∀ c d, .start c .init ∈ actions → .start d .init ∈ actions → c = d) → SendersKept s)
    ?_ ?_ actions s run
  · intro _ _ c call key present
    cases present
  · intro actions s action s' before ih taken few once
    have fewer : draws actions < 2 ^ 32 := by
      rw [draws_snoc] at few
      omega
    have earlier : ∀ c d, .start c .init ∈ actions → .start d .init ∈ actions → c = d :=
      fun c d one other => once c d (List.mem_append_left _ one) (List.mem_append_left _ other)
    exact (ih fewer earlier).step (Distinct.of_exec before fewer earlier) taken

end RusshSftp.Client
