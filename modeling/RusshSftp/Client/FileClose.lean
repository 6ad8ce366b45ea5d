import RusshSftp.Lib.Run
import RusshSftp.Client.File

/-!
# From the opening of a file to its drop

A file is polled in any order and at last dropped; `Drop` may leave a task behind that
closes the handle.  `sent` is what has gone to the server for this file.  A handle should
be closed once and not be used afterwards.
-/

set_option autoImplicit false

namespace RusshSftp.Client

/-- A file with the task that its drop has spawned, and the requests sent for it. -/
structure Lifetime where
  file : File
  dropped : Bool
  /-- Whether the task's call of `close` was polled, while there is such a task. -/
  closer : Option Bool
  sent : List Request

namespace Lifetime

def new (handle : String) (extensions : SessionExtensions) : Lifetime :=
  ⟨File.new handle extensions, false, none, []⟩

/-- What is done with a file.  The futures of `metadata` and of its siblings borrow it: they are
polled here once, and whatever follows sends nothing. -/
inductive Action where
  | pollRead (buf : ReadBuf) (turn : Turn)
  | startSeek (position : SeekFrom)
  | pollComplete (turn : Turn)
  | pollWrite (buf : Bytes) (turn : Turn)
  | pollFlush (turn : Turn)
  | pollShutdown (turn : Turn)
  | metadata (turn : Turn)
  | setMetadata (metadata : FileAttributes) (turn : Turn)
  | syncAll (turn : Turn)
  /-- `Drop`, within a runtime or outside of one. -/
  | drop (runtime : Bool)
  | pollCloser (turn : Turn)

/-- The file after an action on it, and what was sent. -/
def act (f : File) : Action → File × List Request
  | .pollRead buf turn => ((f.pollRead buf turn).1.file, (f.pollRead buf turn).1.sent)
  | .startSeek position => ((f.startSeek position).2, [])
  | .pollComplete turn => ((f.pollComplete turn).file, (f.pollComplete turn).sent)
  | .pollWrite buf turn => ((f.pollWrite buf turn).file, (f.pollWrite buf turn).sent)
  | .pollFlush turn => ((f.pollFlush turn).file, (f.pollFlush turn).sent)
  | .pollShutdown turn => ((f.pollShutdown turn).file, (f.pollShutdown turn).sent)
  | .metadata turn => (f, (f.metadata true turn).2)
  | .setMetadata metadata turn => (f, (f.setMetadata metadata true turn).2)
  | .syncAll turn => (f, (f.syncAll true turn).2)
  | .drop _ | .pollCloser _ => (f, [])

def step (s : Lifetime) : Action → Option Lifetime
  | .pollCloser turn =>
      match s.closer with
      | none => none
      | some polled =>
          let (result, sent) :=
            callSession s.file.limits (.close s.file.handle) (!polled) turn
          some { s with
            closer := if result.isNone then some true else none, sent := s.sent ++ sent }
  | .drop runtime =>
      if s.dropped then none
      else some { s with
        dropped := true, closer := if s.file.closed || !runtime then none else some false }
  | action =>
      if s.dropped then none
      else some { s with
        file := (act s.file action).1, sent := s.sent ++ (act s.file action).2 }

end Lifetime

/-! ## The property -/

/-- A request of the operations that a file makes on its handle. -/
def Request.names (handle : String) : Request → Bool
  | .close h | .read h _ _ | .write h _ _ | .fstat h | .fsetstat h _ => h == handle
  | .extended request data =>
      Request.extended request data == fsyncRequest handle
  | _ => false

/-- No request that names the handle comes after a CLOSE of it; so there is one CLOSE at most. -/
def ClosedOnce (handle : String) (sent : List Request) : Prop :=
  ∀ before after, sent = before ++ .close handle :: after →
    ∀ request ∈ after, request.names handle = false

theorem closedOnce_nil (handle : String) : ClosedOnce handle [] := by
  intro before after shape
  simp at shape

theorem closedOnce_snoc (handle : String) (sent : List Request) (request : Request) :
    ClosedOnce handle (sent ++ [request]) ↔
      ClosedOnce handle sent ∧ (.close handle ∈ sent → request.names handle = false) := by
  constructor
  · intro once
    constructor
    · intro before after shape later member
      exact once before (after ++ [request]) (by rw [shape]; simp) later
        (List.mem_append_left _ member)
    · intro closed
      obtain ⟨before, after, shape⟩ := List.append_of_mem closed
      exact once before (after ++ [request]) (by rw [shape]; simp) request (by simp)
  · rintro ⟨once, last⟩ before after shape later member
    rcases List.eq_nil_or_concat after with rfl | ⟨front, final, rfl⟩
    · cases member
    · rw [List.concat_eq_append] at shape member
      have split : sent ++ [request] = (before ++ .close handle :: front) ++ [final] := by
        rw [shape]
        simp
      obtain ⟨rfl, same⟩ := List.append_inj' split rfl
      cases same
      rcases List.mem_append.mp member with early | final
      · exact once before front rfl later early
      · rw [List.mem_singleton.mp final]
        exact last (by simp)

namespace Lifetime

/-- The action makes a new call of the session: the slot of its future is empty, or holds a seek
from the end that was not polled; and the session does not refuse the call. -/
def makesCall (s : Lifetime) : Action → Bool
  | .pollRead _ turn => s.file.state.fRead.isNone && !turn.refuses
  | .startSeek _ => false
  | .pollComplete turn => s.file.state.fSeek.any File.asksSize && !turn.refuses
  | .pollWrite _ turn => s.file.state.fWrite.isNone && !turn.refuses
  | .pollFlush turn => s.file.extensions.fsync && s.file.state.fFlush.isNone && !turn.refuses
  | .pollShutdown turn => s.file.state.fShutdown.isNone && !turn.refuses
  | .metadata turn | .setMetadata _ turn => !turn.refuses
  | .syncAll turn => s.file.extensions.fsync && !turn.refuses
  | .drop _ => false
  | .pollCloser turn => s.closer == some false && !turn.refuses

theorem act_handle (f : File) (action : Action) : (act f action).1.handle = f.handle := by
  cases action with
  | pollRead buf turn =>
      obtain ⟨slot, pos, after⟩ := f.pollRead_changes buf turn
      rw [act, after]
  | startSeek position =>
      obtain ⟨slot, after⟩ := f.startSeek_changes position
      rw [act, after]
  | pollComplete turn =>
      obtain ⟨slot, pos, after⟩ := f.pollComplete_changes turn
      rw [act, after]
  | pollWrite buf turn =>
      obtain ⟨slot, pos, after⟩ := f.pollWrite_changes buf turn
      rw [act, after]
  | pollFlush turn =>
      obtain ⟨slot, after⟩ := f.pollFlush_changes turn
      rw [act, after]
  | pollShutdown turn =>
      obtain ⟨slot, closed, after⟩ := f.pollShutdown_changes turn
      rw [act, after]
  | _ => rfl

/-- The cases of a step: the task that closes is polled, the file is dropped, or it is acted on. -/
inductive Stepped (s : Lifetime) : Action → Lifetime → Prop
  | pollCloser {turn polled} (spawned : s.closer = some polled) :
      Stepped s (.pollCloser turn) { s with
        closer :=
          if (callSession s.file.limits (.close s.file.handle) (!polled) turn).1.isNone then
            some true
          else none
        sent := s.sent ++ if !polled && !turn.refuses then [.close s.file.handle] else [] }
  | drop {runtime} (alive : s.dropped = false) :
      Stepped s (.drop runtime) { s with
        dropped := true, closer := if s.file.closed || !runtime then none else some false }
  | onFile {action} (other : ∀ turn, action ≠ .pollCloser turn) (alive : s.dropped = false) :
      Stepped s action { s with
        file := (act s.file action).1, sent := s.sent ++ (act s.file action).2 }

theorem stepped {s s' : Lifetime} {action : Action} (taken : step s action = some s') :
    Stepped s action s' := by
  have onFile (other : ∀ turn, action ≠ .pollCloser turn)
      (after : (if s.dropped then none else some { s with
        file := (act s.file action).1, sent := s.sent ++ (act s.file action).2 }) = some s') :
      Stepped s action s' := by
    by_cases dropped : s.dropped = true
    · rw [if_pos dropped] at after
      cases after
    · rw [if_neg dropped] at after
      cases after
      exact .onFile other (Bool.eq_false_iff.mpr dropped)
  cases action with
  | pollCloser turn =>
      have unlimited : (Request.close s.file.handle).operation.limited s.file.limits 0 = none := rfl
      rw [step] at taken
      cases closer : s.closer with
      | none => rw [closer] at taken; cases taken
      | some polled =>
          rw [closer] at taken
          cases taken
          have polls := @Stepped.pollCloser s turn polled closer
          rw [← callSession_sent unlimited] at polls
          exact polls
  | drop runtime =>
      rw [step] at taken
      by_cases dropped : s.dropped = true
      · rw [if_pos dropped] at taken
        cases taken
      · rw [if_neg dropped] at taken
        cases taken
        exact .drop (Bool.eq_false_iff.mpr dropped)
  | _ => exact onFile (fun _ other => by cases other) taken

theorem step_file {s s' : Lifetime} {action : Action} (taken : step s action = some s') :
    s'.file = (act s.file action).1 := by
  cases stepped taken with
  | pollCloser spawned => rfl
  | drop alive => rfl
  | onFile other alive => rfl

/-- What an action on the file sends names its handle. -/
theorem act_sent (s : Lifetime) (action : Action) (onFile : ∀ turn, action ≠ .pollCloser turn) :
    ∃ request, request.names s.file.handle = true ∧
      (act s.file action).2 = if s.makesCall action then [request] else [] := by
  have named : (s.file.handle == s.file.handle) = true := beq_self_eq_true _
  have fsync : (fsyncRequest s.file.handle).names s.file.handle = true := beq_self_eq_true _
  cases action with
  | pollRead buf turn => exact ⟨.read s.file.handle _ _, named, s.file.pollRead_sent buf turn⟩
  | startSeek position => exact ⟨.close s.file.handle, named, rfl⟩
  | pollComplete turn => exact ⟨.fstat s.file.handle, named, s.file.pollComplete_sent turn⟩
  | pollWrite buf turn => exact ⟨.write s.file.handle _ _, named, s.file.pollWrite_sent buf turn⟩
  | pollFlush turn => exact ⟨_, fsync, s.file.pollFlush_sent turn⟩
  | pollShutdown turn => exact ⟨.close s.file.handle, named, s.file.pollShutdown_sent turn⟩
  | metadata turn => exact ⟨.fstat s.file.handle, named, s.file.metadata_sent true turn⟩
  | setMetadata metadata turn =>
      exact ⟨.fsetstat s.file.handle metadata, named, s.file.setMetadata_sent metadata true turn⟩
  | syncAll turn =>
      refine ⟨_, fsync, (s.file.syncAll_sent true turn).trans ?_⟩
      rw [Bool.and_true]
      rfl
  | drop runtime => exact ⟨.close s.file.handle, named, rfl⟩
  | pollCloser turn => exact absurd rfl (onFile turn)

/-- What a step sends: nothing, or one request that names the handle. -/
theorem step_sent {s s' : Lifetime} {action : Action} (taken : step s action = some s') :
    s'.file.handle = s.file.handle ∧ ∃ request, request.names s.file.handle = true ∧
      s'.sent = s.sent ++ if s.makesCall action then [request] else [] := by
  have named : (s.file.handle == s.file.handle) = true := beq_self_eq_true _
  cases stepped taken with
  | @pollCloser turn polled spawned =>
      refine ⟨rfl, .close s.file.handle, named, ?_⟩
      rw [makesCall, spawned]
      cases polled <;> rfl
  | drop alive => exact ⟨rfl, .close s.file.handle, named, (List.append_nil _).symm⟩
  | onFile other alive =>
      obtain ⟨request, names, sent⟩ := s.act_sent action other
      exact ⟨act_handle s.file action, request, names, by rw [sent]⟩

/-- No call is made once the handle was closed. -/
def KeepsClosed (handle : String) (s : Lifetime) (action : Action) : Prop :=
  .close handle ∈ s.sent → s.makesCall action = false

theorem handle_of_exec {handle : String} {extensions : SessionExtensions} {actions : List Action}
    {s : Lifetime} (run : Run.exec step (new handle extensions) actions = some s) :
    s.file.handle = handle := by
  refine Run.exec_induction (P := fun _ s => s.file.handle = handle) rfl ?_ actions s run
  intro _ s action s' _ same taken
  exact (step_sent taken).1.trans same

/-- One step keeps a handle that is closed once just when it makes no call after the CLOSE. -/
theorem closedOnce_step {s s' : Lifetime} {action : Action} (taken : step s action = some s') :
    ClosedOnce s.file.handle s'.sent ↔
      ClosedOnce s.file.handle s.sent ∧ KeepsClosed s.file.handle s action := by
  obtain ⟨_, request, names, sent⟩ := step_sent taken
  rw [sent, KeepsClosed]
  cases s.makesCall action with
  | false => simp
  | true =>
      rw [if_pos rfl, closedOnce_snoc, names]

/-- A run closes its handle once and does not use it afterwards, just when none of its steps
makes a call once a CLOSE was sent. -/
theorem closed_once_iff (handle : String) (extensions : SessionExtensions) (actions : List Action)
    (s : Lifetime) (run : Run.exec step (new handle extensions) actions = some s) :
    ClosedOnce handle s.sent ↔ Run.Meets step (KeepsClosed handle) (new handle extensions) actions := by
  refine Run.exec_induction (P := fun actions s => ClosedOnce handle s.sent ↔
    Run.Meets step (KeepsClosed handle) (new handle extensions) actions) ?_ ?_ actions s run
  · exact iff_of_true (closedOnce_nil handle) fun _ _ _ _ shape _ => by simp at shape
  · intro actions s action s' before ih taken
    have same := handle_of_exec before
    have one := closedOnce_step taken
    rw [same, ih] at one
    rw [one]
    constructor
    · rintro ⟨early, last⟩
      refine early.append fun t reached => Run.Meets.cons ?_ fun _ _ => ?_
      · rw [before] at reached
        cases reached
        exact last
      · exact fun _ _ _ _ shape _ => by simp at shape
    · intro meets
      exact ⟨meets.front, meets.last before⟩

def noExtensions : SessionExtensions := ⟨false, none⟩

/-- The reply to a CLOSE. -/
def closed : SftpResult Packet := .ok (.status ⟨1, .ok, "Ok", "en-US"⟩)

/-- A read, and a file that is shut down to the end before it is dropped. -/
theorem closed_once_iff_shutdown :
    ∃ s, Run.exec step (new "h" noExtensions)
      [.pollRead (.empty 1) (.ready (.ok (.data ⟨0, [7]⟩))), .pollShutdown .pending,
        .pollShutdown (.ready closed), .drop true] = some s ∧ ClosedOnce "h" s.sent := by
  refine ⟨_, rfl, (closed_once_iff "h" noExtensions
    [.pollRead (.empty 1) (.ready (.ok (.data ⟨0, [7]⟩))), .pollShutdown .pending,
      .pollShutdown (.ready closed), .drop true] _ rfl).mpr ?_⟩
  refine Run.Meets.cons (fun sent => by cases sent) fun s1 first => ?_
  cases first
  refine Run.Meets.cons (fun sent => absurd sent (by decide)) fun s2 second => ?_
  cases second
  refine Run.Meets.cons (fun _ => rfl) fun s3 third => Run.Meets.cons (fun _ => rfl) fun s4 _ => ?_
  exact fun _ _ _ _ shape _ => by simp at shape

/-- A shutdown that is given up before its reply: the drop closes the handle again.  And a
file that was shut down is read and shut down again. -/
theorem closed_twice :
    (∃ s, Run.exec step (new "h" noExtensions)
      [.pollShutdown .pending, .drop true, .pollCloser .pending] = some s ∧
      s.sent = [.close "h", .close "h"] ∧ ¬ ClosedOnce "h" s.sent) ∧
    (∃ s, Run.exec step (new "h" noExtensions)
      [.pollShutdown (.ready closed), .pollRead (.empty 1) .pending,
        .pollShutdown (.ready closed)] = some s ∧
      s.sent = [.close "h", .read "h" 0 1, .close "h"] ∧ ¬ ClosedOnce "h" s.sent) := by
  constructor
  · refine ⟨_, rfl, rfl, fun once => ?_⟩
    exact absurd (once [] [.close "h"] rfl (.close "h") (by simp)) (by decide)
  · refine ⟨_, rfl, rfl, fun once => ?_⟩
    exact absurd (once [] [.read "h" 0 1, .close "h"] rfl (.close "h") (by simp)) (by decide)

end Lifetime

end RusshSftp.Client
