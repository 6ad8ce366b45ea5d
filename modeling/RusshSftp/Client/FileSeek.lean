import RusshSftp.Client.FileClose
import RusshSftp.Client.FileCursor

/-!
# A seek that fails

`poll_complete` leaves by `?` before it clears its slot.  The future of a failed seek stays
there; it has completed, so that the next poll of it panics, and `start_seek` takes it for a
pending operation.
-/

set_option autoImplicit false

namespace RusshSftp.Client

/-! ## Polls with one turn after the other -/

section
variable {σ β : Type} {poll : σ → Turn → Poll β × σ × List Request}

/-- Polls until the value is ready, or until there are no turns left. -/
def pollThrough (poll : σ → Turn → Poll β × σ × List Request) :
    List Turn → σ → Poll β × σ × List Request
  | [], s => (.pending, s, [])
  | turn :: turns, s =>
      match poll s turn with
      | (.pending, s, sent) =>
          let (last, s, later) := pollThrough poll turns s
          (last, s, sent ++ later)
      | done => done

/-- What the polls that wait keep, the poll that is ready finds. -/
theorem pollThrough_ready {I : σ → Prop} {Q : Except String β → σ → Prop}
    (waits : ∀ s turn s' sent, I s → poll s turn = (.pending, s', sent) → I s')
    (ends : ∀ s turn result s' sent, I s → poll s turn = (.ready result, s', sent) → Q result s')
    (turns : List Turn) {s s' : σ} {result : Except String β} {sent : List Request} (start : I s)
    (done : pollThrough poll turns s = (.ready result, s', sent)) : Q result s' := by
  induction turns generalizing s sent with
  | nil => simp [pollThrough] at done
  | cons turn turns ih =>
      rw [pollThrough] at done
      split at done
      · rename_i next first polled
        rw [Prod.mk.injEq, Prod.mk.injEq] at done
        obtain ⟨last, after, _⟩ := done
        apply ih (waits s turn next first start polled)
        exact Prod.ext last (Prod.ext after rfl)
      · exact ends s turn result s' sent start done

end

namespace File

/-! ## One poll of a seek -/

theorem pollFstat_failed {f : File} {pos : Int64} {new : Bool} {turn : Turn} {e : String}
    {next : SeekFuture} {sent : List Request}
    (failed : f.pollFstat pos new turn = (.ready (.error e), next, sent)) : next = .completed := by
  unfold pollFstat at failed
  split at failed
  · simp at failed
  · simp only [Prod.mk.injEq] at failed
    exact failed.2.1.symm

theorem pollSeek_failed {f : File} {future next : SeekFuture} {turn : Turn} {e : String}
    {sent : List Request} (failed : f.pollSeek future turn = (.ready (.error e), next, sent)) :
    next = .completed := by
  cases future with
  | unpolled position curPos =>
      cases position with
      | start pos =>
          simp only [pollSeek, Prod.mk.injEq] at failed
          exact failed.2.1.symm
      | current pos =>
          simp only [pollSeek, Prod.mk.injEq] at failed
          exact failed.2.1.symm
      | «end» pos => exact pollFstat_failed failed
  | fstat pos => exact pollFstat_failed failed
  | completed => simp [pollSeek] at failed

theorem seekOnce_pending {f f' : File} {future : SeekFuture} {turn : Turn} {sent : List Request}
    (polled : seekOnce (f.seeking future) turn = (.pending, f', sent)) :
    ∃ next, f' = f.seeking next := by
  simp only [seekOnce, Polled.parts, pollComplete, seeking] at polled
  split at polled
  · simp only [Prod.mk.injEq] at polled
    exact ⟨_, polled.2.1.symm⟩
  · simp at polled
  · simp at polled
  · simp at polled

theorem seekOnce_failed {f f' : File} {future : SeekFuture} {turn : Turn} {e : String}
    {sent : List Request}
    (polled : seekOnce (f.seeking future) turn = (.ready (.error e), f', sent)) :
    f' = f.seeking .completed := by
  simp only [seekOnce, Polled.parts, pollComplete, seeking] at polled
  split at polled
  · simp at polled
  · simp at polled
  · rename_i failed
    simp only [Prod.mk.injEq] at polled
    rw [← polled.2.1, pollSeek_failed failed]
    rfl
  · simp at polled

/-- A seek of an idle file that fails leaves its completed future behind, and nothing else. -/
theorem failed_seek {f f' : File} (idle : f.state.fSeek = none) {position : SeekFrom}
    {turns : List Turn} {e : String} {sent : List Request}
    (failed : pollThrough seekOnce turns (f.startSeek position).2 = (.ready (.error e), f', sent)) :
    f' = f.seeking .completed := by
  have started : (f.startSeek position).2 = f.seeking (.unpolled position f.pos.toInt64) := by
    rw [startSeek, idle]
    rfl
  rw [started] at failed
  refine pollThrough_ready (I := fun s => ∃ future, s = f.seeking future)
    (Q := fun result s => ∀ e, result = .error e → s = f.seeking .completed)
    ?_ ?_ turns ⟨_, rfl⟩ failed e rfl
  · rintro s turn s' sent ⟨future, rfl⟩ polled
    exact seekOnce_pending polled
  · rintro s turn result s' sent ⟨future, rfl⟩ polled e rfl
    exact seekOnce_failed polled

end File

/-! ## What follows -/

namespace Lifetime

/-- No action takes a completed future out of the slot. -/
theorem completed_stays {f : File} (stuck : f.state.fSeek = some .completed) (action : Action) :
    (act f action).1.state.fSeek = some .completed := by
  cases action with
  | pollRead buf turn =>
      obtain ⟨slot, pos, after⟩ := f.pollRead_changes buf turn
      rw [act, after]
      exact stuck
  | startSeek position =>
      rw [act, File.startSeek, stuck]
      exact stuck
  | pollComplete turn =>
      rw [act, File.pollComplete, stuck]
      rfl
  | pollWrite buf turn =>
      obtain ⟨slot, pos, after⟩ := f.pollWrite_changes buf turn
      rw [act, after]
      exact stuck
  | pollFlush turn =>
      obtain ⟨slot, after⟩ := f.pollFlush_changes turn
      rw [act, after]
      exact stuck
  | pollShutdown turn =>
      obtain ⟨slot, closed, after⟩ := f.pollShutdown_changes turn
      rw [act, after]
      exact stuck
  | _ => exact stuck

end Lifetime

/-- The cursor and the slots are what they were. -/
def SeekUndone (before after : File) : Prop :=
  after.pos = before.pos ∧ after.state = before.state

/-- No failed seek is undone.  The cursor is, but whatever is done with the file from then on,
`start_seek` is refused and `poll_complete` panics. -/
theorem failed_seek_stays (f f' : File) (idle : f.state.fSeek = none) (position : SeekFrom)
    (turns : List Turn) (e : String) (sent : List Request)
    (failed : pollThrough seekOnce turns (f.startSeek position).2 = (.ready (.error e), f', sent)) :
    f'.pos = f.pos ∧ ¬ SeekUndone f f' ∧
      ∀ (s s' : Lifetime) (actions : List Lifetime.Action), s.file = f' →
        Run.exec Lifetime.step s actions = some s' →
          (∀ position, (s'.file.startSeek position).1 ≠ .ok ()) ∧
          ∀ turn, (s'.file.pollComplete turn).poll = .panicked := by
  have after := File.failed_seek idle failed
  refine ⟨by rw [after]; rfl, ?_, ?_⟩
  · rintro ⟨_, same⟩
    rw [after] at same
    have slot : some SeekFuture.completed = f.state.fSeek := congrArg FileState.fSeek same
    rw [idle] at slot
    cases slot
  · intro s s' actions start run
    have stuck : s'.file.state.fSeek = some .completed := by
      have along : Run.Along Lifetime.step (fun t => t.file.state.fSeek = some .completed) s
          actions := by
        apply Run.along_of_keeps
        · rw [start, after]
          rfl
        · intro t action t' stuck taken
          rw [Lifetime.step_file taken]
          exact Lifetime.completed_stays stuck action
      exact along.last run
    constructor
    · intro position
      simp [File.startSeek, stuck]
    · intro turn
      rw [File.pollComplete, stuck]
      rfl

/-- The seek from the end of a file whose size the server cannot tell. -/
theorem failed_seek_stays_end :
    ¬ SeekUndone (File.new "h" (.negotiated false none))
        ((File.new "h" (.negotiated false none)).seeking .completed) ∧
      ∀ turn, (((File.new "h" (.negotiated false none)).seeking .completed).pollComplete
        turn).poll = .panicked := by
  have all := failed_seek_stays (File.new "h" (.negotiated false none))
    ((File.new "h" (.negotiated false none)).seeking .completed) rfl (.end 0)
    [.pending, .ready (.ok (.attrs ⟨1, FileAttributes.empty⟩))] "file size unknown"
    [.fstat "h"] rfl
  exact ⟨all.2.1, (all.2.2 ⟨_, false, none, []⟩ _ [] rfl rfl).2⟩

/-- A step back from the start of a new file fails.  The seek after it is refused, and
`poll_complete` panics. -/
theorem failed_seek_poisons :
    ∃ f', pollThrough seekOnce [.pending]
        ((File.new "h" (.negotiated false none)).startSeek (.current (-1))).2 =
          (.ready (.error "cannot move file pointer before the beginning"), f', []) ∧
      ¬ SeekUndone (File.new "h" (.negotiated false none)) f' ∧
      (f'.startSeek (.start 0)).1 =
        .error "other file operation is pending, call poll_complete before start_seek" ∧
      (f'.pollComplete .pending).poll = .panicked := by
  refine ⟨_, rfl, ?_, rfl, rfl⟩
  rintro ⟨_, same⟩
  cases same

end RusshSftp.Client
