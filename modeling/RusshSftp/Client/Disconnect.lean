import RusshSftp.Client.Correlation
import RusshSftp.Protocol.RoundTrip

/-!
# Calls that wait when the read task has ended

A waiting call ends without its timeout if there is a result in its channel or no
sender of it is left.  The request map belongs to the session as well as to the read task,
so the end of that task drops no sender, and the map reclaims a sender that was replaced or
removed at a moment of its own.  What the session has done so far tells which calls can end:
`Traced` reads the queue, the map and the channels off the actions of a run.
-/

set_option autoImplicit false

namespace RusshSftp.Client

/-- Once the read task has ended, no call waits for its timeout only. -/
def Settled (s : State) : Prop :=
  s.reader = .ended → ∀ c call, s.calls c = some call → call.phase = .recv →
    call.answer.isSome = true ∨ s.senderLeft c call = false

/-! ## The condition -/

/-- The call has put its request in the queue before the write task closed it. -/
def Queued (past : List Action) (c : CallId) : Prop :=
  ∃ earlier later, past = earlier ++ .enqueue c :: later ∧ .writeEnd ∉ earlier

/-- A reply was handed over to the call, its time was up, its future was dropped, or the map has
reclaimed its sender. -/
def Released (past : List Action) (c : CallId) : Prop :=
  (∃ frame, .deliver c frame ∈ past) ∨ .elapse c ∈ past ∨ .drop c ∈ past ∨ .reclaim c ∈ past

def ReadEnded (past : List Action) : Prop := .eof ∈ past ∨ .readCancelled ∈ past

/-- The read task ends after each queued request was released, and from then on the open queue takes
the request of no call that was not. -/
def LeavesNoneWaiting (past : List Action) (action : Action) : Prop :=
  (action = .eof ∨ action = .readCancelled → ∀ c, Queued past c → Released past c) ∧
  (∀ c, action = .enqueue c → ReadEnded past → .writeEnd ∉ past → Released past c)

/-- Each action of the run has such a past. -/
def EndsServed (actions : List Action) : Prop :=
  ∀ past action rest, actions = past ++ action :: rest → LeavesNoneWaiting past action

theorem queued_snoc {past : List Action} {action : Action} {c : CallId} :
    Queued (past ++ [action]) c ↔
      Queued past c ∨ (action = .enqueue c ∧ .writeEnd ∉ past) := by
  constructor
  · rintro ⟨earlier, later, shape, opened⟩
    rcases List.eq_nil_or_concat later with rfl | ⟨later, last, rfl⟩
    · obtain ⟨rfl, same⟩ := List.append_inj' shape rfl
      cases same
      exact .inr ⟨rfl, opened⟩
    · rw [List.concat_eq_append, ← List.cons_append, ← List.append_assoc] at shape
      exact .inl ⟨earlier, later, (List.append_inj' shape rfl).1, opened⟩
  · rintro (⟨earlier, later, rfl, opened⟩ | ⟨rfl, opened⟩)
    · exact ⟨earlier, later ++ [action], by simp, opened⟩
    · exact ⟨past, [], rfl, opened⟩

theorem Queued.mem {past : List Action} {c : CallId} (queued : Queued past c) :
    .enqueue c ∈ past := by
  obtain ⟨earlier, later, rfl, -⟩ := queued
  simp

theorem released_snoc {past : List Action} {action : Action} {c : CallId} :
    Released (past ++ [action]) c ↔ Released past c ∨ (∃ frame, action = .deliver c frame) ∨
      action = .elapse c ∨ action = .drop c ∨ action = .reclaim c := by
  simp only [Released, List.mem_append, List.mem_singleton, exists_or, eq_comm (b := action)]
  tauto

theorem readEnded_snoc {past : List Action} {action : Action} :
    ReadEnded (past ++ [action]) ↔
      ReadEnded past ∨ action = .eof ∨ action = .readCancelled := by
  simp only [ReadEnded, List.mem_append, List.mem_singleton, eq_comm (b := action)]
  tauto

theorem endsServed_snoc {actions : List Action} {action : Action} :
    EndsServed (actions ++ [action]) ↔ EndsServed actions ∧ LeavesNoneWaiting actions action := by
  constructor
  · intro served
    refine ⟨fun past one rest shape => served past one (rest ++ [action]) (by simp [shape]), ?_⟩
    exact served actions action [] rfl
  · rintro ⟨served, last⟩ past one rest shape
    rcases List.eq_nil_or_concat rest with rfl | ⟨rest, final, rfl⟩
    · obtain ⟨rfl, same⟩ := List.append_inj' shape rfl
      cases same
      exact last
    · rw [List.concat_eq_append, ← List.cons_append, ← List.append_assoc] at shape
      exact served past one rest (List.append_inj' shape rfl).1

/-- A call that waits after a step waited before, or the step has queued its request. -/
theorem recv_before {s s' : State} {action : Action} {c : CallId} {call' : Call}
    (taken : step s action = some s') (after : s'.calls c = some call')
    (waiting : call'.phase = .recv) :
    (∃ call, s.calls c = some call ∧ call.phase = .recv ∧ call.key = call'.key ∧
      (call.answer = call'.answer ∨ s'.reader = .idle)) ∨
    (∃ call, action = .enqueue c ∧ s.calls c = some call ∧ call.phase = .enqueue ∧
      call' = { call with phase := .recv } ∧ s.isClosed = false ∧ s'.requests = s.requests ∧
      s'.reader = s.reader) := by
  have other {d : CallId} {call : Call} (at_c : (s.setCall d call).calls c = some call')
      (ends : call.phase ≠ .recv) : ∃ old, s.calls c = some old ∧ old.phase = .recv ∧
        old.key = call'.key ∧ (old.answer = call'.answer ∨ s'.reader = .idle) := by
    rw [State.setCall_calls] at at_c
    split at at_c
    · cases at_c
      exact absurd waiting ends
    · exact ⟨call', at_c, waiting, rfl, .inl rfl⟩
  cases stepped taken with
  | start fresh =>
      rename_i d job
      exact .inl (other after (by cases job <;> simp [Call.new, Job.firstPhase]))
  | enqueue present phase keyed encoded opened =>
      rename_i d call key bytes
      by_cases same : c = d
      · subst same
        rw [State.setCall_same] at after
        cases after
        exact .inr ⟨call, rfl, present, phase, rfl, opened, rfl, rfl⟩
      · rw [State.setCall_other _ _ same] at after
        exact .inl ⟨call', after, waiting, rfl, .inl rfl⟩
  | delivered busy present receiving empty =>
      rename_i frame key packet d call
      by_cases same : c = d
      · subst same
        rw [State.setCall_same] at after
        cases after
        exact .inl ⟨call, present, waiting, rfl, .inr rfl⟩
      · rw [State.setCall_other _ _ same] at after
        exact .inl ⟨call', after, waiting, rfl, .inl rfl⟩
  | limited | unlimited | useNextId | closed | opened | insert | notEncoded | notSent | recv
  | recvNone | elapse | cleanup | complete | drop => exact .inl (other after (by simp))
  | _ => exact .inl ⟨call', after, waiting, rfl, .inl rfl⟩

/-- A sender gets into the map by its own call's insertion only. -/
theorem entry_before {s s' : State} {action : Action} {key : Key} {c : CallId}
    (taken : step s action = some s') (entry : s'.requests key = some c) :
    s.requests key = some c ∨ ∃ call, s'.calls c = some call ∧ call.phase = .enqueue := by
  cases stepped taken with
  | insert present phase keyed =>
      rename_i d call key'
      rw [State.setCall_requests, State.setRequest_requests] at entry
      split at entry
      · cases entry
        exact .inr ⟨_, State.setCall_same _ _ _, rfl⟩
      · exact .inl entry
  | cleanup present phase keyed =>
      rw [State.setCall_requests, State.setRequest_requests] at entry
      split at entry
      · cases entry
      · exact .inl entry
  | found busy there =>
      rename_i frame key' packet d
      replace entry : (s.setRequest key' none).requests key = some c := entry
      rw [State.setRequest_requests] at entry
      split at entry
      · cases entry
      · exact .inl entry
  | _ => exact .inl entry

/-! ## The senders in the map -/

/-- Each sender that was moved into the map is in it, or is retired, or was reclaimed. -/
structure Conserved (past : List Action) (s : State) : Prop where
  once : s.retired.Nodup
  held : ∀ c, s.reader.holds c = true → c ∈ s.retired
  mapped : ∀ key c, s.requests key = some c →
    .insert c ∈ past ∧ c ∉ s.retired ∧ .reclaim c ∉ past
  retired : ∀ c ∈ s.retired, .insert c ∈ past ∧ .reclaim c ∉ past
  reclaimed : ∀ c, .reclaim c ∈ past → .insert c ∈ past
  kept : ∀ c, .insert c ∈ past →
    (∃ key, s.requests key = some c) ∨ c ∈ s.retired ∨ .reclaim c ∈ past

namespace Conserved
variable {past : List Action} {s s' : State}

/-- An action that leaves the map alone. -/
theorem of_same (whole : Conserved past s) {action : Action} (requests : s'.requests = s.requests)
    (retired : s'.retired = s.retired)
    (held : ∀ c, s'.reader.holds c = true → c ∈ s.retired)
    (insert : ∀ c, action ≠ .insert c) (reclaim : ∀ c, action ≠ .reclaim c) :
    Conserved (past ++ [action]) s' := by
  have inserted (c : CallId) : .insert c ∈ past ++ [action] ↔ .insert c ∈ past := by
    simp [(insert c).symm]
  have gone (c : CallId) : .reclaim c ∈ past ++ [action] ↔ .reclaim c ∈ past := by
    simp [(reclaim c).symm]
  refine ⟨?_, ?_, ?_, ?_, ?_, ?_⟩
  · rw [retired]
    exact whole.once
  · intro c holds
    rw [retired]
    exact held c holds
  · intro key c entry
    rw [inserted, gone, retired]
    exact whole.mapped key c (requests ▸ entry)
  · intro c member
    rw [inserted, gone]
    exact whole.retired c (retired ▸ member)
  · intro c
    rw [inserted, gone]
    exact whole.reclaimed c
  · intro c
    rw [inserted, gone, requests, retired]
    exact whole.kept c

/-- A removal retires the entry that it finds. -/
theorem remove (whole : Conserved past s) (inv : Consistent s) (key : Key) :
    Conserved past (s.setRequest key none) := by
  have retired (d : CallId) :
      d ∈ (s.setRequest key none).retired ↔ s.requests key = some d ∨ d ∈ s.retired := by
    simp [State.setRequest]
  have found (other : Key) (d : CallId) : (s.setRequest key none).requests other = some d ↔
      other ≠ key ∧ s.requests other = some d := by
    rw [State.setRequest_requests]
    split <;> simp [*]
  refine ⟨?_, ?_, ?_, ?_, whole.reclaimed, ?_⟩
  · refine List.nodup_append.mpr ⟨?_, whole.once, ?_⟩
    · cases s.requests key <;> simp
    · rintro d entry _ member rfl
      exact (whole.mapped key d (by simpa using entry)).2.1 member
  · intro d holds
    exact (retired d).mpr (.inr (whole.held d holds))
  · intro other d entry
    obtain ⟨apart, there⟩ := (found other d).mp entry
    obtain ⟨inserted, free, left⟩ := whole.mapped other d there
    refine ⟨inserted, fun member => ?_, left⟩
    rcases (retired d).mp member with same | old
    · obtain ⟨call, present, registered⟩ := inv.entry other d there
      obtain ⟨call', present', registered'⟩ := inv.entry key d same
      rw [present] at present'
      cases present'
      exact apart (Option.some.inj (registered.key.symm.trans registered'.key))
    · exact free old
  · intro d member
    rcases (retired d).mp member with same | old
    · exact ⟨(whole.mapped key d same).1, (whole.mapped key d same).2.2⟩
    · exact whole.retired d old
  · intro d inserted
    rcases whole.kept d inserted with ⟨other, there⟩ | old | gone
    · by_cases same : other = key
      · subst same
        exact .inr (.inl ((retired d).mpr (.inl there)))
      · exact .inl ⟨other, (found other d).mpr ⟨same, there⟩⟩
    · exact .inr (.inl ((retired d).mpr (.inr old)))
    · exact .inr (.inr gone)

/-- An insertion where there is no entry. -/
theorem put (whole : Conserved past s) {key : Key} {c : CallId} (empty : s.requests key = none)
    (new : .insert c ∉ past) (requests : s'.requests = Function.update s.requests key (some c))
    (retired : s'.retired = s.retired) (reader : s'.reader = s.reader) :
    Conserved (past ++ [.insert c]) s' := by
  have found (other : Key) (d : CallId) : s'.requests other = some d ↔
      (other = key ∧ c = d) ∨ s.requests other = some d := by
    rw [requests, Function.update_apply]
    split
    · rename_i same
      subst same
      simp [empty]
    · simp [*]
  have inserted (d : CallId) : .insert d ∈ past ++ [.insert c] ↔ .insert d ∈ past ∨ d = c := by
    simp
  have gone (d : CallId) : .reclaim d ∈ past ++ [.insert c] ↔ .reclaim d ∈ past := by simp
  refine ⟨retired ▸ whole.once, ?_, ?_, ?_, ?_, ?_⟩
  · intro d holds
    rw [retired]
    exact whole.held d (reader ▸ holds)
  · intro other d entry
    rw [inserted, gone, retired]
    rcases (found other d).mp entry with ⟨-, rfl⟩ | there
    · exact ⟨.inr rfl, fun member => new (whole.retired c member).1,
        fun left => new (whole.reclaimed c left)⟩
    · obtain ⟨earlier, free, left⟩ := whole.mapped other d there
      exact ⟨.inl earlier, free, left⟩
  · intro d member
    rw [inserted, gone]
    obtain ⟨earlier, left⟩ := whole.retired d (retired ▸ member)
    exact ⟨.inl earlier, left⟩
  · intro d left
    rw [inserted]
    exact .inl (whole.reclaimed d ((gone d).mp left))
  · intro d earlier
    rw [gone, retired]
    rcases (inserted d).mp earlier with before | rfl
    · rcases whole.kept d before with ⟨other, there⟩ | rest
      · exact .inl ⟨other, (found other d).mpr (.inr there)⟩
      · exact .inr rest
    · exact .inl ⟨key, (found key d).mpr (.inl ⟨rfl, rfl⟩)⟩

/-- The map drops a sender that it has retired. -/
theorem reclaim (whole : Conserved past s) {c : CallId} (member : c ∈ s.retired)
    (free : s.reader.holds c = false) (requests : s'.requests = s.requests)
    (retired : s'.retired = s.retired.erase c) (reader : s'.reader = s.reader) :
    Conserved (past ++ [.reclaim c]) s' := by
  have left (d : CallId) : d ∈ s'.retired ↔ d ≠ c ∧ d ∈ s.retired := by
    rw [retired, whole.once.mem_erase_iff]
  have inserted (d : CallId) : .insert d ∈ past ++ [.reclaim c] ↔ .insert d ∈ past := by simp
  have gone (d : CallId) : .reclaim d ∈ past ++ [.reclaim c] ↔ .reclaim d ∈ past ∨ d = c := by
    simp
  refine ⟨?_, ?_, ?_, ?_, ?_, ?_⟩
  · rw [retired]
    exact whole.once.erase c
  · intro d holds
    rw [reader] at holds
    refine (left d).mpr ⟨?_, whole.held d holds⟩
    rintro rfl
    rw [free] at holds
    cases holds
  · intro key d entry
    rw [requests] at entry
    obtain ⟨earlier, apart, stays⟩ := whole.mapped key d entry
    rw [inserted, gone, left]
    refine ⟨earlier, fun both => apart both.2, ?_⟩
    rintro (old | rfl)
    · exact stays old
    · exact apart member
  · intro d there
    obtain ⟨apart, old⟩ := (left d).mp there
    rw [inserted, gone]
    obtain ⟨earlier, stays⟩ := whole.retired d old
    exact ⟨earlier, fun either => either.elim stays apart⟩
  · intro d either
    rw [inserted]
    rcases (gone d).mp either with old | rfl
    · exact whole.reclaimed d old
    · exact (whole.retired d member).1
  · intro d earlier
    rw [gone, left, requests]
    by_cases same : d = c
    · exact .inr (.inr (.inr same))
    · rcases whole.kept d ((inserted d).mp earlier) with there | old | stays
      · exact .inl there
      · exact .inr (.inl ⟨same, old⟩)
      · exact .inr (.inr (.inl stays))

end Conserved

theorem Conserved.step {past : List Action} {s s' : State} {action : Action}
    (whole : Conserved past s) (inv : Consistent s)
    (new : ∀ c, action = .insert c → .insert c ∉ past)
    (taken : Client.step s action = some s') : Conserved (past ++ [action]) s' := by
  cases stepped taken with
  | @insert c call key present phase keyed =>
      have empty : (s.setRequest key none).requests key = none := by
        rw [State.setRequest_requests, if_pos rfl]
      refine (whole.remove inv key).put empty (new c rfl) ?_ rfl rfl
      show Function.update s.requests key (some c) = Function.update (Function.update _ _ _) _ _
      rw [Function.update_idem]
  | @cleanup c call err key present phase keyed =>
      have removed := whole.remove inv key
      exact removed.of_same rfl rfl removed.held (by simp) (by simp)
  | @found frame key packet c busy entry =>
      refine (whole.remove inv key).of_same rfl rfl ?_ (by simp) (by simp)
      intro d holds
      have same : c = d := by simpa [Reader.holds] using holds
      subst same
      simp [State.setRequest, entry]
  | reclaim member free => exact whole.reclaim member free rfl rfl rfl
  | readReply | unknown | delivered | refused | eof | readCancelled =>
      exact whole.of_same rfl rfl (fun _ holds => by cases holds) (by simp) (by simp)
  | _ => exact whole.of_same rfl rfl whole.held (by simp) (by simp)

/-! ## The calls -/

/-- What the past tells of a call. -/
structure Unsent (past : List Action) (c : CallId) : Prop where
  insert : .insert c ∉ past
  enqueue : .enqueue c ∉ past
  elapse : .elapse c ∉ past
  drop : .drop c ∉ past
  deliver : ∀ frame, .deliver c frame ∉ past

/-- The call is in `send`, and waits or is about to. -/
structure Sending (past : List Action) (c : CallId) (call : Call) : Prop where
  insert : .insert c ∈ past
  elapse : .elapse c ∉ past
  drop : .drop c ∉ past
  deliver : call.answer.isSome = true ↔ ∃ frame, .deliver c frame ∈ past

def Tells (past : List Action) (c : CallId) : Option Call → Prop
  | none => Unsent past c
  | some call =>
      match call.phase with
      | .checkLimit | .useNextId | .isClosed | .insert => Unsent past c
      | .enqueue => Sending past c call ∧ .enqueue c ∉ past
      | .recv => Sending past c call ∧ Queued past c
      | _ => Queued past c → Released past c

/-- The call that an action is about, the handing over of its reply included. -/
def Action.about? : Action → Option CallId
  | .start c _ | .deliver c _ => some c
  | action => action.call?

theorem calls_other {s s' : State} {action : Action} {c : CallId} (other : action.about? ≠ some c)
    (taken : step s action = some s') : s'.calls c = s.calls c := by
  have apart {d : CallId} (call : Call) (about : action.about? = some d) :
      (s.setCall d call).calls c = s.calls c :=
    s.setCall_other call fun same => other (same ▸ about)
  cases stepped taken with
  | start | limited | unlimited | useNextId | closed | opened | insert | notEncoded | notSent
  | enqueue | recv | recvNone | elapse | cleanup | complete | drop | delivered =>
      exact apart _ rfl
  | _ => rfl

theorem Unsent.other {past : List Action} {action : Action} {c : CallId} (unsent : Unsent past c)
    (insert : action ≠ .insert c) (enqueue : action ≠ .enqueue c) (elapse : action ≠ .elapse c)
    (drop : action ≠ .drop c) (deliver : ∀ frame, action ≠ .deliver c frame) :
    Unsent (past ++ [action]) c where
  insert := by simp [unsent.insert, insert.symm]
  enqueue := by simp [unsent.enqueue, enqueue.symm]
  elapse := by simp [unsent.elapse, elapse.symm]
  drop := by simp [unsent.drop, drop.symm]
  deliver frame := by simp [unsent.deliver frame, (deliver frame).symm]

theorem Sending.other {past : List Action} {action : Action} {c : CallId} {call call' : Call}
    (sending : Sending past c call) (answer : call'.answer = call.answer)
    (elapse : action ≠ .elapse c) (drop : action ≠ .drop c)
    (deliver : ∀ frame, action ≠ .deliver c frame) : Sending (past ++ [action]) c call' where
  insert := List.mem_append_left _ sending.insert
  elapse := by simp [sending.elapse, elapse.symm]
  drop := by simp [sending.drop, drop.symm]
  deliver := by
    rw [answer, sending.deliver]
    simp [fun frame => (deliver frame).symm]

/-- Once a reply was handed over, or found no room, the channel is full. -/
theorem Sending.delivered {past : List Action} {c : CallId} {frame : Nat} {call call' : Call}
    (sending : Sending past c call) (full : call'.answer.isSome = true) :
    Sending (past ++ [.deliver c frame]) c call' where
  insert := List.mem_append_left _ sending.insert
  elapse := by simp [sending.elapse]
  drop := by simp [sending.drop]
  deliver := ⟨fun _ => ⟨frame, by simp⟩, fun _ => full⟩

/-- A call that is past its wait. -/
theorem tells_over {past : List Action} {action : Action} {c : CallId}
    (ends : Queued past c → Released past c) (enqueue : action ≠ .enqueue c) :
    Queued (past ++ [action]) c → Released (past ++ [action]) c := by
  intro queued
  rcases queued_snoc.mp queued with before | ⟨same, -⟩
  · exact released_snoc.mpr (.inl (ends before))
  · exact absurd same enqueue

theorem Tells.other {past : List Action} {action : Action} {c : CallId} {call : Option Call}
    (tells : Tells past c call) (other : action.about? ≠ some c) :
    Tells (past ++ [action]) c call := by
  have apart {one : Action} (about : one.about? = some c) : action ≠ one :=
    fun same => other (same ▸ about)
  have unsent (before : Unsent past c) : Unsent (past ++ [action]) c :=
    before.other (apart rfl) (apart rfl) (apart rfl) (apart rfl) fun _ => apart rfl
  have sending {call : Call} (before : Sending past c call) : Sending (past ++ [action]) c call :=
    before.other rfl (apart rfl) (apart rfl) fun _ => apart rfl
  cases call with
  | none => exact unsent tells
  | some call =>
      simp only [Tells] at tells ⊢
      split at tells
      · exact unsent tells
      · exact unsent tells
      · exact unsent tells
      · exact unsent tells
      · exact ⟨sending tells.1, by simp [tells.2, (apart rfl : action ≠ .enqueue c).symm]⟩
      · exact ⟨sending tells.1, queued_snoc.mpr (.inl tells.2)⟩
      · exact tells_over tells (apart rfl)

/-- A call that has queued nothing has nothing to wait for. -/
theorem Unsent.never {past : List Action} {action : Action} {c : CallId} (unsent : Unsent past c)
    (enqueue : action ≠ .enqueue c) :
    Queued (past ++ [action]) c → Released (past ++ [action]) c :=
  tells_over (fun queued => absurd queued.mem unsent.enqueue) enqueue

/-- The reader has tried to hand a reply over. -/
theorem Tells.handed {past : List Action} {c : CallId} {frame : Nat} {call call' : Call}
    (tells : Tells past c (some call)) (late : call.phase.early = false)
    (same : call'.phase = call.phase)
    (full : call.phase = .enqueue ∨ call.phase = .recv → call'.answer.isSome = true) :
    Tells (past ++ [.deliver c frame]) c (some call') := by
  simp only [Tells, same] at tells ⊢
  split at tells <;> rename_i phase
  · rw [phase] at late; cases late
  · rw [phase] at late; cases late
  · rw [phase] at late; cases late
  · rw [phase] at late; cases late
  · exact ⟨tells.1.delivered (full (.inl phase)), by simp [tells.2]⟩
  · exact ⟨tells.1.delivered (full (.inr phase)), queued_snoc.mpr (.inl tells.2)⟩
  · exact tells_over tells (by simp)

/-- What has happened in a run, as its last state shows it. -/
structure Traced (past : List Action) (s : State) : Prop where
  closed : s.isClosed = true ↔ .writeEnd ∈ past
  ended : s.reader = .ended ↔ ReadEnded past
  whole : Conserved past s
  tells : ∀ c, Tells past c (s.calls c)

theorem Conserved.new (limits : Limits) : Conserved [] (State.new limits) where
  once := List.nodup_nil
  held _ holds := by cases holds
  mapped _ _ entry := by cases entry
  retired _ member := by cases member
  reclaimed _ member := by cases member
  kept _ member := by cases member

theorem Traced.new (limits : Limits) : Traced [] (State.new limits) where
  closed := by simp [State.new, State.isClosed]
  ended := by simp [State.new, ReadEnded]
  whole := Conserved.new limits
  tells _ := ⟨by simp, by simp, by simp, by simp, by simp⟩

namespace Traced
variable {past : List Action} {s s' : State}

theorem sending (traced : Traced past s) {c : CallId} {call : Call}
    (present : s.calls c = some call) (waits : call.phase = .enqueue ∨ call.phase = .recv) :
    Sending past c call := by
  have tells := traced.tells c
  rw [present] at tells
  rcases waits with phase | phase <;> simp only [Tells, phase] at tells <;> exact tells.1

/-- The channel of a call that waits has lost its sender just when the map has reclaimed it. -/
theorem senderLeft_iff (traced : Traced past s) (inv : Consistent s) {c : CallId} {call : Call}
    (present : s.calls c = some call) (waits : call.phase = .enqueue ∨ call.phase = .recv) :
    s.senderLeft c call = false ↔ .reclaim c ∈ past := by
  have inserted := (traced.sending present waits).insert
  constructor
  · intro gone
    rcases traced.whole.kept c inserted with ⟨key, entry⟩ | member | reclaimed
    · obtain ⟨old, present', registered⟩ := inv.entry key c entry
      rw [present] at present'
      cases present'
      simp [State.senderLeft, registered.key, entry] at gone
    · simp [State.senderLeft, member] at gone
    · exact reclaimed
  · intro reclaimed
    have retired : c ∉ s.retired := fun member => (traced.whole.retired c member).2 reclaimed
    have held : s.reader.holds c = false :=
      Bool.eq_false_iff.mpr fun holds => retired (traced.whole.held c holds)
    have mapped (key : Key) : s.requests key ≠ some c :=
      fun entry => (traced.whole.mapped key c entry).2.2 reclaimed
    cases keyed : call.key <;> simp [State.senderLeft, retired, held, mapped, keyed]

/-- The call that an action is about. -/
theorem tells_about (traced : Traced past s) (inv : Consistent s) {action : Action} {c : CallId}
    (about : action.about? = some c) (taken : step s action = some s') :
    Tells (past ++ [action]) c (s'.calls c) := by
  have tells := traced.tells c
  cases stepped taken with
  | @start d job fresh =>
      cases about
      rw [fresh] at tells
      have unsent : Unsent (past ++ [.start c job]) c :=
        Unsent.other tells (by simp) (by simp) (by simp) (by simp) (by simp)
      rw [State.setCall_same]
      cases job <;> exact unsent
  | limited present phase | closed present phase =>
      cases about
      rw [State.setCall_same]
      simp only [present, Tells, phase] at tells ⊢
      exact Unsent.never tells (by simp)
  | unlimited present phase | opened present phase =>
      cases about
      rw [State.setCall_same]
      simp only [present, Tells, phase] at tells ⊢
      exact Unsent.other tells (by simp) (by simp) (by simp) (by simp) (by simp)
  | @useNextId d call present phase =>
      cases about
      show Tells _ c ((s.setCall c _).calls c)
      rw [State.setCall_same]
      simp only [present, Tells, phase] at tells ⊢
      exact Unsent.other tells (by simp) (by simp) (by simp) (by simp) (by simp)
  | @insert d call key present phase keyed =>
      cases about
      rw [State.setCall_same]
      simp only [present, Tells, phase] at tells ⊢
      have unanswered := inv.fresh c call present (by rw [phase]; rfl)
      refine ⟨⟨by simp, by simp [tells.elapse], by simp [tells.drop], ?_⟩, by simp [tells.enqueue]⟩
      simp [unanswered, tells.deliver]
  | notEncoded present phase keyed encoded => rw [Packet.toBytes_eq] at encoded; cases encoded
  | @notSent d call key bytes present phase keyed encoded closed =>
      cases about
      rw [State.setCall_same]
      simp only [present, Tells, phase] at tells ⊢
      intro queued
      rcases queued_snoc.mp queued with before | ⟨-, opened⟩
      · exact absurd before.mem tells.2
      · exact absurd (traced.closed.mp closed) opened
  | @enqueue d call key bytes present phase keyed encoded opened =>
      cases about
      show Tells _ c ((s.setCall c _).calls c)
      rw [State.setCall_same]
      simp only [present, Tells, phase] at tells ⊢
      refine ⟨tells.1.other rfl (by simp) (by simp) (by simp), queued_snoc.mpr (.inr ⟨rfl, ?_⟩)⟩
      intro closed
      rw [traced.closed.mpr closed] at opened
      cases opened
  | @recv d call answer present phase answered =>
      cases about
      rw [State.setCall_same]
      simp only [present, Tells, phase] at tells ⊢
      have delivered := tells.1.deliver.mp (by rw [answered]; rfl)
      exact tells_over (fun _ => .inl delivered) (by simp)
  | @recvNone d call present phase unanswered gone =>
      cases about
      rw [State.setCall_same]
      have reclaimed := (traced.senderLeft_iff inv present (.inr phase)).mp gone
      simp only [Tells]
      exact tells_over (fun _ => .inr (.inr (.inr reclaimed))) (by simp)
  | @elapse d call present phase =>
      cases about
      rw [State.setCall_same]
      simp only [Tells]
      exact fun _ => released_snoc.mpr (.inr (.inr (.inl rfl)))
  | @drop d call present phase =>
      cases about
      rw [State.setCall_same]
      simp only [Tells]
      exact fun _ => released_snoc.mpr (.inr (.inr (.inr (.inl rfl))))
  | cleanup present phase =>
      cases about
      rw [State.setCall_same]
      simp only [present, Tells, phase] at tells ⊢
      exact tells_over tells (by simp)
  | @complete d call result present phase =>
      cases about
      show Tells _ c ((s.setCall c _).calls c)
      rw [State.setCall_same]
      simp only [present, Tells, phase] at tells ⊢
      exact tells_over tells (by simp)
  | @delivered frame key packet d call busy present receiving empty =>
      cases about
      obtain ⟨-, -, old, present', registered⟩ := inv.sending frame key packet c busy
      rw [present] at present'
      cases present'
      rw [present] at tells
      show Tells _ c ((s.setCall c _).calls c)
      rw [State.setCall_same]
      exact tells.handed registered.late rfl fun _ => rfl
  | @refused frame key packet d busy unable =>
      cases about
      obtain ⟨-, -, call, present, registered⟩ := inv.sending frame key packet c busy
      rw [present] at tells
      show Tells _ c (s.calls c)
      rw [present]
      refine tells.handed registered.late rfl fun waits => ?_
      refine Option.isSome_iff_ne_none.mpr (unable call present ?_)
      rcases waits with phase | phase <;> rw [phase] <;> rfl
  | _ => cases about

theorem new_insert (traced : Traced past s) {action : Action}
    (taken : Client.step s action = some s') (c : CallId) (insert : action = .insert c) :
    .insert c ∉ past := by
  subst insert
  have tells := traced.tells c
  cases stepped taken with
  | insert present phase keyed =>
      simp only [present, Tells, phase] at tells
      exact tells.insert

theorem step (traced : Traced past s) (inv : Consistent s) {action : Action}
    (taken : Client.step s action = some s') : Traced (past ++ [action]) s' where
  closed := by
    have closed := traced.closed
    cases stepped taken with
    | writeEnd stopped => simp [State.isClosed]
    | shutdown running | writeCancelled running =>
        simp only [State.isClosed, running] at closed
        simpa [State.isClosed] using closed
    | _ => simpa [State.isClosed] using closed
  ended := by
    have ended := traced.ended
    rw [readEnded_snoc, ← ended]
    cases stepped taken with
    | eof | readCancelled => simp
    | readReply idle => simp [idle]
    | found busy | unknown busy | delivered busy | refused busy => simp [busy]
    | _ => simp
  whole := traced.whole.step inv (traced.new_insert taken) taken
  tells c := by
    by_cases about : action.about? = some c
    · exact traced.tells_about inv about taken
    · rw [calls_other about taken]
      exact (traced.tells c).other about

theorem of_exec {limits : Limits} {actions : List Action}
    (run : Run.exec Client.step (State.new limits) actions = some s) : Traced actions s :=
  Run.exec_induction (P := fun past t => Traced past t) (Traced.new limits)
    (fun _ _ _ _ before traced taken => traced.step (Consistent.of_exec before) taken) actions s run

/-- A call waits for its timeout only just when its request was queued and it was not released. -/
theorem released_iff (traced : Traced past s) (inv : Consistent s) (c : CallId) :
    (∀ call, s.calls c = some call → call.phase = .recv →
      call.answer.isSome = true ∨ s.senderLeft c call = false) ↔
      (Queued past c → Released past c) := by
  have tells := traced.tells c
  constructor
  · intro settled queued
    cases present : s.calls c with
    | none =>
        rw [present] at tells
        exact absurd queued.mem tells.enqueue
    | some call =>
        rw [present] at tells
        simp only [Tells] at tells
        split at tells <;> rename_i phase
        · exact absurd queued.mem tells.enqueue
        · exact absurd queued.mem tells.enqueue
        · exact absurd queued.mem tells.enqueue
        · exact absurd queued.mem tells.enqueue
        · exact absurd queued.mem tells.2
        · rcases settled call present phase with answered | gone
          · exact .inl (tells.1.deliver.mp answered)
          · exact .inr (.inr (.inr ((traced.senderLeft_iff inv present (.inr phase)).mp gone)))
        · exact tells queued
  · intro released call present phase
    have sending := traced.sending present (.inr phase)
    simp only [present, Tells, phase] at tells
    rcases released tells.2 with delivered | elapsed | dropped | reclaimed
    · exact .inl (sending.deliver.mpr delivered)
    · exact absurd elapsed sending.elapse
    · exact absurd dropped sending.drop
    · exact .inr ((traced.senderLeft_iff inv present (.inr phase)).mpr reclaimed)

theorem settled_iff (traced : Traced past s) (inv : Consistent s) :
    Settled s ↔ (ReadEnded past → ∀ c, Queued past c → Released past c) := by
  rw [Settled, traced.ended]
  exact forall_congr' fun _ => forall_congr' fun c => traced.released_iff inv c

end Traced

/-! ## Runs -/

/-- One more action of a run that is settled so far. -/
theorem leaves_iff {past : List Action} {action : Action}
    (settled : ReadEnded past → ∀ c, Queued past c → Released past c) :
    (ReadEnded (past ++ [action]) →
      ∀ c, Queued (past ++ [action]) c → Released (past ++ [action]) c) ↔
      LeavesNoneWaiting past action := by
  have later {c : CallId} (released : Released past c) : Released (past ++ [action]) c :=
    released_snoc.mpr (.inl released)
  constructor
  · intro after
    constructor
    · intro ends c queued
      have released := after (readEnded_snoc.mpr (.inr ends)) c (queued_snoc.mpr (.inl queued))
      rcases ends with rfl | rfl <;> simpa [released_snoc] using released
    · rintro c rfl ended opened
      have released := after (readEnded_snoc.mpr (.inl ended)) c
        (queued_snoc.mpr (.inr ⟨rfl, opened⟩))
      simpa [released_snoc] using released
  · intro leaves ended' c queued'
    rcases queued_snoc.mp queued' with queued | ⟨rfl, opened⟩
    · rcases readEnded_snoc.mp ended' with ended | ends
      · exact later (settled ended c queued)
      · exact later (leaves.1 ends c queued)
    · rcases readEnded_snoc.mp ended' with ended | ends
      · exact later (leaves.2 c rfl ended opened)
      · simp at ends

/-- A run leaves every waiting call an end other than its timeout, in all its states, just
when its read task ends after all queued requests were released, and nothing unreleased is
queued from then on. -/
theorem settled_along_iff (limits : Limits) (actions : List Action) (s : State)
    (run : Run.exec step (State.new limits) actions = some s) :
    Run.Along step Settled (State.new limits) actions ↔ EndsServed actions := by
  refine Run.exec_induction (P := fun actions _ =>
    Run.Along step Settled (State.new limits) actions ↔ EndsServed actions) ?_ ?_ actions s run
  · refine ⟨fun _ past action rest shape => by simp at shape, ?_⟩
    intro _ before after t shape early
    obtain ⟨rfl, -⟩ := List.append_eq_nil_iff.mp shape.symm
    cases early
    intro ended
    cases ended
  · intro past t action t' early ih taken
    have settled := (Traced.of_exec early).settled_iff (Consistent.of_exec early)
    have last := Run.exec_snoc early taken
    have settled' := (Traced.of_exec last).settled_iff (Consistent.of_exec last)
    rw [endsServed_snoc, ← ih]
    constructor
    · intro along
      refine ⟨along.front, (leaves_iff (settled.mp (along.front.last early))).mp ?_⟩
      exact settled'.mp (along.last last)
    · rintro ⟨along, leaves⟩
      refine along.snoc last (settled'.mpr ?_)
      exact (leaves_iff (settled.mp (along.last early))).mpr leaves

/-- An `init` up to the moment before its request is queued. -/
def initUnsent : List Action := [.start 0 .init, .isClosed 0, .insert 0]

/-- The same `init` up to the moment its reply is in its channel. -/
def initAnswered : List Action :=
  initUnsent ++ .enqueue 0 :: [.write, .arrive versionBody, .read, .lookup none, .deliver 0 0]

/-- A call whose reply came before the end of the stream, but which has not run since. -/
theorem settled_along_iff_answered :
    Run.Along step Settled (State.new Limits.default) (initAnswered ++ [.eof]) := by
  obtain ⟨s, run⟩ : ∃ s, Run.exec step (State.new Limits.default) (initAnswered ++ [.eof]) =
      some s := Option.isSome_iff_exists.mp (by decide +kernel)
  refine (settled_along_iff Limits.default _ s run).mpr (endsServed_snoc.mpr ⟨?_, ?_⟩)
  · intro past action rest shape
    have noEnd : .eof ∉ initAnswered ∧ .readCancelled ∉ initAnswered := by decide +kernel
    rw [shape] at noEnd
    refine ⟨fun ends => ?_, fun c _ ended => ?_⟩
    · rcases ends with rfl | rfl <;> simp at noEnd
    · rcases ended with member | member <;> simp [member] at noEnd
  · refine ⟨fun _ c queued => .inl ⟨0, ?_⟩, by simp⟩
    have zero : c = 0 := by simpa [initAnswered, initUnsent] using queued.mem
    rw [zero]
    decide +kernel

/-- A peer that closes the stream with a request outstanding. -/
theorem waiting_call_not_settled :
    ∃ s, Run.exec step (State.new Limits.default)
      [.start 0 .init, .isClosed 0, .insert 0, .enqueue 0, .write, .eof] = some s ∧
      s.reader = .ended ∧ ¬ Settled s := by
  refine ⟨_, rfl, rfl, fun settled => ?_⟩
  rcases settled rfl 0 ⟨.init, some none, .recv, none⟩ (by rfl) rfl with answered | gone
  · cases answered
  · exact absurd gone (by decide)

end RusshSftp.Client
