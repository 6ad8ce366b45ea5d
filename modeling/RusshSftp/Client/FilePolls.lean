import RusshSftp.Client.FileClose

/-!
# Polls of a file in any order

Each operation of a file has a slot of its own, and the three that move the cursor share it.
A slot keeps what its call was made with, whatever the later polls are given: other buffers,
or a cursor that was moved.
-/

set_option autoImplicit false

namespace RusshSftp.Client

/-! ## What a turn brings -/

/-- The bytes of a DATA reply. -/
def Turn.data : Turn → Bytes
  | .ready (.ok (.data p)) => p.data
  | _ => []

/-- The reply is a status that says `Ok`. -/
def Turn.acknowledges : Turn → Bool
  | .ready (.ok (.status p)) => p.statusCode == .ok
  | _ => false

theorem Turn.goes_of_acknowledges {turn : Turn} (acks : turn.acknowledges = true) :
    turn.refuses = false := by
  cases turn with
  | refused err => cases acks
  | _ => rfl

theorem Turn.read_cases {turn : Turn} {result : SftpResult Packet}
    (answered : turn.answer = some result) :
    (∃ p, turn = .ready (.ok (.data p)) ∧ result.bind (intoWithStatus data?) = .ok p) ∨
      turn.data = [] ∧ ∃ err, result.bind (intoWithStatus data?) = .error err := by
  cases turn with
  | refused err =>
      cases answered
      exact .inr ⟨rfl, err, rfl⟩
  | pending => cases answered
  | ready reply =>
      cases answered
      cases result with
      | error err => exact .inr ⟨rfl, err, rfl⟩
      | ok packet =>
          cases packet with
          | data p => exact .inl ⟨p, rfl, rfl⟩
          | _ => exact .inr ⟨rfl, _, rfl⟩

theorem Turn.write_cases {turn : Turn} {result : SftpResult Packet}
    (answered : turn.answer = some result) :
    (turn.acknowledges = true ∧ ∃ p, result.bind intoStatus = .ok p) ∨
      turn.acknowledges = false ∧ ∃ err, result.bind intoStatus = .error err := by
  cases turn with
  | refused err =>
      cases answered
      exact .inr ⟨rfl, err, rfl⟩
  | pending => cases answered
  | ready reply =>
      cases answered
      cases result with
      | error err => exact .inr ⟨rfl, err, rfl⟩
      | ok packet =>
          cases packet with
          | status p =>
              by_cases code : p.statusCode = .ok
              · refine .inl ⟨beq_iff_eq.mpr code, p, ?_⟩
                show intoStatus (.status p) = _
                rw [intoStatus, if_pos code]
              · refine .inr ⟨beq_eq_false_iff_ne.mpr code, .status p, ?_⟩
                show intoStatus (.status p) = _
                rw [intoStatus, if_neg code]
          | _ => exact .inr ⟨rfl, _, rfl⟩

def Request.isRead : Request → Bool
  | .read .. => true
  | _ => false

def Request.isWrite : Request → Bool
  | .write .. => true
  | _ => false

/-- The last request of a kind. -/
def lastSent (kind : Request → Bool) (sent : List Request) : Option Request :=
  (sent.filter kind).getLast?

theorem lastSent_snoc {kind : Request → Bool} {request : Request} (isKind : kind request = true)
    (sent : List Request) : lastSent kind (sent ++ [request]) = some request := by
  simp [lastSent, isKind]

theorem lastSent_append {kind : Request → Bool} {later : List Request}
    (others : ∀ request ∈ later, kind request = false) (sent : List Request) :
    lastSent kind (sent ++ later) = lastSent kind sent := by
  have none : later.filter kind = [] := by
    rw [List.filter_eq_nil_iff]
    intro request member
    rw [others request member]
    decide
  rw [lastSent, List.filter_append, none, List.append_nil, lastSent]

namespace File

/-! ## How a poll can end -/

/-- A read that fails, or that finds the end of the file. -/
theorem finishRead_error (f : File) (buf : ReadBuf) (err : Error) :
    ∃ result, f.finishRead buf (.error err) = (.ready result, f, buf) := by
  cases err with
  | status status =>
      by_cases code : status.statusCode = .eof
      · exact ⟨.ok (), by simp only [finishRead, readOutput, if_pos code]⟩
      · exact ⟨_, by simp only [finishRead, readOutput, if_neg code]; rfl⟩
  | _ => exact ⟨_, rfl⟩

theorem pollRead_pending (f : File) (buf : ReadBuf) :
    (f.pollRead buf .pending).1.poll = .pending ∧
      (f.pollRead buf .pending).1.file =
        { f with state.fRead := some (f.state.fRead.getD (f.readCall buf)) } ∧
      (f.pollRead buf .pending).2 = buf := by
  rw [pollRead_eq]
  exact ⟨rfl, rfl, rfl⟩

/-- A poll that finds data moves the cursor past it, and panics if there is no room for it. -/
theorem pollRead_data (f : File) (buf : ReadBuf) (p : Data) :
    (f.pollRead buf (.ready (.ok (.data p)))).1.file =
        { f with state.fRead := none, pos := f.pos + UInt64.ofNat p.data.length } ∧
      ((f.pollRead buf (.ready (.ok (.data p)))).1.poll,
          (f.pollRead buf (.ready (.ok (.data p)))).2) =
        match buf.putSlice p.data with
        | some buf => (.ready (.ok ()), buf)
        | none => (.panicked, buf) := by
  have found : (Except.ok (Packet.data p) : SftpResult Packet).bind (intoWithStatus data?) =
      .ok p := rfl
  rw [pollRead_eq]
  simp only [Turn.answer, found, finishRead, readOutput]
  cases buf.putSlice p.data <;> exact ⟨rfl, rfl⟩

theorem pollRead_eof (f : File) (buf : ReadBuf) (p : Status) (code : p.statusCode = .eof) :
    (f.pollRead buf (.ready (.ok (.status p)))).1.poll = .ready (.ok ()) ∧
      (f.pollRead buf (.ready (.ok (.status p)))).1.file = { f with state.fRead := none } ∧
      (f.pollRead buf (.ready (.ok (.status p)))).2 = buf := by
  have found : (Except.ok (Packet.status p) : SftpResult Packet).bind (intoWithStatus data?) =
      .error (.status p) := rfl
  rw [pollRead_eq]
  simp [Turn.answer, found, finishRead, readOutput, code]

/-- The outcomes of `poll_read`: it waits, it ends without data, or it takes data. -/
theorem pollRead_cases (f : File) (buf : ReadBuf) (turn : Turn) :
    (turn = .pending ∧ (f.pollRead buf turn).1.poll = .pending ∧
      (f.pollRead buf turn).1.file =
        { f with state.fRead := some (f.state.fRead.getD (f.readCall buf)) } ∧
      (f.pollRead buf turn).2 = buf) ∨
    (turn.data = [] ∧ (∃ result, (f.pollRead buf turn).1.poll = .ready result) ∧
      (f.pollRead buf turn).1.file = { f with state.fRead := none } ∧
      (f.pollRead buf turn).2 = buf) ∨
    ∃ p, turn = .ready (.ok (.data p)) ∧
      (f.pollRead buf turn).1.file =
        { f with state.fRead := none, pos := f.pos + UInt64.ofNat p.data.length } ∧
      ((f.pollRead buf turn).1.poll, (f.pollRead buf turn).2) =
        match buf.putSlice p.data with
        | some buf => (.ready (.ok ()), buf)
        | none => (.panicked, buf) := by
  cases answered : turn.answer with
  | none =>
      cases turn with
      | pending => exact .inl ⟨rfl, f.pollRead_pending buf⟩
      | _ => cases answered
  | some result =>
      rcases Turn.read_cases answered with ⟨p, rfl, _⟩ | ⟨empty, err, ended⟩
      · exact .inr (.inr ⟨p, rfl, f.pollRead_data buf p⟩)
      · obtain ⟨value, finished⟩ := { f with state.fRead := none }.finishRead_error buf err
        rw [pollRead_eq, answered]
        dsimp only
        rw [ended, finished]
        exact .inr (.inl ⟨empty, ⟨value, rfl⟩, rfl, rfl⟩)

/-- The outcomes of `poll_write`: it waits, it fails, or its write is acknowledged. -/
theorem pollWrite_cases (f : File) (buf : Bytes) (turn : Turn) :
    (turn = .pending ∧ (f.pollWrite buf turn).poll = .pending ∧
      (f.pollWrite buf turn).file =
        { f with state.fWrite := some (f.state.fWrite.getD (f.writeCall buf)) }) ∨
    (turn.acknowledges = false ∧ (∃ answer e, turn.answer = some answer ∧
        ioResult (answer.bind intoStatus) = .error e ∧
        (f.pollWrite buf turn).poll = .ready (.error e)) ∧
      (f.pollWrite buf turn).file = { f with state.fWrite := none }) ∨
    (turn.acknowledges = true ∧
      (f.pollWrite buf turn).poll =
        .ready (.ok (f.state.fWrite.getD (f.writeCall buf)).data.length) ∧
      (f.pollWrite buf turn).file = { f with
        state.fWrite := none
        pos := f.pos + UInt64.ofNat (f.state.fWrite.getD (f.writeCall buf)).data.length }) := by
  rw [pollWrite_eq]
  cases answered : turn.answer with
  | none =>
      cases turn with
      | pending => exact .inl ⟨rfl, rfl, rfl⟩
      | _ => cases answered
  | some result =>
      dsimp only
      rcases Turn.write_cases answered with ⟨acked, p, ended⟩ | ⟨failed, err, ended⟩
      · rw [ended]
        exact .inr (.inr ⟨acked, rfl, rfl⟩)
      · rw [ended]
        exact .inr (.inl ⟨failed, ⟨result, _, rfl, by rw [ended]; rfl, rfl⟩, rfl⟩)

end File

namespace Lifetime

/-! ## What the pending calls have sent -/

/-- A pending read has sent the last READ. -/
def ReadOnWire (s : Lifetime) : Prop :=
  ∀ call, s.file.state.fRead = some call →
    lastSent Request.isRead s.sent = some (.read s.file.handle call.offset call.len)

/-- A pending read has sent the last READ, at the cursor. -/
def ReadAtCursor (s : Lifetime) : Prop :=
  ∀ call, s.file.state.fRead = some call → call.offset = s.file.pos ∧
    lastSent Request.isRead s.sent = some (.read s.file.handle call.offset call.len)

/-- A pending write has sent the last WRITE, at the cursor. -/
def WriteAtCursor (s : Lifetime) : Prop :=
  ∀ call, s.file.state.fWrite = some call → call.offset = s.file.pos ∧
    lastSent Request.isWrite s.sent = some (.write s.file.handle call.offset call.data)

section
variable {s : Lifetime}

/-- The call that a poll of a read makes or finds has sent the last READ, at the cursor. -/
theorem ReadAtCursor.asked (held : ReadAtCursor s) (buf : ReadBuf) (turn : Turn)
    (goes : turn.refuses = false) :
    (s.file.state.fRead.getD (s.file.readCall buf)).offset = s.file.pos ∧
      lastSent Request.isRead (s.sent ++ (s.file.pollRead buf turn).1.sent) =
        some (.read s.file.handle s.file.pos
          (s.file.state.fRead.getD (s.file.readCall buf)).len) := by
  rw [File.pollRead_sent, goes]
  cases slot : s.file.state.fRead with
  | none => exact ⟨rfl, lastSent_snoc rfl s.sent⟩
  | some call =>
      obtain ⟨offset, last⟩ := held call slot
      refine ⟨offset, ?_⟩
      rw [← offset]
      simpa using last

theorem WriteAtCursor.asked (held : WriteAtCursor s) (buf : Bytes) (turn : Turn)
    (goes : turn.refuses = false) :
    (s.file.state.fWrite.getD (s.file.writeCall buf)).offset = s.file.pos ∧
      lastSent Request.isWrite (s.sent ++ (s.file.pollWrite buf turn).sent) =
        some (.write s.file.handle s.file.pos
          (s.file.state.fWrite.getD (s.file.writeCall buf)).data) := by
  rw [File.pollWrite_sent, goes]
  cases slot : s.file.state.fWrite with
  | none => exact ⟨rfl, lastSent_snoc rfl s.sent⟩
  | some call =>
      obtain ⟨offset, last⟩ := held call slot
      refine ⟨offset, ?_⟩
      rw [← offset]
      simpa using last

end

/-- What a step adds to the requests, but for the CLOSE of the task, is what its action sends. -/
theorem lastSent_step {s s' : Lifetime} {action : Action} (taken : step s action = some s')
    (kind : Request → Bool) (closing : ∀ handle, kind (.close handle) = false) :
    lastSent kind s'.sent = lastSent kind (s.sent ++ (act s.file action).2) := by
  cases stepped taken with
  | pollCloser spawned =>
      rw [lastSent_append, act, List.append_nil]
      intro request member
      split at member
      · rw [List.mem_singleton.mp member]
        exact closing _
      · cases member
  | drop alive => rw [act, List.append_nil]
  | onFile other alive => rfl

/-- Only `poll_read` changes the slot of a read and sends a READ; the others leave both alone. -/
def LeavesReads (f : File) (action : Action) : Prop :=
  (act f action).1.state.fRead = f.state.fRead ∧
    ∀ request ∈ (act f action).2, request.isRead = false

def LeavesWrites (f : File) (action : Action) : Prop :=
  (act f action).1.state.fWrite = f.state.fWrite ∧
    ∀ request ∈ (act f action).2, request.isWrite = false

theorem act_leaves (f : File) (action : Action) :
    ((∃ buf turn, action = .pollRead buf turn) ∨ LeavesReads f action) ∧
      ((∃ buf turn, action = .pollWrite buf turn) ∨ LeavesWrites f action) := by
  have only {kind : Request → Bool} {sends : Bool} {request : Request} {sent : List Request}
      (asks : sent = if sends then [request] else []) (other : kind request = false) :
      ∀ request ∈ sent, kind request = false := by
    intro asked member
    rw [asks] at member
    split at member
    · rw [List.mem_singleton.mp member]
      exact other
    · cases member
  have nothing (kind : Request → Bool) : ∀ request ∈ [], kind request = false := by simp
  cases action with
  | pollRead buf turn =>
      obtain ⟨slot, pos, after⟩ := f.pollRead_changes buf turn
      have sent := f.pollRead_sent buf turn
      exact ⟨.inl ⟨buf, turn, rfl⟩, .inr ⟨by rw [act, after], only sent rfl⟩⟩
  | startSeek position =>
      obtain ⟨slot, after⟩ := f.startSeek_changes position
      exact ⟨.inr ⟨by rw [act, after], nothing _⟩, .inr ⟨by rw [act, after], nothing _⟩⟩
  | pollComplete turn =>
      obtain ⟨slot, pos, after⟩ := f.pollComplete_changes turn
      have sent := f.pollComplete_sent turn
      exact ⟨.inr ⟨by rw [act, after], only sent rfl⟩, .inr ⟨by rw [act, after], only sent rfl⟩⟩
  | pollWrite buf turn =>
      obtain ⟨slot, pos, after⟩ := f.pollWrite_changes buf turn
      have sent := f.pollWrite_sent buf turn
      exact ⟨.inr ⟨by rw [act, after], only sent rfl⟩, .inl ⟨buf, turn, rfl⟩⟩
  | pollFlush turn =>
      obtain ⟨slot, after⟩ := f.pollFlush_changes turn
      have sent := f.pollFlush_sent turn
      exact ⟨.inr ⟨by rw [act, after], only sent rfl⟩, .inr ⟨by rw [act, after], only sent rfl⟩⟩
  | pollShutdown turn =>
      obtain ⟨slot, closed, after⟩ := f.pollShutdown_changes turn
      have sent := f.pollShutdown_sent turn
      exact ⟨.inr ⟨by rw [act, after], only sent rfl⟩, .inr ⟨by rw [act, after], only sent rfl⟩⟩
  | metadata turn =>
      have sent := f.metadata_sent true turn
      exact ⟨.inr ⟨rfl, only sent rfl⟩, .inr ⟨rfl, only sent rfl⟩⟩
  | setMetadata metadata turn =>
      have sent := f.setMetadata_sent metadata true turn
      exact ⟨.inr ⟨rfl, only sent rfl⟩, .inr ⟨rfl, only sent rfl⟩⟩
  | syncAll turn =>
      have sent := f.syncAll_sent true turn
      exact ⟨.inr ⟨rfl, only sent rfl⟩, .inr ⟨rfl, only sent rfl⟩⟩
  | drop runtime => exact ⟨.inr ⟨rfl, nothing _⟩, .inr ⟨rfl, nothing _⟩⟩
  | pollCloser turn => exact ⟨.inr ⟨rfl, nothing _⟩, .inr ⟨rfl, nothing _⟩⟩

section
variable {s s' : Lifetime} {action : Action}

/-- The slot keeps the call that was made, whatever the later polls bring. -/
theorem ReadOnWire.step (held : ReadOnWire s) (taken : Lifetime.step s action = some s') :
    ReadOnWire s' := by
  have file := step_file taken
  have sent := lastSent_step taken Request.isRead fun _ => rfl
  intro call slot
  rw [file] at slot
  rw [file, sent, act_handle]
  by_cases reads : ∃ buf turn, action = .pollRead buf turn
  · obtain ⟨buf, turn, rfl⟩ := reads
    rcases s.file.pollRead_cases buf turn with
      ⟨rfl, _, after, _⟩ | ⟨_, _, after, _⟩ | ⟨p, _, after, _⟩
    · rw [act, after] at slot
      cases slot
      rw [act, File.pollRead_sent]
      cases pending : s.file.state.fRead with
      | none => exact lastSent_snoc rfl s.sent
      | some call => simpa using held call pending
    · rw [act, after] at slot
      cases slot
    · rw [act, after] at slot
      cases slot
  · obtain ⟨kept, others⟩ := (act_leaves s.file action).1.resolve_left reads
    rw [kept] at slot
    rw [lastSent_append others]
    exact held call slot

theorem ReadOnWire.along (handle : String) (extensions : SessionExtensions)
    (actions : List Action) :
    Run.Along Lifetime.step ReadOnWire (new handle extensions) actions :=
  Run.along_of_keeps (fun call slot => by cases slot) (fun _ _ _ held taken => held.step taken)
    actions

/-- A poll of a read keeps its call at the cursor; another action does so where no read is
pending or the cursor stays. -/
theorem ReadAtCursor.step (held : ReadAtCursor s) (taken : step s action = some s')
    (still : (∃ buf turn, action = .pollRead buf turn) ∨ s.file.state.fRead = none ∨
      (act s.file action).1.pos = s.file.pos) : ReadAtCursor s' := by
  have wire : ReadOnWire s' := ReadOnWire.step (fun call slot => (held call slot).2) taken
  have file := step_file taken
  intro call slot
  refine ⟨?_, wire call slot⟩
  rw [file] at slot ⊢
  by_cases reads : ∃ buf turn, action = .pollRead buf turn
  · obtain ⟨buf, turn, rfl⟩ := reads
    rcases s.file.pollRead_cases buf turn with
      ⟨rfl, _, after, _⟩ | ⟨_, _, after, _⟩ | ⟨p, _, after, _⟩
    · rw [act, after] at slot ⊢
      cases slot
      exact (held.asked buf .pending rfl).1
    · rw [act, after] at slot
      cases slot
    · rw [act, after] at slot
      cases slot
  · obtain ⟨kept, _⟩ := (act_leaves s.file action).1.resolve_left reads
    rw [kept] at slot
    rcases still.resolve_left reads with idle | same
    · rw [idle] at slot
      cases slot
    · rw [same]
      exact (held call slot).1

theorem WriteAtCursor.step (held : WriteAtCursor s) (taken : step s action = some s')
    (still : (∃ buf turn, action = .pollWrite buf turn) ∨ s.file.state.fWrite = none ∨
      (act s.file action).1.pos = s.file.pos) : WriteAtCursor s' := by
  have file := step_file taken
  have sent := lastSent_step taken Request.isWrite fun _ => rfl
  intro call slot
  rw [file] at slot
  rw [file, sent, act_handle]
  by_cases writes : ∃ buf turn, action = .pollWrite buf turn
  · obtain ⟨buf, turn, rfl⟩ := writes
    rcases s.file.pollWrite_cases buf turn with
      ⟨rfl, _, after⟩ | ⟨_, _, after⟩ | ⟨_, _, after⟩
    · obtain ⟨offset, last⟩ := held.asked buf .pending rfl
      rw [act, after] at slot
      cases slot
      rw [act, after]
      exact ⟨offset, offset ▸ last⟩
    · rw [act, after] at slot
      cases slot
    · rw [act, after] at slot
      cases slot
  · obtain ⟨kept, others⟩ := (act_leaves s.file action).2.resolve_left writes
    rw [kept] at slot
    obtain ⟨offset, last⟩ := held call slot
    rw [lastSent_append others]
    rcases still.resolve_left writes with idle | same
    · rw [idle] at slot
      cases slot
    · exact ⟨by rw [same]; exact offset, last⟩

end

/-! ## The buffer of a read -/

/-- The reply to a READ. -/
def filled (data : Bytes) : Turn := .ready (.ok (.data ⟨1, data⟩))

/-- The READ that a poll waits for: the last one on the wire where a read is pending, or else the
one that the poll sends. -/
def awaited (s : Lifetime) (buf : ReadBuf) : Option Request :=
  match s.file.state.fRead with
  | some _ => lastSent Request.isRead s.sent
  | none => some (s.file.readRequest buf)

/-- The data fits into the buffer of the poll that finds it.  The poll adds it to the buffer and
moves the cursor past it, and does not panic. -/
def FillsBuffer (s : Lifetime) : Action → Prop
  | .pollRead buf turn =>
      turn.data.length ≤ buf.remaining ∧
      (s.file.pollRead buf turn).1.poll ≠ .panicked ∧
      (s.file.pollRead buf turn).2.filled = buf.filled ++ turn.data ∧
      (s.file.pollRead buf turn).1.file.pos = s.file.pos + UInt64.ofNat turn.data.length
  | _ => True

/-- The server's part: it sends no more data than the READ has asked for. -/
def SendsAsked (s : Lifetime) : Action → Prop
  | .pollRead buf turn => ∀ handle offset len,
      s.awaited buf = some (.read handle offset len) → turn.data.length ≤ len.toNat
  | _ => True

/-- The caller's part: a poll that takes up a pending read, and finds its data, has no less room
than the READ has asked for. -/
def LeavesRoom (s : Lifetime) : Action → Prop
  | .pollRead buf turn => turn.data ≠ [] → s.file.state.fRead ≠ none → ∀ handle offset len,
      s.awaited buf = some (.read handle offset len) → len.toNat ≤ buf.remaining
  | _ => True

theorem fillsBuffer_iff (s : Lifetime) (buf : ReadBuf) (turn : Turn) :
    FillsBuffer s (.pollRead buf turn) ↔ turn.data.length ≤ buf.remaining := by
  refine ⟨fun fills => fills.1, fun fits => ⟨fits, ?_⟩⟩
  have stays : s.file.pos + UInt64.ofNat 0 = s.file.pos := UInt64.add_zero _
  rcases s.file.pollRead_cases buf turn with
    ⟨rfl, waits, after, same⟩ | ⟨empty, ⟨result, ends⟩, after, same⟩ | ⟨p, rfl, after, filled⟩
  · rw [waits, after, same]
    simp [Turn.data]
  · rw [ends, after, same, empty]
    simp
  · have short : p.data.length ≤ buf.remaining := fits
    rw [ReadBuf.putSlice, dif_pos short, Prod.mk.injEq] at filled
    rw [after, filled.1, filled.2]
    exact ⟨by simp, rfl, rfl⟩

/-- What a poll waits for is the READ of its slot, or of the call that it makes. -/
theorem ReadOnWire.awaited {s : Lifetime} (held : ReadOnWire s) (buf : ReadBuf) :
    s.awaited buf = some (.read s.file.handle
      (s.file.state.fRead.getD (s.file.readCall buf)).offset
      (s.file.state.fRead.getD (s.file.readCall buf)).len) := by
  rw [Lifetime.awaited]
  cases slot : s.file.state.fRead with
  | none => rfl
  | some call => exact held call slot

/-- A new call asks for no more than its own poll has room for. -/
theorem readCall_room (f : File) (buf : ReadBuf) :
    (f.readCall buf).len.toNat ≤ buf.remaining := by
  rw [File.readCall, UInt32.toNat_ofNat']
  refine (Nat.mod_le _ _).trans ?_
  split <;> omega

/-- Where both do their parts, the data fits. -/
theorem fillsBuffer_of_parts {s : Lifetime} {action : Action} (held : ReadOnWire s)
    (sends : SendsAsked s action) (leaves : LeavesRoom s action) : FillsBuffer s action := by
  cases action with
  | pollRead buf turn =>
      rw [fillsBuffer_iff]
      by_cases empty : turn.data = []
      · rw [empty]
        exact Nat.zero_le _
      have asked := held.awaited buf
      refine (sends _ _ _ asked).trans ?_
      cases slot : s.file.state.fRead with
      | none => exact readCall_room s.file buf
      | some call =>
          rw [slot] at asked
          exact leaves empty (by rw [slot]; exact Option.some_ne_none call) _ _ _ asked
  | _ => trivial

/-- In a run whose server sends no more than it was asked for, and whose callers take up a pending
read with no less room than it has asked for, each read fills its caller's buffer with what the
server sends.  Neither part can be less: while a READ is pending, only a buffer with the room that
it has asked for has room for all that the server may send, and only what it has asked for fits
into all the buffers that a caller may bring. -/
theorem polls_fill (handle : String) (extensions : SessionExtensions) (actions : List Action)
    (s : Lifetime) (run : Run.exec step (new handle extensions) actions = some s) :
    (Run.Meets step (fun t action => SendsAsked t action ∧ LeavesRoom t action)
        (new handle extensions) actions →
      Run.Meets step FillsBuffer (new handle extensions) actions) ∧
    ∀ call, s.file.state.fRead = some call →
      lastSent Request.isRead s.sent = some (.read s.file.handle call.offset call.len) ∧
      (∀ buf, (∀ data, SendsAsked s (.pollRead buf (filled data)) →
        FillsBuffer s (.pollRead buf (filled data))) ↔ call.len.toNat ≤ buf.remaining) ∧
      ∀ data, data ≠ [] → ((∀ buf, LeavesRoom s (.pollRead buf (filled data)) →
        FillsBuffer s (.pollRead buf (filled data))) ↔ data.length ≤ call.len.toNat) := by
  have along := ReadOnWire.along handle extensions actions
  constructor
  · exact Run.Meets.imp along fun t action held parts => fillsBuffer_of_parts held parts.1 parts.2
  intro call slot
  have held := along.last run
  have asked (buf : ReadBuf) : s.awaited buf = some (.read s.file.handle call.offset call.len) := by
    have found := held.awaited buf
    rwa [slot] at found
  refine ⟨held call slot, fun buf => ?_, fun data nonempty => ?_⟩
  · constructor
    · intro fills
      have most : (List.replicate call.len.toNat (0 : UInt8)).length = call.len.toNat :=
        List.length_replicate
      have fits := (fillsBuffer_iff s buf _).mp (fills (List.replicate call.len.toNat 0)
        fun _ _ len same => by
          rw [asked buf] at same
          cases same
          exact most.le)
      exact most ▸ fits
    · intro room data sends
      exact (fillsBuffer_iff s buf _).mpr ((sends _ _ _ (asked buf)).trans room)
  · constructor
    · intro fills
      have fits := (fillsBuffer_iff s (.empty call.len.toNat) _).mp (fills (.empty call.len.toNat)
        fun _ _ _ _ len same => by
          rw [asked] at same
          cases same
          exact le_rfl)
      exact fits
    · intro short buf leaves
      have pending : s.file.state.fRead ≠ none := by
        rw [slot]
        exact Option.some_ne_none call
      exact (fillsBuffer_iff s buf _).mpr
        (short.trans (leaves nonempty pending _ _ _ (asked buf)))

/-- A read that waits, is taken up with a larger buffer, and brings less than it has asked for; then
one that waits for four bytes. -/
theorem polls_fill_resumed :
    Run.Meets step FillsBuffer (new "h" noExtensions)
      [.pollRead (.empty 8) .pending, .pollRead (.empty 9) (filled [1, 2, 3]),
        .pollRead (.empty 4) .pending] ∧
    ∃ s, Run.exec step (new "h" noExtensions)
        [.pollRead (.empty 8) .pending, .pollRead (.empty 9) (filled [1, 2, 3]),
          .pollRead (.empty 4) .pending] = some s ∧
      lastSent Request.isRead s.sent = some (.read "h" 3 4) ∧
      ∃ data, SendsAsked s (.pollRead (.empty 2) (filled data)) ∧
        ¬ FillsBuffer s (.pollRead (.empty 2) (filled data)) := by
  obtain ⟨s, run⟩ : ∃ s, Run.exec step (new "h" noExtensions)
      [.pollRead (.empty 8) .pending, .pollRead (.empty 9) (filled [1, 2, 3]),
        .pollRead (.empty 4) .pending] = some s := ⟨_, rfl⟩
  obtain ⟨fills, tight⟩ := polls_fill "h" noExtensions _ s run
  refine ⟨fills ?_, s, run, ?_⟩
  · refine Run.Meets.cons ⟨fun _ _ _ _ => Nat.zero_le _, fun some => absurd rfl some⟩
      fun s1 first => ?_
    cases first
    refine Run.Meets.cons ⟨fun _ _ len same => ?_, fun _ _ _ _ len same => ?_⟩ fun s2 second => ?_
    · cases same
      decide
    · cases same
      decide
    · cases second
      refine Run.Meets.cons ⟨fun _ _ _ _ => Nat.zero_le _, fun some => absurd rfl some⟩
        fun s3 _ => ?_
      exact fun _ _ _ _ shape _ => by simp at shape
  · cases run
    obtain ⟨last, rooms, _⟩ := tight ⟨3, 4⟩ rfl
    obtain ⟨data, small⟩ := not_forall.mp (mt (rooms (.empty 2)).mp (by decide))
    exact ⟨last, data, Classical.not_imp.mp small⟩

/-- A reply of eight bytes.  It is what was asked for, but the read was given up and the next
one has a buffer of four bytes; or it is more than was asked for. -/
theorem poll_overruns :
    (∃ s, Run.exec step (new "h" noExtensions) [.pollRead (.empty 8) .pending] = some s ∧
      s.sent = [.read "h" 0 8] ∧ ¬ FillsBuffer s (.pollRead (.empty 4)
        (.ready (.ok (.data ⟨1, [1, 2, 3, 4, 5, 6, 7, 8]⟩))))) ∧
    ¬ FillsBuffer (new "h" noExtensions) (.pollRead (.empty 4)
        (.ready (.ok (.data ⟨1, [1, 2, 3, 4, 5, 6, 7, 8]⟩)))) := by
  constructor
  · exact ⟨_, rfl, rfl, fun fills => fills.2.1 rfl⟩
  · exact fun fills => fills.2.1 rfl

/-! ## The buffer of a write -/

/-- A write that is done has sent the front of the buffer that its last poll was given, at the
cursor. -/
def ReportsOwn (s : Lifetime) : Action → Prop
  | .pollWrite buf turn => ∀ n, (s.file.pollWrite buf turn).poll = .ready (.ok n) →
      n ≤ buf.length ∧
      lastSent Request.isWrite (s.sent ++ (s.file.pollWrite buf turn).sent) =
        some (.write s.file.handle s.file.pos (buf.take n))
  | _ => True

/-- A poll that finds a pending write acknowledged has a buffer that begins with the data that
the write has captured. -/
def AcksOwn (s : Lifetime) : Action → Prop
  | .pollWrite buf turn => turn.acknowledges = true →
      ∀ call, s.file.state.fWrite = some call → call.data <+: buf
  | _ => True

theorem reportsOwn_iff {s : Lifetime} (held : WriteAtCursor s) (action : Action) :
    ReportsOwn s action ↔ AcksOwn s action := by
  cases action with
  | pollWrite buf turn =>
      rw [ReportsOwn, AcksOwn]
      rcases s.file.pollWrite_cases buf turn with
        ⟨rfl, waits, _⟩ | ⟨failed, ⟨_, e, _, _, ends⟩, _⟩ | ⟨acked, ends, _⟩
      · rw [waits]
        simp [Turn.acknowledges]
      · rw [ends, failed]
        simp
      · have goes := Turn.goes_of_acknowledges acked
        obtain ⟨_, last⟩ := held.asked buf turn goes
        have own : ∀ call : WriteCall, (call.data.length ≤ buf.length ∧
            call.data = buf.take call.data.length) ↔ call.data <+: buf := by
          intro call
          rw [← List.prefix_iff_eq_take]
          exact ⟨fun both => both.2, fun front => ⟨front.length_le, front⟩⟩
        rw [ends, last, acked]
        simp only [Poll.ready.injEq, Except.ok.injEq, forall_eq', Option.some.injEq,
          Request.write.injEq, true_and, own, true_implies]
        cases slot : s.file.state.fWrite with
        | none =>
            refine iff_of_true ?_ fun call none => by cases none
            exact List.take_prefix _ _
        | some call => simp
  | _ => exact Iff.rfl

/-- In a run of `poll_write`, whatever its buffers, each completed write reports bytes of its
own buffer, just when each acknowledgement finds a buffer that begins with what was sent. -/
theorem polls_report_iff (f : File) (idle : f.state.fWrite = none) (polls : List (Bytes × Turn)) :
    Run.Meets step ReportsOwn ⟨f, false, none, []⟩
        (polls.map fun poll => .pollWrite poll.1 poll.2) ↔
      Run.Meets step AcksOwn ⟨f, false, none, []⟩
        (polls.map fun poll => .pollWrite poll.1 poll.2) := by
  have held : Run.Along step WriteAtCursor ⟨f, false, none, []⟩
      (polls.map fun poll => .pollWrite poll.1 poll.2) := by
    refine Run.along_of_meets (C := fun _ action => ∃ buf turn, action = .pollWrite buf turn)
      ?_ ?_ ?_
    · intro call slot
      rw [idle] at slot
      cases slot
    · intro s action s' held writes taken
      exact held.step taken (.inl writes)
    · apply Run.meets_of_all
      intro action member s
      obtain ⟨poll, _, rfl⟩ := List.mem_map.mp member
      exact ⟨poll.1, poll.2, rfl⟩
  constructor
  · exact Run.Meets.imp held fun s action held => (reportsOwn_iff held action).mp
  · exact Run.Meets.imp held fun s action held => (reportsOwn_iff held action).mpr

/-- The reply to a WRITE. -/
def written : Turn := .ready (.ok (.status ⟨1, .ok, "Ok", "en-US"⟩))

/-- Two writes one after the other, the first of which is polled twice. -/
theorem polls_report_iff_two :
    Run.Meets step ReportsOwn ⟨File.new "h" noExtensions, false, none, []⟩
      (([([1, 2], .pending), ([1, 2], written), ([3], written)] : List (Bytes × Turn)).map
        fun poll => .pollWrite poll.1 poll.2) := by
  refine (polls_report_iff (File.new "h" noExtensions) rfl _).mpr ?_
  refine Run.Meets.cons (fun acked => by cases acked) fun s1 first => ?_
  cases first
  refine Run.Meets.cons ?_ fun s2 second => ?_
  · intro _ call slot
    cases slot
    exact List.prefix_rfl
  · cases second
    refine Run.Meets.cons (fun _ call slot => by cases slot) fun s3 _ => ?_
    exact fun _ _ _ _ shape _ => by simp at shape

/-- A write of two bytes is given up while it waits.  The write of one byte after it is said to
have written two, and its byte is not sent. -/
theorem write_reports_other :
    ∃ s, Run.exec step (new "h" noExtensions) [.pollWrite [1, 2] .pending] = some s ∧
      s.sent = [.write "h" 0 [1, 2]] ∧
      (s.file.pollWrite [3] written).poll = .ready (.ok 2) ∧
      (s.file.pollWrite [3] written).sent = [] ∧
      ¬ ReportsOwn s (.pollWrite [3] written) := by
  refine ⟨_, rfl, rfl, rfl, rfl, fun own => ?_⟩
  have two := (own 2 rfl).1
  simp at two

/-! ## The cursor under a pending call -/

end Lifetime

/-- The end of the file that the reply to `fstat` tells, and some bytes from it. -/
def Turn.fromEnd (turn : Turn) (pos : Int64) : Option Int64 :=
  match turn with
  | .ready (.ok (.attrs p)) => p.attrs.size.map fun size => size.toInt64 + pos
  | _ => none

/-- Where a seek goes, once a turn tells; it fails where that is negative. -/
def SeekFuture.target : SeekFuture → Turn → Option Int64
  | .unpolled (.start pos) _, _ => some pos.toInt64
  | .unpolled (.current pos) curPos, _ => some (curPos + pos)
  | .unpolled (.end pos) _, turn | .fstat pos, turn => turn.fromEnd pos
  | .completed, _ => none

namespace File

theorem seekTo_ok {newPos : Int64} {pos : UInt64} (there : seekTo newPos = .ok pos) :
    ¬ newPos < 0 ∧ pos = newPos.toUInt64 := by
  rw [seekTo] at there
  split at there
  · cases there
  · rename_i nonneg
    cases there
    exact ⟨nonneg, rfl⟩

theorem pollFstat_ok {f : File} {offset : Int64} {new : Bool} {turn : Turn} {pos : UInt64}
    {next : SeekFuture} {sent : List Request}
    (polled : f.pollFstat offset new turn = (.ready (.ok pos), next, sent)) :
    ∃ target, turn.fromEnd offset = some target ∧ ¬ target < 0 ∧ pos = target.toUInt64 := by
  have unlimited : (Request.fstat f.handle).operation.limited f.limits 0 = none := rfl
  rw [pollFstat, callSession_eq unlimited] at polled
  cases turn with
  | refused err => simp [Turn.answer, Request.returned, seekFromEnd, Except.bind] at polled
  | pending => simp [Turn.answer] at polled
  | ready result =>
      cases result with
      | error err => simp [Turn.answer, Request.returned, seekFromEnd, Except.bind] at polled
      | ok packet =>
          simp only [Turn.answer, Option.map_some, Prod.mk.injEq, Poll.ready.injEq] at polled
          have found := polled.1
          cases packet with
          | attrs p =>
              change seekFromEnd offset (.ok p) = .ok pos at found
              rw [seekFromEnd] at found
              rw [Turn.fromEnd]
              cases size : p.attrs.size with
              | none => rw [size] at found; cases found
              | some size' =>
                  rw [size] at found
                  exact ⟨_, rfl, seekTo_ok found⟩
          | _ => cases found

/-- A seek moves the cursor to its target, or not at all. -/
theorem pollComplete_pos (f : File) (turn : Turn) :
    (f.pollComplete turn).file.pos = f.pos ∨
      ∃ future target, f.state.fSeek = some future ∧ future.target turn = some target ∧
        ¬ target < 0 ∧ (f.pollComplete turn).file.pos = target.toUInt64 := by
  unfold pollComplete
  split
  · exact .inl rfl
  · rename_i future slot
    split
    · exact .inl rfl
    · exact .inl rfl
    · exact .inl rfl
    · rename_i pos next sent polled
      refine .inr ⟨future, ?_⟩
      cases future with
      | unpolled position curPos =>
          cases position with
          | start offset =>
              simp only [pollSeek, Prod.mk.injEq, Poll.ready.injEq] at polled
              exact ⟨_, slot, rfl, seekTo_ok polled.1⟩
          | current offset =>
              simp only [pollSeek, Prod.mk.injEq, Poll.ready.injEq] at polled
              exact ⟨_, slot, rfl, seekTo_ok polled.1⟩
          | «end» offset =>
              obtain ⟨target, there, moved⟩ := pollFstat_ok polled
              exact ⟨target, slot, there, moved⟩
      | fstat offset =>
          obtain ⟨target, there, moved⟩ := pollFstat_ok polled
          exact ⟨target, slot, there, moved⟩
      | completed => simp [pollSeek] at polled

end File

namespace Lifetime

/-- The action moves the cursor: data arrives, a write is acknowledged, or a seek goes to
another place. -/
def Moves (f : File) : Action → Prop
  | .pollRead _ turn => turn.data ≠ []
  | .pollWrite buf turn =>
      turn.acknowledges = true ∧ (f.state.fWrite.getD (f.writeCall buf)).data ≠ []
  | .pollComplete turn => ∃ future target, f.state.fSeek = some future ∧
      future.target turn = some target ∧ ¬ target < 0 ∧ target.toUInt64 ≠ f.pos
  | _ => False

theorem pos_of_still {f : File} {action : Action} (still : ¬ Moves f action) :
    (act f action).1.pos = f.pos := by
  have same : f.pos + UInt64.ofNat 0 = f.pos := UInt64.add_zero _
  cases action with
  | pollRead buf turn =>
      rw [act]
      rcases f.pollRead_cases buf turn with ⟨_, _, after, _⟩ | ⟨_, _, after, _⟩ | ⟨p, rfl, after, _⟩
      · rw [after]
      · rw [after]
      · have empty : p.data = [] := not_not.mp still
        rw [after, empty]
        exact same
  | startSeek position =>
      obtain ⟨slot, after⟩ := f.startSeek_changes position
      rw [act, after]
  | pollComplete turn =>
      rw [act]
      rcases f.pollComplete_pos turn with stays | ⟨future, target, slot, there, nonneg, moved⟩
      · exact stays
      · by_contra other
        rw [moved] at other
        exact still ⟨future, target, slot, there, nonneg, other⟩
  | pollWrite buf turn =>
      rw [act]
      rcases f.pollWrite_cases buf turn with ⟨_, _, after⟩ | ⟨_, _, after⟩ | ⟨acked, _, after⟩
      · rw [after]
      · rw [after]
      · have empty : (f.state.fWrite.getD (f.writeCall buf)).data = [] :=
          not_not.mp fun some => still ⟨acked, some⟩
        rw [after, empty]
        exact same
  | pollFlush turn =>
      obtain ⟨slot, after⟩ := f.pollFlush_changes turn
      rw [act, after]
  | pollShutdown turn =>
      obtain ⟨slot, closed, after⟩ := f.pollShutdown_changes turn
      rw [act, after]
  | _ => rfl

/-- A read or a write that transfers something does so at the cursor, and moves it to the end of
the range; and no seek starts before a pending read or write is over. -/
def KeepsCursor (s : Lifetime) : Action → Prop
  | .pollRead buf turn => turn.data ≠ [] →
      (∃ len, lastSent Request.isRead (s.sent ++ (s.file.pollRead buf turn).1.sent) =
        some (.read s.file.handle s.file.pos len)) ∧
      (s.file.pollRead buf turn).1.file.pos = s.file.pos + UInt64.ofNat turn.data.length
  | .pollWrite buf turn => ∀ n, (s.file.pollWrite buf turn).poll = .ready (.ok n) → 0 < n →
      (∃ data, data.length = n ∧
        lastSent Request.isWrite (s.sent ++ (s.file.pollWrite buf turn).sent) =
          some (.write s.file.handle s.file.pos data)) ∧
      (s.file.pollWrite buf turn).file.pos = s.file.pos + UInt64.ofNat n
  | .startSeek position => s.file.state.fRead ≠ none ∨ s.file.state.fWrite ≠ none →
      ∃ e, (s.file.startSeek position).1 = .error e
  | _ => True

/-- What moves the cursor finds no other read or write pending; nor does a seek that starts. -/
def Undisturbed (s : Lifetime) : Action → Prop
  | .pollRead buf turn => Moves s.file (.pollRead buf turn) → s.file.state.fWrite = none
  | .pollWrite buf turn => Moves s.file (.pollWrite buf turn) → s.file.state.fRead = none
  | .pollComplete turn => Moves s.file (.pollComplete turn) →
      s.file.state.fRead = none ∧ s.file.state.fWrite = none
  | .startSeek _ => s.file.state.fSeek = none →
      s.file.state.fRead = none ∧ s.file.state.fWrite = none
  | _ => True

theorem atCursor_step {s s' : Lifetime} {action : Action} (reads : ReadAtCursor s)
    (writes : WriteAtCursor s) (free : Undisturbed s action) (taken : step s action = some s') :
    ReadAtCursor s' ∧ WriteAtCursor s' := by
  by_cases moves : Moves s.file action
  · cases action with
    | pollRead buf turn =>
        exact ⟨reads.step taken (.inl ⟨buf, turn, rfl⟩),
          writes.step taken (.inr (.inl (free moves)))⟩
    | pollWrite buf turn =>
        exact ⟨reads.step taken (.inr (.inl (free moves))),
          writes.step taken (.inl ⟨buf, turn, rfl⟩)⟩
    | pollComplete turn =>
        obtain ⟨noRead, noWrite⟩ := free moves
        exact ⟨reads.step taken (.inr (.inl noRead)), writes.step taken (.inr (.inl noWrite))⟩
    | _ => cases moves
  · have same := pos_of_still moves
    exact ⟨reads.step taken (.inr (.inr same)), writes.step taken (.inr (.inr same))⟩

theorem keepsCursor_of_atCursor {s : Lifetime} {action : Action} (reads : ReadAtCursor s)
    (writes : WriteAtCursor s) (free : Undisturbed s action) : KeepsCursor s action := by
  cases action with
  | pollRead buf turn =>
      intro some
      rcases s.file.pollRead_cases buf turn with
        ⟨rfl, _⟩ | ⟨empty, _⟩ | ⟨p, rfl, after, _⟩
      · exact absurd rfl some
      · exact absurd empty some
      · obtain ⟨_, last⟩ := reads.asked buf (.ready (.ok (.data p))) rfl
        exact ⟨⟨_, last⟩, by rw [after]; rfl⟩
  | pollWrite buf turn =>
      intro n done _
      rcases s.file.pollWrite_cases buf turn with
        ⟨_, waits, _⟩ | ⟨_, ⟨_, e, _, _, failed⟩, _⟩ | ⟨acked, ends, after⟩
      · rw [waits] at done
        cases done
      · rw [failed] at done
        cases done
      · have goes := Turn.goes_of_acknowledges acked
        obtain ⟨_, last⟩ := writes.asked buf turn goes
        rw [ends] at done
        cases done
        exact ⟨⟨_, rfl, last⟩, by rw [after]⟩
  | startSeek position =>
      intro busy
      cases slot : s.file.state.fSeek with
      | none =>
          obtain ⟨noRead, noWrite⟩ := free slot
          rcases busy with busy | busy
          · exact absurd noRead busy
          · exact absurd noWrite busy
      | some future => exact ⟨_, by rw [File.startSeek, slot]⟩
  | _ => trivial

/-- In a run in which nothing moves the cursor under a pending read or write, each of them
transfers its bytes at the cursor. -/
theorem cursor_kept (handle : String) (extensions : SessionExtensions) (actions : List Action)
    (free : Run.Meets step Undisturbed (new handle extensions) actions) :
    Run.Meets step KeepsCursor (new handle extensions) actions := by
  have held : Run.Along step (fun s => ReadAtCursor s ∧ WriteAtCursor s)
      (new handle extensions) actions := by
    refine Run.along_of_meets ?_ ?_ free
    · constructor <;> intro call slot <;> cases slot
    · rintro s action s' ⟨reads, writes⟩ free taken
      exact atCursor_step reads writes free taken
  refine Run.Meets.imp held ?_ free
  rintro s action ⟨reads, writes⟩ free
  exact keepsCursor_of_atCursor reads writes free

/-- A read that waits, a seek from the end, and a write after it. -/
theorem cursor_kept_three :
    Run.Meets step KeepsCursor (new "h" noExtensions)
      [.pollRead (.empty 2) .pending, .pollRead (.empty 2) (filled [7, 7]),
        .startSeek (.current 3), .pollComplete .pending, .pollWrite [9] written] := by
  apply cursor_kept
  refine Run.Meets.cons (fun moves => absurd rfl moves) fun s1 first => ?_
  cases first
  refine Run.Meets.cons (fun _ => rfl) fun s2 second => ?_
  cases second
  refine Run.Meets.cons (fun _ => ⟨rfl, rfl⟩) fun s3 third => ?_
  cases third
  refine Run.Meets.cons (fun _ => ⟨rfl, rfl⟩) fun s4 fourth => ?_
  cases fourth
  refine Run.Meets.cons (fun _ => rfl) fun s5 _ => ?_
  exact fun _ _ _ _ shape _ => by simp at shape

/-- A read waits for the bytes at 0 while a write of one byte completes: the cursor goes from 1
to 3 when the bytes 0 and 1 arrive.  And a seek starts while a read waits. -/
theorem cursor_moves_under_read :
    (∃ s, Run.exec step (new "h" noExtensions)
        [.pollRead (.empty 2) .pending, .pollWrite [9] written] = some s ∧
      s.sent = [.read "h" 0 2, .write "h" 0 [9]] ∧ s.file.pos = 1 ∧
      (s.file.pollRead (.empty 2) (filled [7, 7])).1.file.pos = 3 ∧
      ¬ KeepsCursor s (.pollRead (.empty 2) (filled [7, 7]))) ∧
    ∃ s, Run.exec step (new "h" noExtensions) [.pollRead (.empty 2) .pending] = some s ∧
      (s.file.startSeek (.start 5)).1 = .ok () ∧ ¬ KeepsCursor s (.startSeek (.start 5)) := by
  constructor
  · refine ⟨_, rfl, rfl, rfl, rfl, fun keeps => ?_⟩
    obtain ⟨⟨len, last⟩, _⟩ := keeps (by decide)
    -- the READ was sent at 0
    have other : some (Request.read "h" 0 2) = some (.read "h" 1 len) := last
    simp at other
  · refine ⟨_, rfl, rfl, fun keeps => ?_⟩
    obtain ⟨e, refused⟩ := keeps (.inl (by decide))
    cases refused

end Lifetime

end RusshSftp.Client
