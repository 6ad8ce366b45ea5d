import RusshSftp.Client.FileCursor
import RusshSftp.Client.Upload

/-!
# A whole file is written and read

`SftpSession::write` opens a file and calls `write_all`, and `SftpSession::read` opens it again
and calls `read_to_end`.  The server holds the content.  `write` does not ask it to truncate
the file, so that the rest of a longer content stays behind the data.
-/

set_option autoImplicit false

namespace RusshSftp.Client

/-! ## The session -/

/-- The value of an `async fn` that is polled as long as there are turns. -/
inductive Awaited (α : Type) where
  | pending
  | done (result : SftpResult α)
  | panicked
deriving DecidableEq

/-- `?` on an `io::Result`. -/
def Poll.awaited {α : Type} : Poll α → Awaited α
  | .pending => .pending
  | .ready (.ok a) => .done (.ok a)
  | .ready (.error e) => .done (.error (.io e))
  | .panicked => .panicked

theorem Poll.ready_of_awaited {α : Type} {poll : Poll α} {a : α}
    (done : poll.awaited = .done (.ok a)) : poll = .ready (.ok a) := by
  cases poll with
  | ready result =>
      cases result with
      | error e => cases done
      | ok b =>
          cases done
          rfl
  | _ => cases done

/-- tokio's `read_to_end`: `poll_read` until it adds nothing.  Each poll is given a buffer with
some room. -/
def readToEnd : List (Nat × Turn) → File → Bytes → Poll Bytes × File × List Request
  | [], f, _ => (.pending, f, [])
  | (room, turn) :: polls, f, read =>
      let (polled, buf) := f.pollRead (.empty room) turn
      match polled.poll with
      | .pending =>
          let (last, f, later) := readToEnd polls polled.file read
          (last, f, polled.sent ++ later)
      | .panicked => (.panicked, polled.file, polled.sent)
      | .ready (.error e) => (.ready (.error e), polled.file, polled.sent)
      | .ready (.ok ()) =>
          if buf.filled.isEmpty then (.ready (.ok read), polled.file, polled.sent)
          else
            let (last, f, later) := readToEnd polls polled.file (read ++ buf.filled)
            (last, f, polled.sent ++ later)

namespace SftpSession

section
variable (extensions : SessionExtensions) (handles : UInt64)

def openWithFlagsAndAttributes (filename : String) (flags : OpenFlags)
    (attributes : FileAttributes) (turn : Turn) : Awaited File × List Request :=
  let request := Request.open filename flags attributes
  match request.operation.limited extensions.sessionLimits handles with
  | some err => (.done (.error err), [])
  | none =>
      match turn with
      | .refused err => (.done (.error err), [])
      | .pending => (.pending, [request])
      | .ready result =>
          let opened : SftpResult Handle := request.returned result
          (.done (opened.map fun reply => File.new reply.handle extensions), [request])

/-- Attempts to open or create the file in the specified mode. -/
def openWithFlags (filename : String) (flags : OpenFlags) (turn : Turn) :
    Awaited File × List Request :=
  openWithFlagsAndAttributes extensions handles filename flags FileAttributes.empty turn

/-- Attempts to open a file in read-only mode. -/
def «open» (filename : String) (turn : Turn) : Awaited File × List Request :=
  openWithFlags extensions handles filename .read turn

/-- Reads the contents of a file located at the specified path to the end. -/
def read (path : String) (opening : Turn) (polls : List (Nat × Turn)) :
    Awaited Bytes × List Request :=
  match SftpSession.open extensions handles path opening with
  | (.done (.ok file), sent) =>
      let (last, _, later) := readToEnd polls file []
      (last.awaited, sent ++ later)
  | (.done (.error err), sent) => (.done (.error err), sent)
  | (.pending, sent) => (.pending, sent)
  | (.panicked, sent) => (.panicked, sent)

/-- Writes the contents to a file whose path is specified. -/
def write (path : String) (data : Bytes) (opening : Turn) (turns : List Turn) :
    Awaited Unit × List Request :=
  match openWithFlags extensions handles path .write opening with
  | (.done (.ok file), sent) =>
      let (last, _, later) := writeAll turns file data
      (last.awaited, sent ++ later)
  | (.done (.error err), sent) => (.done (.error err), sent)
  | (.pending, sent) => (.pending, sent)
  | (.panicked, sent) => (.panicked, sent)

end

end SftpSession

/-! ## A server that stores the content -/

/-- OPEN with TRUNCATE empties the file. -/
def stored (content : Bytes) : Request → Bytes
  | .open _ flags _ => if flags.bits &&& OpenFlags.truncate.bits = 0 then content else []
  | request => contentAfter content request

/-- Each poll of `read_to_end` that finds an answer finds a faithful one. -/
def AnsweredFrom (content : Bytes) : List (Nat × Turn) → File → Prop
  | [], _ => True
  | (room, turn) :: polls, f =>
      let call := f.state.fRead.getD (f.readCall (.empty room))
      (∀ answer, turn.answer = some answer →
        answers content (.read f.handle call.offset call.len) answer = true) ∧
      AnsweredFrom content polls (f.pollRead (.empty room) turn).1.file

/-! ## What is written -/

theorem stored_writesFrom (handle : String) (chunks : List Bytes) (front rest : Bytes)
    (small : front.length + chunks.flatten.length < 2 ^ 64) :
    (writesFrom handle front.length chunks).foldl stored (front ++ rest) =
      front ++ (chunks.flatten ++ rest.drop chunks.flatten.length) := by
  induction chunks generalizing front rest with
  | nil => simp [writesFrom]
  | cons chunk chunks ih =>
      rw [List.flatten_cons, List.length_append] at small
      have offset : (UInt64.ofNat front.length).toNat = front.length := by
        rw [UInt64.toNat_ofNat']
        omega
      have one : stored (front ++ rest) (.write handle (UInt64.ofNat front.length) chunk) =
          (front ++ chunk) ++ rest.drop chunk.length := by
        rw [stored, contentAfter, offset, LocalFile.writeAt_front, List.append_assoc]
        simp
      have later := ih (front ++ chunk) (rest.drop chunk.length)
        (by rw [List.length_append]; omega)
      rw [List.length_append] at later
      rw [writesFrom, List.foldl_cons, one, later]
      simp [List.drop_drop]

theorem openWithFlags_ok {extensions : SessionExtensions} {handles : UInt64} {filename : String}
    {flags : OpenFlags} {turn : Turn} {file : File} {sent : List Request}
    (opened : SftpSession.openWithFlags extensions handles filename flags turn =
      (.done (.ok file), sent)) :
    ∃ handle, file = File.new handle extensions ∧
      sent = [.open filename flags FileAttributes.empty] := by
  unfold SftpSession.openWithFlags SftpSession.openWithFlagsAndAttributes at opened
  dsimp only at opened
  split at opened
  · simp at opened
  · cases turn with
    | refused err => simp at opened
    | pending => simp at opened
    | ready result =>
        rw [Prod.mk.injEq, Awaited.done.injEq] at opened
        obtain ⟨mapped, asked⟩ := opened
        cases returned : (Request.open filename flags FileAttributes.empty).returned result with
        | error err =>
            rw [returned] at mapped
            cases mapped
        | ok reply =>
            rw [returned] at mapped
            cases mapped
            exact ⟨_, rfl, asked.symm⟩

section
variable {fsync : Bool} {limits : Option LimitsExtension}

/-- A `write` that returns `Ok` leaves the data, and what the content had behind it. -/
theorem write_stores {handles : UInt64} {path : String} {content data : Bytes} {opening : Turn}
    {turns : List Turn} {sent : List Request} (small : data.length < 2 ^ 64)
    (wrote : SftpSession.write (.negotiated fsync limits) handles path data opening turns =
      (.done (.ok ()), sent)) :
    sent.foldl stored content = data ++ content.drop data.length := by
  unfold SftpSession.write at wrote
  split at wrote
  · rename_i file opens opened
    obtain ⟨handle, rfl, rfl⟩ := openWithFlags_ok opened
    dsimp only at wrote
    rw [Prod.mk.injEq] at wrote
    obtain ⟨last, rfl⟩ := wrote
    have ready : (writeAll turns (File.new handle (.negotiated fsync limits)) data).1 =
        .ready (.ok ()) := Poll.ready_of_awaited last
    obtain ⟨used, rest, acked, failed, _, uploaded⟩ :=
      uploaded_of_ready (f := File.new handle (.negotiated fsync limits)) rfl (.inl rfl)
        (by simpa [File.new] using small) (Prod.ext ready rfl)
    obtain ⟨rfl, whole⟩ := uploaded.whole rfl
    have tiles := uploaded.tiles
    rw [List.append_nil] at tiles
    have opening : stored content (.open path .write FileAttributes.empty) = content := rfl
    have written := stored_writesFrom handle acked [] content (by rw [whole]; simpa using small)
    rw [whole] at written
    rw [List.cons_append, List.nil_append, List.foldl_cons, opening]
    exact (congrArg (List.foldl stored content) tiles).trans written
  · simp at wrote
  · simp at wrote
  · simp at wrote

end

/-! ## What is read -/

/-- What `read_to_end` has read so far, and where the file is. -/
structure ReadSoFar (content : Bytes) (f : File) (read : Bytes) : Prop where
  front : read <+: content
  pos : f.pos.toNat = read.length
  pending : ∀ call, f.state.fRead = some call → call.offset = f.pos

/-- No READ asks for nothing. -/
structure AsksSome (polls : List (Nat × Turn)) (f : File) : Prop where
  later : ∀ poll ∈ polls, (f.readCall (.empty poll.1)).len ≠ 0
  pending : ∀ call, f.state.fRead = some call → call.len ≠ 0

/-- The bytes at the cursor are read. -/
theorem ReadSoFar.next {content read data : Bytes} {f : File} (held : ReadSoFar content f read)
    (small : content.length < 2 ^ 64) (part : data <+: content.drop read.length) :
    ReadSoFar content
      { f with state.fRead := none, pos := f.pos + UInt64.ofNat data.length }
      (read ++ data) where
  front := by
    obtain ⟨rest, rfl⟩ := held.front
    rw [List.drop_left] at part
    exact (List.prefix_append_right_inj read).mpr part
  pos := by
    have bound := part.length_le
    have front := held.front.length_le
    rw [List.length_drop] at bound
    rw [add_length (by rw [held.pos]; omega), held.pos, List.length_append]
  pending call none := by cases none

theorem readToEnd_data {room : Nat} {p : Data} (fits : p.data.length ≤ room)
    (polls : List (Nat × Turn)) (f : File) (read : Bytes) :
    readToEnd ((room, .ready (.ok (.data p))) :: polls) f read =
      let g := { f with state.fRead := none, pos := f.pos + UInt64.ofNat p.data.length }
      let sent := (f.pollRead (.empty room) (.ready (.ok (.data p)))).1.sent
      if p.data.isEmpty then (.ready (.ok read), g, sent)
      else sentBefore sent (readToEnd polls g (read ++ p.data)) := by
  have room' : p.data.length ≤ (ReadBuf.empty room).remaining := fits
  obtain ⟨after, filled⟩ := f.pollRead_data (.empty room) p
  rw [ReadBuf.putSlice, dif_pos room', Prod.mk.injEq] at filled
  simp only [readToEnd, filled, after]
  rfl

theorem readToEnd_eof {room : Nat} {p : Status} (code : p.statusCode = .eof)
    (polls : List (Nat × Turn)) (f : File) (read : Bytes) :
    readToEnd ((room, .ready (.ok (.status p))) :: polls) f read =
      (.ready (.ok read), { f with state.fRead := none },
        (f.pollRead (.empty room) (.ready (.ok (.status p)))).1.sent) := by
  obtain ⟨ends, after, same⟩ := f.pollRead_eof (.empty room) p code
  simp only [readToEnd, ends, after, same]
  rfl

/-- What `read_to_end` returns is the front of the content, and all of it if each READ has asked
for something. -/
theorem readToEnd_ok {content : Bytes} (small : content.length < 2 ^ 64)
    {polls : List (Nat × Turn)} {f f' : File} {read value : Bytes} {sent : List Request}
    (held : ReadSoFar content f read) (faithful : AnsweredFrom content polls f)
    (done : readToEnd polls f read = (.ready (.ok value), f', sent)) :
    value <+: content ∧ (AsksSome polls f → value = content) := by
  induction polls generalizing f read sent with
  | nil => simp [readToEnd] at done
  | cons poll polls ih =>
      obtain ⟨room, turn⟩ := poll
      obtain ⟨answered, later⟩ := faithful
      have offset : (f.state.fRead.getD (f.readCall (.empty room))).offset = f.pos := by
        cases slot : f.state.fRead with
        | none => rfl
        | some call => exact held.pending call slot
      have asks (some : AsksSome ((room, turn) :: polls) f) :
          (f.state.fRead.getD (f.readCall (.empty room))).len ≠ 0 := by
        cases slot : f.state.fRead with
        | none => exact some.later _ (List.mem_cons_self ..)
        | some call => exact some.pending call slot
      cases turn with
      | refused err => cases answered _ rfl
      | pending =>
          obtain ⟨waits, after, same⟩ := f.pollRead_pending (.empty room)
          simp only [readToEnd, waits, after] at done
          rw [after] at later
          obtain ⟨sent, rest, _⟩ := sentBefore_inv done
          have waiting : ReadSoFar content { f with
              state.fRead := some (f.state.fRead.getD (f.readCall (.empty room))) } read := by
            refine ⟨held.front, held.pos, ?_⟩
            rintro call ⟨⟩
            exact offset
          obtain ⟨front, whole⟩ := ih waiting later rest
          refine ⟨front, fun some => whole ⟨?_, ?_⟩⟩
          · intro poll member
            exact some.later poll (List.mem_cons_of_mem _ member)
          · rintro call ⟨⟩
            exact asks some
      | ready answer =>
          rcases answered_read (answered answer rfl) with
            ⟨zero, p, rfl, empty⟩ | ⟨p, rfl, some, _, part⟩ | ⟨p, rfl, code, ended⟩
          · rw [readToEnd_data (by rw [empty]; exact Nat.zero_le _), empty] at done
            cases done
            exact ⟨held.front, fun some => absurd zero (asks some)⟩
          · by_cases fits : p.data.length ≤ room
            · rw [readToEnd_data fits, List.isEmpty_eq_false_iff.mpr some] at done
              obtain ⟨sent, rest, _⟩ := sentBefore_inv done
              rw [(f.pollRead_data (.empty room) p).1] at later
              rw [offset, held.pos] at part
              obtain ⟨front, whole⟩ := ih (held.next small part) later rest
              refine ⟨front, fun some => whole ⟨?_, ?_⟩⟩
              · intro poll member
                exact some.later poll (List.mem_cons_of_mem _ member)
              · rintro call ⟨⟩
            · have none : ¬ p.data.length ≤ (ReadBuf.empty room).remaining := fits
              obtain ⟨_, filled⟩ := f.pollRead_data (.empty room) p
              rw [ReadBuf.putSlice, dif_neg none, Prod.mk.injEq] at filled
              simp [readToEnd, filled] at done
          · rw [readToEnd_eof code] at done
            cases done
            rw [offset, held.pos] at ended
            exact ⟨held.front, fun _ => held.front.eq_of_length_le ended⟩

/-! ## Runs that succeed -/

/-- A server that gives one byte at a time, and then the end of the file. -/
def bytewise (content : Bytes) : List (Nat × Turn) :=
  content.map (fun byte => (1, .ready (.ok (.data ⟨0, [byte]⟩)))) ++
    [(1, .ready (.ok (.status ⟨0, .eof, "End of file", "en-US"⟩)))]

theorem readToEnd_bytewise (rest : Bytes) {f : File} (read : Bytes)
    (positive : 0 < f.maxReadLen) (idle : f.state.fRead = none) (pos : f.pos.toNat = read.length)
    (small : read.length + rest.length < 2 ^ 64) :
    AnsweredFrom (read ++ rest) (bytewise rest) f ∧
      ∃ f' sent, readToEnd (bytewise rest) f read = (.ready (.ok (read ++ rest)), f', sent) := by
  induction rest generalizing f read with
  | nil =>
      refine ⟨⟨?_, trivial⟩, ?_⟩
      · rintro answer ⟨⟩
        have ended : (read ++ []).length ≤ f.pos.toNat := by
          rw [pos, List.append_nil]
        rw [idle]
        show (StatusCode.eof == .eof && decide ((read ++ []).length ≤ f.pos.toNat)) = true
        rw [decide_eq_true ended]
        rfl
      · rw [List.append_nil]
        exact ⟨_, _, readToEnd_eof rfl [] f read⟩
  | cons byte rest ih =>
      have one : (f.readCall (.empty 1)).len = 1 := by
        have few : min 1 f.maxReadLen < 2 ^ 32 := by omega
        have len : (f.readCall (.empty 1)).len.toNat = min 1 f.maxReadLen := f.readCall_len _ few
        rw [Nat.min_eq_left positive] at len
        exact UInt32.toNat_inj.mp len
      have moved : (f.pos + UInt64.ofNat 1).toNat = (read ++ [byte]).length := by
        rw [List.length_cons] at small
        rw [add_length (by rw [pos]; omega), pos, List.length_append, List.length_singleton]
      have after := (f.pollRead_data (.empty 1) ⟨0, [byte]⟩).1
      obtain ⟨faithful, f', sent, later⟩ := ih
        (f := { f with state.fRead := none, pos := f.pos + UInt64.ofNat 1 }) _ positive rfl moved
        (by simp only [List.length_append, List.length_cons, List.length_nil] at small ⊢; omega)
      have shape : read ++ [byte] ++ rest = read ++ byte :: rest := by simp
      rw [shape] at faithful later
      refine ⟨⟨?_, ?_⟩, ?_⟩
      · rintro answer ⟨⟩
        have here : (read ++ byte :: rest).drop f.pos.toNat = byte :: rest := by
          rw [pos, List.drop_left]
        rw [idle, Option.getD_none]
        show (if (f.readCall (.empty 1)).len = 0 then _
          else 1 ≤ 1 && decide (1 ≤ (f.readCall (.empty 1)).len.toNat) &&
            [byte] == LocalFile.slice (read ++ byte :: rest) f.pos.toNat 1) = true
        rw [one, LocalFile.slice, here]
        simp
      · rw [after]
        exact faithful
      · refine ⟨f', (f.pollRead (.empty 1) (.ready (.ok (.data ⟨0, [byte]⟩)))).1.sent ++ sent, ?_⟩
        rw [bytewise, List.map_cons, List.cons_append, readToEnd_data (by simp)]
        exact congrArg (sentBefore _) later

section
variable (fsync : Bool) (limits : Option LimitsExtension)

theorem open_unlimited (filename : String) (flags : OpenFlags) (attributes : FileAttributes) :
    (Request.open filename flags attributes).operation.limited
      (SessionExtensions.negotiated fsync limits).sessionLimits 0 = none := by
  refine exceeds_eq_none fun l isLimit => ?_
  rw [decide_eq_false_iff_not]
  cases limits with
  | none => cases isLimit
  | some given =>
      change (if given.maxOpenHandles > 0 then some given.maxOpenHandles else none) = some l
        at isLimit
      split at isLimit
      · rename_i positive
        cases isLimit
        exact UInt64.not_le.mpr positive
      · cases isLimit

theorem openWithFlags_opens (filename : String) (flags : OpenFlags) (reply : Handle) :
    SftpSession.openWithFlags (.negotiated fsync limits) 0 filename flags
        (.ready (.ok (.handle reply))) =
      (.done (.ok (File.new reply.handle (.negotiated fsync limits))),
        [.open filename flags FileAttributes.empty]) := by
  unfold SftpSession.openWithFlags SftpSession.openWithFlagsAndAttributes
  dsimp only
  rw [open_unlimited]
  rfl

variable {fsync limits}

theorem mem_bytewise {content : Bytes} {poll : Nat × Turn} (member : poll ∈ bytewise content) :
    poll.1 = 1 := by
  rcases List.mem_append.mp member with member | member
  · obtain ⟨byte, _, rfl⟩ := List.mem_map.mp member
    rfl
  · rw [List.mem_singleton.mp member]

theorem writeAll_acknowledged {f : File} (negotiated : f.extensions = .negotiated fsync limits)
    (idle : f.state.fWrite = none) {data : Bytes} (small : f.pos.toNat + data.length < 2 ^ 64) :
    (writeAll (List.replicate data.length Lifetime.written) f data).1 = .ready (.ok ()) := by
  have enough : data.length ≤ (List.replicate data.length Lifetime.written).countP
      fun turn => turn.answer.isSome := by
    rw [List.countP_replicate]
    exact Nat.le_refl _
  obtain ⟨result, ready⟩ := writeAll_ready negotiated (.inl idle) enough
  obtain ⟨used, rest, acked, failed, shape, uploaded⟩ :=
    uploaded_of_ready negotiated (.inl idle) small (Prod.ext ready rfl)
  cases result with
  | ok _ => exact ready
  | error e =>
      -- the last turn has failed, but all of them acknowledge
      obtain ⟨_, before, last, answer, rfl, answered, isError⟩ := uploaded.ended e rfl
      have member : last ∈ List.replicate data.length Lifetime.written := by
        rw [shape]
        simp
      rw [List.eq_of_mem_replicate member] at answered
      cases answered
      cases isError

end

/-! ## The data and the old content -/

/-- Whatever a `write` and a `read` after it do, and however the server splits its answers: if both
return `Ok`, the `read` gives what was written.  `most` is the largest room that `read_to_end`
gives to a poll. -/
def ReadsBack (most : Nat) (extensions : SessionExtensions) (path : String)
    (content data : Bytes) : Prop :=
  ∀ (handles handles' : UInt64) (opening opening' : Turn) (turns : List Turn)
    (polls : List (Nat × Turn)) (written sent : List Request) (value : Bytes),
    SftpSession.write extensions handles path data opening turns = (.done (.ok ()), written) →
    SftpSession.read extensions handles' path opening' polls = (.done (.ok value), sent) →
    (∀ poll ∈ polls, 0 < poll.1 ∧ poll.1 ≤ most) →
    (∀ file asked, SftpSession.open extensions handles' path opening' =
      (.done (.ok file), asked) → AnsweredFrom (written.foldl stored content) polls file) →
    value = data

section
variable {fsync : Bool} {limits : Option LimitsExtension} {path : String}

/-- What a `read` returns is the front of the content, and all of it where each READ has to ask
for something. -/
theorem read_returns {most : Nat} {handles : UInt64} {opening : Turn} {polls : List (Nat × Turn)}
    {content value : Bytes} {sent : List Request} (small : content.length < 2 ^ 64)
    (returned : SftpSession.read (.negotiated fsync limits) handles path opening polls =
      (.done (.ok value), sent))
    (rooms : ∀ poll ∈ polls, 0 < poll.1 ∧ poll.1 ≤ most)
    (faithful : ∀ file asked, SftpSession.open (.negotiated fsync limits) handles path opening =
      (.done (.ok file), asked) → AnsweredFrom content polls file) :
    value <+: content ∧
      (min most (File.new path (.negotiated fsync limits)).maxReadLen < 2 ^ 32 →
        value = content) := by
  unfold SftpSession.read at returned
  split at returned
  · rename_i file opens opened
    have answered := faithful file opens opened
    obtain ⟨handle, rfl, _⟩ := openWithFlags_ok opened
    rw [Prod.mk.injEq] at returned
    have nothing : ReadSoFar content (File.new handle (.negotiated fsync limits)) [] :=
      ⟨List.nil_prefix, rfl, fun call none => by cases none⟩
    have positive : 0 < (File.new handle (.negotiated fsync limits)).maxReadLen :=
      File.maxReadLen_pos rfl
    obtain ⟨front, whole⟩ := readToEnd_ok small nothing answered
      (Prod.ext (Poll.ready_of_awaited returned.1) rfl)
    refine ⟨front, fun asks => whole ⟨?_, fun call none => by cases none⟩⟩
    intro poll member zero
    obtain ⟨some, bound⟩ := rooms poll member
    have same : (File.new handle (.negotiated fsync limits)).maxReadLen =
        (File.new path (.negotiated fsync limits)).maxReadLen := rfl
    have few : min poll.1 (File.new handle (.negotiated fsync limits)).maxReadLen < 2 ^ 32 := by
      omega
    have len : _ = min poll.1 (File.new handle (.negotiated fsync limits)).maxReadLen :=
      File.readCall_len _ (.empty poll.1) few
    rw [zero, UInt32.toNat_zero] at len
    omega
  · simp at returned
  · simp at returned
  · simp at returned

/-- A `read` that opens its file returns what `read_to_end` does. -/
theorem read_of_readToEnd (path : String) {content value : Bytes} {polls : List (Nat × Turn)}
    {f' : File} {later : List Request}
    (faithful : AnsweredFrom content polls (File.new "h" (.negotiated fsync limits)))
    (done : readToEnd polls (File.new "h" (.negotiated fsync limits)) [] =
      (.ready (.ok value), f', later)) :
    ∃ sent, SftpSession.read (.negotiated fsync limits) 0 path (.ready (.ok (.handle ⟨0, "h"⟩)))
        polls = (.done (.ok value), sent) ∧
      ∀ file asked, SftpSession.open (.negotiated fsync limits) 0 path
          (.ready (.ok (.handle ⟨0, "h"⟩))) = (.done (.ok file), asked) →
        AnsweredFrom content polls file := by
  have opened := openWithFlags_opens fsync limits path .read ⟨0, "h"⟩
  refine ⟨[.open path .read FileAttributes.empty] ++ later, ?_, ?_⟩
  · unfold SftpSession.read SftpSession.open
    rw [opened]
    simp only [done]
    rfl
  · intro file asked same
    rw [SftpSession.open, opened] at same
    cases same
    exact faithful

theorem write_succeeds (data : Bytes) (small : data.length < 2 ^ 64) :
    ∃ sent, SftpSession.write (.negotiated fsync limits) 0 path data
      (.ready (.ok (.handle ⟨0, "h"⟩))) (List.replicate data.length Lifetime.written) =
        (.done (.ok ()), sent) := by
  have opened := openWithFlags_opens fsync limits path .write ⟨0, "h"⟩
  have start : (File.new "h" (.negotiated fsync limits)).pos.toNat + data.length < 2 ^ 64 := by
    simpa [File.new] using small
  have ready := writeAll_acknowledged rfl rfl start
  refine ⟨[.open path .write FileAttributes.empty] ++ (writeAll
    (List.replicate data.length Lifetime.written)
    (File.new "h" (.negotiated fsync limits)) data).2.2, ?_⟩
  unfold SftpSession.write
  rw [opened]
  simp only [ready]
  rfl

/-- A `read` whose first READ asks for `2 ^ 32` bytes, and so for none, returns nothing. -/
theorem readToEnd_zero (fsync : Bool) (limits : Option LimitsExtension) (content : Bytes)
    (wide : 2 ^ 32 ≤ (File.new "h" (.negotiated fsync limits)).maxReadLen) :
    AnsweredFrom content [(2 ^ 32, .ready (.ok (.data ⟨0, []⟩)))]
        (File.new "h" (.negotiated fsync limits)) ∧
      ∃ f' sent, readToEnd [(2 ^ 32, .ready (.ok (.data ⟨0, []⟩)))]
        (File.new "h" (.negotiated fsync limits)) [] = (.ready (.ok []), f', sent) := by
  have zero : ((File.new "h" (.negotiated fsync limits)).readCall (.empty (2 ^ 32))).len = 0 := by
    have remaining : (ReadBuf.empty (2 ^ 32)).remaining = 2 ^ 32 := rfl
    rw [File.readCall, remaining, if_neg (by omega)]
    rfl
  refine ⟨⟨?_, trivial⟩, ?_⟩
  · rintro answer ⟨⟩
    show (if ((File.new "h" (.negotiated fsync limits)).readCall (.empty (2 ^ 32))).len = 0
      then true else _) = true
    rw [if_pos zero]
  · rw [readToEnd_data (Nat.zero_le _)]
    exact ⟨_, _, rfl⟩

end

/-- A `write` that returns `Ok` is read back, whatever the server and `read_to_end` do, just when
the old content is no longer than the data and no READ before the end asks for nothing. -/
theorem reads_back_iff (most : Nat) (offered : 0 < most) (fsync : Bool)
    (limits : Option LimitsExtension) (path : String) (content data : Bytes)
    (smallContent : content.length < 2 ^ 64) (smallData : data.length < 2 ^ 64) :
    ReadsBack most (.negotiated fsync limits) path content data ↔
      content.length ≤ data.length ∧
        (data = [] ∨ min most (File.new path (.negotiated fsync limits)).maxReadLen < 2 ^ 32) := by
  have small : (data ++ content.drop data.length).length < 2 ^ 64 := by
    rw [List.length_append, List.length_drop]
    omega
  constructor
  · intro back
    obtain ⟨written, wrote⟩ : ∃ written, SftpSession.write (.negotiated fsync limits) 0 path data
        (.ready (.ok (.handle ⟨0, "h"⟩))) (List.replicate data.length Lifetime.written) =
          (.done (.ok ()), written) := write_succeeds data smallData
    have left : written.foldl stored content = data ++ content.drop data.length :=
      write_stores smallData wrote
    have positive : 0 < (File.new "h" (.negotiated fsync limits)).maxReadLen :=
      File.maxReadLen_pos rfl
    constructor
    · by_contra longer
      -- the rest of the old content is read, byte by byte
      obtain ⟨faithful, f', later, done⟩ := readToEnd_bytewise
        (data ++ content.drop data.length) [] positive rfl rfl (by rw [List.length_nil]; omega)
      obtain ⟨sent, returned, answered⟩ := read_of_readToEnd path faithful done
      have same := back 0 0 _ _ _ _ _ _ _ wrote returned
        (fun poll member => by rw [mem_bytewise member]; omega)
        (by rw [left]; exact answered)
      have length := congrArg List.length same
      rw [List.nil_append, List.length_append, List.length_drop] at length
      omega
    · by_cases empty : data = []
      · exact .inl empty
      · right
        by_contra wide
        have same : (File.new path (.negotiated fsync limits)).maxReadLen =
            (File.new "h" (.negotiated fsync limits)).maxReadLen := rfl
        obtain ⟨faithful, f', later, done⟩ := readToEnd_zero fsync limits
          (written.foldl stored content) (by omega)
        obtain ⟨sent, returned, answered⟩ := read_of_readToEnd path faithful done
        refine empty (back 0 0 _ _ _ _ _ _ _ wrote returned ?_ answered).symm
        intro poll member
        rw [List.mem_singleton.mp member]
        omega
  · rintro ⟨shorter, asks⟩
    intro handles handles' opening opening' turns polls written sent value wrote returned rooms
      faithful
    have left : written.foldl stored content = data := by
      rw [write_stores smallData wrote, List.drop_eq_nil_of_le shorter, List.append_nil]
    rw [left] at faithful
    obtain ⟨front, whole⟩ := read_returns smallData returned rooms faithful
    rcases asks with rfl | asks
    · exact List.prefix_nil.mp front
    · exact whole asks

/-- Two bytes over a content of one. -/
theorem reads_back_iff_longer : ReadsBack 32 (.negotiated false none) "f" [1] [9, 8] :=
  (reads_back_iff 32 (by decide) false none "f" [1] [9, 8] (by decide) (by decide)).mpr
    ⟨by decide, .inr (by decide)⟩

/-- One byte over a content of three: `write` and `read` return `Ok`, but the last two bytes of the
old content are read behind the data. -/
theorem write_leaves_tail :
    ∃ sent, SftpSession.write (.negotiated false none) 0 "f" [9] (.ready (.ok (.handle ⟨0, "h"⟩)))
          [Lifetime.written] =
        (.done (.ok ()), [.open "f" .write FileAttributes.empty, .write "h" 0 [9]]) ∧
      SftpSession.read (.negotiated false none) 0 "f" (.ready (.ok (.handle ⟨0, "h"⟩)))
          (bytewise [9, 2, 3]) = (.done (.ok [9, 2, 3]), sent) ∧
      ¬ ReadsBack 32 (.negotiated false none) "f" [1, 2, 3] [9] := by
  have wrote : SftpSession.write (.negotiated false none) 0 "f" [9]
      (.ready (.ok (.handle ⟨0, "h"⟩))) [Lifetime.written] =
        (.done (.ok ()), [.open "f" .write FileAttributes.empty, .write "h" 0 [9]]) := rfl
  have content : [.open "f" .write FileAttributes.empty, Request.write "h" 0 [9]].foldl stored
      [1, 2, 3] = [9, 2, 3] := rfl
  obtain ⟨faithful, f', later, done⟩ := readToEnd_bytewise [9, 2, 3] []
    (f := File.new "h" (.negotiated false none)) (by decide) rfl rfl (by decide)
  obtain ⟨sent, returned, answered⟩ := read_of_readToEnd "f" faithful done
  refine ⟨sent, wrote, returned, fun back => ?_⟩
  have same := back 0 0 _ _ _ _ _ _ _ wrote returned
    (fun poll member => by rw [mem_bytewise member]; decide) (by rw [content]; exact answered)
  simp at same

end RusshSftp.Client
