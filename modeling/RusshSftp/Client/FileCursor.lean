import RusshSftp.Lib.LocalFile
import RusshSftp.Lib.Run
import RusshSftp.Client.File

/-!
# A file as a local file

`Served` is a file and a server that holds its content.  Its steps are whole operations:
each is polled until it is ready, and the server answers what was sent in between.  The
caller sees what a local file shows.
-/

set_option autoImplicit false

namespace RusshSftp.Client

open LocalFile

/-! ## Polls until the value is ready -/

def Poll.map {α β : Type} (f : α → β) : Poll α → Poll β
  | .pending => .pending
  | .ready (.ok a) => .ready (.ok (f a))
  | .ready (.error e) => .ready (.error e)
  | .panicked => .panicked

section
variable {σ β : Type} (poll : σ → Turn → Poll β × σ × List Request) (answer : SftpResult Packet)

/-- Some polls that find no answer yet, and one that finds it. -/
def untilReady : Nat → σ → Poll β × σ × List Request
  | 0, s => poll s (.ready answer)
  | waits + 1, s =>
      match poll s .pending with
      | (.pending, s, sent) =>
          let (last, s, later) := untilReady waits s
          (last, s, sent ++ later)
      | done => done

variable {poll answer}

/-- A call that is made by the first poll and awaited by the others: it does not matter how
often it is polled. -/
theorem untilReady_eq {s started after : σ} {last : Poll β} {sent : List Request}
    (first : poll s .pending = (.pending, started, sent))
    (again : poll started .pending = (.pending, started, []))
    (done : poll s (.ready answer) = (last, after, sent))
    (later : poll started (.ready answer) = (last, after, [])) (waits : Nat) :
    untilReady poll answer waits s = (last, after, sent) := by
  have awaited (waits : Nat) : untilReady poll answer waits started = (last, after, []) := by
    induction waits with
    | zero => exact later
    | succ waits ih =>
        rw [untilReady, again]
        simp only [ih, List.append_nil]
  cases waits with
  | zero => exact done
  | succ waits =>
      rw [untilReady, first]
      simp only [awaited waits, List.append_nil]

/-- A value that is ready at once. -/
theorem untilReady_atOnce {s after : σ} {result : Except String β} {sent : List Request}
    (done : ∀ turn, poll s turn = (.ready result, after, sent)) (waits : Nat) :
    untilReady poll answer waits s = (.ready result, after, sent) := by
  cases waits with
  | zero => exact done _
  | succ waits => rw [untilReady, done]

end

/-! ## Operations -/

inductive FileOp where
  | read (buf : ReadBuf)
  | write (buf : Bytes)
  | seek (position : SeekFrom)

/-- What an operation gives its caller: the buffer, the length, the position. -/
inductive FileSeen where
  | read (buf : ReadBuf)
  | wrote (n : Nat)
  | sought (pos : UInt64)

def readOnce (s : File × ReadBuf) (turn : Turn) : Poll Unit × (File × ReadBuf) × List Request :=
  let (polled, buf) := s.1.pollRead s.2 turn
  (polled.poll, (polled.file, buf), polled.sent)

def Polled.parts {α : Type} (polled : Polled α) : Poll α × File × List Request :=
  (polled.poll, polled.file, polled.sent)

def writeOnce (buf : Bytes) (f : File) (turn : Turn) : Poll Nat × File × List Request :=
  (f.pollWrite buf turn).parts

def seekOnce (f : File) (turn : Turn) : Poll UInt64 × File × List Request :=
  (f.pollComplete turn).parts

/-- An operation from its start until it is ready. -/
def File.complete (f : File) (answer : SftpResult Packet) (waits : Nat) :
    FileOp → Poll FileSeen × File × List Request
  | .read buf =>
      let (last, (f, buf), sent) := untilReady readOnce answer waits (f, buf)
      (last.map fun _ => .read buf, f, sent)
  | .write buf =>
      let (last, f, sent) := untilReady (writeOnce buf) answer waits f
      (last.map .wrote, f, sent)
  | .seek position =>
      match f.startSeek position with
      | (.error e, f) => (.ready (.error e), f, [])
      | (.ok (), f) =>
          let (last, f, sent) := untilReady seekOnce answer waits f
          (last.map .sought, f, sent)

namespace File

variable {f : File}

/-- A read of an idle file: its request is sent once, and its answer ends it. -/
theorem complete_read (idle : f.state.fRead = none) (answer : SftpResult Packet) (waits : Nat)
    (buf : ReadBuf) :
    f.complete answer waits (.read buf) =
      let done := f.finishRead buf (answer.bind (intoWithStatus data?))
      (done.1.map fun _ => .read done.2.2, done.2.1, [f.readRequest buf]) := by
  have same : { f with state.fRead := none } = f := by rw [← idle]
  have first : readOnce (f, buf) .pending = (.pending,
      ({ f with state.fRead := some (f.readCall buf) }, buf), [f.readRequest buf]) := by
    rw [readOnce, pollRead_new_pending idle]
  have again : readOnce ({ f with state.fRead := some (f.readCall buf) }, buf) .pending =
      (.pending, ({ f with state.fRead := some (f.readCall buf) }, buf), []) := by
    rw [readOnce, pollRead_awaited_pending rfl]
  have done : readOnce (f, buf) (.ready answer) =
      ((f.finishRead buf (answer.bind (intoWithStatus data?))).1,
        (f.finishRead buf (answer.bind (intoWithStatus data?))).2, [f.readRequest buf]) := by
    rw [readOnce, pollRead_ready, idle, same]
    rfl
  have later : readOnce ({ f with state.fRead := some (f.readCall buf) }, buf) (.ready answer) =
      ((f.finishRead buf (answer.bind (intoWithStatus data?))).1,
        (f.finishRead buf (answer.bind (intoWithStatus data?))).2, []) := by
    rw [readOnce, pollRead_ready]
    exact congrArg (fun f : File =>
      ((f.finishRead buf (answer.bind (intoWithStatus data?))).1,
        (f.finishRead buf (answer.bind (intoWithStatus data?))).2, ([] : List Request))) same
  rw [complete, untilReady_eq first again done later waits]

theorem complete_write (idle : f.state.fWrite = none) (answer : SftpResult Packet) (waits : Nat)
    (buf : Bytes) :
    f.complete answer waits (.write buf) =
      let done := f.finishWrite (f.writeCall buf) (answer.bind intoStatus)
      (done.1.map .wrote, done.2, [f.writeRequest buf]) := by
  have same : { f with state.fWrite := none } = f := by rw [← idle]
  have first : writeOnce buf f .pending = (.pending,
      { f with state.fWrite := some (f.writeCall buf) }, [f.writeRequest buf]) := by
    rw [writeOnce, pollWrite_new_pending idle]
    rfl
  have again : writeOnce buf { f with state.fWrite := some (f.writeCall buf) } .pending =
      (.pending, { f with state.fWrite := some (f.writeCall buf) }, []) := by
    rw [writeOnce, pollWrite_awaited_pending rfl]
    rfl
  have done : writeOnce buf f (.ready answer) =
      ((f.finishWrite (f.writeCall buf) (answer.bind intoStatus)).1,
        (f.finishWrite (f.writeCall buf) (answer.bind intoStatus)).2, [f.writeRequest buf]) := by
    rw [writeOnce, pollWrite_ready, idle, same]
    rfl
  have later : writeOnce buf { f with state.fWrite := some (f.writeCall buf) } (.ready answer) =
      ((f.finishWrite (f.writeCall buf) (answer.bind intoStatus)).1,
        (f.finishWrite (f.writeCall buf) (answer.bind intoStatus)).2, []) := by
    rw [writeOnce, pollWrite_ready]
    exact congrArg (fun g : File =>
      ((g.finishWrite (f.writeCall buf) (answer.bind intoStatus)).1,
        (g.finishWrite (f.writeCall buf) (answer.bind intoStatus)).2, ([] : List Request))) same
  rw [complete, untilReady_eq first again done later waits]

/-- Where the seek's future goes, and what it asks the server on the way. -/
def seekResult (f : File) (answer : SftpResult Packet) : SeekFrom → Except String UInt64
  | .start pos => seekTo pos.toInt64
  | .current offset => seekTo (f.pos.toInt64 + offset)
  | .end offset => seekFromEnd offset (answer.bind (intoWithStatus attrs?))

def seekRequests (f : File) : SeekFrom → List Request
  | .end _ => [.fstat f.handle]
  | _ => []

/-- A file whose seek is under way. -/
def seeking (f : File) (future : SeekFuture) : File := { f with state.fSeek := some future }

theorem finishSeek_seeking (f : File) (future : SeekFuture) (there : Except String UInt64) :
    (f.seeking future).finishSeek there = f.finishSeek there := by
  cases there <;> rfl

theorem complete_seek (idle : f.state.fSeek = none) (answer : SftpResult Packet) (waits : Nat)
    (position : SeekFrom) :
    f.complete answer waits (.seek position) =
      let there := f.seekResult answer position
      ((Poll.ready there).map .sought, f.finishSeek there, f.seekRequests position) := by
  have started : f.startSeek position =
      (.ok (), f.seeking (.unpolled position f.pos.toInt64)) := by
    rw [startSeek, idle]
    rfl
  rw [complete, started]
  cases position with
  | start pos =>
      have atOnce (turn : Turn) : seekOnce (f.seeking (.unpolled (.start pos) f.pos.toInt64)) turn =
          (.ready (seekTo pos.toInt64), f.finishSeek (seekTo pos.toInt64), []) := by
        rw [seekOnce, pollComplete_start rfl, finishSeek_seeking]
        rfl
      simp only [untilReady_atOnce atOnce]
      rfl
  | current offset =>
      have atOnce (turn : Turn) :
          seekOnce (f.seeking (.unpolled (.current offset) f.pos.toInt64)) turn =
          (.ready (seekTo (f.pos.toInt64 + offset)),
            f.finishSeek (seekTo (f.pos.toInt64 + offset)), []) := by
        rw [seekOnce, pollComplete_current rfl, finishSeek_seeking]
        rfl
      simp only [untilReady_atOnce atOnce]
      rfl
  | «end» offset =>
      have first : seekOnce (f.seeking (.unpolled (.end offset) f.pos.toInt64)) .pending =
          (.pending, f.seeking (.fstat offset), [.fstat f.handle]) := by
        rw [seekOnce, pollComplete_end_pending rfl]
        rfl
      have again : seekOnce (f.seeking (.fstat offset)) .pending =
          (.pending, f.seeking (.fstat offset), []) := by
        rw [seekOnce, pollComplete_fstat_pending rfl]
        rfl
      -- the first poll makes the call of `fstat`, the later ones await it
      have asks (g : File) (turn : Turn) :
          g.pollSeek (.unpolled (.end offset) f.pos.toInt64) turn = g.pollFstat offset true turn :=
        rfl
      have awaits (g : File) (turn : Turn) :
          g.pollSeek (.fstat offset) turn = g.pollFstat offset false turn := rfl
      have done : seekOnce (f.seeking (.unpolled (.end offset) f.pos.toInt64)) (.ready answer) =
          (.ready (f.seekResult answer (.end offset)),
            f.finishSeek (f.seekResult answer (.end offset)), [.fstat f.handle]) := by
        rw [seekOnce, pollComplete_size rfl (asks _)]
        dsimp only
        rw [finishSeek_seeking]
        rfl
      have later : seekOnce (f.seeking (.fstat offset)) (.ready answer) =
          (.ready (f.seekResult answer (.end offset)),
            f.finishSeek (f.seekResult answer (.end offset)), []) := by
        rw [seekOnce, pollComplete_size rfl (awaits _)]
        dsimp only
        rw [finishSeek_seeking]
        rfl
      simp only [untilReady_eq first again done later]
      rfl

end File

/-! ## A server that holds the content -/

/-- An answer that a faithful server may give. -/
def answers (content : Bytes) (request : Request) (answer : SftpResult Packet) : Bool :=
  match request, answer with
  | .read _ offset len, .ok (.data p) =>
      if len = 0 then p.data.isEmpty
      else 1 ≤ p.data.length && p.data.length ≤ len.toNat &&
        p.data == slice content offset.toNat p.data.length
  | .read _ offset _, .ok (.status p) =>
      p.statusCode == .eof && content.length ≤ offset.toNat
  | .write .., .ok (.status p) => p.statusCode == .ok
  | .fstat _, .ok (.attrs p) => p.attrs.size == some (UInt64.ofNat content.length)
  | _, _ => false

/-- A faithful answer to a READ: nothing where nothing was asked for, some of the content, or the
end of it. -/
theorem answered_read {content : Bytes} {handle : String} {offset : UInt64} {len : UInt32}
    {answer : SftpResult Packet}
    (faithful : answers content (.read handle offset len) answer = true) :
    (len = 0 ∧ ∃ p, answer = .ok (.data p) ∧ p.data = []) ∨
      (∃ p, answer = .ok (.data p) ∧ p.data ≠ [] ∧ p.data.length ≤ len.toNat ∧
        p.data <+: content.drop offset.toNat) ∨
      ∃ p, answer = .ok (.status p) ∧ p.statusCode = .eof ∧ content.length ≤ offset.toNat := by
  cases answer with
  | error e => cases faithful
  | ok packet =>
      cases packet with
      | data p =>
          change (if len = 0 then p.data.isEmpty else _) = true at faithful
          split at faithful
          · rename_i zero
            exact .inl ⟨zero, p, rfl, List.isEmpty_iff.mp faithful⟩
          · simp only [Bool.and_eq_true, decide_eq_true_eq, beq_iff_eq] at faithful
            obtain ⟨⟨some, fits⟩, same⟩ := faithful
            refine .inr (.inl ⟨p, rfl, List.ne_nil_of_length_pos some, fits, ?_⟩)
            rw [same, slice]
            exact List.take_prefix _ _
      | status p =>
          change (p.statusCode == .eof && decide (content.length ≤ offset.toNat)) = true
            at faithful
          simp only [Bool.and_eq_true, decide_eq_true_eq, beq_iff_eq] at faithful
          exact .inr (.inr ⟨p, rfl, faithful⟩)
      | _ => cases faithful

def contentAfter (content : Bytes) : Request → Bytes
  | .write _ offset data => writeAt 0 content offset.toNat data
  | _ => content

structure Served where
  file : File
  content : Bytes
  /-- The operations so far, with what their caller got. -/
  seen : List (FileOp × Poll FileSeen)

/-- An operation, how often it is polled in vain, and what the server answers. -/
structure Use where
  op : FileOp
  waits : Nat
  answer : SftpResult Packet

namespace Served

def step (s : Served) (use : Use) : Option Served :=
  let (poll, file, sent) := s.file.complete use.answer use.waits use.op
  if sent.all fun request => answers s.content request use.answer then
    some ⟨file, sent.foldl contentAfter s.content, s.seen ++ [(use.op, poll)]⟩
  else none

def toLocal (s : Served) : LocalFile UInt8 := ⟨s.content, s.file.pos.toNat⟩

end Served

def SeekFrom.whence : SeekFrom → Whence
  | .start pos => .start pos.toNat
  | .current offset => .current offset.toInt
  | .end offset => .end offset.toInt

/-- The offsets of an operation stay below `2 ^ 63`, and its seek does not fail. -/
def InRange (s : Served) (use : Use) : Prop :=
  match use.op with
  | .read _ => True
  | .write buf => s.file.pos.toNat + min buf.length s.file.maxWriteLen < 2 ^ 63
  | .seek position => 0 ≤ s.toLocal.target position.whence ∧
      s.toLocal.target position.whence < 2 ^ 63

/-- What the caller of an operation of the file sees is what a local file shows. -/
inductive Shows : FileOp × Poll FileSeen → Op UInt8 × Seen UInt8 → Prop
  | read (buf buf' : ReadBuf) (items : Bytes) (appended : buf'.filled = buf.filled ++ items)
      (capacity : buf'.capacity = buf.capacity) :
      Shows (.read buf, .ready (.ok (.read buf'))) (.read buf.remaining, .read items)
  | write (buf : Bytes) (n : Nat) :
      Shows (.write buf, .ready (.ok (.wrote n))) (.write buf, .wrote n)
  | seek (position : SeekFrom) (pos : UInt64) :
      Shows (.seek position, .ready (.ok (.sought pos)))
        (.seek position.whence, .sought pos.toNat)

/-! ## Seeks in range -/

theorem toInt_toInt64 {pos : UInt64} (small : pos.toNat < 2 ^ 63) :
    pos.toInt64.toInt = pos.toNat := by
  rw [Int64.toInt, UInt64.toBitVec_toInt64, BitVec.toInt_eq_toNat_of_lt]
  · rfl
  · rw [UInt64.toNat_toBitVec]
    omega

theorem toInt_add {a b : Int64} (low : 0 ≤ a.toInt + b.toInt)
    (high : a.toInt + b.toInt < 2 ^ 63) : (a + b).toInt = a.toInt + b.toInt := by
  rw [Int64.toInt_add]
  exact Int.bmod_eq_of_le (by omega) (by omega)

namespace File

theorem seekTo_of_toInt {newPos : Int64} {target : Int} (nonneg : 0 ≤ target)
    (same : newPos.toInt = target) :
    ∃ pos : UInt64, seekTo newPos = .ok pos ∧ (pos.toNat : Int) = target := by
  have notBefore : ¬ newPos < 0 := by
    rw [Int64.lt_iff_toInt_lt, Int64.toInt_zero]
    omega
  have le : 0 ≤ newPos := by
    rw [Int64.le_iff_toInt_le, Int64.toInt_zero]
    omega
  refine ⟨newPos.toUInt64, by rw [seekTo, if_neg notBefore], ?_⟩
  rw [Int64.toNat_toUInt64_of_le le, Int64.toNatClampNeg, same]
  exact Int.toNat_of_nonneg nonneg

end File

/-! ## The simulation -/

/-- A file between two operations, and the bounds that keep its arithmetic exact. -/
structure Resting (extensions : SessionExtensions) (s : Served) : Prop where
  noRead : s.file.state.fRead = none
  noSeek : s.file.state.fSeek = none
  noWrite : s.file.state.fWrite = none
  extensions : s.file.extensions = extensions
  content : s.content.length < 2 ^ 63
  pos : s.file.pos.toNat < 2 ^ 63

section
variable {extensions : SessionExtensions} {s : Served}

theorem putSlice_of_fits {buf : ReadBuf} {data : Bytes} (fits : data.length ≤ buf.remaining) :
    ∃ buf', buf.putSlice data = some buf' ∧ buf'.filled = buf.filled ++ data ∧
      buf'.capacity = buf.capacity := by
  rw [ReadBuf.putSlice, dif_pos fits]
  exact ⟨_, rfl, rfl, rfl⟩

/-- A read gives items of the content from the position. -/
theorem simulates_read (rests : Resting extensions s) (positive : 0 < s.file.maxReadLen)
    (small : s.file.maxReadLen ≤ 2 ^ 31) {buf : ReadBuf} {answer : SftpResult Packet}
    (faithful : answers s.content (s.file.readRequest buf) answer = true) :
    ∃ items buf', LocalFile.Step 0 s.file.maxWriteLen s.toLocal (.read buf.remaining) (.read items)
        ⟨s.content, s.file.pos.toNat + items.length⟩ ∧
      buf'.filled = buf.filled ++ items ∧ buf'.capacity = buf.capacity ∧
      s.file.finishRead buf (answer.bind (intoWithStatus data?)) =
        (.ready (.ok ()), { s.file with pos := s.file.pos + UInt64.ofNat items.length }, buf') ∧
      s.file.pos.toNat + items.length < 2 ^ 63 := by
  have asked := s.file.readCall_len buf (by omega)
  have content := rests.content
  have pos := rests.pos
  have answered : (∃ p, answer = .ok (.data p) ∧ p.data.length ≤ buf.remaining ∧
      p.data <+: s.content.drop s.file.pos.toNat ∧ (p.data.length = 0 → buf.remaining = 0)) ∨
      ∃ p, answer = .ok (.status p) ∧ p.statusCode = .eof ∧
        s.content.length ≤ s.file.pos.toNat := by
    rcases answered_read faithful with
      ⟨zero, p, same, empty⟩ | ⟨p, same, some, fits, part⟩ | ended
    · rw [zero, UInt32.toNat_zero] at asked
      exact .inl ⟨p, same, by rw [empty]; exact Nat.zero_le _, by rw [empty]; exact List.nil_prefix,
        fun _ => by omega⟩
    · have positive := List.length_pos_of_ne_nil some
      exact .inl ⟨p, same, by omega, part, fun none => by omega⟩
    · exact .inr ended
  rcases answered with ⟨p, rfl, fits, part, stops⟩ | ⟨p, rfl, code, ended⟩
  · obtain ⟨buf', put, filled, capacity⟩ := putSlice_of_fits fits
    have length : p.data.length ≤ s.content.length - s.file.pos.toNat := by
      rw [← List.length_drop]
      exact part.length_le
    refine ⟨p.data, buf', .read s.toLocal buf.remaining p.data
      (List.prefix_iff_eq_take.mp part) fits (fun none => .inl (stops none)),
      filled, capacity, ?_, by omega⟩
    show s.file.finishRead buf (.ok p) = _
    simp only [File.finishRead, File.readOutput, put]
  · refine ⟨[], buf, .read s.toLocal buf.remaining [] rfl (Nat.zero_le _)
      (fun _ => .inr ended), (List.append_nil _).symm, rfl, ?_, by simpa using pos⟩
    show s.file.finishRead buf (.error (.status p)) = _
    simp only [File.finishRead, File.readOutput, code, if_true, List.length_nil]
    rw [show s.file.pos + UInt64.ofNat 0 = s.file.pos from UInt64.add_zero _]

/-- A write puts the front of the buffer in the content at the position. -/
theorem simulates_write (rests : Resting extensions s) {buf : Bytes}
    (inRange : s.file.pos.toNat + min buf.length s.file.maxWriteLen < 2 ^ 63)
    {answer : SftpResult Packet}
    (faithful : answers s.content (s.file.writeRequest buf) answer = true) :
    LocalFile.Step 0 s.file.maxWriteLen s.toLocal (.write buf)
        (.wrote (min buf.length s.file.maxWriteLen))
        ⟨contentAfter s.content (s.file.writeRequest buf),
          s.file.pos.toNat + min buf.length s.file.maxWriteLen⟩ ∧
      s.file.finishWrite (s.file.writeCall buf) (answer.bind intoStatus) =
        (.ready (.ok (min buf.length s.file.maxWriteLen)), { s.file with
          pos := s.file.pos + UInt64.ofNat (min buf.length s.file.maxWriteLen) }) ∧
      (contentAfter s.content (s.file.writeRequest buf)).length < 2 ^ 63 := by
  have data := s.file.writeCall_data buf
  have length : (s.file.writeCall buf).data.length = min buf.length s.file.maxWriteLen := by
    rw [data, List.length_take]
    omega
  have after : contentAfter s.content (s.file.writeRequest buf) = writeAt 0 s.content
      s.file.pos.toNat (buf.take (min buf.length s.file.maxWriteLen)) := by
    rw [File.writeRequest, contentAfter, data]
    rfl
  refine ⟨?_, ?_, ?_⟩
  · rw [after]
    exact .write s.toLocal buf
  · cases answer with
    | error e => cases faithful
    | ok packet =>
        cases packet with
        | status p =>
            have code : p.statusCode = .ok := beq_iff_eq.mp faithful
            show s.file.finishWrite _ (intoStatus (.status p)) = _
            rw [intoStatus, if_pos code]
            show (Poll.ready (.ok (s.file.writeCall buf).data.length), _) = _
            rw [length]
        | _ => cases faithful
  · rw [after]
    have bound := writeAt_length_le 0 s.content s.file.pos.toNat
      (buf.take (min buf.length s.file.maxWriteLen))
    have content := rests.content
    rw [List.length_take] at bound
    omega

/-- A seek in range goes to its target. -/
theorem simulates_seek (rests : Resting extensions s) {position : SeekFrom}
    (low : 0 ≤ s.toLocal.target position.whence)
    (high : s.toLocal.target position.whence < 2 ^ 63) {answer : SftpResult Packet}
    (faithful : (s.file.seekRequests position).all
      (fun request => answers s.content request answer) = true) :
    ∃ pos : UInt64, s.file.seekResult answer position = .ok pos ∧
      (pos.toNat : Int) = s.toLocal.target position.whence := by
  have pos := toInt_toInt64 rests.pos
  cases position with
  | start n =>
      have small : n.toNat < 2 ^ 63 := by
        have high : (n.toNat : Int) < 2 ^ 63 := high
        omega
      exact File.seekTo_of_toInt low (toInt_toInt64 small)
  | current offset =>
      have there : s.file.pos.toInt64.toInt + offset.toInt =
          s.toLocal.target (.current offset.toInt) := by
        rw [pos]
        rfl
      refine File.seekTo_of_toInt low ?_
      rw [toInt_add (there ▸ low) (there ▸ high)]
      exact there
  | «end» offset =>
      have faithful : answers s.content (.fstat s.file.handle) answer = true := by
        simpa [File.seekRequests] using faithful
      cases answer with
      | error e => cases faithful
      | ok packet =>
          cases packet with
          | attrs p =>
              have size : p.attrs.size = some (UInt64.ofNat s.content.length) :=
                beq_iff_eq.mp faithful
              have content := rests.content
              have whole : (UInt64.ofNat s.content.length).toNat = s.content.length := by
                rw [UInt64.toNat_ofNat', Nat.mod_eq_of_lt (by omega)]
              have length : (UInt64.ofNat s.content.length).toInt64.toInt = s.content.length := by
                rw [toInt_toInt64 (by omega), whole]
              have there : (UInt64.ofNat s.content.length).toInt64.toInt + offset.toInt =
                  s.toLocal.target (.end offset.toInt) := by
                rw [length]
                rfl
              show ∃ pos, File.seekFromEnd offset (.ok p) = .ok pos ∧ _
              rw [File.seekFromEnd, size]
              refine File.seekTo_of_toInt low ?_
              rw [toInt_add (there ▸ low) (there ▸ high)]
              exact there
          | _ => cases faithful

/-- One operation of the file is one of the local file. -/
theorem Served.step_simulates {limit : Nat} {s' : Served} {use : Use}
    (rests : Resting extensions s) (isLimit : s.file.maxWriteLen = limit)
    (positive : 0 < s.file.maxReadLen) (small : s.file.maxReadLen ≤ 2 ^ 31)
    (inRange : InRange s use) (taken : s.step use = some s') :
    Resting extensions s' ∧ ∃ seen op saw, s'.seen = s.seen ++ [seen] ∧ Shows seen (op, saw) ∧
      LocalFile.Step 0 limit s.toLocal op saw s'.toLocal := by
  obtain ⟨op, waits, answer⟩ := use
  subst isLimit
  cases op with
  | read buf =>
      simp only [step, File.complete_read rests.noRead] at taken
      split at taken
      · rename_i faithful
        cases taken
        obtain ⟨items, buf', stepped, filled, capacity, done, bound⟩ :=
          simulates_read rests positive small (by simpa using faithful)
        have after := add_length (Nat.lt_trans bound (by decide))
        rw [done]
        refine ⟨⟨rests.noRead, rests.noSeek, rests.noWrite, rests.extensions, rests.content,
          after ▸ bound⟩, _, _, _, rfl, .read buf buf' items filled capacity, ?_⟩
        show LocalFile.Step 0 _ _ _ _ ⟨s.content, (s.file.pos + UInt64.ofNat items.length).toNat⟩
        rw [after]
        exact stepped
      · cases taken
  | write buf =>
      simp only [step, File.complete_write rests.noWrite] at taken
      split at taken
      · rename_i faithful
        cases taken
        obtain ⟨stepped, done, content⟩ := simulates_write rests inRange (by simpa using faithful)
        have after := add_length (Nat.lt_trans inRange (by decide))
        rw [done]
        refine ⟨⟨rests.noRead, rests.noSeek, rests.noWrite, rests.extensions, content,
          after ▸ inRange⟩, _, _, _, rfl, .write buf _, ?_⟩
        show LocalFile.Step 0 _ _ _ _ ⟨_, (s.file.pos + UInt64.ofNat _).toNat⟩
        rw [after]
        exact stepped
      · cases taken
  | seek position =>
      simp only [step, File.complete_seek rests.noSeek] at taken
      split at taken
      · rename_i faithful
        cases taken
        obtain ⟨pos, there, target⟩ := simulates_seek rests inRange.1 inRange.2 faithful
        have bound : pos.toNat < 2 ^ 63 := by
          have high := inRange.2
          omega
        have content : (s.file.seekRequests position).foldl contentAfter s.content = s.content := by
          cases position <;> rfl
        rw [there, content]
        exact ⟨⟨rests.noRead, rfl, rests.noWrite, rests.extensions, rests.content, bound⟩,
          _, _, _, rfl, .seek position pos, .seek s.toLocal position.whence pos.toNat target.symm⟩
      · cases taken

end

/-- A run of the file, each operation polled until it is ready, is a run of the local file with
the same content and position, and shows its caller the same. -/
theorem file_refines_local (handle : String) (fsync : Bool) (limits : Option LimitsExtension)
    (content : Bytes) (uses : List Use) (s : Served)
    (readLimit : ∀ l, limits = some l → l.maxReadLen.toNat ≤ 2 ^ 31)
    (small : content.length < 2 ^ 63)
    (run : Run.exec Served.step ⟨File.new handle (.negotiated fsync limits), content, []⟩ uses =
      some s)
    (inRange : Run.Meets Served.step InRange
      ⟨File.new handle (.negotiated fsync limits), content, []⟩ uses) :
    ∃ history, List.Forall₂ Shows s.seen history ∧
      LocalFile.Steps 0 (File.new handle (.negotiated fsync limits)).maxWriteLen
        ⟨content, 0⟩ history ⟨s.content, s.file.pos.toNat⟩ := by
  have keeps : Resting (.negotiated fsync limits) s ∧
      ∃ history, List.Forall₂ Shows s.seen history ∧
        LocalFile.Steps 0 (File.new handle (.negotiated fsync limits)).maxWriteLen
          ⟨content, 0⟩ history s.toLocal := by
    refine Run.exec_induction (P := fun uses s => Run.Meets Served.step InRange
        ⟨File.new handle (.negotiated fsync limits), content, []⟩ uses →
      Resting (.negotiated fsync limits) s ∧ ∃ history, List.Forall₂ Shows s.seen history ∧
        LocalFile.Steps 0 (File.new handle (.negotiated fsync limits)).maxWriteLen
          ⟨content, 0⟩ history s.toLocal) ?_ ?_ uses s run inRange
    · intro _
      exact ⟨⟨rfl, rfl, rfl, rfl, small, show (0 : Nat) < 2 ^ 63 by decide⟩, [], .nil, .nil _⟩
    · intro uses s use s' before ih taken meets
      obtain ⟨rests, history, shown, steps⟩ := ih meets.front
      have limit : s.file.maxWriteLen =
          (File.new handle (.negotiated fsync limits)).maxWriteLen := by
        rw [File.maxWriteLen, rests.extensions]
        rfl
      obtain ⟨rests', seen, op, saw, grown, shows, stepped⟩ :=
        Served.step_simulates rests limit (File.maxReadLen_pos rests.extensions)
          (File.maxReadLen_le rests.extensions (by decide) readLimit) (meets.last before) taken
      refine ⟨rests', history ++ [(op, saw)], ?_, .snoc steps stepped⟩
      rw [grown]
      exact List.rel_append shown (.cons shows .nil)
  exact keeps.2

/-- A short read, a seek from the end and a write that extends the content. -/
def shortUses : List Use :=
  [⟨.read (.empty 8), 1, .ok (.data ⟨1, [1, 2]⟩)⟩,
    ⟨.seek (.end (-1)), 2, .ok (.attrs ⟨2, { FileAttributes.empty with size := some 3 }⟩)⟩,
    ⟨.write [8, 9], 0, .ok (.status ⟨3, .ok, "Ok", "en-US"⟩)⟩]

theorem file_refines_local_short :
    ∃ s, Run.exec Served.step ⟨File.new "h" (.negotiated false none), [1, 2, 3], []⟩ shortUses =
        some s ∧
      s.content = [1, 2, 8, 9] ∧ s.file.pos = 4 ∧
      ∃ history, List.Forall₂ Shows s.seen history ∧
        LocalFile.Steps 0 (File.new "h" (.negotiated false none)).maxWriteLen
          ⟨[1, 2, 3], 0⟩ history ⟨s.content, s.file.pos.toNat⟩ := by
  obtain ⟨s, run⟩ : ∃ s, Run.exec Served.step
      ⟨File.new "h" (.negotiated false none), [1, 2, 3], []⟩ shortUses = some s :=
    Option.isSome_iff_exists.mp (by decide +kernel)
  refine ⟨s, run, Run.exec_map (f := Served.content) run (by decide +kernel),
    Run.exec_map (f := fun s => s.file.pos) run (by decide +kernel),
    file_refines_local "h" false none [1, 2, 3] shortUses s (fun l none => by cases none)
      (by decide) run ?_⟩
  refine Run.Meets.cons trivial fun s1 first => ?_
  refine Run.Meets.cons ?_ fun s2 second => Run.Meets.cons ?_ fun s3 third => ?_
  · cases first
    exact ⟨by decide +kernel, by decide +kernel⟩
  · cases first
    cases second
    show (_ : Nat) < _
    decide +kernel
  · exact fun _ _ _ _ shape _ => by simp at shape

end RusshSftp.Client
