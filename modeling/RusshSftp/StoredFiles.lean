import RusshSftp.Client.Transfer
import RusshSftp.Storage

/-!
# Files and folders over the wire

On a handler that stores files, the session's `write` and `read` carry a content to the storage and
back, and `read_dir` gives each entry once, over the wire.  The handle of a dropped file is closed
by a task of its own, at any time: what the program relies on meanwhile is that the task closes
no other handle.
-/

set_option autoImplicit false

namespace RusshSftp

open Client Framing ByteCodec

variable {σ ε : Type}

namespace Client.Async

variable {handler : Server.Handler σ ε} {store : σ → Storage} {fsync : Bool}
variable {limits : Option LimitsExtension} {path : String} {mode : FileStore.Mode}

/-! ## Programs on a storage -/

/-- The call that another task may still make: it closes a handle other than this one. -/
def ClosesOther (now : Storage) (h other : String) (delay : Option Nat) : Prop :=
  delay ≠ none → other ≠ h ∧ ∃ held, now.handles other = some held

/-- A program ends with a result and a storage. -/
def Leaves {α : Type} (handler : Server.Handler σ ε) (store : σ → Storage) (limits : Limits)
    (most : Nat) (program : Calls α) (p : Peer σ) (post : α → Storage → Prop) : Prop :=
  ∃ now, (program.run (Peer.serve handler) p).2.Holds store limits now most ∧
    post (program.run (Peer.serve handler) p).1 now

theorem leaves_call {α : Type} {post : α → Storage → Prop} {limits : Limits} {most : Nat}
    {p : Peer σ} {c other : SessionCall} {next : c.Reply → Calls α} {delay : Option Nat}
    (later : delay ≠ some 0) :
    Leaves handler store limits most ((Program.call c next).beside other delay) p post ↔
      Leaves handler store limits most
        ((next (p.serve handler c).1).beside other (delay.map Nat.pred)) (p.serve handler c).2
        post := by
  rw [Leaves, Program.run_beside_call later]
  rfl

/-- The other handle may also be closed once the program has ended. -/
theorem leaves_done {α : Type} {a : α} {post : α → Storage → Prop} {limits : Limits} {most : Nat}
    {now : Storage} {p : Peer σ} {h other : String} {delay : Option Nat}
    (stores : handler.Stores store) (holds : p.Holds store limits now most)
    (closesOther : ClosesOther now h other delay) (here : post a now)
    (closed : post a (now.close other)) :
    Leaves handler store limits most
      ((Program.done a : Calls α).beside (.request (.close other)) delay) p post := by
  match delay with
  | none => exact ⟨now, holds, here⟩
  | some 0 =>
      obtain ⟨_, _, isHeld⟩ := closesOther (by simp)
      obtain ⟨status, -, after⟩ := holds.closes stores isHeld
      exact ⟨now.close other, after, closed⟩
  | some (n + 1) => exact ⟨now, holds, here⟩

/-- Whether the other handle is still open or not, the files are the same and the program goes on
with a call of its own. -/
theorem leaves_beside {α : Type} {post : α → Storage → Prop} {limits : Limits} {most most' : Nat}
    {now : Storage} {p : Peer σ} {other : String} {delay : Option Nat} {program : Calls α}
    (stores : handler.Stores store) (holds : p.Holds store limits now most)
    (mayClose : delay ≠ none → ∃ held, now.handles other = some held)
    (goes : ∀ now' p delay', p.Holds store limits now' most → now'.files = now.files →
      (now' = now ∧ delay' = delay ∨ now' = now.close other ∧ delay' = none ∧ delay ≠ none) →
      delay' ≠ some 0 → Leaves handler store limits most'
        (program.beside (.request (.close other)) delay') p post) :
    Leaves handler store limits most' (program.beside (.request (.close other)) delay) p post := by
  by_cases late : delay = some 0
  · subst late
    obtain ⟨held, isHeld⟩ := mayClose (by simp)
    obtain ⟨status, -, after⟩ := holds.closes stores isHeld
    have left := goes _ _ none after rfl (.inr ⟨rfl, rfl, by simp⟩) (by simp)
    rw [Program.beside_none] at left
    rw [Program.beside_now]
    exact left
  · exact goes now p delay holds rfl (.inl ⟨rfl, rfl⟩) late

theorem leaves_bind {α β : Type} {limits : Limits} {most most' : Nat} {p : Peer σ}
    {program : Calls α} {rest : α → Calls β} {post : α → Storage → Prop}
    {post' : β → Storage → Prop} (first : Leaves handler store limits most program p post)
    (after : ∀ a now p, p.Holds store limits now most → post a now →
      Leaves handler store limits most' (rest a) p post') :
    Leaves handler store limits most' (program >>= rest) p post' := by
  obtain ⟨now, holds, met⟩ := first
  have left := after _ now _ holds met
  rw [Leaves, Program.run_bind]
  exact left

theorem leaves_map {α β : Type} {limits : Limits} {most : Nat} {p : Peer σ} {program : Calls α}
    {f : α → β} {post : β → Storage → Prop} {other : SessionCall} {delay : Option Nat}
    (left : Leaves handler store limits most (program.beside other delay) p fun a => post (f a)) :
    Leaves handler store limits most
      ((program >>= fun a => .done (f a)).beside other delay) p post := by
  rw [Program.beside_map]
  exact leaves_bind left fun a now p holds met => ⟨now, holds, met⟩

theorem run_request (r : Request) (p : Peer σ) :
    (RawSftpSession.request r).run.run (Peer.serve handler) p = p.serve handler (.request r) := rfl

/-! ## Whole files -/

theorem File.run_write (f : Client.File) (buf : Bytes) (p : Peer σ) :
    (File.write f buf).run (Peer.serve handler) p =
      (f.finishWrite (f.writeCall buf) (p.serve handler (.request (f.writeRequest buf))).1,
        (p.serve handler (.request (f.writeRequest buf))).2) := rfl

theorem writeAll_nil (polls : Nat) (f : Client.File) :
    writeAll polls f [] = .done (.ready (.ok ()), f) := by
  cases polls <;> rfl

/-- A round whose WRITE is acknowledged. -/
theorem writeAll_round {f : Client.File} {data : Bytes} (positive : 0 < f.maxWriteLen)
    (nonempty : data ≠ []) (polls : Nat) {p : Peer σ} {status : Status}
    (result : (p.serve handler (.request (f.writeRequest data))).1 =
      (Except.ok status : SftpResult Status)) :
    (writeAll (polls + 1) f data).run (Peer.serve handler) p =
      (writeAll polls { f with pos := f.pos + UInt64.ofNat (f.writeCall data).data.length }
        (data.drop (f.writeCall data).data.length)).run (Peer.serve handler)
          (p.serve handler (.request (f.writeRequest data))).2 := by
  have some : 0 < data.length := List.length_pos_iff.mpr nonempty
  have length : (f.writeCall data).data.length = min data.length f.maxWriteLen := by
    rw [f.writeCall_data, List.length_take]
    omega
  have wrote : f.finishWrite (f.writeCall data) (.ok status) =
      (.ready (.ok (f.writeCall data).data.length),
        { f with pos := f.pos + UInt64.ofNat (f.writeCall data).data.length }) := rfl
  rw [writeAll, if_neg (by simpa using nonempty), Program.run_bind, File.run_write, result, wrote]
  dsimp only
  rw [if_neg (by omega), if_neg (by omega)]

theorem run_writeAll_nil (polls : Nat) {f : Client.File} {content : Bytes} {now : Storage}
    {most : Nat} {p : Peer σ} (holds : p.Holds store f.limits now most)
    (there : now.files path = some content) :
    ∃ pos, ((writeAll polls f []).run (Peer.serve handler) p).1 =
        (.ready (.ok ()), { f with pos }) ∧
      ((writeAll polls f []).run (Peer.serve handler) p).2.Holds store f.limits
        (now.setFile path (LocalFile.writeAt 0 content f.pos.toNat [])) most := by
  have same : LocalFile.writeAt 0 content f.pos.toNat [] = content := rfl
  rw [writeAll_nil, same, FileStore.setFile_same there]
  exact ⟨f.pos, rfl, holds⟩

/-- `write_all` puts its data where the cursor was. -/
theorem run_writeAll (stores : handler.Stores store) (writable : mode.writes = true)
    (polls : Nat) (f : Client.File) (data content : Bytes) (now : Storage) (most : Nat) (p : Peer σ)
    (negotiated : f.extensions = .negotiated fsync limits)
    (holds : p.Holds store f.limits now most)
    (held : now.handles f.handle = some (.file path mode)) (there : now.files path = some content)
    (small : f.pos.toNat + data.length < 2 ^ 64) (enough : data.length ≤ polls) :
    ∃ pos, ((writeAll polls f data).run (Peer.serve handler) p).1 =
        (.ready (.ok ()), { f with pos }) ∧
      ((writeAll polls f data).run (Peer.serve handler) p).2.Holds store f.limits
        (now.setFile path (LocalFile.writeAt 0 content f.pos.toNat data)) most := by
  induction polls generalizing f data content now p with
  | zero =>
      obtain rfl : data = [] := List.length_eq_zero_iff.mp (by omega)
      exact run_writeAll_nil 0 holds there
  | succ polls ih =>
      by_cases empty : data = []
      · subst empty
        exact run_writeAll_nil (polls + 1) holds there
      · have positive := Client.File.maxWriteLen_pos negotiated
        have some : 0 < data.length := List.length_pos_iff.mpr empty
        have length : (f.writeCall data).data.length = min data.length f.maxWriteLen := by
          rw [f.writeCall_data, List.length_take]
          omega
        have split : (f.writeCall data).data ++
            data.drop (f.writeCall data).data.length = data := by
          rw [length, f.writeCall_data, List.take_append_drop]
        obtain ⟨status, result, after⟩ := holds.writes stores held writable there
          (f.writeCall_unlimited data)
        rw [writeAll_round positive empty polls result]
        have moved : (f.pos + UInt64.ofNat (f.writeCall data).data.length).toNat =
            f.pos.toNat + (f.writeCall data).data.length := add_length (by omega)
        obtain ⟨pos, done, left⟩ := ih
          { f with pos := f.pos + UInt64.ofNat (f.writeCall data).data.length }
          (data.drop (f.writeCall data).data.length) _ _ _ negotiated after held
          FileStore.setFile_files_same (by rw [moved, List.length_drop]; omega)
          (by rw [List.length_drop]; omega)
        refine ⟨pos, done, ?_⟩
        rw [FileStore.setFile_setFile, moved] at left
        have whole := LocalFile.writeAt_writeAt 0 content f.pos.toNat (f.writeCall data).data
          (data.drop (f.writeCall data).data.length)
        rw [split] at whole
        rw [← whole]
        exact left

theorem putSlice_empty {room : Nat} {data : Bytes} (fits : data.length ≤ room) :
    (ReadBuf.empty room).putSlice data = some ⟨data, room, fits⟩ := by
  rw [ReadBuf.putSlice, dif_pos (show data.length ≤ (ReadBuf.empty room).remaining from fits)]
  rfl

theorem readToEnd_cons (room : Nat) (rooms : List Nat) (f : Client.File) (vec : Bytes) :
    ∃ next, readToEnd (room :: rooms) f vec =
        .call (.request (f.readRequest (.empty room))) next ∧
      ∀ result : SftpResult Data, next result =
        afterRead (readToEnd rooms) vec (f.finishRead (.empty room) result) :=
  ⟨_, rfl, fun _ => rfl⟩

/-- A READ that brings data goes on with the next round. -/
theorem afterRead_data {more : Client.File → Bytes → Calls (Poll Bytes × Client.File)} {vec : Bytes}
    {f : Client.File} {room : Nat} {p : Data} (nonempty : p.data ≠ [])
    (fits : p.data.length ≤ room) :
    afterRead more vec (f.finishRead (.empty room) (.ok p)) =
      more { f with pos := f.pos + UInt64.ofNat p.data.length } (vec ++ p.data) := by
  have read : f.finishRead (.empty room) (.ok p) = (.ready (.ok ()),
      { f with pos := f.pos + UInt64.ofNat p.data.length }, ⟨p.data, room, fits⟩) := by
    simp only [Client.File.finishRead, Client.File.readOutput, putSlice_empty fits]
  rw [read]
  exact if_neg (by simpa using nonempty)

/-- The end of the file ends the loop. -/
theorem afterRead_eof {more : Client.File → Bytes → Calls (Poll Bytes × Client.File)} {vec : Bytes}
    {f : Client.File} {room : Nat} {status : Status} (eof : status.statusCode = .eof) :
    afterRead more vec (f.finishRead (.empty room) (.error (.status status))) =
      .done (.ready (.ok vec), f) := by
  have read : f.finishRead (.empty room) (.error (.status status)) =
      (.ready (.ok ()), f, .empty room) := by
    simp only [Client.File.finishRead, Client.File.readOutput, eof, if_true]
  rw [read]
  rfl

/-- `read_to_end` gives what is behind the cursor, while another handle may be closed. -/
theorem run_readToEnd (stores : handler.Stores store) (readable : mode.reads = true)
    {other : String} (rooms : List Nat) (f : Client.File) (vec content : Bytes) (now : Storage)
    (most : Nat) (p : Peer σ) (delay : Option Nat)
    (negotiated : f.extensions = .negotiated fsync limits)
    (holds : p.Holds store f.limits now most)
    (held : now.handles f.handle = some (.file path mode)) (there : now.files path = some content)
    (closesOther : ClosesOther now f.handle other delay) (small : content.length < 2 ^ 64)
    (offered : ∀ room ∈ rooms, 0 < room ∧ room < 2 ^ 32)
    (enough : content.length - f.pos.toNat < rooms.length) :
    Leaves handler store f.limits most
      ((readToEnd rooms f vec).beside (.request (.close other)) delay) p fun result now' =>
        result.1 = .ready (.ok (vec ++ content.drop f.pos.toNat)) ∧ now'.files = now.files := by
  induction rooms generalizing f vec now p delay with
  | nil => exact absurd enough (Nat.not_lt_zero _)
  | cons room rooms ih =>
      obtain ⟨positive, few⟩ := offered room (List.mem_cons_self ..)
      obtain ⟨next, round, goesOn⟩ := readToEnd_cons room rooms f vec
      have capacity : (ReadBuf.empty room).remaining = room := rfl
      have len := f.readCall_len (.empty room) (by rw [capacity]; omega)
      rw [capacity] at len
      have wide := Client.File.maxReadLen_pos negotiated
      have asks : (f.readCall (.empty room)).len ≠ 0 := by
        intro zero
        rw [zero, UInt32.toNat_zero] at len
        omega
      refine leaves_beside stores holds (fun present => (closesOther present).2) ?_
      intro now' p delay' holds files shape later
      have there : now'.files path = some content := by
        rw [files]
        exact there
      have held : now'.handles f.handle = some (.file path mode) := by
        rcases shape with ⟨rfl, -⟩ | ⟨rfl, -, present⟩
        · exact held
        · rw [FileStore.close_handles_other (closesOther present).1.symm]
          exact held
      have still : ClosesOther now' f.handle other (delay'.map Nat.pred) := by
        intro present
        rcases shape with ⟨rfl, rfl⟩ | ⟨rfl, rfl, -⟩
        · exact closesOther (by rintro rfl; exact present rfl)
        · exact absurd rfl present
      obtain ⟨after, gives⟩ := holds.reads stores held readable there asks
        (f.readCall_unlimited (.empty room))
      rw [round, leaves_call later]
      by_cases before : f.pos.toNat < content.length
      · obtain ⟨data, result, nonempty, short, rest, front⟩ := (if_pos before).mp gives
        have result : (p.serve handler (.request (f.readRequest (.empty room)))).1 =
            (.ok ⟨p.nextReqId, data⟩ : SftpResult Data) := result
        have front : data ++ rest = content.drop f.pos.toNat := front
        have length := congrArg List.length front
        rw [List.length_append, List.length_drop] at length
        have taken : 0 < data.length := List.length_pos_iff.mpr nonempty
        have fitsRoom : data.length ≤ room := by omega
        have moved : (f.pos + UInt64.ofNat data.length).toNat = f.pos.toNat + data.length :=
          add_length (by omega)
        rw [List.length_cons] at enough
        have left := ih { f with pos := f.pos + UInt64.ofNat data.length } (vec ++ data) now' _
          (delay'.map Nat.pred) negotiated after held there still
          (fun room member => offered room (List.mem_cons_of_mem _ member))
          (by rw [moved]; omega)
        rw [moved, ← List.drop_drop, ← front, List.drop_left, List.append_assoc, front, files]
          at left
        rw [result, goesOn, afterRead_data (p := ⟨p.nextReqId, data⟩) nonempty fitsRoom]
        exact left
      · obtain ⟨status, result, eof⟩ := (if_neg before).mp gives
        have result : (p.serve handler (.request (f.readRequest (.empty room)))).1 =
            (.error (.status status) : SftpResult Data) := result
        rw [result, goesOn, afterRead_eof eof, List.drop_eq_nil_of_le (by omega), List.append_nil]
        exact leaves_done stores after still ⟨rfl, files⟩ ⟨rfl, files⟩

section
variable {extensions : Negotiated} {content : Bytes} {now : Storage} {most : Nat} {p : Peer σ}

theorem negotiated_new (h : String)
    (negotiated : extensions.limits = limits.map Limits.ofExtension) :
    (Client.File.new h extensions.forFile).extensions = .negotiated extensions.fsync limits := by
  rw [SessionExtensions.negotiated, ← negotiated]
  rfl

/-- A file that is opened and written. -/
theorem leaves_writeOpened (stores : handler.Stores store)
    (negotiated : extensions.limits = limits.map Limits.ofExtension)
    (holds : p.Holds store (extensions.limits.getD .default) now most) {flags : OpenFlags}
    (asks : flags.mode = some mode) (writable : mode.writes = true)
    (opened : FileStore.opened mode (now.files path) = some content)
    (fits : ∀ l, (extensions.limits.getD .default).openHandles = some l → most < l.toNat)
    {data : Bytes} (small : data.length < 2 ^ 64) {polls : Nat} (enough : data.length ≤ polls) :
    Leaves handler store (extensions.limits.getD .default) (most + 1)
      (SftpSession.writeOpened (SftpSession.openWithFlags extensions path flags) data polls) p
      fun result now' => ∃ h pos, result = (.done (.ok ()),
          some { Client.File.new h extensions.forFile with pos }) ∧
        now' = (now.setFile path (data ++ content.drop data.length)).hold h (.file path mode) := by
  obtain ⟨h, result, -, after⟩ := holds.opens stores asks opened fits
  have pair : p.serve handler (.request (.open path flags .empty)) =
      ((.ok ⟨p.nextReqId, h⟩ : SftpResult Handle),
        (p.serve handler (.request (.open path flags .empty))).2) := Prod.ext result rfl
  have called : (SftpSession.openWithFlags extensions path flags).run.run (Peer.serve handler) p =
      (.ok (Client.File.new h extensions.forFile),
        (p.serve handler (.request (.open path flags .empty))).2) := by
    rw [SftpSession.openWithFlags, SftpSession.openWithFlagsAndAttributes, Program.run_except_bind,
      run_request, pair]
    rfl
  obtain ⟨pos, done, left⟩ := run_writeAll stores writable polls
    (Client.File.new h extensions.forFile) data content _ (most + 1) _
    (negotiated_new h negotiated) after FileStore.hold_handles_same FileStore.setFile_files_same
    (by simpa [Client.File.new] using small) enough
  have whole : LocalFile.writeAt 0 content (Client.File.new h extensions.forFile).pos.toNat data =
      data ++ content.drop data.length := LocalFile.writeAt_front (0 : UInt8) [] content data
  have ran : (SftpSession.writeOpened (SftpSession.openWithFlags extensions path flags) data
      polls).run (Peer.serve handler) p = ((.done (.ok ()),
        some { Client.File.new h extensions.forFile with pos }),
        ((writeAll polls (Client.File.new h extensions.forFile) data).run (Peer.serve handler)
          (p.serve handler (.request (.open path flags .empty))).2).2) := by
    rw [SftpSession.writeOpened, Program.run_bind, called]
    dsimp only
    rw [Program.run_bind, done]
    rfl
  rw [whole, FileStore.setFile_hold, FileStore.setFile_setFile] at left
  rw [Leaves, ran]
  exact ⟨_, left, h, pos, rfl, rfl⟩

theorem read_call (extensions : Negotiated) (path : String) (rooms : List Nat) :
    ∃ next, SftpSession.read extensions path rooms =
        .call (.request (.open path .read .empty)) next ∧
      ∀ reply : Handle, next (.ok reply : SftpResult Handle) =
        (readToEnd rooms (Client.File.new reply.handle extensions.forFile) [] >>= fun polled =>
          .done (polled.1.awaited, some polled.2)) :=
  ⟨_, rfl, fun _ => rfl⟩

/-- A file that is read from its start, while another handle may be closed. -/
theorem leaves_read (stores : handler.Stores store)
    (negotiated : extensions.limits = limits.map Limits.ofExtension)
    (holds : p.Holds store (extensions.limits.getD .default) now most)
    (there : now.files path = some content)
    (fits : ∀ l, (extensions.limits.getD .default).openHandles = some l → most < l.toNat)
    {other : String} {delay : Option Nat}
    (otherHeld : delay ≠ none → ∃ held, now.handles other = some held)
    (small : content.length < 2 ^ 64) {rooms : List Nat}
    (offered : ∀ room ∈ rooms, 0 < room ∧ room < 2 ^ 32) (enough : content.length < rooms.length) :
    Leaves handler store (extensions.limits.getD .default) (most + 1)
      ((SftpSession.read extensions path rooms).beside (.request (.close other)) delay) p
      fun result now' => result.1 = .done (.ok content) ∧ now'.files = now.files := by
  obtain ⟨next, round, goesOn⟩ := read_call extensions path rooms
  refine leaves_beside stores holds otherHeld ?_
  intro now' p delay' holds files shape later
  have there : now'.files path = some content := by
    rw [files]
    exact there
  have opened : FileStore.opened ⟨true, false, false, false, false⟩ (now'.files path) =
      some content := by
    rw [there]
    rfl
  obtain ⟨h, result, fresh, after⟩ := holds.opens stores OpenFlags.mode_read opened fits
  rw [FileStore.setFile_same there] at after
  -- the new handle is not the one that the other task is still to close
  have closesOther : ClosesOther (now'.hold h (.file path ⟨true, false, false, false, false⟩)) h
      other (delay'.map Nat.pred) := by
    intro present
    rcases shape with ⟨rfl, rfl⟩ | ⟨rfl, rfl, -⟩
    · obtain ⟨held, isHeld⟩ := otherHeld (by rintro rfl; exact present rfl)
      have different : other ≠ h := by
        rintro rfl
        rw [fresh] at isHeld
        cases isHeld
      exact ⟨different, held, by rw [FileStore.hold_handles_other different, isHeld]⟩
    · exact absurd rfl present
  obtain ⟨now'', left, value, kept⟩ := run_readToEnd stores rfl rooms
    (Client.File.new h extensions.forFile) [] content _ (most + 1) _ (delay'.map Nat.pred)
    (negotiated_new h negotiated) after FileStore.hold_handles_same there closesOther small offered
    enough
  rw [round, leaves_call later, result, goesOn]
  exact leaves_map ⟨now'', left, by rw [value]; rfl, kept.trans files⟩

end

/-! ## A file that is written and read back -/

/-- A caller writes a file, drops it, and reads it again; after so many of the calls of `read`, the
task of the drop makes its own. -/
def writeAndRead (extensions : Negotiated) (path : String) (flags : OpenFlags) (data : Bytes)
    (polls : Nat) (rooms : List Nat) (delay : Option Nat) :
    Calls (Awaited Unit × Awaited Bytes) := do
  let wrote ← SftpSession.writeOpened (SftpSession.openWithFlags extensions path flags) data polls
  let read ← afterDrop wrote.2 delay (SftpSession.read extensions path rooms)
  return (wrote.1, read.1)

/-- Over the wire, a file that is opened by any flags but `APPEND`, written and dropped is read
back: its content is the data and what the file has had behind it, whatever parts the server sends,
and whenever the handle of the dropped file is closed. -/
theorem written_is_read (stores : handler.Stores store) (extensions : Negotiated)
    (limits : Option LimitsExtension)
    (negotiated : extensions.limits = limits.map Limits.ofExtension) (path : String)
    (flags : OpenFlags) (asks : flags.mode = some mode) (writable : mode.writes = true)
    (data content : Bytes) (polls : Nat) (rooms : List Nat) (delay : Option Nat) (w : Wire σ)
    (idle : w.Idle) (initialised : w.client.version ≠ none)
    (agreed : w.client.limits = extensions.limits.getD .default)
    (opened : FileStore.opened mode ((store w.server).files path) = some content)
    (fits : ∀ l, w.client.limits.openHandles = some l → w.client.handles.toNat + 1 < l.toNat)
    (small : data.length < 2 ^ 64) (smallContent : content.length < 2 ^ 64)
    (enough : data.length ≤ polls) (offered : ∀ room ∈ rooms, 0 < room ∧ room < 2 ^ 32)
    (enoughRooms : data.length < rooms.length ∧ content.length < rooms.length)
    (frames : (writeAndRead extensions path flags data polls rooms delay).Meets
      (SessionCall.Fits handler) (Peer.serve handler) w.peer) :
    ∃ w', (writeAndRead extensions path flags data polls rooms delay).attempt (Wire.serve handler)
        w = some ((.done (.ok ()), .done (.ok (data ++ content.drop data.length))), w') ∧
      w'.Idle ∧ (store w'.server).files = Function.update (store w.server).files path
        (some (data ++ content.drop data.length)) := by
  have holds : w.peer.Holds store (extensions.limits.getD .default) (store w.server)
      w.client.handles.toNat := ⟨initialised, agreed, rfl, Nat.le_refl _⟩
  rw [agreed] at fits
  have length : (data ++ content.drop data.length).length = max data.length content.length := by
    rw [List.length_append, List.length_drop]
    omega
  have all : Leaves handler store (extensions.limits.getD .default) (w.client.handles.toNat + 2)
      (writeAndRead extensions path flags data polls rooms delay) w.peer fun result now' =>
        result = (.done (.ok ()), .done (.ok (data ++ content.drop data.length))) ∧
          now'.files = Function.update (store w.server).files path
            (some (data ++ content.drop data.length)) := by
    refine leaves_bind (leaves_writeOpened stores negotiated holds asks writable opened
      (fun l isLimit => Nat.lt_of_succ_lt (fits l isLimit)) small enough) ?_
    rintro wrote now p holds ⟨h, pos, rfl, rfl⟩
    refine leaves_bind (leaves_read stores negotiated holds FileStore.setFile_files_same fits
      (fun _ => ⟨_, FileStore.hold_handles_same⟩) (by omega) offered (by omega)) ?_
    rintro read now' p' holds ⟨done, files⟩
    exact ⟨now', holds, congrArg (Prod.mk (Awaited.done (.ok ()))) done, files⟩
  obtain ⟨now', after, result, files⟩ := all
  obtain ⟨w', ran, idle', peer⟩ := program_over_wire handler _ w idle frames
  refine ⟨w', by rw [ran, result], idle', ?_⟩
  have served : w'.server = w'.peer.server := rfl
  rw [served, peer, after.store, files]

/-! ## A folder that is read -/

/-- An entry as `read_dir` keeps it. -/
def entryOf (file : RusshSftp.File) : String × FileAttributes :=
  (file.filename, file.attrs.normalise)

theorem batchEntries_eq (id : UInt32) (batch : List RusshSftp.File) :
    Client.SftpSession.batchEntries ⟨id, batch.map File.normalise⟩ = batch.map entryOf := by
  rw [Client.SftpSession.batchEntries, List.map_map]
  rfl

/-- READDIRs of a handle: each answer gives names, and then one an error. -/
def readdirs (h : String) (names : List Name) (err : ε) : Server.Handler.Transcript ε :=
  names.map (fun name => ⟨.readdir h, .ok name⟩) ++ [⟨.readdir h, .error err⟩]

/-- What a folder is asked for: it is opened, read to its end and closed. -/
def listing (path : String) (handle : Handle) (names : List Name) (err : ε) (status : Status) :
    Server.Handler.Transcript ε :=
  ⟨.opendir path, .ok handle⟩ :: readdirs handle.handle names err ++
    [⟨.close handle.handle, .ok status⟩]

/-- The loop takes batch after batch of what the handle still holds, and puts each in front. -/
theorem run_readDirLoop (stores : handler.Stores store) {h : String} {limits : Limits} {most : Nat}
    (rounds : Nat) (rest : List RusshSftp.File) (files : List (String × FileAttributes))
    (now : Storage) (p : Peer (σ × Server.Handler.Transcript ε))
    (holds : p.Holds (fun s => store s.1) limits now most)
    (held : now.handles h = some (.folder rest)) (enough : rest.length < rounds) :
    ∃ names err p', (SftpSession.readDirLoop h rounds files).run
        (Peer.serve handler.transcribing) p =
          (.done (.ok ((names.reverse.flatMap Name.files).map entryOf ++ files)), p') ∧
      p'.Holds (fun s => store s.1) limits (now.hold h (.folder [])) most ∧
      p'.server.2 = p.server.2 ++ readdirs h names err ∧ handler.into err = .eof ∧
      names.flatMap Name.files = rest := by
  have observed : handler.transcribing.Stores fun s => store s.1 := stores.observed _
  induction rounds generalizing rest files now p with
  | zero => exact absurd enough (Nat.not_lt_zero _)
  | succ rounds ih =>
      cases rest with
      | nil =>
          obtain ⟨err, status, answered, ends, result, eof, after⟩ := holds.listed observed held
          have ran : (SftpSession.readDirLoop h (rounds + 1) files).run
              (Peer.serve handler.transcribing) p =
                (.done (.ok files), (p.serve handler.transcribing (.request (.readdir h))).2) := by
            rw [SftpSession.readDirLoop, Program.run_bind, run_request, result]
            dsimp only
            rw [if_pos eof]
            rfl
          have same : now.hold h (.folder []) = now := by
            rw [FileStore.hold, ← held, Function.update_eq_self]
          rw [same]
          have noted := Peer.serve_transcribing (.readdir h) rfl answered
          exact ⟨[], err, _, ran, after, noted, ends, rfl⟩
      | cons entry entries =>
          obtain ⟨batch, left, nonempty, split, answered, result, after⟩ :=
            holds.lists observed held (List.cons_ne_nil entry entries)
          have ran : (SftpSession.readDirLoop h (rounds + 1) files).run
              (Peer.serve handler.transcribing) p =
                (SftpSession.readDirLoop h rounds (batch.map entryOf ++ files)).run
                  (Peer.serve handler.transcribing)
                  (p.serve handler.transcribing (.request (.readdir h))).2 := by
            rw [SftpSession.readDirLoop, Program.run_bind, run_request, result]
            dsimp only
            rw [batchEntries_eq]
          have taken : 0 < batch.length := List.length_pos_iff.mpr nonempty
          have length := congrArg List.length split
          rw [List.length_append] at length
          obtain ⟨names, err, p', value, final, transcript, ends, whole⟩ := ih left
            (batch.map entryOf ++ files) _ _ after FileStore.hold_handles_same (by omega)
          refine ⟨⟨p.nextReqId, batch⟩ :: names, err, p', ?_, ?_, ?_, ends, ?_⟩
          · rw [ran, value]
            simp
          · rw [FileStore.hold_hold] at final
            exact final
          · rw [transcript, Peer.serve_transcribing (.readdir h) rfl answered, List.append_assoc]
            rfl
          · rw [List.flatMap_cons, whole, split]

/-- Over the wire, `read_dir` opens a folder, reads it until the server answers with `Eof`, and
closes the handle again, with no other request.  It gives each entry once: the batches in the
reverse of the order in which they have come, and each batch in the server's order. -/
theorem folder_is_listed (stores : handler.Stores store) (path : String)
    (entries : List RusshSftp.File) (rounds : Nat)
    (w : Wire (σ × Server.Handler.Transcript ε)) (idle : w.Idle)
    (initialised : w.client.version ≠ none)
    (there : (store w.server.1).folders path = some entries)
    (fits : ∀ l, w.client.limits.openHandles = some l → w.client.handles.toNat < l.toNat)
    (enough : entries.length < rounds)
    (frames : (SftpSession.readDir path rounds).Meets (SessionCall.Fits handler.transcribing)
      (Peer.serve handler.transcribing) w.peer) :
    ∃ w' handle names err status,
      (SftpSession.readDir path rounds).attempt (Wire.serve handler.transcribing) w =
        some (.done (.ok ⟨(names.reverse.flatMap Name.files).map entryOf⟩), w') ∧
      w'.server.2 = w.server.2 ++ listing path handle names err status ∧
      handler.into err = .eof ∧ names.flatMap Name.files = entries ∧
      w'.Idle ∧ store w'.server.1 = store w.server.1 := by
  have observed : handler.transcribing.Stores fun s => store s.1 := stores.observed _
  have holds : w.peer.Holds (fun s => store s.1) w.client.limits (store w.server.1)
      w.client.handles.toNat := ⟨initialised, rfl, rfl, Nat.le_refl _⟩
  obtain ⟨h, named, result, fresh, opened⟩ := holds.opensFolder observed there fits
  obtain ⟨names, err, p, value, looped, listed, ends, whole⟩ := run_readDirLoop stores rounds
    entries [] _ _ opened FileStore.hold_handles_same enough
  rw [FileStore.hold_hold] at looped
  obtain ⟨status, s, answered, -⟩ := observed.closes p.nextReqId h (.folder []) p.server
    (by rw [looped.store]; exact FileStore.hold_handles_same)
  obtain ⟨reply, closed, after⟩ := looped.closes observed FileStore.hold_handles_same
  rw [FileStore.close_hold fresh] at after
  have ran : (SftpSession.readDir path rounds).run (Peer.serve handler.transcribing) w.peer =
      (.done (.ok ⟨(names.reverse.flatMap Name.files).map entryOf⟩),
        (p.serve handler.transcribing (.request (.close h))).2) := by
    rw [SftpSession.readDir, Program.run_bind, run_request, result]
    dsimp only
    rw [Program.run_bind, value]
    dsimp only
    rw [Program.run_bind, run_request, closed, List.append_nil]
    rfl
  obtain ⟨w', attempted, idle', peer⟩ := program_over_wire handler.transcribing _ w idle frames
  rw [ran] at attempted peer
  have server : w'.server = _ := congrArg Peer.server peer
  refine ⟨w', ⟨w.peer.nextReqId, h⟩, names, err, status, attempted, ?_, ends, whole, idle', ?_⟩
  · rw [server, Peer.serve_transcribing (.close h) rfl (congrArg Prod.fst answered), listed,
      Peer.serve_transcribing (.opendir path) (holds.room fits _) named, List.append_assoc,
      List.append_assoc]
    rfl
  · rw [server, after.store]

end Client.Async

/-! ## On a server in memory -/

/-- A server with one file and one folder, and a session that knows no limits. -/
def Memory.sample : Wire Memory where
  client := { State.new .default with version := some 3 }
  next := 0
  server :=
    { stored :=
        { files := fun path => if path = "f" then some [1, 2, 3] else none
          folders := fun path =>
            if path = "d" then some [⟨"a", "", .empty⟩, ⟨"b", "", .empty⟩] else none
          handles := fun _ => none }
      next := 0
      fresh := fun _ _ => rfl }

theorem Memory.sample_idle : Memory.sample.Idle := by
  constructor <;> intros <;> rfl

theorem Client.Async.written_is_read_short :
    ∃ w', (writeAndRead ⟨false, false, false, none⟩ "f" .write [9] 1 [2, 2, 2, 2] (some 1)).attempt
        (Wire.serve Memory.handler) Memory.sample =
          some ((.done (.ok ()), .done (.ok [9, 2, 3])), w') ∧
      w'.Idle ∧ w'.server.stored.files =
        Function.update Memory.sample.server.stored.files "f" (some [9, 2, 3]) :=
  written_is_read Memory.stores ⟨false, false, false, none⟩ none rfl "f" .write rfl rfl [9]
    [1, 2, 3] 1 [2, 2, 2, 2] (some 1) Memory.sample Memory.sample_idle (by decide) rfl rfl
    (by rintro l ⟨⟩) (by decide) (by decide) (by decide) (by decide) (by decide)
    (by decide +kernel)

/-- The same, with a transcript. -/
def Memory.transcribed : Wire (Memory × Server.Handler.Transcript StatusCode) where
  client := Memory.sample.client
  next := Memory.sample.next
  server := (Memory.sample.server, [])

theorem Memory.transcribed_idle : Memory.transcribed.Idle := by
  constructor <;> intros <;> rfl

theorem Client.Async.folder_is_listed_two :
    ∃ w' handle names err status,
      (SftpSession.readDir "d" 3).attempt (Wire.serve Memory.handler.transcribing)
          Memory.transcribed =
        some (.done (.ok ⟨(names.reverse.flatMap Name.files).map entryOf⟩), w') ∧
      w'.server.2 = [] ++ listing "d" handle names err status ∧
      Memory.handler.into err = .eof ∧
      names.flatMap Name.files =
        [RusshSftp.File.mk "a" "" .empty, RusshSftp.File.mk "b" "" .empty] ∧
      w'.Idle ∧ w'.server.1.stored = Memory.sample.server.stored :=
  folder_is_listed Memory.stores "d" [⟨"a", "", .empty⟩, ⟨"b", "", .empty⟩] 3 Memory.transcribed
    Memory.transcribed_idle (by decide) rfl (by rintro l ⟨⟩) (by decide) (by decide +kernel)

example : ((Async.SftpSession.readDir "d" 3).run (Peer.serve Memory.handler) Memory.sample.peer).1 =
    Awaited.done (.ok ⟨[("b", .empty), ("a", .empty)]⟩) := rfl

end RusshSftp
