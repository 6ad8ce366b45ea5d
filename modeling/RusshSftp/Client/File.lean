import RusshSftp.Client.Operations

/-!
# An open file

The handle of a file with its cursor, and the futures that `poll_read` and its siblings
leave in it.  A future makes one call of the session.  What the session does when such a
call is polled is a `Turn`; a poll gives its value, the file afterwards and the requests
that it has sent.
-/

set_option autoImplicit false

namespace RusshSftp.Client

/-- The extensions that the session has found on the server, as far as a file reads them. -/
structure SessionExtensions where
  fsync : Bool
  limits : Option Limits
deriving DecidableEq, Repr

/-- What `new_opts` takes from the server's extensions; `limits` is the reply to
`limits@openssh.com`, if the server has that extension. -/
def SessionExtensions.negotiated (fsync : Bool) (limits : Option LimitsExtension) :
    SessionExtensions where
  fsync := fsync
  limits := limits.map Limits.ofExtension

/-- The raw session has the limits of the extensions (`new_opts`). -/
def SessionExtensions.sessionLimits (extensions : SessionExtensions) : Limits :=
  extensions.limits.getD Limits.default

/-! ## The standard library's types -/

/-- `Poll<io::Result<T>>`.  An `io::Error` is its text; a poll may panic instead. -/
inductive Poll (α : Type) where
  | pending
  | ready (result : Except String α)
  | panicked
deriving DecidableEq

inductive SeekFrom where
  | start (pos : UInt64)
  | «end» (pos : Int64)
  | current (pos : Int64)
deriving DecidableEq, Repr

/-- The part of a `ReadBuf` that is filled, within its capacity. -/
structure ReadBuf where
  filled : Bytes
  capacity : Nat
  within : filled.length ≤ capacity
deriving DecidableEq

namespace ReadBuf

def empty (capacity : Nat) : ReadBuf := ⟨[], capacity, Nat.zero_le _⟩

def remaining (buf : ReadBuf) : Nat := buf.capacity - buf.filled.length

/-- `None` where `put_slice` panics. -/
def putSlice (buf : ReadBuf) (data : Bytes) : Option ReadBuf :=
  if fits : data.length ≤ buf.remaining then
    some ⟨buf.filled ++ data, buf.capacity, by
      have within := buf.within
      rw [remaining] at fits
      rw [List.length_append]
      omega⟩
  else none

end ReadBuf

/-! ## Calls of the session -/

/-- What the session does when a call of it is polled. -/
inductive Turn where
  /-- The session is closed, or the request cannot be encoded: nothing is sent. -/
  | refused (err : Error)
  | pending
  | ready (result : SftpResult Packet)
deriving DecidableEq

/-- A poll of a call of the session.  A new call checks its limit and sends its request.
There is no result while the reply is awaited.  No call of a file asks for the counter of
handles. -/
def callSession (limits : Limits) (request : Request) (new : Bool) (turn : Turn) :
    Option (SftpResult request.Reply) × List Request :=
  match if new then request.operation.limited limits 0 else none with
  | some err => (some (.error err), [])
  | none =>
      match turn with
      | .refused err => (some (.error err), [])
      | .pending => (none, if new then [request] else [])
      | .ready result => (some (request.returned result), if new then [request] else [])

def FSYNC : String := "fsync@openssh.com"

/-- `FsyncExtension { handle }.try_into()`. -/
def fsyncExtension (handle : String) : Except RusshSftp.Error Bytes :=
  Packet.serToBytes (serializeStruct [serializeStr handle])

/-- `RawSftpSession::fsync`. -/
def callFsync (limits : Limits) (handle : String) (new : Bool) (turn : Turn) :
    Option (SftpResult Status) × List Request :=
  match fsyncExtension handle with
  | .error err => (some (.error (Error.ofError err)), [])
  | .ok data =>
      let (result, sent) := callSession limits (.extended FSYNC data) new turn
      (result.map fun result => result.bind intoStatus, sent)

/-! ## The file -/

def maxReadLength : UInt64 := 261120
def maxWriteLength : UInt64 := 261120

/-- What the future of a read has captured. -/
structure ReadCall where
  offset : UInt64
  len : UInt32
deriving DecidableEq, Repr

/-- What the future of a write has captured; `data` is what it sends. -/
structure WriteCall where
  offset : UInt64
  data : Bytes
deriving DecidableEq, Repr

/-- The future of a seek is not polled when it is made, and stays after an error. -/
inductive SeekFuture where
  | unpolled (position : SeekFrom) (curPos : Int64)
  /-- Awaits the size of the file. -/
  | fstat (pos : Int64)
  | completed
deriving DecidableEq, Repr

structure FileState where
  fRead : Option ReadCall
  fSeek : Option SeekFuture
  fWrite : Option WriteCall
  fFlush : Option Unit
  fShutdown : Option Unit
deriving DecidableEq, Repr

structure File where
  handle : String
  state : FileState
  pos : UInt64
  closed : Bool
  extensions : SessionExtensions
deriving DecidableEq, Repr

/-- A poll's value, the file after the poll, and the requests that it has sent. -/
structure Polled (α : Type) where
  poll : Poll α
  file : File
  sent : List Request
deriving DecidableEq

/-- `map_err(|e| io::Error::new(io::ErrorKind::Other, e.to_string()))`. -/
def ioResult {α : Type} (result : SftpResult α) : Except String α :=
  result.mapError Error.display

namespace File

def new (handle : String) (extensions : SessionExtensions) : File where
  handle := handle
  state := ⟨none, none, none, none, none⟩
  pos := 0
  closed := false
  extensions := extensions

def limits (f : File) : Limits := f.extensions.sessionLimits

/-! ### `AsyncRead` -/

def maxReadLen (f : File) : Nat :=
  ((f.extensions.limits.bind Limits.readLen).getD maxReadLength).toNat

/-- `len as u32`: the length is taken modulo `2 ^ 32`. -/
def readCall (f : File) (buf : ReadBuf) : ReadCall where
  offset := f.pos
  len := UInt32.ofNat
    (if buf.remaining > f.maxReadLen then f.maxReadLen else buf.remaining)

/-- The output of the read's future. -/
def readOutput (result : SftpResult Data) : Except String (Option Bytes) :=
  match result with
  | .ok data => .ok (some data.data)
  | .error (.status status) =>
      if status.statusCode = .eof then .ok none
      else .error (Error.status status).display
  | .error e => .error e.display

def pollRead (f : File) (buf : ReadBuf) (turn : Turn) : Polled Unit × ReadBuf :=
  let call := f.state.fRead.getD (f.readCall buf)
  let (result, sent) :=
    callSession f.limits (.read f.handle call.offset call.len) f.state.fRead.isNone turn
  match result with
  | none => (⟨.pending, { f with state.fRead := some call }, sent⟩, buf)
  | some result =>
      let f := { f with state.fRead := none }
      match readOutput result with
      | .error e => (⟨.ready (.error e), f, sent⟩, buf)
      | .ok none => (⟨.ready (.ok ()), f, sent⟩, buf)
      | .ok (some data) =>
          let f := { f with pos := f.pos + UInt64.ofNat data.length }
          match buf.putSlice data with
          | some buf => (⟨.ready (.ok ()), f, sent⟩, buf)
          | none => (⟨.panicked, f, sent⟩, buf)

/-! ### `AsyncSeek` -/

def startSeek (f : File) (position : SeekFrom) : Except String Unit × File :=
  match f.state.fSeek with
  | some _ =>
      (.error "other file operation is pending, call poll_complete before start_seek", f)
  | none => (.ok (), { f with state.fSeek := some (.unpolled position f.pos.toInt64) })

def seekTo (newPos : Int64) : Except String UInt64 :=
  if newPos < 0 then .error "cannot move file pointer before the beginning"
  else .ok newPos.toUInt64

/-- The rest of a seek from the end, after the reply to `fstat`. -/
def seekFromEnd (pos : Int64) (result : SftpResult Attrs) : Except String UInt64 :=
  match result with
  | .error e => .error e.display
  | .ok attrs =>
      match attrs.attrs.size with
      | some size => seekTo (size.toInt64 + pos)
      | none => .error "file size unknown"

/-- A poll of the seek's future where it asks for the size of the file. -/
def pollFstat (f : File) (pos : Int64) (new : Bool) (turn : Turn) :
    Poll UInt64 × SeekFuture × List Request :=
  match callSession f.limits (.fstat f.handle) new turn with
  | (none, sent) => (.pending, .fstat pos, sent)
  | (some result, sent) => (.ready (seekFromEnd pos result), .completed, sent)

/-- A poll of the seek's future.  Sums of `i64` wrap, as they do without overflow checks. -/
def pollSeek (f : File) (future : SeekFuture) (turn : Turn) :
    Poll UInt64 × SeekFuture × List Request :=
  match future with
  | .unpolled (.start pos) _ => (.ready (seekTo pos.toInt64), .completed, [])
  | .unpolled (.current pos) curPos => (.ready (seekTo (curPos + pos)), .completed, [])
  | .unpolled (.end pos) _ => f.pollFstat pos true turn
  | .fstat pos => f.pollFstat pos false turn
  | .completed => (.panicked, .completed, [])

def pollComplete (f : File) (turn : Turn) : Polled UInt64 :=
  match f.state.fSeek with
  | none => ⟨.ready (.ok f.pos), f, []⟩
  | some future =>
      match f.pollSeek future turn with
      | (.pending, future, sent) => ⟨.pending, { f with state.fSeek := some future }, sent⟩
      | (.panicked, future, sent) => ⟨.panicked, { f with state.fSeek := some future }, sent⟩
      | (.ready (.error e), future, sent) =>
          ⟨.ready (.error e), { f with state.fSeek := some future }, sent⟩
      | (.ready (.ok pos), _, sent) =>
          ⟨.ready (.ok pos), { f with pos, state.fSeek := none }, sent⟩

/-! ### `AsyncWrite` -/

def maxWriteLen (f : File) : Nat :=
  ((f.extensions.limits.bind Limits.writeLen).getD maxWriteLength).toNat

def writeCall (f : File) (buf : Bytes) : WriteCall where
  offset := f.pos
  data := buf.take (if buf.length > f.maxWriteLen then f.maxWriteLen else buf.length)

/-- The output of the write's future. -/
def writeOutput (call : WriteCall) (result : SftpResult Status) : Except String Nat :=
  (ioResult result).map fun _ => call.data.length

def pollWrite (f : File) (buf : Bytes) (turn : Turn) : Polled Nat :=
  let call := f.state.fWrite.getD (f.writeCall buf)
  let (result, sent) :=
    callSession f.limits (.write f.handle call.offset call.data) f.state.fWrite.isNone turn
  match result with
  | none => ⟨.pending, { f with state.fWrite := some call }, sent⟩
  | some result =>
      let f := { f with state.fWrite := none }
      match writeOutput call result with
      | .error e => ⟨.ready (.error e), f, sent⟩
      | .ok len => ⟨.ready (.ok len), { f with pos := f.pos + UInt64.ofNat len }, sent⟩

def pollFlush (f : File) (turn : Turn) : Polled Unit :=
  if f.extensions.fsync then
    match callFsync f.limits f.handle f.state.fFlush.isNone turn with
    | (none, sent) => ⟨.pending, { f with state.fFlush := some () }, sent⟩
    | (some result, sent) =>
        ⟨.ready (ioResult (result.map fun _ => ())), { f with state.fFlush := none }, sent⟩
  else ⟨.ready (.ok ()), f, []⟩

def pollShutdown (f : File) (turn : Turn) : Polled Unit :=
  match callSession f.limits (.close f.handle) f.state.fShutdown.isNone turn with
  | (none, sent) => ⟨.pending, { f with state.fShutdown := some () }, sent⟩
  | (some result, sent) =>
      ⟨.ready (ioResult (result.map fun _ => ())),
        { f with state.fShutdown := none, closed := true }, sent⟩

/-! ### The methods that borrow the file -/

/-- A poll of the future of `metadata`. -/
def metadata (f : File) (new : Bool) (turn : Turn) :
    Option (SftpResult FileAttributes) × List Request :=
  let (result, sent) := callSession f.limits (.fstat f.handle) new turn
  (result.map fun result => result.map Attrs.attrs, sent)

def setMetadata (f : File) (metadata : FileAttributes) (new : Bool) (turn : Turn) :
    Option (SftpResult Unit) × List Request :=
  let (result, sent) := callSession f.limits (.fsetstat f.handle metadata) new turn
  (result.map fun result => result.map fun _ => (), sent)

def syncAll (f : File) (new : Bool) (turn : Turn) : Option (SftpResult Unit) × List Request :=
  if f.extensions.fsync then
    let (result, sent) := callFsync f.limits f.handle new turn
    (result.map fun result => result.map fun _ => (), sent)
  else (some (.ok ()), [])

end File

/-! ## What a poll sends -/

def Turn.refuses : Turn → Bool
  | .refused _ => true
  | _ => false

/-- What the call has come to, if it is over. -/
def Turn.answer : Turn → Option (SftpResult Packet)
  | .refused err => some (.error err)
  | .pending => none
  | .ready result => some result

/-- A call within its limit, whether new or awaited, goes on as the session lets it. -/
theorem callSession_eq {limits : Limits} {request : Request}
    (unlimited : request.operation.limited limits 0 = none) (new : Bool) (turn : Turn) :
    callSession limits request new turn =
      (turn.answer.map request.returned, if new && !turn.refuses then [request] else []) := by
  cases new with
  | false => cases turn <;> rfl
  | true =>
      unfold callSession
      rw [if_pos rfl, unlimited]
      cases turn <;> rfl

theorem callSession_sent {limits : Limits} {request : Request}
    (unlimited : request.operation.limited limits 0 = none) (new : Bool) (turn : Turn) :
    (callSession limits request new turn).2 =
      if new && !turn.refuses then [request] else [] := by
  rw [callSession_eq unlimited]

theorem fsyncExtension_eq (handle : String) :
    fsyncExtension handle = .ok (lengthPrefixed (Utf8.utf8Bytes handle)) := by
  have written := appends_serializeStruct_cons (appends_serializeStr handle)
    appends_serializeStruct_nil
  rw [List.append_nil] at written
  rw [fsyncExtension, Packet.serToBytes, written []]
  rfl

/-- The request of `fsync`. -/
def fsyncRequest (handle : String) : Request :=
  .extended FSYNC (lengthPrefixed (Utf8.utf8Bytes handle))

theorem callFsync_sent (limits : Limits) (handle : String) (new : Bool) (turn : Turn) :
    (callFsync limits handle new turn).2 =
      if new && !turn.refuses then [fsyncRequest handle] else [] := by
  have unlimited : (fsyncRequest handle).operation.limited limits 0 = none := rfl
  rw [callFsync, fsyncExtension_eq]
  exact callSession_sent unlimited new turn

theorem exceeds_eq_none {limit : Option UInt64} {message : String} {reached : UInt64 → Bool}
    (within : ∀ l, limit = some l → reached l = false) : exceeds limit message reached = none := by
  cases limit with
  | none => rfl
  | some l => rw [exceeds, Option.any_some, within l rfl]; rfl

/-- A cursor that stays below `2 ^ 64` does not wrap. -/
theorem add_length {pos : UInt64} {n : Nat} (small : pos.toNat + n < 2 ^ 64) :
    (pos + UInt64.ofNat n).toNat = pos.toNat + n := by
  rw [UInt64.toNat_add, UInt64.toNat_ofNat', Nat.mod_eq_of_lt (show n < 2 ^ 64 by omega),
    Nat.mod_eq_of_lt small]

namespace File

/-- A limit of the session is the one that the file goes by. -/
theorem limits_some {f : File} {limit : Limits → Option UInt64} {l default : UInt64}
    (isLimit : limit f.limits = some l) (unset : limit Limits.default = none) :
    ((f.extensions.limits.bind limit).getD default) = l := by
  rw [limits, SessionExtensions.sessionLimits] at isLimit
  cases given : f.extensions.limits with
  | none =>
      rw [given, Option.getD_none, unset] at isLimit
      cases isLimit
  | some limits =>
      rw [given, Option.getD_some] at isLimit
      rw [Option.bind_some, isLimit, Option.getD_some]

/-- A negotiated limit is what the server has sent, and not zero, or else the default. -/
theorem negotiated_limit {f : File} {fsync : Bool} {limits : Option LimitsExtension}
    (negotiated : f.extensions = .negotiated fsync limits) (limit : Limits → Option UInt64)
    (advertised : LimitsExtension → UInt64)
    (same : ∀ l, limit (.ofExtension l) = if advertised l > 0 then some (advertised l) else none)
    (default : UInt64) :
    (f.extensions.limits.bind limit).getD default = default ∨
      ∃ l, limits = some l ∧ 0 < advertised l ∧
        (f.extensions.limits.bind limit).getD default = advertised l := by
  rw [negotiated, SessionExtensions.negotiated]
  cases limits with
  | none => exact .inl rfl
  | some l =>
      simp only [Option.map_some, Option.bind_some, same]
      by_cases positive : advertised l > 0
      · exact .inr ⟨l, rfl, positive, by rw [if_pos positive, Option.getD_some]⟩
      · exact .inl (by rw [if_neg positive, Option.getD_none])

section
variable {f : File} {fsync : Bool} {limits : Option LimitsExtension}

theorem maxReadLen_pos (negotiated : f.extensions = .negotiated fsync limits) :
    0 < f.maxReadLen := by
  rw [maxReadLen]
  rcases negotiated_limit negotiated Limits.readLen LimitsExtension.maxReadLen (fun _ => rfl)
    maxReadLength with same | ⟨l, _, positive, same⟩
  · rw [same]
    decide
  · rw [same]
    exact UInt64.lt_iff_toNat_lt.mp positive

theorem maxWriteLen_pos (negotiated : f.extensions = .negotiated fsync limits) :
    0 < f.maxWriteLen := by
  rw [maxWriteLen]
  rcases negotiated_limit negotiated Limits.writeLen LimitsExtension.maxWriteLen (fun _ => rfl)
    maxWriteLength with same | ⟨l, _, positive, same⟩
  · rw [same]
    decide
  · rw [same]
    exact UInt64.lt_iff_toNat_lt.mp positive

theorem maxReadLen_le (negotiated : f.extensions = .negotiated fsync limits) {bound : Nat}
    (default : maxReadLength.toNat ≤ bound)
    (most : ∀ l, limits = some l → l.maxReadLen.toNat ≤ bound) : f.maxReadLen ≤ bound := by
  rw [maxReadLen]
  rcases negotiated_limit negotiated Limits.readLen LimitsExtension.maxReadLen (fun _ => rfl)
    maxReadLength with same | ⟨l, given, _, same⟩
  · rw [same]
    exact default
  · rw [same]
    exact most l given

end

/-- `len as u32` loses nothing below `2 ^ 32`. -/
theorem readCall_len (f : File) (buf : ReadBuf) (small : min buf.remaining f.maxReadLen < 2 ^ 32) :
    (f.readCall buf).len.toNat = min buf.remaining f.maxReadLen := by
  rw [readCall, UInt32.toNat_ofNat']
  split <;> omega

/-- The length that `poll_read` asks for passes the check of `read`. -/
theorem readCall_unlimited (f : File) (buf : ReadBuf) :
    (Request.read f.handle (f.readCall buf).offset (f.readCall buf).len).operation.limited
      f.limits 0 = none := by
  refine exceeds_eq_none fun l isLimit => ?_
  have most : f.maxReadLen = l.toNat := by
    rw [maxReadLen, limits_some isLimit rfl]
  have bound : (f.readCall buf).len.toNat ≤ l.toNat := by
    rw [readCall, UInt32.toNat_ofNat', most]
    refine Nat.le_trans (Nat.mod_le _ _) ?_
    split <;> omega
  rw [decide_eq_false_iff_not, gt_iff_lt, UInt64.lt_iff_toNat_lt, UInt32.toNat_toUInt64]
  omega

/-- The length that `poll_write` sends passes the check of `write`. -/
theorem writeCall_unlimited (f : File) (buf : Bytes) :
    (Request.write f.handle (f.writeCall buf).offset (f.writeCall buf).data).operation.limited
      f.limits 0 = none := by
  refine exceeds_eq_none fun l isLimit => ?_
  have most : f.maxWriteLen = l.toNat := by
    rw [maxWriteLen, limits_some isLimit rfl]
  rw [decide_eq_false_iff_not, writeCall, List.length_take, most]
  split <;> omega

theorem writeCall_data (f : File) (buf : Bytes) :
    (f.writeCall buf).data = buf.take (min buf.length f.maxWriteLen) := by
  rw [writeCall]
  split
  · rw [Nat.min_eq_right (by omega)]
  · rw [Nat.min_eq_left (by omega)]

/-! ### A call that is made, and one that is awaited -/

/-- The end of `poll_read`, with the result of its call. -/
def finishRead (f : File) (buf : ReadBuf) (result : SftpResult Data) :
    Poll Unit × File × ReadBuf :=
  match readOutput result with
  | .error e => (.ready (.error e), f, buf)
  | .ok none => (.ready (.ok ()), f, buf)
  | .ok (some data) =>
      let f := { f with pos := f.pos + UInt64.ofNat data.length }
      match buf.putSlice data with
      | some buf => (.ready (.ok ()), f, buf)
      | none => (.panicked, f, buf)

/-- The end of `poll_write`, with the result of its call. -/
def finishWrite (f : File) (call : WriteCall) (result : SftpResult Status) : Poll Nat × File :=
  match writeOutput call result with
  | .error e => (.ready (.error e), f)
  | .ok len => (.ready (.ok len), { f with pos := f.pos + UInt64.ofNat len })

/-- The file after `poll_complete`, with the result of the seek's future. -/
def finishSeek (f : File) (result : Except String UInt64) : File :=
  match result with
  | .error _ => { f with state.fSeek := some .completed }
  | .ok pos => { f with pos, state.fSeek := none }

/-- The request of a new read. -/
def readRequest (f : File) (buf : ReadBuf) : Request :=
  .read f.handle (f.readCall buf).offset (f.readCall buf).len

def writeRequest (f : File) (buf : Bytes) : Request :=
  .write f.handle (f.writeCall buf).offset (f.writeCall buf).data

section
variable {f : File}

/-- A poll makes its call if there is none, and ends it once it is over. -/
theorem pollRead_eq (f : File) (buf : ReadBuf) (turn : Turn) :
    f.pollRead buf turn =
      let call := f.state.fRead.getD (f.readCall buf)
      let sent := if f.state.fRead.isNone && !turn.refuses then [f.readRequest buf] else []
      match turn.answer with
      | none => (⟨.pending, { f with state.fRead := some call }, sent⟩, buf)
      | some result =>
          let done := { f with state.fRead := none }.finishRead buf
            (result.bind (intoWithStatus data?))
          (⟨done.1, done.2.1, sent⟩, done.2.2) := by
  have called : callSession f.limits (.read f.handle (f.state.fRead.getD (f.readCall buf)).offset
      (f.state.fRead.getD (f.readCall buf)).len) f.state.fRead.isNone turn =
      (turn.answer.map fun result => result.bind (intoWithStatus data?),
        if f.state.fRead.isNone && !turn.refuses then [f.readRequest buf] else []) := by
    cases f.state.fRead with
    | none => exact callSession_eq (f.readCall_unlimited buf) true turn
    | some call => cases turn <;> rfl
  unfold pollRead finishRead
  simp only [called]
  cases turn.answer with
  | none => rfl
  | some result =>
      dsimp only [Option.map_some]
      cases readOutput (result.bind (intoWithStatus data?)) with
      | error e => rfl
      | ok data =>
          cases data with
          | none => rfl
          | some data =>
              dsimp only
              cases buf.putSlice data <;> rfl

theorem pollRead_new_pending (idle : f.state.fRead = none) (buf : ReadBuf) :
    f.pollRead buf .pending = (⟨.pending, { f with state.fRead := some (f.readCall buf) },
      [f.readRequest buf]⟩, buf) := by
  rw [pollRead_eq, idle]
  rfl

theorem pollRead_awaited_pending {call : ReadCall} (busy : f.state.fRead = some call)
    (buf : ReadBuf) : f.pollRead buf .pending = (⟨.pending, f, []⟩, buf) := by
  have same : { f with state.fRead := some call } = f := by rw [← busy]
  rw [pollRead_eq, busy]
  exact congrArg (fun f => ((⟨.pending, f, []⟩ : Polled Unit), buf)) same

/-- A poll that finds the reply ends the read; if it is the first, it has sent the request. -/
theorem pollRead_ready (f : File) (buf : ReadBuf) (result : SftpResult Packet) :
    f.pollRead buf (.ready result) =
      let done := { f with state.fRead := none }.finishRead buf
        (result.bind (intoWithStatus data?))
      (⟨done.1, done.2.1, if f.state.fRead.isNone then [f.readRequest buf] else []⟩,
        done.2.2) := by
  rw [pollRead_eq]
  cases f.state.fRead <;> rfl

theorem pollWrite_eq (f : File) (buf : Bytes) (turn : Turn) :
    f.pollWrite buf turn =
      let call := f.state.fWrite.getD (f.writeCall buf)
      let sent := if f.state.fWrite.isNone && !turn.refuses then [f.writeRequest buf] else []
      match turn.answer with
      | none => ⟨.pending, { f with state.fWrite := some call }, sent⟩
      | some result =>
          let done := { f with state.fWrite := none }.finishWrite call (result.bind intoStatus)
          ⟨done.1, done.2, sent⟩ := by
  have called : callSession f.limits
      (.write f.handle (f.state.fWrite.getD (f.writeCall buf)).offset
        (f.state.fWrite.getD (f.writeCall buf)).data) f.state.fWrite.isNone turn =
      (turn.answer.map fun result => result.bind intoStatus,
        if f.state.fWrite.isNone && !turn.refuses then [f.writeRequest buf] else []) := by
    cases f.state.fWrite with
    | none => exact callSession_eq (f.writeCall_unlimited buf) true turn
    | some call => cases turn <;> rfl
  unfold pollWrite finishWrite
  simp only [called]
  cases turn.answer with
  | none => rfl
  | some result =>
      dsimp only [Option.map_some]
      cases writeOutput (f.state.fWrite.getD (f.writeCall buf)) (result.bind intoStatus) with
      | error e => rfl
      | ok len => rfl

theorem pollWrite_new_pending (idle : f.state.fWrite = none) (buf : Bytes) :
    f.pollWrite buf .pending =
      ⟨.pending, { f with state.fWrite := some (f.writeCall buf) }, [f.writeRequest buf]⟩ := by
  rw [pollWrite_eq, idle]
  rfl

theorem pollWrite_awaited_pending {call : WriteCall} (busy : f.state.fWrite = some call)
    (buf : Bytes) : f.pollWrite buf .pending = ⟨.pending, f, []⟩ := by
  have same : { f with state.fWrite := some call } = f := by rw [← busy]
  rw [pollWrite_eq, busy]
  exact congrArg (fun f => (⟨.pending, f, []⟩ : Polled Nat)) same

theorem pollWrite_ready (f : File) (buf : Bytes) (result : SftpResult Packet) :
    f.pollWrite buf (.ready result) =
      let done := { f with state.fWrite := none }.finishWrite
        (f.state.fWrite.getD (f.writeCall buf)) (result.bind intoStatus)
      ⟨done.1, done.2, if f.state.fWrite.isNone then [f.writeRequest buf] else []⟩ := by
  rw [pollWrite_eq]
  cases f.state.fWrite <;> rfl

/-- A seek that asks nothing of the server is ready at once. -/
theorem pollComplete_start {pos : UInt64} {curPos : Int64}
    (unpolled : f.state.fSeek = some (.unpolled (.start pos) curPos)) (turn : Turn) :
    f.pollComplete turn =
      ⟨.ready (seekTo pos.toInt64), f.finishSeek (seekTo pos.toInt64), []⟩ := by
  rw [pollComplete, unpolled]
  simp only [pollSeek, finishSeek]
  cases seekTo pos.toInt64 with
  | error e => rfl
  | ok pos => rfl

theorem pollComplete_current {offset curPos : Int64}
    (unpolled : f.state.fSeek = some (.unpolled (.current offset) curPos)) (turn : Turn) :
    f.pollComplete turn =
      ⟨.ready (seekTo (curPos + offset)), f.finishSeek (seekTo (curPos + offset)), []⟩ := by
  rw [pollComplete, unpolled]
  simp only [pollSeek, finishSeek]
  cases seekTo (curPos + offset) with
  | error e => rfl
  | ok pos => rfl

theorem pollComplete_end_pending {offset curPos : Int64}
    (unpolled : f.state.fSeek = some (.unpolled (.end offset) curPos)) :
    f.pollComplete .pending =
      ⟨.pending, { f with state.fSeek := some (.fstat offset) }, [.fstat f.handle]⟩ := by
  rw [pollComplete, unpolled]
  rfl

theorem pollComplete_fstat_pending {offset : Int64}
    (awaited : f.state.fSeek = some (.fstat offset)) :
    f.pollComplete .pending = ⟨.pending, f, []⟩ := by
  have same : { f with state.fSeek := some (.fstat offset) } = f := by rw [← awaited]
  rw [pollComplete, awaited]
  exact congrArg (fun f => (⟨.pending, f, []⟩ : Polled UInt64)) same

/-- The reply to `fstat` ends a seek from the end. -/
theorem pollComplete_size {future : SeekFuture} {offset : Int64} {new : Bool}
    (present : f.state.fSeek = some future)
    (asks : ∀ turn, f.pollSeek future turn = f.pollFstat offset new turn)
    (result : SftpResult Packet) :
    f.pollComplete (.ready result) =
      let there := seekFromEnd offset (result.bind (intoWithStatus attrs?))
      ⟨.ready there, f.finishSeek there, if new then [.fstat f.handle] else []⟩ := by
  have polled : f.pollFstat offset new (.ready result) =
      (.ready (seekFromEnd offset (result.bind (intoWithStatus attrs?))), .completed,
        if new then [.fstat f.handle] else []) := by
    cases new <;> rfl
  rw [pollComplete, present]
  simp only [asks, polled, finishSeek]
  cases seekFromEnd offset (result.bind (intoWithStatus attrs?)) with
  | error e => rfl
  | ok pos => rfl

end

/-! ### What each poll changes

A poll changes its own slot, and those of `poll_read`, `poll_write` and `poll_complete` the
cursor. -/

theorem pollRead_changes (f : File) (buf : ReadBuf) (turn : Turn) :
    ∃ slot pos, (f.pollRead buf turn).1.file = { f with state.fRead := slot, pos } := by
  unfold pollRead
  dsimp only
  split
  · exact ⟨_, f.pos, rfl⟩
  · split
    · exact ⟨none, f.pos, rfl⟩
    · exact ⟨none, f.pos, rfl⟩
    · split <;> exact ⟨none, _, rfl⟩

theorem pollWrite_changes (f : File) (buf : Bytes) (turn : Turn) :
    ∃ slot pos, (f.pollWrite buf turn).file = { f with state.fWrite := slot, pos } := by
  unfold pollWrite
  dsimp only
  split
  · exact ⟨_, f.pos, rfl⟩
  · split
    · exact ⟨none, f.pos, rfl⟩
    · exact ⟨none, _, rfl⟩

theorem startSeek_changes (f : File) (position : SeekFrom) :
    ∃ slot, (f.startSeek position).2 = { f with state.fSeek := slot } := by
  unfold startSeek
  split
  · exact ⟨f.state.fSeek, rfl⟩
  · exact ⟨_, rfl⟩

theorem pollComplete_changes (f : File) (turn : Turn) :
    ∃ slot pos, (f.pollComplete turn).file = { f with state.fSeek := slot, pos } := by
  unfold pollComplete
  split
  · exact ⟨f.state.fSeek, f.pos, rfl⟩
  · split
    · exact ⟨_, f.pos, rfl⟩
    · exact ⟨_, f.pos, rfl⟩
    · exact ⟨_, f.pos, rfl⟩
    · exact ⟨none, _, rfl⟩

theorem pollFlush_changes (f : File) (turn : Turn) :
    ∃ slot, (f.pollFlush turn).file = { f with state.fFlush := slot } := by
  unfold pollFlush
  split
  · split <;> exact ⟨_, rfl⟩
  · exact ⟨f.state.fFlush, rfl⟩

theorem pollShutdown_changes (f : File) (turn : Turn) :
    ∃ slot closed, (f.pollShutdown turn).file = { f with state.fShutdown := slot, closed } := by
  unfold pollShutdown
  split
  · exact ⟨_, f.closed, rfl⟩
  · exact ⟨_, true, rfl⟩

/-! ### What each poll sends

A poll sends one request where it makes a call and the session does not refuse it. -/

theorem pollRead_sent (f : File) (buf : ReadBuf) (turn : Turn) :
    (f.pollRead buf turn).1.sent =
      if f.state.fRead.isNone && !turn.refuses then [f.readRequest buf] else [] := by
  rw [pollRead_eq]
  cases turn.answer <;> rfl

theorem pollWrite_sent (f : File) (buf : Bytes) (turn : Turn) :
    (f.pollWrite buf turn).sent =
      if f.state.fWrite.isNone && !turn.refuses then [f.writeRequest buf] else [] := by
  rw [pollWrite_eq]
  cases turn.answer <;> rfl

theorem pollFstat_sent (f : File) (pos : Int64) (new : Bool) (turn : Turn) :
    (f.pollFstat pos new turn).2.2 = if new && !turn.refuses then [.fstat f.handle] else [] := by
  have unlimited : (Request.fstat f.handle).operation.limited f.limits 0 = none := rfl
  rw [← callSession_sent unlimited, pollFstat]
  split <;> simp [*]

/-- The seek has yet to ask for the size of the file. -/
def asksSize : SeekFuture → Bool
  | .unpolled (.end _) _ => true
  | _ => false

theorem pollSeek_sent (f : File) (future : SeekFuture) (turn : Turn) :
    (f.pollSeek future turn).2.2 =
      if asksSize future && !turn.refuses then [.fstat f.handle] else [] := by
  cases future with
  | unpolled position curPos =>
      cases position with
      | start pos => rfl
      | current pos => rfl
      | «end» pos => exact f.pollFstat_sent pos true turn
  | fstat pos => exact f.pollFstat_sent pos false turn
  | completed => rfl

theorem pollComplete_sent (f : File) (turn : Turn) :
    (f.pollComplete turn).sent =
      if f.state.fSeek.any asksSize && !turn.refuses then [.fstat f.handle] else [] := by
  unfold pollComplete
  cases slot : f.state.fSeek with
  | none => rfl
  | some future =>
      rw [Option.any_some, ← pollSeek_sent]
      dsimp only
      split <;> simp [*]

theorem pollFlush_sent (f : File) (turn : Turn) :
    (f.pollFlush turn).sent =
      if f.extensions.fsync && f.state.fFlush.isNone && !turn.refuses then
        [fsyncRequest f.handle] else [] := by
  unfold pollFlush
  cases f.extensions.fsync with
  | false => rfl
  | true =>
      rw [Bool.true_and, ← callFsync_sent f.limits, if_pos rfl]
      split <;> simp [*]

theorem pollShutdown_sent (f : File) (turn : Turn) :
    (f.pollShutdown turn).sent =
      if f.state.fShutdown.isNone && !turn.refuses then [.close f.handle] else [] := by
  have unlimited : (Request.close f.handle).operation.limited f.limits 0 = none := rfl
  rw [← callSession_sent unlimited, pollShutdown]
  split <;> simp [*]

theorem metadata_sent (f : File) (new : Bool) (turn : Turn) :
    (f.metadata new turn).2 = if new && !turn.refuses then [.fstat f.handle] else [] := by
  have unlimited : (Request.fstat f.handle).operation.limited f.limits 0 = none := rfl
  exact callSession_sent unlimited new turn

theorem setMetadata_sent (f : File) (metadata : FileAttributes) (new : Bool) (turn : Turn) :
    (f.setMetadata metadata new turn).2 =
      if new && !turn.refuses then [.fsetstat f.handle metadata] else [] := by
  have unlimited : (Request.fsetstat f.handle metadata).operation.limited f.limits 0 = none := rfl
  exact callSession_sent unlimited new turn

theorem syncAll_sent (f : File) (new : Bool) (turn : Turn) :
    (f.syncAll new turn).2 =
      if f.extensions.fsync && new && !turn.refuses then [fsyncRequest f.handle] else [] := by
  unfold syncAll
  cases f.extensions.fsync with
  | false => rfl
  | true => exact callFsync_sent f.limits f.handle new turn

end File

end RusshSftp.Client
